import Mathlib.Data.List.TakeWhile

/-! Strings in buffers. A cell of memory has a value, or none that may be looked at if
nothing was stored there. Printing a string goes from cell to cell up to the first
terminator; where it meets a cell without a value or the end of the buffer before, what is
printed is left open. In a buffer that was not cleared the cells behind a block hold what they
held before. -/

namespace BaseCom.Memory

variable {β : Type*}

/-- Store a block at the start of a buffer. -/
def fill (buf : List (Option β)) (block : List β) : List (Option β) :=
  block.map some ++ buf.drop block.length

variable [DecidableEq β]

/-- The string at the start of a buffer, if it ends in it. -/
def cstring (nul : β) : List (Option β) → Option (List β)
  | [] => none
  | none :: _ => none
  | some b :: rest => if b = nul then some [] else (cstring nul rest).map fun bs => b :: bs

variable {nul : β} {block : List β}

/-- Printing goes past cells that are no terminators. -/
theorem cstring_append (h : nul ∉ block) (rest : List (Option β)) :
    cstring nul (block.map some ++ rest) = (cstring nul rest).map fun bs => block ++ bs := by
  induction block with
  | nil => simp
  | cons b bs ih =>
    simp only [List.mem_cons, not_or] at h
    simp only [List.map_cons, List.cons_append, cstring, if_neg (Ne.symm h.1), ih h.2,
      Option.map_map]
    rfl

/-- A block with a terminator in it is printed up to there, whatever is behind it. -/
theorem cstring_fill_of_mem (h : nul ∈ block) (buf : List (Option β)) :
    cstring nul (fill buf block) = some (block.takeWhile fun b => b ≠ nul) := by
  obtain ⟨pre, post, rfl, hpre⟩ := List.eq_append_cons_of_mem h
  have hall : ∀ b ∈ pre, decide (b ≠ nul) = true := by
    intro b hb
    rw [decide_eq_true_eq]
    exact fun he => hpre (he ▸ hb)
  rw [fill, List.map_append, List.append_assoc, cstring_append hpre,
    List.takeWhile_append_of_pos hall, List.takeWhile_cons_of_neg (by simp)]
  simp [cstring]

/-- A string is without terminator. -/
theorem nul_notMem_of_cstring {buf : List (Option β)} {text : List β}
    (h : cstring nul buf = some text) : nul ∉ text := by
  induction buf generalizing text with
  | nil => cases h
  | cons cell rest ih =>
    cases cell with
    | none => cases h
    | some b =>
      simp only [cstring] at h
      split_ifs at h with hb
      · cases h
        exact List.not_mem_nil
      · obtain ⟨bs, hbs, rfl⟩ := Option.map_eq_some_iff.mp h
        rw [List.mem_cons, not_or]
        exact ⟨Ne.symm hb, ih hbs⟩

/-- Behind one without, printing goes on with what the buffer held before: any text may follow,
however long the buffer is. -/
theorem exists_cstring_fill_iff (h : nul ∉ block) (n : ℕ) {text : List β} :
    (∃ memory : List β, n ≤ memory.length ∧
      cstring nul (fill (memory.map some) block) = some text) ↔
      ∃ more, nul ∉ more ∧ text = block ++ more := by
  constructor
  · rintro ⟨memory, -, hm⟩
    rw [fill, cstring_append h] at hm
    obtain ⟨more, hmore, rfl⟩ := Option.map_eq_some_iff.mp hm
    exact ⟨more, nul_notMem_of_cstring hmore, rfl⟩
  · rintro ⟨more, hmore, rfl⟩
    refine ⟨block ++ (more ++ nul :: List.replicate n nul), ?_, ?_⟩
    · simp only [List.length_append, List.length_cons, List.length_replicate]
      omega
    · rw [fill, List.map_append, List.drop_left' (List.length_map _), List.map_append,
        cstring_append h, cstring_append hmore]
      simp [cstring]

/-- In a cleared buffer one without is printed whole, unless it fills the buffer. -/
theorem cstring_fill_cleared (h : nul ∉ block) (n : ℕ) :
    cstring nul (fill (List.replicate n (some nul)) block) =
      if block.length < n then some block else none := by
  rw [fill, cstring_append h, List.drop_replicate]
  split_ifs with hlt
  · obtain ⟨m, hm⟩ : ∃ m, n - block.length = m + 1 := ⟨n - block.length - 1, by omega⟩
    rw [hm, List.replicate_succ]
    simp [cstring]
  · rw [Nat.sub_eq_zero_of_le (by omega)]
    rfl

/-- What is printed of a block that was stored is the front of it. -/
theorem prefix_of_cstring_fill {n : ℕ} {text : List β}
    (h : cstring nul (fill (List.replicate n (some nul)) block) = some text) :
    text <+: block ∧ (text = block → nul ∉ block ∧ block.length < n) := by
  by_cases hmem : nul ∈ block
  · rw [cstring_fill_of_mem hmem, Option.some.injEq] at h
    subst h
    refine ⟨List.takeWhile_prefix _, fun he => ?_⟩
    have hne := List.takeWhile_eq_self_iff.mp he nul hmem
    simp at hne
  · rw [cstring_fill_cleared hmem] at h
    split_ifs at h with hlt
    cases h
    exact ⟨List.prefix_refl _, fun _ => ⟨hmem, hlt⟩⟩

end BaseCom.Memory
