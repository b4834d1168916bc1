import Mathlib.Data.List.Basic

/-! Symbol-at-a-time transducers, and handlers that are given their input in
chunks, which may fail. A handler whose every admissible delivery does what the
transducer does on the symbols of the chunk does, over any admissible sequence of
deliveries, what the transducer does on the whole stream; where it was cut is lost.
The transducer of length-limited lines is the instance used for line servers. -/

namespace BaseCom.Streaming

variable {σ β γ κ : Type*}

/-- A state, changed by one input symbol at a time, with output. -/
structure Transducer (σ β γ : Type*) where
  step : σ → β → σ × List γ

namespace Transducer

variable (T : Transducer σ β γ)

/-- The final state and the whole output. -/
def run : σ → List β → σ × List γ
  | s, [] => (s, [])
  | s, b :: bs => ((run (T.step s b).1 bs).1, (T.step s b).2 ++ (run (T.step s b).1 bs).2)

@[simp] theorem run_nil (s : σ) : T.run s [] = (s, []) := rfl

theorem run_cons (s : σ) (b : β) (bs : List β) :
    T.run s (b :: bs) =
      ((T.run (T.step s b).1 bs).1, (T.step s b).2 ++ (T.run (T.step s b).1 bs).2) := rfl

theorem run_append (s : σ) (xs ys : List β) :
    T.run s (xs ++ ys) =
      ((T.run (T.run s xs).1 ys).1, (T.run s xs).2 ++ (T.run (T.run s xs).1 ys).2) := by
  induction xs generalizing s with
  | nil => simp
  | cons x xs ih => simp only [List.cons_append, run_cons, ih, List.append_assoc]

theorem run_invariant (Inv : σ → Prop) (hstep : ∀ s b, Inv s → Inv (T.step s b).1) {s : σ}
    (hs : Inv s) (bs : List β) : Inv (T.run s bs).1 := by
  induction bs generalizing s with
  | nil => exact hs
  | cons b bs ih => exact ih (hstep s b hs)

end Transducer

/-! ### Deliveries -/

/-- Each chunk is one the handler may be given in the state it then has, for as long
as it has not failed. -/
def Admissible (deliver : κ → List β → Option κ) (ok : κ → List β → Prop) :
    κ → List (List β) → Prop
  | _, [] => True
  | k, c :: cs => ok k c ∧ ∀ k' ∈ deliver k c, Admissible deliver ok k' cs

/-- An admissible delivery does not fail, and the handler's view, a transducer state
and the output so far, is advanced by it as the transducer advances it on the chunk. -/
def Implements (T : Transducer σ β γ) (deliver : κ → List β → Option κ) (ok : κ → List β → Prop)
    (Inv : κ → Prop) (view : κ → σ × List γ) : Prop :=
  ∀ k c, Inv k → ok k c → ∃ k', deliver k c = some k' ∧ Inv k' ∧
    view k' = ((T.run (view k).1 c).1, (view k).2 ++ (T.run (view k).1 c).2)

/-- An implementation runs the transducer on the concatenation of what it was given. -/
theorem Implements.foldlM {T : Transducer σ β γ} {deliver : κ → List β → Option κ}
    {ok : κ → List β → Prop} {Inv : κ → Prop} {view : κ → σ × List γ}
    (h : Implements T deliver ok Inv view) {k : κ} {cs : List (List β)} (hk : Inv k)
    (hcs : Admissible deliver ok k cs) :
    ∃ k', cs.foldlM deliver k = some k' ∧ Inv k' ∧ view k' =
      ((T.run (view k).1 cs.flatten).1, (view k).2 ++ (T.run (view k).1 cs.flatten).2) := by
  induction cs generalizing k with
  | nil => exact ⟨k, rfl, hk, by simp⟩
  | cons c cs ih =>
    obtain ⟨hc, hcs⟩ := hcs
    obtain ⟨k₁, hd, hi, hv⟩ := h k c hk hc
    obtain ⟨k₂, hf, hi', hv'⟩ := ih hi (hcs k₁ hd)
    refine ⟨k₂, ?_, hi', ?_⟩
    · rw [List.foldlM_cons, hd]
      exact hf
    · rw [hv', hv, List.flatten_cons, T.run_append]
      simp only [List.append_assoc]

/-! ### Lines of limited length -/

section Lines

variable [DecidableEq β]

/-- Collect a pending line. The terminator ends it, and so does reaching the
limit; the line is then written out with `f` applied to each symbol. -/
def lineFramer (nl : β) (limit : ℕ) (f : β → β) : Transducer (List β) β β where
  step p b :=
    if b = nl then ([], p.map f ++ [nl])
    else if (p ++ [b]).length = limit then ([], (p ++ [b]).map f ++ [nl])
    else (p ++ [b], [])

variable {nl : β} {limit : ℕ} {f : β → β}

theorem lineFramer_step_nl (p : List β) :
    (lineFramer nl limit f).step p nl = ([], p.map f ++ [nl]) := by simp [lineFramer]

theorem lineFramer_step_short {p : List β} {b : β} (hb : b ≠ nl) (hp : p.length + 1 < limit) :
    (lineFramer nl limit f).step p b = (p ++ [b], []) := by
  have hne : (p ++ [b]).length ≠ limit := by simp; omega
  simp only [lineFramer, if_neg hb, if_neg hne]

theorem lineFramer_step_full {p : List β} {b : β} (hb : b ≠ nl) (hp : p.length + 1 = limit) :
    (lineFramer nl limit f).step p b = ([], (p ++ [b]).map f ++ [nl]) := by
  have he : (p ++ [b]).length = limit := by simpa using hp
  simp only [lineFramer, if_neg hb, if_pos he]

/-- Symbols that neither end the line nor fill it extend the pending line. -/
theorem lineFramer_short (p q : List β) (hq : nl ∉ q) (hlen : p.length + q.length < limit) :
    (lineFramer nl limit f).run p q = (p ++ q, []) := by
  induction q generalizing p with
  | nil => simp
  | cons b q ih =>
    simp only [List.mem_cons, not_or] at hq
    rw [List.length_cons] at hlen
    rw [Transducer.run_cons, lineFramer_step_short (Ne.symm hq.1) (by omega),
      ih (p ++ [b]) hq.2 (by simp; omega)]
    simp

/-- A terminator after such symbols ends the line they belong to. -/
theorem lineFramer_line (p q r : List β) (hq : nl ∉ q) (hlen : p.length + q.length < limit) :
    (lineFramer nl limit f).run p (q ++ nl :: r) =
      (((lineFramer nl limit f).run [] r).1,
        (p ++ q).map f ++ [nl] ++ ((lineFramer nl limit f).run [] r).2) := by
  rw [Transducer.run_append, lineFramer_short p q hq hlen, Transducer.run_cons,
    lineFramer_step_nl]
  simp

/-- Symbols that exactly fill the line end it. -/
theorem lineFramer_full (p q : List β) (hq : nl ∉ q) (hne : q ≠ [])
    (hlen : p.length + q.length = limit) :
    (lineFramer nl limit f).run p q = ([], (p ++ q).map f ++ [nl]) := by
  obtain ⟨q, b, rfl⟩ := List.eq_nil_or_concat q |>.resolve_left hne
  rw [List.concat_eq_append] at hq hlen ⊢
  simp only [List.mem_append, List.mem_singleton, not_or] at hq
  rw [List.length_append, List.length_singleton] at hlen
  rw [Transducer.run_append, lineFramer_short p q hq.1 (by omega), Transducer.run_cons,
    lineFramer_step_full (Ne.symm hq.2) (by rw [List.length_append]; omega)]
  simp

/-- The pending line grows by at most the symbols taken. -/
theorem lineFramer_length (p q : List β) :
    ((lineFramer nl limit f).run p q).1.length ≤ p.length + q.length := by
  induction q generalizing p with
  | nil => simp
  | cons b q ih =>
    have hstep : ((lineFramer nl limit f).step p b).1.length ≤ p.length + 1 := by
      simp only [lineFramer]
      split_ifs <;> simp
    have hrest := ih ((lineFramer nl limit f).step p b).1
    simp only [Transducer.run_cons, List.length_cons]
    omega

/-- The pending line never holds the terminator and stays below the limit. -/
theorem lineFramer_pending (hlim : 0 < limit) {p : List β} (hp : nl ∉ p ∧ p.length < limit)
    (q : List β) :
    nl ∉ ((lineFramer nl limit f).run p q).1 ∧
      ((lineFramer nl limit f).run p q).1.length < limit := by
  refine Transducer.run_invariant _ (fun p : List β => nl ∉ p ∧ p.length < limit) ?_ hp q
  rintro p b ⟨hn, hlen⟩
  by_cases hb : b = nl
  · subst hb
    simpa [lineFramer_step_nl] using hlim
  · rcases Nat.lt_or_ge (p.length + 1) limit with h | h
    · rw [lineFramer_step_short hb h]
      exact ⟨by simp [hn, Ne.symm hb], by simpa using h⟩
    · rw [lineFramer_step_full hb (by omega)]
      exact ⟨by simp, hlim⟩

/-- Beyond the symbols taken, one comes out for each line that was ended for its length, and
each of those took as many symbols as the limit. -/
theorem lineFramer_growth (p q : List β) (hp : p.length < limit) :
    ∃ full, ((lineFramer nl limit f).run p q).2.length +
        ((lineFramer nl limit f).run p q).1.length = p.length + q.length + full ∧
      limit * full + ((lineFramer nl limit f).run p q).1.length ≤ p.length + q.length := by
  induction q generalizing p with
  | nil => exact ⟨0, by simp, by simp⟩
  | cons b q ih =>
    rw [Transducer.run_cons]
    have hlim : 0 < limit := Nat.zero_lt_of_lt hp
    by_cases hb : b = nl
    · subst hb
      obtain ⟨full, hlen, hle⟩ := ih [] hlim
      rw [lineFramer_step_nl]
      refine ⟨full, ?_, ?_⟩
      · simp only [List.length_append, List.length_map, List.length_cons, List.length_nil] at hlen ⊢
        omega
      · simp only [List.length_cons, List.length_nil] at hle ⊢
        omega
    · rcases Nat.lt_or_ge (p.length + 1) limit with h | h
      · obtain ⟨full, hlen, hle⟩ := ih (p ++ [b]) (by simpa using h)
        rw [lineFramer_step_short hb h]
        refine ⟨full, ?_, ?_⟩
        · simp only [List.length_append, List.length_cons, List.length_nil] at hlen ⊢
          omega
        · simp only [List.length_append, List.length_cons, List.length_nil] at hle ⊢
          omega
      · -- the line is as long as it may be
        obtain ⟨full, hlen, hle⟩ := ih [] hlim
        rw [lineFramer_step_full hb (by omega)]
        refine ⟨full + 1, ?_, ?_⟩
        · simp only [List.length_append, List.length_map, List.length_cons, List.length_nil]
            at hlen ⊢
          omega
        · simp only [List.length_cons, List.length_nil, Nat.mul_succ] at hle ⊢
          omega

end Lines

end BaseCom.Streaming
