import BaseCom.Streaming.Transducer

/-! A line framer whose map is an involution, run on its own output. Short lines come back
as they were. A line that reaches the limit is broken with a terminator of its own, and
since no output is shorter than its input, the broken stream never comes back. -/

namespace BaseCom.Streaming

variable {β : Type*} {nl : β}

/-- Nothing is pending at the end of the stream. -/
def Terminated (nl : β) (s : List β) : Prop := s = [] ∨ s.getLast? = some nl

instance [DecidableEq β] (nl : β) (s : List β) : Decidable (Terminated nl s) :=
  inferInstanceAs (Decidable (_ ∨ _))

theorem terminated_append_cons {line rest : List β} :
    Terminated nl (line ++ nl :: rest) ↔ Terminated nl rest := by
  cases rest with
  | nil => simp [Terminated]
  | cons b bs => simp [Terminated, List.getLast?_append, List.getLast?_cons_cons]

/-- A terminated stream is empty, or a line and a terminated stream. -/
theorem Terminated.cases {s : List β} (hs : Terminated nl s) :
    s = [] ∨ ∃ line rest, s = line ++ nl :: rest ∧ nl ∉ line ∧ Terminated nl rest := by
  rcases hs with rfl | hlast
  · exact .inl rfl
  · obtain ⟨line, rest, rfl, hline⟩ := List.eq_append_cons_of_mem (List.mem_of_getLast? hlast)
    exact .inr ⟨line, rest, rfl, hline, terminated_append_cons.mp (.inr hlast)⟩

variable [DecidableEq β]

theorem splitOn_append_cons {line : List β} (hline : nl ∉ line) (rest : List β) :
    (line ++ nl :: rest).splitOn nl = line :: rest.splitOn nl := by
  apply List.splitOnP_append_cons_of_forall_mem
  · intro b hb
    simpa using fun he : b = nl => hline (he ▸ hb)
  · simp

/-! ### Nothing is lost -/

variable (limit : ℕ) (f : β → β)

/-- Every symbol taken is in the output or pending. -/
theorem lineFramer_length_le (nl : β) (p q : List β) :
    p.length + q.length ≤
      ((lineFramer nl limit f).run p q).2.length + ((lineFramer nl limit f).run p q).1.length := by
  induction q generalizing p with
  | nil => simp
  | cons b q ih =>
    have hstep : p.length + 1 ≤ ((lineFramer nl limit f).step p b).2.length +
        ((lineFramer nl limit f).step p b).1.length := by
      simp only [lineFramer]
      split_ifs <;> simp
    have hrest := ih ((lineFramer nl limit f).step p b).1
    simp only [Transducer.run_cons, List.length_cons, List.length_append]
    omega

/-- After a terminated stream nothing is pending, and the output is terminated. -/
theorem lineFramer_terminated {s : List β} (hs : Terminated nl s) :
    ((lineFramer nl limit f).run [] s).1 = [] ∧
      Terminated nl ((lineFramer nl limit f).run [] s).2 := by
  rcases hs with rfl | hlast
  · exact ⟨rfl, .inl rfl⟩
  · obtain ⟨pre, rfl⟩ := List.getLast?_eq_some_iff.mp hlast
    rw [Transducer.run_append, Transducer.run_cons, lineFramer_step_nl]
    exact ⟨rfl, .inr (by simp)⟩

theorem length_le_of_terminated {s : List β} (hs : Terminated nl s) :
    s.length ≤ ((lineFramer nl limit f).run [] s).2.length := by
  have hle := lineFramer_length_le limit f nl [] s
  rw [(lineFramer_terminated limit f hs).1] at hle
  simpa using hle

/-- A line that reaches the limit makes the output longer. -/
theorem length_lt_of_long {line rest : List β} (hlim : 0 < limit) (hline : nl ∉ line)
    (hlong : limit ≤ line.length) (hs : Terminated nl (line ++ nl :: rest)) :
    (line ++ nl :: rest).length <
      ((lineFramer nl limit f).run [] (line ++ nl :: rest)).2.length := by
  have hhead : nl ∉ line.take limit := fun hm => hline (List.mem_of_mem_take hm)
  have hlen : (line.take limit).length = limit := by rw [List.length_take]; omega
  have hne : line.take limit ≠ [] := List.ne_nil_of_length_pos (by omega)
  have hfull := lineFramer_full (f := f) [] _ hhead hne ((Nat.zero_add _).trans hlen)
  have htail : Terminated nl (line.drop limit ++ nl :: rest) :=
    terminated_append_cons.mpr (terminated_append_cons.mp hs)
  have hle := length_le_of_terminated limit f htail
  have hcut : line ++ nl :: rest = line.take limit ++ (line.drop limit ++ nl :: rest) := by
    rw [← List.append_assoc, List.take_append_drop]
  rw [hcut, Transducer.run_append, hfull]
  simp only [List.nil_append, List.length_append, List.length_map, List.length_singleton]
    at hle ⊢
  omega

/-! ### Twice -/

variable {limit f}

/-- Fed its own output, the framer gives a terminated stream back exactly if every line of
it is shorter than the limit. -/
theorem lineFramer_twice_iff (hlim : 0 < limit) (hf : ∀ b, f (f b) = b)
    (hnl : ∀ b, f b = nl → b = nl) {s : List β} (hs : Terminated nl s) :
    ((lineFramer nl limit f).run [] ((lineFramer nl limit f).run [] s).2).2 = s ↔
      ∀ line ∈ s.splitOn nl, line.length < limit := by
  induction hn : s.length using Nat.strongRecOn generalizing s with
  | ind n ih =>
    rcases hs.cases with rfl | ⟨line, rest, rfl, hline, hrest⟩
    · simpa using hlim
    · rw [splitOn_append_cons hline, List.forall_mem_cons]
      rcases Nat.lt_or_ge line.length limit with hlt | hge
      · have hmap : nl ∉ line.map f := by
          intro hm
          obtain ⟨b, hb, he⟩ := List.mem_map.mp hm
          exact hline (hnl b he ▸ hb)
        have hback : (line.map f).map f = line := by simp [Function.comp_def, hf]
        rw [lineFramer_line [] line rest hline (by simpa using hlt), List.nil_append,
          List.append_assoc, List.singleton_append,
          lineFramer_line [] (line.map f) _ hmap (by simpa using hlt), List.nil_append, hback,
          and_iff_right hlt, List.append_assoc, List.singleton_append, List.append_cancel_left_eq,
          List.cons.injEq, and_iff_right rfl]
        refine ih rest.length ?_ hrest rfl
        rw [← hn, List.length_append, List.length_cons]
        omega
      · refine iff_of_false (fun heq => ?_) fun hall => Nat.not_lt.mpr hge hall.1
        have hlt := length_lt_of_long limit f hlim hline hge hs
        have hle := length_le_of_terminated limit f (lineFramer_terminated limit f hs).2
        rw [heq] at hle
        omega

end BaseCom.Streaming
