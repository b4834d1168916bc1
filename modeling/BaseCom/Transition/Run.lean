import Mathlib.Data.List.Basic

/-! Finite runs of labelled transition systems. A label names who moves and how
the environment answers, so a step is a partial function of state and label. A
run keeps every state it leaves together with the label it takes there; guards
and step properties are predicates on these pairs. The rules below turn a fact
about one step into a fact about every run. -/

namespace BaseCom.Transition

/-- Initial states, and the state each label leads to where it is enabled. -/
structure Lts (σ α : Type*) where
  init : σ → Prop
  step : σ → α → Option σ

variable {σ α : Type*} {S : Lts σ α}

/-- A run from a state to a state, with the states left and the labels taken. -/
inductive Run (S : Lts σ α) : σ → List (σ × α) → σ → Prop
  | refl (s : σ) : Run S s [] s
  | tail {s t u : σ} {tr : List (σ × α)} {a : α} :
      Run S s tr t → S.step t a = some u → Run S s (tr ++ [(t, a)]) u

/-- Some run leads from an initial state to `s`. -/
def Reachable (S : Lts σ α) (s : σ) : Prop := ∃ s₀ tr, S.init s₀ ∧ Run S s₀ tr s

/-- Every step of the trace satisfies `P`. -/
def Always (P : σ → α → Prop) (tr : List (σ × α)) : Prop := ∀ p ∈ tr, P p.1 p.2

theorem always_nil (P : σ → α → Prop) : Always P [] := by simp [Always]

theorem always_tail {P : σ → α → Prop} {tr : List (σ × α)} {s : σ} {a : α} :
    Always P (tr ++ [(s, a)]) ↔ Always P tr ∧ P s a := by
  simp only [Always, List.mem_append, List.mem_singleton]
  constructor
  · exact fun h => ⟨fun p hp => h p (.inl hp), h (s, a) (.inr rfl)⟩
  · rintro ⟨h, hs⟩ p (hp | rfl)
    · exact h p hp
    · exact hs

theorem Run.trans {s t u : σ} {tr ts : List (σ × α)} (h : Run S s tr t) (k : Run S t ts u) :
    Run S s (tr ++ ts) u := by
  induction k with
  | refl => simpa using h
  | tail _ hstep ih => simpa only [List.append_assoc] using Run.tail ih hstep

theorem Run.single {s t : σ} {a : α} (h : S.step s a = some t) : Run S s [(s, a)] t :=
  Run.tail (.refl s) h

theorem Reachable.of_init {s : σ} (h : S.init s) : Reachable S s := ⟨s, [], h, .refl s⟩

theorem Reachable.trans {s t : σ} {tr : List (σ × α)} (h : Reachable S s) (k : Run S s tr t) :
    Reachable S t := by
  obtain ⟨s₀, ts, hi, hr⟩ := h
  exact ⟨s₀, ts ++ tr, hi, hr.trans k⟩

/-! ### Invariants -/

/-- What every step keeps, every run keeps. -/
theorem Run.invariant {Inv : σ → Prop}
    (hstep : ∀ s a t, Inv s → S.step s a = some t → Inv t)
    {s t : σ} {tr : List (σ × α)} (h : Run S s tr t) (hs : Inv s) : Inv t := by
  induction h with
  | refl => exact hs
  | tail _ hk ih => exact hstep _ _ _ ih hk

theorem Reachable.invariant {Inv : σ → Prop} (hinit : ∀ s, S.init s → Inv s)
    (hstep : ∀ s a t, Inv s → S.step s a = some t → Inv t)
    {s : σ} (h : Reachable S s) : Inv s := by
  obtain ⟨s₀, tr, hi, hr⟩ := h
  exact hr.invariant hstep (hinit _ hi)

/-- What every step meeting the guard keeps holds all along a run of such steps. -/
theorem Run.along_of_always {Inv : σ → Prop} {G : σ → α → Prop}
    (hstep : ∀ s a t, Inv s → G s a → S.step s a = some t → Inv t)
    {s t : σ} {tr : List (σ × α)} (h : Run S s tr t) (hs : Inv s) (hG : Always G tr) :
    Always (fun u _ => Inv u) tr ∧ Inv t := by
  induction h with
  | refl => exact ⟨always_nil _, hs⟩
  | tail _ hk ih =>
    obtain ⟨hG, ha⟩ := always_tail.mp hG
    obtain ⟨halong, ht⟩ := ih hG
    exact ⟨always_tail.mpr ⟨halong, ht⟩, hstep _ _ _ ht ha hk⟩

/-- A property that a step keeps exactly if it is guarded, and never restores,
tells at the end of a run whether every step was guarded. -/
theorem Run.always_iff {Good : σ → Prop} {G : σ → α → Prop}
    (hstep : ∀ s a t, S.step s a = some t → (Good t ↔ Good s ∧ G s a))
    {s t : σ} {tr : List (σ × α)} (h : Run S s tr t) : Good t ↔ Good s ∧ Always G tr := by
  induction h with
  | refl => exact ⟨fun hs => ⟨hs, always_nil G⟩, And.left⟩
  | tail _ hk ih => rw [hstep _ _ _ hk, ih, always_tail, and_assoc]

/-- A property that, under an invariant, a step keeps exactly if it is guarded holds
all along a run exactly if every step is guarded. -/
theorem Run.along_iff {Inv Good : σ → Prop} {G : σ → α → Prop}
    (hinv : ∀ s a t, Inv s → S.step s a = some t → Inv t)
    (hstep : ∀ s a t, Inv s → Good s → S.step s a = some t → (Good t ↔ G s a))
    {s t : σ} {tr : List (σ × α)} (h : Run S s tr t) (hi : Inv s) (hs : Good s) :
    Always (fun u _ => Good u) tr ∧ Good t ↔ Always G tr := by
  induction h with
  | refl => exact iff_of_true ⟨always_nil _, hs⟩ (always_nil G)
  | tail hr hk ih =>
    have ht := hr.invariant hinv hi
    rw [always_tail, always_tail, ← ih]
    constructor
    · exact fun ⟨hg, hu⟩ => ⟨hg, (hstep _ _ _ ht hg.2 hk).mp hu⟩
    · exact fun ⟨hg, ha⟩ => ⟨hg, (hstep _ _ _ ht hg.2 hk).mpr ha⟩

/-- Guard and step property, compared over whole runs. From a sound state a
guarded step is correct and leads to a sound state; an unguarded step is
incorrect at once or leaves a debt, and a debt stays until an incorrect step. -/
theorem Run.guarded_or_owing {Sound Owing : σ → Prop} {G P : σ → α → Prop}
    (hguard : ∀ s a t, Sound s → G s a → S.step s a = some t → P s a ∧ Sound t)
    (hbreak : ∀ s a t, Sound s → ¬ G s a → S.step s a = some t → ¬ P s a ∨ Owing t)
    (howe : ∀ s a t, Owing s → S.step s a = some t → ¬ P s a ∨ Owing t)
    {s t : σ} {tr : List (σ × α)} (h : Run S s tr t) (hs : Sound s) :
    (Always G tr ∧ Always P tr ∧ Sound t) ∨ (¬ Always G tr ∧ (¬ Always P tr ∨ Owing t)) := by
  induction h with
  | refl => exact .inl ⟨always_nil G, always_nil P, hs⟩
  | @tail t u tr a _ hk ih =>
    simp only [always_tail]
    rcases ih with ⟨hG, hP, ht⟩ | ⟨hG, hP⟩
    · by_cases ha : G t a
      · have hu := hguard _ _ _ ht ha hk
        exact .inl ⟨⟨hG, ha⟩, ⟨hP, hu.1⟩, hu.2⟩
      · rcases hbreak _ _ _ ht ha hk with hu | hu
        · exact .inr ⟨fun hh => ha hh.2, .inl fun hh => hu hh.2⟩
        · exact .inr ⟨fun hh => ha hh.2, .inr hu⟩
    · refine .inr ⟨fun hh => hG hh.1, ?_⟩
      rcases hP with hP | ht
      · exact .inl fun hh => hP hh.1
      · rcases howe _ _ _ ht hk with hu | hu
        · exact .inl fun hh => hu hh.2
        · exact .inr hu

/-- A step property that, under an invariant guarded steps keep, comes to the guard. -/
theorem Run.always_congr {Inv : σ → Prop} {G P : σ → α → Prop}
    (hstep : ∀ s a t, Inv s → S.step s a = some t → (P s a ↔ G s a))
    (hinv : ∀ s a t, Inv s → G s a → S.step s a = some t → Inv t)
    {s t : σ} {tr : List (σ × α)} (h : Run S s tr t) (hs : Inv s) : Always P tr ↔ Always G tr := by
  have hguard : ∀ s a t, Inv s → G s a → S.step s a = some t → P s a ∧ Inv t :=
    fun s a t hi hG hk => ⟨(hstep s a t hi hk).mpr hG, hinv s a t hi hG hk⟩
  have hbreak : ∀ s a t, Inv s → ¬ G s a → S.step s a = some t → ¬ P s a ∨ False :=
    fun s a t hi hG hk => .inl fun hP => hG ((hstep s a t hi hk).mp hP)
  rcases h.guarded_or_owing hguard hbreak (fun _ _ _ hf _ => hf.elim) hs with
    ⟨hG, hP, -⟩ | ⟨hG, hP⟩
  · exact iff_of_true hP hG
  · exact iff_of_false (hP.resolve_right id) hG

/-! ### Simulation -/

/-- A map under which, given an invariant, every concrete step is no step or one
abstract step takes reachable states to reachable states. -/
theorem Reachable.map {τ β : Type*} {A : Lts τ β} {Inv : σ → Prop} (f : σ → τ)
    (hinit : ∀ s, S.init s → Inv s ∧ A.init (f s))
    (hinv : ∀ s a t, Inv s → S.step s a = some t → Inv t)
    (hstep : ∀ s a t, Inv s → S.step s a = some t →
      f t = f s ∨ ∃ b, A.step (f s) b = some (f t))
    {s : σ} (h : Reachable S s) : Reachable A (f s) := by
  obtain ⟨s₀, tr, hi, hr⟩ := h
  induction hr with
  | refl => exact .of_init (hinit _ hi).2
  | tail hr hk ih =>
    rcases hstep _ _ _ (hr.invariant hinv (hinit _ hi).1) hk with he | ⟨b, hb⟩
    · rw [he]
      exact ih
    · exact ih.trans (.single hb)

/-- The steps a view of the system takes part in, as the view takes them. -/
def seen {τ β : Type*} (f : σ → τ) (π : α → Option β) (tr : List (σ × α)) : List (τ × β) :=
  tr.filterMap fun p => (π p.2).map fun b => (f p.1, b)

/-- A view that, given an invariant, moves by itself in the steps it takes part in and not at
all in the others is a run of its own. -/
theorem Run.view {τ β : Type*} {A : Lts τ β} {Inv : σ → Prop} {f : σ → τ} {π : α → Option β}
    (hinv : ∀ s a t, Inv s → S.step s a = some t → Inv t)
    (hmove : ∀ s a t b, Inv s → S.step s a = some t → π a = some b → A.step (f s) b = some (f t))
    (hstay : ∀ s a t, Inv s → S.step s a = some t → π a = none → f t = f s)
    {s t : σ} {tr : List (σ × α)} (h : Run S s tr t) (hs : Inv s) :
    Run A (f s) (seen f π tr) (f t) := by
  induction h with
  | refl => exact .refl _
  | @tail t u tr a hr hk ih =>
    have ht := hr.invariant hinv hs
    unfold seen at ih ⊢
    rw [List.filterMap_append]
    cases ha : π a with
    | none =>
      rw [hstay _ _ _ ht hk ha]
      simpa [ha] using ih
    | some b =>
      have hb := hmove _ _ _ _ ht hk ha
      simpa [ha] using ih.tail hb

/-- What can be seen of a run from outside, in order. -/
def observed {γ : Type*} (obs : σ → α → Option γ) (tr : List (σ × α)) : List γ :=
  tr.filterMap fun p => obs p.1 p.2

/-- If every concrete step is an unseen one without effect, or an abstract step that looks the
same, then every run looks like one of the abstract system. -/
theorem Run.simulate {τ β γ : Type*} {A : Lts τ β} {f : σ → τ} {obs : σ → α → Option γ}
    {obs' : τ → β → Option γ}
    (hstep : ∀ s a t, S.step s a = some t →
      (f t = f s ∧ obs s a = none) ∨ ∃ b, A.step (f s) b = some (f t) ∧ obs' (f s) b = obs s a)
    {s t : σ} {tr : List (σ × α)} (h : Run S s tr t) :
    ∃ ts, Run A (f s) ts (f t) ∧ observed obs' ts = observed obs tr := by
  induction h with
  | refl => exact ⟨[], .refl _, rfl⟩
  | @tail t u tr a _ hk ih =>
    obtain ⟨ts, hr, he⟩ := ih
    unfold observed at he ⊢
    rcases hstep _ _ _ hk with ⟨hf, hnone⟩ | ⟨b, hb, hobs⟩
    · refine ⟨ts, hf ▸ hr, ?_⟩
      rw [he, List.filterMap_append]
      simp [hnone]
    · refine ⟨_, hr.tail hb, ?_⟩
      simp only [List.filterMap_append, List.filterMap_cons, List.filterMap_nil, hobs, he]

/-! ### Histories -/

section Noting

variable {η : Type*} {blank : η} {note : σ → α → η → η}

/-- The system with a note that starts `blank` and is brought up to date from what each step
sees. It allows what the system allows. -/
def Lts.noting (S : Lts σ α) (blank : η) (note : σ → α → η → η) : Lts (σ × η) α where
  init p := S.init p.1 ∧ p.2 = blank
  step p a := (S.step p.1 a).map fun t => (t, note p.1 a p.2)

theorem noting_cases {p q : σ × η} {a : α} (h : (S.noting blank note).step p a = some q) :
    S.step p.1 a = some q.1 ∧ q.2 = note p.1 a p.2 := by
  obtain ⟨t, ht, rfl⟩ := Option.map_eq_some_iff.mp h
  exact ⟨ht, rfl⟩

end Noting

/-! ### Execution -/

/-- Take the labels in order, if each is enabled when its turn comes. -/
def exec (S : Lts σ α) : σ → List α → Option σ
  | s, [] => some s
  | s, a :: as => (S.step s a).bind fun t => exec S t as

/-- The trace of an execution. -/
def trace (S : Lts σ α) : σ → List α → List (σ × α)
  | _, [] => []
  | s, a :: as => (s, a) :: (S.step s a).elim [] fun t => trace S t as

theorem run_of_exec {s t : σ} {as : List α} (h : exec S s as = some t) :
    Run S s (trace S s as) t := by
  induction as generalizing s with
  | nil =>
    obtain rfl : s = t := by simpa [exec] using h
    exact .refl s
  | cons a as ih =>
    obtain ⟨u, hu, ht⟩ := Option.bind_eq_some_iff.mp h
    have hr := (Run.single hu).trans (ih ht)
    simpa only [trace, hu, Option.elim_some, List.singleton_append] using hr

/-- An execution that ends in a state with a decidable property. -/
theorem exists_run_of_exec (s : σ) (as : List α) {P : σ → Prop} [DecidablePred P]
    (h : (exec S s as).any (fun t => decide (P t)) = true) :
    ∃ t, Run S s (trace S s as) t ∧ P t := by
  cases ht : exec S s as with
  | none => simp [ht] at h
  | some t =>
    rw [ht, Option.any_some, decide_eq_true_eq] at h
    exact ⟨t, run_of_exec ht, h⟩

theorem exists_reachable_of_exec {s : σ} (hi : S.init s) (as : List α) {P : σ → Prop}
    [DecidablePred P] (h : (exec S s as).any (fun t => decide (P t)) = true) :
    ∃ t, Reachable S t ∧ P t := by
  obtain ⟨t, hr, ht⟩ := exists_run_of_exec s as h
  exact ⟨t, ⟨s, _, hi, hr⟩, ht⟩

end BaseCom.Transition
