import Mathlib.Data.List.Nodup

/-! Channels that pass on what they take through a map, in order, and insert elements of
their own. The places of these are kept, so that it can be said what is written without
them: the image of what was taken, as far as it is no longer pending. -/

namespace BaseCom.Streaming

variable {α β : Type*}

/-- The list without the elements at the given places. -/
def strike (places : List ℕ) (xs : List α) : List α :=
  (xs.zipIdx.filter fun p => p.2 ∉ places).map Prod.fst

/-- No place is in what is appended. -/
theorem strike_append {places : List ℕ} {xs : List α} (h : ∀ p ∈ places, p < xs.length)
    (ys : List α) : strike places (xs ++ ys) = strike places xs ++ ys := by
  have hys : (ys.zipIdx xs.length).filter (fun p => p.2 ∉ places) = ys.zipIdx xs.length := by
    apply List.filter_eq_self.mpr
    intro p hp
    have hle := (List.mem_zipIdx hp).1
    simp only [decide_eq_true_eq]
    intro hmem
    have hlt := h _ hmem
    omega
  simp only [strike, List.zipIdx_append, Nat.zero_add, List.filter_append, hys, List.map_append,
    List.zipIdx_map_fst]

/-- The place is that of the element appended. -/
theorem strike_snoc (places : List ℕ) (xs : List α) (x : α) :
    strike (places ++ [xs.length]) (xs ++ [x]) = strike places xs := by
  have hxs : xs.zipIdx.filter (fun p => p.2 ∉ places ++ [xs.length]) =
      xs.zipIdx.filter fun p => p.2 ∉ places := by
    apply List.filter_congr
    intro p hp
    have hlt := (List.mem_zipIdx hp).2.1
    have hne : p.2 ≠ xs.length := by omega
    simp [hne]
  simp only [strike, List.zipIdx_append, List.filter_append, hxs, List.map_append]
  simp

/-- What was taken, what of it is pending, what is written and where in that the
insertions are. -/
structure Channel (α β : Type*) where
  taken : List α
  pending : List α
  written : List β
  inserted : List ℕ

namespace Channel

/-- Nothing taken yet. -/
def fresh : Channel α β := ⟨[], [], [], []⟩

def take (c : Channel α β) (xs : List α) : Channel α β :=
  { c with taken := c.taken ++ xs, pending := c.pending ++ xs }

/-- Pass on the first `n` of what is pending. -/
def pass (f : α → β) (n : ℕ) (c : Channel α β) : Channel α β :=
  { c with pending := c.pending.drop n, written := c.written ++ (c.pending.take n).map f }

def insert (b : β) (c : Channel α β) : Channel α β :=
  { c with written := c.written ++ [b], inserted := c.inserted ++ [c.written.length] }

/-- Without the insertions, each a `b` at a place of its own, what is written and the image
of what is pending make up the image of what was taken. -/
structure Conserves (f : α → β) (b : β) (c : Channel α β) : Prop where
  content : strike c.inserted c.written ++ c.pending.map f = c.taken.map f
  inserted : ∀ p ∈ c.inserted, c.written[p]? = some b
  nodup : c.inserted.Nodup

variable {f : α → β} {b : β} {c : Channel α β}

namespace Conserves

theorem lt (h : c.Conserves f b) : ∀ p ∈ c.inserted, p < c.written.length := by
  intro p hp
  obtain ⟨hlt, -⟩ := List.getElem?_eq_some_iff.mp (h.inserted p hp)
  exact hlt

theorem take (h : c.Conserves f b) (xs : List α) : (c.take xs).Conserves f b where
  content := by
    show strike c.inserted c.written ++ (c.pending ++ xs).map f = (c.taken ++ xs).map f
    rw [List.map_append, List.map_append, ← List.append_assoc, h.content]
  inserted := h.inserted
  nodup := h.nodup

theorem getElem?_append (h : c.Conserves f b) (ys : List β) :
    ∀ p ∈ c.inserted, (c.written ++ ys)[p]? = some b := by
  intro p hp
  rw [List.getElem?_append_left (h.lt p hp), h.inserted p hp]

theorem pass (h : c.Conserves f b) (n : ℕ) : (c.pass f n).Conserves f b where
  content := by
    show strike c.inserted (c.written ++ (c.pending.take n).map f) ++ (c.pending.drop n).map f =
      c.taken.map f
    rw [strike_append h.lt, List.append_assoc, ← List.map_append, List.take_append_drop, h.content]
  inserted := h.getElem?_append _
  nodup := h.nodup

theorem insert (h : c.Conserves f b) : (c.insert b).Conserves f b where
  content := by
    show strike (c.inserted ++ [c.written.length]) (c.written ++ [b]) ++ c.pending.map f =
      c.taken.map f
    rw [strike_snoc, h.content]
  inserted := by
    intro p hp
    rcases List.mem_append.mp hp with hp | hp
    · exact h.getElem?_append _ p hp
    · rw [List.mem_singleton.mp hp]
      exact List.getElem?_concat_length
  nodup := by
    apply List.nodup_append'.mpr
    refine ⟨h.nodup, List.nodup_singleton _, fun p hp hlen => ?_⟩
    have hlt := h.lt p hp
    have heq := List.mem_singleton.mp hlen
    omega

end Conserves
end Channel

end BaseCom.Streaming
