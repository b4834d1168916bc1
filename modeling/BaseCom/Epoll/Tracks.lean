import BaseCom.Epoll.Kernel
import BaseCom.Resource.Ledger
import Mathlib.Data.List.Perm.Subperm

/-! Which handles a kernel state bears out. The handles are those in the threads'
hands or on the pipe (`front`) and those registered with the reader's epoll
instance; a batch is a part of the latter. One lemma for each operation of the
kernel says how the handles move. -/

namespace BaseCom.Epoll

open Resource

namespace Kernel

/-- The user data of the interest list. -/
def registered (k : Kernel) : List Handle := k.interest.map EpItem.data

theorem registered_edges (k : Kernel) {f : EpItem → EpItem} (hf : ∀ i, (f i).data = i.data) :
    registered { k with interest := k.interest.map f } = k.registered := by
  rw [registered, registered, List.map_map]
  exact List.map_congr_left fun i _ => hf i

@[simp] theorem registered_wake (k : Kernel) (c : Conn) : (k.wake c).registered = k.registered := by
  apply registered_edges
  intro i
  split <;> rfl

@[simp] theorem registered_deliver (k : Kernel) (c : Conn) (n : ℕ) :
    (k.deliver c n).registered = k.registered := registered_wake _ c

@[simp] theorem registered_peerClose (k : Kernel) (c : Conn) :
    (k.peerClose c).registered = k.registered := registered_wake _ c

@[simp] theorem registered_report (k : Kernel) (events : List (EpollEvent Handle)) :
    (k.report events).registered = k.registered := by
  apply registered_edges
  intro i
  split <;> rfl

@[simp] theorem registered_read (k : Kernel) (fd : Int32) (len : ℕ) (fault : Option Errno) :
    (k.read fd len fault).2.registered = k.registered := by
  rw [registered, read_interest, registered]

@[simp] theorem registered_epollAdd (k : Kernel) (h : Handle) (c : Conn) :
    (k.epollAdd h c).registered = k.registered ++ [h] := by
  simp only [registered, epollAdd, List.map_append, List.map_cons, List.map_nil]

/-- Every handle is open under its number, denotes its connection and occurs once;
no connection has two handles or a handle and a place in the backlog; every entry
of the interest list is for the connection its user data names. -/
structure Tracks (k : Kernel) (front batch : List Handle) : Prop where
  owned : Owned Handle.fd (fun h => File.conn h.conn) k.file (front ++ k.registered)
  known : ((front ++ k.registered).map Handle.conn ++ k.backlog).Nodup
  old : ∀ c ∈ (front ++ k.registered).map Handle.conn ++ k.backlog, c < k.nextConn
  items : ∀ i ∈ k.interest, i.file = i.data.conn
  distinct : batch.Nodup
  reported : batch ⊆ k.registered

variable {k k' : Kernel} {front front' batch batch' : List Handle} {h : Handle}

namespace Tracks

/-! ### Consequences -/

theorem file_of_mem (t : k.Tracks front batch) (hh : h ∈ front ++ k.registered) :
    k.file h.fd = some (.conn h.conn) := t.owned.denotes h hh

theorem file_of_batch (t : k.Tracks front batch) (hh : h ∈ batch) :
    k.file h.fd = some (.conn h.conn) :=
  t.file_of_mem (List.mem_append_right _ (t.reported hh))

/-- A connection has one handle. -/
theorem eq_of_conn (t : k.Tracks front batch) {x y : Handle} (hx : x ∈ front ++ k.registered)
    (hy : y ∈ front ++ k.registered) (he : x.conn = y.conn) : x = y :=
  List.inj_on_of_nodup_map (List.Nodup.of_append_left t.known) hx hy he

/-- A registered handle is nowhere else. -/
theorem notMem_front (t : k.Tracks front batch) (hh : h ∈ k.registered) : h ∉ front := by
  have hd := (List.nodup_append'.mp (List.Nodup.of_map _ t.owned.once)).2.2
  exact fun hf => hd hf hh

/-! ### Passing handles on -/

theorem hands (t : k.Tracks front batch) (hs : front'.Subperm front) : k.Tracks front' batch := by
  obtain ⟨l, hp, hl⟩ := hs
  have hheld : (l ++ k.registered).Sublist (front ++ k.registered) := hl.append_right _
  have hperm : (l ++ k.registered).Perm (front' ++ k.registered) := hp.append_right _
  have hconn : ((l ++ k.registered).map Handle.conn ++ k.backlog).Perm
      ((front' ++ k.registered).map Handle.conn ++ k.backlog) := (hperm.map _).append_right _
  have hsub := (hheld.map Handle.conn).append_right k.backlog
  exact {
    owned := (t.owned.sublist hheld).perm hperm
    known := hconn.nodup_iff.mp (hsub.nodup t.known)
    old := fun c hc => t.old c (hsub.subset (hconn.mem_iff.mpr hc))
    items := t.items
    distinct := t.distinct
    reported := t.reported }

theorem rest (t : k.Tracks front batch) (hs : batch'.Sublist batch) : k.Tracks front batch' :=
  { t with distinct := hs.nodup t.distinct, reported := fun _ hx => t.reported (hs.subset hx) }

/-! ### Operations that move no handle -/

/-- Only receive queues differ. -/
theorem congr (t : k.Tracks front batch) (hf : k'.file = k.file) (hb : k'.backlog = k.backlog)
    (hn : k'.nextConn = k.nextConn) (hi : k'.interest = k.interest) : k'.Tracks front batch := by
  have hreg : k'.registered = k.registered := by rw [registered, hi, registered]
  exact {
    owned := by rw [hf, hreg]; exact t.owned
    known := by rw [hb, hreg]; exact t.known
    old := by rw [hb, hn, hreg]; exact t.old
    items := by rw [hi]; exact t.items
    distinct := t.distinct
    reported := by rw [hreg]; exact t.reported }

/-- Only edges differ. -/
theorem edges (t : k.Tracks front batch) {f : EpItem → EpItem} (hd : ∀ i, (f i).data = i.data)
    (hf : ∀ i, (f i).file = i.file) :
    Tracks { k with interest := k.interest.map f } front batch := by
  have hreg := k.registered_edges hd
  refine { owned := ?_, known := ?_, old := ?_, items := ?_, distinct := t.distinct,
           reported := ?_ }
  · rw [hreg]
    exact t.owned
  · rw [hreg]
    exact t.known
  · rw [hreg]
    exact t.old
  · intro i hi
    obtain ⟨j, hj, rfl⟩ := List.mem_map.mp hi
    rw [hd, hf]
    exact t.items j hj
  · rw [hreg]
    exact t.reported

theorem wake (t : k.Tracks front batch) (c : Conn) : (k.wake c).Tracks front batch := by
  apply t.edges
  · intro i
    split <;> rfl
  · intro i
    split <;> rfl

theorem deliver (t : k.Tracks front batch) (c : Conn) (n : ℕ) :
    (k.deliver c n).Tracks front batch := by
  apply wake
  exact t.congr rfl rfl rfl rfl

theorem peerClose (t : k.Tracks front batch) (c : Conn) : (k.peerClose c).Tracks front batch := by
  apply wake
  exact t.congr rfl rfl rfl rfl

theorem read (t : k.Tracks front batch) (fd : Int32) (len : ℕ) (fault : Option Errno) :
    (k.read fd len fault).2.Tracks front batch :=
  t.congr (k.read_file fd len fault) (k.read_backlog fd len fault)
    (k.read_nextConn fd len fault) (k.read_interest fd len fault)

/-- A report starts a new batch. -/
theorem report (t : k.Tracks front batch) {events : List (EpollEvent Handle)}
    (hm : k.MayReport events) : (k.report events).Tracks front (events.map (·.data)) := by
  obtain ⟨-, hnodup, hmem⟩ := hm
  have hnew : k.Tracks front (events.map (·.data)) := {
    t with
    distinct := List.Nodup.of_map Handle.fd (by rwa [List.map_map])
    reported := by
      intro x hx
      obtain ⟨e, he, rfl⟩ := List.mem_map.mp hx
      obtain ⟨i, hi, hd, -⟩ := hmem e he
      exact hd ▸ List.mem_map_of_mem hi }
  apply hnew.edges
  · intro i
    split <;> rfl
  · intro i
    split <;> rfl

/-! ### A connection comes, is accepted and registered -/

theorem arrive (t : k.Tracks front batch) (addr : SockaddrIn) :
    (k.arrive addr).Tracks front batch := by
  have hnew : k.nextConn ∉ (front ++ k.registered).map Handle.conn ++ k.backlog :=
    fun hm => Nat.lt_irrefl _ (t.old _ hm)
  refine { owned := t.owned, known := ?_, old := ?_, items := t.items, distinct := t.distinct,
           reported := t.reported }
  · show ((front ++ k.registered).map Handle.conn ++ (k.backlog ++ [k.nextConn])).Nodup
    rw [← List.append_assoc, ← List.concat_eq_append]
    exact t.known.concat hnew
  · show ∀ c ∈ (front ++ k.registered).map Handle.conn ++ (k.backlog ++ [k.nextConn]),
      c < k.nextConn + 1
    intro c hc
    rw [← List.append_assoc, List.mem_append, List.mem_singleton] at hc
    rcases hc with hc | rfl
    · exact Nat.lt_succ_of_lt (t.old c hc)
    · exact Nat.lt_succ_self _

/-- The new number takes the connection from the backlog into the caller's hand. -/
theorem accept (t : k.Tracks front batch) {fd : Int32} (hm : k.MayAccept fd) (hfd : 0 ≤ fd) :
    (k.accept fd).Tracks (⟨fd, k.backlog.headD k.nextConn⟩ :: front) batch := by
  obtain ⟨hne, hfree⟩ := hm.resolve_left (Int32.not_lt.mpr hfd)
  obtain ⟨c, cs, hcs⟩ := List.exists_cons_of_ne_nil hne
  have hhead : k.backlog.headD k.nextConn = c := by rw [hcs]; rfl
  have hfile : (k.accept fd).file = Function.update k.file fd (some (.conn c)) := by
    simp only [Kernel.accept, if_pos hfd, hhead]
  have hback : (k.accept fd).backlog = cs := by simp only [Kernel.accept, hcs, List.tail_cons]
  have hperm : ((front ++ k.registered).map Handle.conn ++ k.backlog).Perm
      (c :: ((front ++ k.registered).map Handle.conn ++ cs)) := by
    rw [hcs]
    exact List.perm_middle
  rw [hhead]
  refine { owned := ?_, known := ?_, old := ?_, items := t.items, distinct := t.distinct,
           reported := t.reported }
  · rw [hfile]
    exact t.owned.opened (x := ⟨fd, c⟩) hfree
  · rw [hback]
    exact hperm.nodup_iff.mp t.known
  · rw [hback]
    exact fun d hd => t.old d (hperm.mem_iff.mpr hd)

theorem acceptFails (t : k.Tracks front batch) {fd : Int32} (hfd : ¬ 0 ≤ fd) :
    (k.accept fd).Tracks front batch := by
  have hsub := (List.tail_sublist k.backlog).append_left ((front ++ k.registered).map Handle.conn)
  refine { owned := ?_, known := hsub.nodup t.known, old := fun c hc => t.old c (hsub.subset hc),
           items := t.items, distinct := t.distinct, reported := t.reported }
  simp only [Kernel.accept, if_neg hfd]
  exact t.owned

theorem epollAdd (t : k.Tracks (h :: front) batch) : (k.epollAdd h h.conn).Tracks front batch := by
  have hreg := k.registered_epollAdd h h.conn
  have hperm : (h :: front ++ k.registered).Perm (front ++ (k.registered ++ [h])) := by
    rw [← List.append_assoc]
    exact (List.perm_append_singleton h _).symm
  have hconn := (hperm.map Handle.conn).append_right k.backlog
  refine { owned := ?_, known := ?_, old := ?_, items := ?_, distinct := t.distinct,
           reported := ?_ }
  · rw [hreg]
    exact t.owned.perm hperm
  · rw [hreg]
    exact hconn.nodup_iff.mp t.known
  · rw [hreg]
    exact fun c hc => t.old c (hconn.mem_iff.mpr hc)
  · intro i hi
    rcases List.mem_append.mp hi with hi | hi
    · exact t.items i hi
    · rw [List.mem_singleton.mp hi]
  · rw [hreg]
    exact fun x hx => List.mem_append_left _ (t.reported hx)

/-! ### Closing -/

theorem interest_close (hf : k.file h.fd = some (.conn h.conn)) :
    (k.close h.fd).interest = k.interest.filter fun i => i.file ≠ h.conn := by
  simp only [Kernel.close, hf]

/-- A handle is closed, its holder forgets it, and a batch without it goes on. -/
theorem close (t : k.Tracks front batch) (hh : h ∈ front ++ k.registered)
    (hs : front'.Sublist front) (hf : h ∉ front') (hb : h ∉ batch) :
    (k.close h.fd).Tracks front' batch := by
  have hint := interest_close (t.file_of_mem hh)
  have hsub : (front' ++ (k.close h.fd).registered).Sublist (front ++ k.registered) := by
    refine hs.append ?_
    rw [registered, hint]
    exact List.filter_sublist.map _
  have hgone : h ∉ front' ++ (k.close h.fd).registered := by
    intro hm
    rcases List.mem_append.mp hm with hm | hm
    · exact hf hm
    · rw [registered, hint] at hm
      obtain ⟨i, hi, rfl⟩ := List.mem_map.mp hm
      rw [List.mem_filter, decide_eq_true_eq] at hi
      exact hi.2 (t.items i hi.1)
  have hconn := (hsub.map Handle.conn).append_right k.backlog
  refine { owned := t.owned.closed hsub ?_, known := hconn.nodup t.known,
           old := fun c hc => t.old c (hconn.subset hc), items := ?_, distinct := t.distinct,
           reported := ?_ }
  · intro y hy he
    rw [t.owned.eq_of_name (hsub.subset hy) hh he] at hy
    exact hgone hy
  · intro i hi
    rw [hint, List.mem_filter] at hi
    exact t.items i hi.1
  · intro x hx
    obtain ⟨i, hi, rfl⟩ := List.mem_map.mp (t.reported hx)
    rw [registered, hint]
    refine List.mem_map_of_mem (List.mem_filter.mpr ⟨hi, decide_eq_true ?_⟩)
    intro he
    rw [t.items i hi] at he
    have hxh := t.eq_of_conn (List.mem_append_right _ (t.reported hx)) hh he
    exact hb (hxh ▸ hx)

/-- A thread closes the handle in its hand. -/
theorem closeFront (t : k.Tracks (h :: front) batch) : (k.close h.fd).Tracks front batch := by
  have hne : h ∉ front ++ k.registered := by
    have hn := List.Nodup.of_map _ t.owned.once
    exact (List.nodup_cons.mp hn).1
  refine t.close (by simp) (List.sublist_cons_self _ _) ?_ ?_
  · exact fun hm => hne (List.mem_append_left _ hm)
  · exact fun hm => hne (List.mem_append_right _ (t.reported hm))

/-- The reader closes the connection whose event it handles. -/
theorem closeBatch (t : k.Tracks front (h :: batch)) : (k.close h.fd).Tracks front batch := by
  have hreg : h ∈ k.registered := t.reported List.mem_cons_self
  refine (t.rest (List.sublist_cons_self _ _)).close (List.mem_append_right _ hreg)
    (List.Sublist.refl _) (t.notMem_front hreg) ?_
  exact (List.nodup_cons.mp t.distinct).1

end Tracks

end Kernel

end BaseCom.Epoll
