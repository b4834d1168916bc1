import BaseCom.Epoll.Traffic
import Mathlib.Order.Bounds.Defs

/-! What a client gets of the reader. A pass that looks at clients begins with a message, and a
message is one new connection, so a connection is read at most once for its own message and
once for each that is taken after it. What is ever read of a client is bounded by the number
of clients that come after it, and no less. -/

namespace BaseCom.Epoll

open Transition

namespace Reader

/-- The reported connections the pass has yet to look at. -/
def ahead : Reader → List Handle
  | .readClient h rest => h :: rest.map (·.data)
  | .closeError _ rest => rest.map (·.data)
  | .readPipe | .setNoBlocking _ | .epollAdd _ | .closeUnregistered _ | .epollWait
  | .closePeer _ | .returned | .exited => []

/-- The pass has taken its message and not waited for reports yet. -/
def beforeWait : Reader → Bool
  | .setNoBlocking _ | .epollAdd _ | .closeUnregistered _ | .epollWait => true
  | .readPipe | .readClient _ _ | .closePeer _ | .closeError _ _ | .returned | .exited => false

theorem ahead_forEvents (events : List (EpollEvent Handle)) :
    ((forEvents events).ahead).Sublist (events.map (·.data)) := by
  cases events with
  | nil => exact List.nil_sublist _
  | cons e rest =>
    rw [forEvents_cons]
    split_ifs
    · exact List.Sublist.refl _
    · exact List.sublist_cons_self _ _

theorem beforeWait_forEvents (events : List (EpollEvent Handle)) :
    (forEvents events).beforeWait = false := by
  cases events with
  | nil => rfl
  | cons e rest =>
    rw [forEvents_cons]
    split_ifs <;> rfl

/-- After a read only what was reported behind it is looked at. -/
theorem ahead_afterRead (r : ReadResult) (h : Handle) (rest : List (EpollEvent Handle)) :
    (afterRead r h rest).ahead.Sublist (rest.map (·.data)) ∧
      (afterRead r h rest).beforeWait = false := by
  unfold afterRead
  split
  · exact ⟨ahead_forEvents rest, beforeWait_forEvents rest⟩
  · exact ⟨List.nil_sublist _, rfl⟩
  · exact ⟨ahead_forEvents rest, beforeWait_forEvents rest⟩
  · exact ⟨List.nil_sublist _, rfl⟩
  · exact ⟨List.nil_sublist _, rfl⟩

end Reader

namespace Sys

variable {listenfd : Int32} {s t : Sys} {a : Act} {c : ℕ}

/-! ### Messages taken -/

/-- The handles whose message the reader has not taken. -/
def untaken (s : Sys) : List Handle := s.inFlight ++ s.unwritten

/-- The connection whose message a poll takes. -/
def takes (s : Sys) : Act → List Conn
  | .reader (.readPipe true) => (s.inFlight.take 1).map Handle.conn
  | _ => []

/-- The first connection whose message may still be taken. -/
def frontier (s : Sys) : ℕ := foremost (s.queue untaken) s.kern.nextConn

theorem Step.takes_forward (hst : Step listenfd s a t) : Forward s t untaken (s.takes a) := by
  have hannounce := hst.announces_forward
  have hsame : t.acceptor = s.acceptor → t.inFlight = s.inFlight →
      t.kern.backlog = s.kern.backlog → t.kern.nextConn = s.kern.nextConn →
      Forward s t untaken [] := by
    intro ha hi hb hn
    refine .of_eq ?_ hn
    simp only [queue, untaken, unwritten, ha, hi, hb, List.nil_append]
  cases hst with
  | connect _ | deliver _ _ _ | peerClose _ | peerError _ | listenReport _ _ | listenTimeout _
  | accept _ _ | acceptFails _ | readOnce _ | writeFails _ | closeClient _ =>
    exact hannounce.behind s.inFlight [] rfl rfl rfl
  | writePipe ha =>
    rename_i garbage h msg rest
    have hpass : s.announces (.acceptor (.writePipe garbage true)) = [h.conn] := by
      simp only [announces, ha]
      rfl
    rw [hpass] at hannounce
    refine hannounce.behind s.inFlight [h] rfl ?_ rfl
    simp only [untaken, List.append_assoc]
  | readPipe hr hi =>
    refine .of_eq ?_ rfl
    simp only [queue, untaken, unwritten, takes, hi]
    rfl
  | readEmpty hr hi =>
    refine .of_eq ?_ rfl
    simp only [queue, untaken, unwritten, takes, hi]
    rfl
  | readClient hr hf => exact hsame rfl rfl (Kernel.read_backlog ..) (Kernel.read_nextConn ..)
  | _ => exact hsame rfl rfl rfl rfl

/-- The handles whose message has been taken, that are not closed. -/
def taken (s : Sys) : List Handle := s.reader.hand ++ s.kern.registered

theorem Step.taken_back (hs : s.Sound) (hst : Step listenfd s a t) :
    ∀ h ∈ t.taken, h ∈ s.taken ∨ h.conn ∈ s.takes a := by
  have hsub : t.reader.hand ⊆ s.reader.hand → t.kern.registered ⊆ s.kern.registered →
      ∀ h ∈ t.taken, h ∈ s.taken ∨ h.conn ∈ s.takes a := by
    intro hhand hreg h hh
    refine .inl (List.mem_append.mpr ?_)
    exact (List.mem_append.mp hh).imp (@hhand h) (@hreg h)
  have hsame : t.reader.hand ⊆ s.reader.hand → t.kern.registered = s.kern.registered →
      ∀ h ∈ t.taken, h ∈ s.taken ∨ h.conn ∈ s.takes a := by
    intro hhand hreg
    apply hsub hhand
    rw [hreg]
    exact List.Subset.refl _
  have hclose : ∀ g : Handle, (s.kern.close g.fd).registered ⊆ s.kern.registered := by
    intro g h hh
    obtain ⟨i, hi, rfl⟩ := List.mem_map.mp hh
    refine List.mem_map_of_mem ?_
    simp only [Kernel.close] at hi
    split at hi
    · exact List.mem_of_mem_filter hi
    · exact hi
  cases hst with
  | deliver _ _ _ => exact hsame (List.Subset.refl _) (Kernel.registered_deliver ..)
  | peerClose _ | peerError _ =>
    exact hsame (List.Subset.refl _) (Kernel.registered_peerClose ..)
  | readOnce _ => exact hsame (List.Subset.refl _) (Kernel.registered_read ..)
  | closeClient _ => exact hsub (List.Subset.refl _) (hclose _)
  | readPipe hr hi =>
    rename_i g rest
    intro h hh
    rcases List.mem_append.mp hh with hh | hh
    · simp only [(hs.read_inFlight hi).2] at hh
      split_ifs at hh
      · cases hh
      · obtain rfl := List.mem_singleton.mp hh
        refine .inr ?_
        simp only [takes, hi]
        exact List.mem_singleton_self _
    · exact .inl (List.mem_append_right _ hh)
  | readEmpty hr hi =>
    refine hsame ?_ rfl
    rw [hs.read_empty hi]
    exact List.nil_subset _
  | readFails hr => exact hsame (List.nil_subset _) rfl
  | setNoBlocking hr =>
    rename_i ok g
    refine hsame ?_ rfl
    rw [hr]
    cases ok
    · exact List.nil_subset _
    · exact List.Subset.refl _
  | epollAdd hr hf hnew =>
    rename_i g c
    intro h hh
    refine .inl ?_
    simp only [taken, Kernel.registered, Kernel.epollAdd, List.map_append] at hh
    simp only [taken, hr]
    show h ∈ g :: s.kern.registered
    have hh : h ∈ s.kern.registered ++ [g] := hh
    rw [List.mem_cons]
    exact (List.mem_append.mp hh).symm.imp_left List.mem_singleton.mp
  | epollAddFails hr =>
    refine hsame ?_ rfl
    rw [hr]
    exact List.Subset.refl _
  | closeUnregistered hr => exact hsub (List.nil_subset _) (hclose _)
  | epollWait hr hm =>
    refine hsame ?_ (Kernel.registered_report ..)
    rw [Reader.hand_forEvents]
    exact List.nil_subset _
  | readClient hr hf =>
    refine hsame ?_ (Kernel.registered_read ..)
    rw [(Reader.afterRead_batch _ _ _).1]
    exact List.nil_subset _
  | closePeer hr => exact hsub (List.nil_subset _) (hclose _)
  | closeError hr =>
    refine hsub ?_ (hclose _)
    rw [Reader.hand_forEvents]
    exact List.nil_subset _
  | _ => exact hsame (List.Subset.refl _) rfl

/-- Messages are taken in order, and what has been taken is behind the frontier. -/
structure Taking (s : Sys) : Prop where
  order : InOrder (s.queue untaken) s.kern.nextConn
  behind : ∀ h ∈ s.taken, h.conn < s.frontier

theorem Initial.taking (hi : s.Initial) : s.Taking := by
  refine ⟨?_, ?_⟩
  · simp only [queue, untaken, unwritten, hi.backlog, hi.acceptor, hi.inFlight]
    exact .nil _
  · simp only [taken, Kernel.registered, hi.reader, hi.interest]
    exact List.forall_mem_nil _

theorem Taking.frontier_mono (ht : s.Taking) (hst : Step listenfd s a t) :
    s.frontier ≤ t.frontier ∧ ∀ c ∈ s.takes a, s.frontier ≤ c ∧ c < t.frontier := by
  have horder := ht.order.advance hst.takes_forward
  have hpassed : ∀ c ∈ s.takes a, c < t.frontier := fun c hc => horder.lt_foremost hc
  have hmono := ht.order.foremost_mono hst.takes_forward
  cases htakes : s.takes a with
  | nil =>
    rw [htakes] at hmono
    exact ⟨hmono, List.forall_mem_nil _⟩
  | cons d ds =>
    rw [htakes] at hmono hpassed horder
    have hd : s.frontier ≤ d := hmono
    refine ⟨hd.trans (hpassed d List.mem_cons_self).le, fun c hc => ⟨?_, hpassed c hc⟩⟩
    rcases List.mem_cons.mp hc with rfl | hc
    · exact hd
    · have hlt := List.rel_of_pairwise_cons horder.sorted (List.mem_append_left _ hc)
      exact hd.trans hlt.le

theorem Taking.step (ht : s.Taking) (hs : s.Sound) (hst : Step listenfd s a t) : t.Taking := by
  obtain ⟨hmono, htakes⟩ := ht.frontier_mono hst
  have horder := ht.order.advance hst.takes_forward
  refine ⟨horder.sublist (List.sublist_append_right _ _), fun h hh => ?_⟩
  rcases hst.taken_back hs h hh with hb | hb
  · exact (ht.behind h hb).trans_le hmono
  · exact (htakes _ hb).2

/-! ### Reads -/

/-- The reads of a connection the pass may still make. -/
def owed (c : Conn) (s : Sys) : ℕ :=
  if (s.reader.beforeWait = true ∧ c < s.frontier) ∨ c ∈ s.reader.ahead.map Handle.conn then 1
  else 0

/-- The reader reads the connection. -/
def readsNow (c : Conn) (s : Sys) (a : Act) : ℕ :=
  match s.reading a with
  | some (.reader, h, _) => if h.conn = c then 1 else 0
  | _ => 0

theorem owed_le_one (c : Conn) (s : Sys) : owed c s ≤ 1 := by
  unfold owed
  split_ifs
  · exact Nat.le_refl _
  · exact Nat.zero_le _

theorem owed_of_idle (hb : s.reader.beforeWait = false) (ha : s.reader.ahead = []) (c : Conn) :
    owed c s = 0 := by
  unfold owed
  rw [hb, ha, if_neg]
  rintro (⟨h, -⟩ | h)
  · cases h
  · cases h

theorem owed_of_not_lt (ha : s.reader.ahead = []) (hc : ¬ c < s.frontier) : owed c s = 0 := by
  unfold owed
  rw [ha, if_neg]
  rintro (⟨-, h⟩ | h)
  · exact hc h
  · cases h

theorem owed_le_of_sublist (hb : t.reader.beforeWait = false)
    (ha : t.reader.ahead.Sublist s.reader.ahead) (c : Conn) : owed c t ≤ owed c s := by
  unfold owed
  split_ifs with h₁ h₂
  · exact Nat.le_refl _
  · refine absurd (.inr ?_) h₂
    rw [hb] at h₁
    have hc := h₁.resolve_left fun h => by cases h.1
    exact (ha.map _).subset hc
  · exact Nat.zero_le _
  · exact Nat.le_refl _

theorem owed_eq_one (hb : s.reader.beforeWait = true) (hc : c < s.frontier) : owed c s = 1 :=
  if_pos (.inl ⟨hb, hc⟩)

/-- Where only the frontier moves on. -/
theorem owed_le_of_frontier (hr : t.reader = s.reader) (hf : s.frontier ≤ t.frontier) (c : ℕ) :
    owed c t + (s.frontier - c) ≤ owed c s + (t.frontier - c) := by
  by_cases hc : c < s.frontier
  · have howed : owed c t = owed c s := by
      simp only [owed, hr, hc, hc.trans_le hf]
    omega
  · by_cases hc' : c < t.frontier
    · have hone := owed_le_one c t
      omega
    · have howed : owed c t = owed c s := by
        simp only [owed, hr, hc, hc']
      omega

/-- A message is taken, and one more read of each connection before it is owed. -/
theorem owed_of_taken (ha : t.reader.ahead = []) (hf : s.frontier < t.frontier) (c : ℕ) :
    owed c t + (s.frontier - c) ≤ t.frontier - c := by
  by_cases hc : c < t.frontier
  · have hone := owed_le_one c t
    omega
  · rw [owed_of_not_lt ha hc]
    omega

/-- What is reported is registered, so its message has been taken. -/
theorem Taking.owed_of_report (ht : s.Taking) {events : List (EpollEvent Handle)}
    (hr : s.reader = .epollWait) (hm : s.kern.MayReport events)
    (hr' : t.reader = .forEvents events) (c : ℕ) : owed c t ≤ owed c s := by
  by_cases hc : c < s.frontier
  · rw [owed_eq_one (by rw [hr]; rfl) hc]
    exact owed_le_one c t
  · unfold owed
    rw [if_neg]
    · exact Nat.zero_le _
    · rw [hr', Reader.beforeWait_forEvents]
      rintro (⟨hb, -⟩ | ha)
      · cases hb
      · obtain ⟨h, hh, rfl⟩ := List.mem_map.mp ha
        obtain ⟨e, he, rfl⟩ := List.mem_map.mp ((Reader.ahead_forEvents events).subset hh)
        obtain ⟨i, hi, hd, -⟩ := hm.2.2 e he
        apply hc
        apply ht.behind
        rw [← hd]
        exact List.mem_append_right _ (List.mem_map_of_mem hi)

/-- The batch holds a connection once. -/
theorem Sound.owed_of_read (hs : s.Sound) {h : Handle} {rest : List (EpollEvent Handle)}
    {r : ReadResult} (hr : s.reader = .readClient h rest) (hr' : t.reader = .afterRead r h rest)
    (c : ℕ) : (if h.conn = c then 1 else 0) + owed c t ≤ owed c s := by
  obtain ⟨hahead, hbefore⟩ := Reader.ahead_afterRead r h rest
  rw [← hr'] at hahead hbefore
  have hmem : s.reader.ahead = h :: rest.map (·.data) := by rw [hr]; rfl
  split_ifs with hc
  · have hone : owed c s = 1 := by
      apply if_pos
      rw [hmem, ← hc]
      exact .inr List.mem_cons_self
    have hnone : owed c t = 0 := by
      unfold owed
      rw [hbefore, if_neg]
      rintro (⟨hb, -⟩ | ha)
      · cases hb
      · obtain ⟨g, hg, hconn⟩ := List.mem_map.mp ha
        have hg := hahead.subset hg
        have htracks := hs.tracks
        rw [hr] at htracks
        have hreg : ∀ x ∈ h :: rest.map (·.data), x ∈ s.front ++ s.kern.registered :=
          fun x hx => List.mem_append_right _ (htracks.reported hx)
        have heq : g = h := htracks.eq_of_conn (hreg g (List.mem_cons_of_mem _ hg))
          (hreg h List.mem_cons_self) (hconn.trans hc.symm)
        rw [heq] at hg
        exact (List.nodup_cons.mp htracks.distinct).1 hg
    omega
  · rw [Nat.zero_add]
    apply owed_le_of_sublist hbefore
    rw [hmem]
    exact hahead.trans (List.sublist_cons_self _ _)

/-- A step reads a connection only if that is owed, and owes one more read of each connection
when the frontier moves. -/
theorem Step.rationed (hs : s.Sound) (ht : s.Taking) (hst : Step listenfd s a t) (c : ℕ) :
    s.readsNow c a + owed c t + (s.frontier - c) ≤ owed c s + (t.frontier - c) := by
  obtain ⟨hmono, htakes⟩ := ht.frontier_mono hst
  have hothers : s.readsNow c a = 0 → t.reader = s.reader →
      s.readsNow c a + owed c t + (s.frontier - c) ≤ owed c s + (t.frontier - c) := by
    intro hnow hr
    rw [hnow, Nat.zero_add]
    exact owed_le_of_frontier hr hmono c
  have hreader : t.frontier = s.frontier → s.readsNow c a + owed c t ≤ owed c s →
      s.readsNow c a + owed c t + (s.frontier - c) ≤ owed c s + (t.frontier - c) := by
    intro hf hle
    omega
  have hpass : s.readsNow c a = 0 → t.frontier = s.frontier → t.reader.ahead = [] →
      s.reader.beforeWait = true ∨ t.reader.beforeWait = false →
      s.readsNow c a + owed c t + (s.frontier - c) ≤ owed c s + (t.frontier - c) := by
    intro hnow hf ha hb
    refine hreader hf ?_
    rw [hnow, Nat.zero_add]
    rcases hb with hb | hb
    · by_cases hc : c < s.frontier
      · rw [owed_eq_one hb hc]
        exact owed_le_one c t
      · rw [owed_of_not_lt ha (hf ▸ hc)]
        exact Nat.zero_le _
    · rw [owed_of_idle hb ha]
      exact Nat.zero_le _
  cases hst with
  | connect _ | deliver _ _ _ | peerClose _ | peerError _ | listenReport _ _ | listenTimeout _
  | accept _ _ | acceptFails _ | writePipe _ | writeFails _ | closeClient _ =>
    exact hothers rfl rfl
  | readOnce ha =>
    refine hothers ?_ rfl
    simp only [readsNow, reading, ha]
  | readPipe hr hi =>
    rename_i h rest
    have hh : h.conn ∈ s.takes (.reader (.readPipe true)) := by
      simp only [takes, hi]
      exact List.mem_singleton_self _
    have hlt : s.frontier < _ := (htakes _ hh).1.trans_lt (htakes _ hh).2
    have hidle : owed c s = 0 := owed_of_idle (by rw [hr]; rfl) (by rw [hr]; rfl) c
    have hnow : s.readsNow c (.reader (.readPipe true)) = 0 := rfl
    have hahead : (Reader.afterReadPipe s.pipe.read.1 h.conn).ahead = [] := by
      rw [(hs.read_inFlight hi).2]
      split_ifs <;> rfl
    rw [hnow, hidle, Nat.zero_add, Nat.zero_add]
    exact owed_of_taken hahead hlt c
  | readEmpty hr hi =>
    have hempty := congrArg (fun r => Reader.afterReadPipe (Prod.fst r) s.kern.nextConn)
      (hs.read_empty hi)
    refine hpass rfl rfl ?_ (.inr ?_)
    · exact (congrArg Reader.ahead hempty)
    · exact (congrArg Reader.beforeWait hempty)
  | readFails hr => exact hpass rfl rfl rfl (.inr rfl)
  | setNoBlocking hr =>
    rename_i ok h
    refine hpass rfl rfl ?_ (.inl (by rw [hr]; rfl))
    cases ok <;> rfl
  | epollAdd hr hf hnew => exact hpass rfl rfl rfl (.inl (by rw [hr]; rfl))
  | epollAddFails hr => exact hpass rfl rfl rfl (.inl (by rw [hr]; rfl))
  | closeUnregistered hr => exact hpass rfl rfl rfl (.inl (by rw [hr]; rfl))
  | epollWait hr hm =>
    rename_i events
    refine hreader rfl ?_
    have hnow : s.readsNow c (.reader (.epollWait events)) = 0 := rfl
    rw [hnow, Nat.zero_add]
    exact ht.owed_of_report hr hm rfl c
  | readClient hr hf =>
    rename_i fault h rest
    have hnow : s.readsNow c (.reader (.readClient fault)) = if h.conn = c then 1 else 0 := by
      simp only [readsNow, reading, hr]
    refine hreader ?_ ?_
    · simp only [frontier, queue, untaken, unwritten, Kernel.read_backlog, Kernel.read_nextConn]
    · rw [hnow]
      exact hs.owed_of_read hr rfl c
  | closePeer hr => exact hpass rfl rfl rfl (.inr rfl)
  | closeError hr =>
    rename_i h rest
    refine hreader rfl ?_
    have hnow : s.readsNow c (.reader .closeError) = 0 := rfl
    rw [hnow, Nat.zero_add]
    apply owed_le_of_sublist (Reader.beforeWait_forEvents rest)
    rw [hr]
    exact Reader.ahead_forEvents rest

end Sys

namespace Traffic

variable {listenfd : Int32} {t u : Traffic} {b : TrafficAct}

/-- The reads the reader has made of a connection. -/
def readsOf (t : Traffic) (c : Conn) : ℕ := (t.piecesOf c).countP fun p => p.party = .reader

theorem readsOf_append (t : Traffic) (p : Piece) (c : Conn) :
    readsOf { t with pieces := t.pieces ++ [p] } c =
      t.readsOf c + if p.handle.conn = c ∧ p.party = .reader then 1 else 0 := by
  simp only [readsOf, piecesOf_append]
  by_cases hc : p.handle.conn = c
  · simp only [hc, if_true, true_and, List.countP_append, List.countP_singleton,
      decide_eq_true_eq]
  · simp only [hc, false_and, if_false, Nat.add_zero]

theorem readsOf_congr (h : u.pieces = t.pieces) (c : Conn) : u.readsOf c = t.readsOf c := by
  simp only [readsOf, piecesOf, h]

theorem read_pieces (t : Traffic) (p : Party) (h : Handle) (fault : Option Errno) :
    ∃ bytes, (t.read p h fault).pieces = t.pieces ++ [⟨p, h, bytes⟩] := by
  unfold read
  split
  · exact ⟨_, rfl⟩
  · exact ⟨_, rfl⟩

theorem Step.readsOf (hst : Step listenfd t b u) :
    ∃ a, Sys.Step listenfd t.sys a u.sys ∧
      ∀ c, u.readsOf c = t.readsOf c + t.sys.readsNow c a := by
  cases hst with
  | send hst => exact ⟨_, hst, fun c => readsOf_congr rfl c⟩
  | quiet hst hr hd =>
    refine ⟨_, hst, fun c => ?_⟩
    rw [Sys.readsNow, hr]
    exact readsOf_congr rfl c
  | reads hst hr =>
    rename_i a s p h fault
    refine ⟨a, hst, fun c => ?_⟩
    obtain ⟨bytes, hb⟩ := t.read_pieces p h fault
    have happend := readsOf_append t ⟨p, h, bytes⟩ c
    rw [Sys.readsNow, hr]
    refine (readsOf_congr (t := { t with pieces := t.pieces ++ [⟨p, h, bytes⟩] }) hb c).trans ?_
    rw [happend]
    cases p with
    | acceptor => simp
    | reader => simp

structure Rationed (t : Traffic) : Prop where
  sys : t.sys.Sound
  taking : t.sys.Taking
  reads : ∀ c : ℕ, t.readsOf c + t.sys.owed c ≤ t.sys.frontier - c

theorem rationed_of_reachable (hr : Reachable (traffic listenfd) t) : t.Rationed := by
  refine hr.invariant ?_ ?_
  · rintro u ⟨hi, -, -, hp⟩
    refine ⟨hi.sound, hi.taking, fun c => ?_⟩
    have hnone : u.readsOf c = 0 := by
      rw [readsOf, piecesOf, hp]
      rfl
    have howed : u.sys.owed c = 0 :=
      Sys.owed_of_idle (by rw [hi.reader]; rfl) (by rw [hi.reader]; rfl) c
    rw [hnone, howed]
    exact Nat.zero_le _
  · intro u b v hu hk
    obtain ⟨a, hst, hreads⟩ := (step_cases hk).readsOf
    refine ⟨hu.sys.step hst, hu.taking.step hu.sys hst, fun c => ?_⟩
    have hstep := hst.rationed hu.sys hu.taking c
    have hbefore := hu.reads c
    rw [hreads]
    omega

theorem length_flatMap_le {ps : List Piece} (hshort : ∀ p ∈ ps, p.bytes.length ≤ p.party.limit)
    (hreader : ∀ p ∈ ps, p.party = .reader) :
    (ps.flatMap Piece.bytes).length ≤ 1024 * ps.countP fun p => p.party = .reader := by
  induction ps with
  | nil => exact Nat.zero_le _
  | cons p ps ih =>
    have hrest := ih (fun q hq => hshort q (List.mem_cons_of_mem _ hq))
      fun q hq => hreader q (List.mem_cons_of_mem _ hq)
    have hfirst := hshort p List.mem_cons_self
    have hparty := hreader p List.mem_cons_self
    rw [hparty] at hfirst
    simp only [Party.limit] at hfirst
    simp only [List.flatMap_cons, List.length_append, List.countP_cons, hparty, decide_true,
      if_true]
    omega

/-- The accept thread's read is of 39 bytes at most, each of the reader's of 1024. -/
theorem Sound.length_received_le (ht : t.Sound) (c : Conn) :
    (t.received c).length ≤ 39 + 1024 * t.readsOf c := by
  have hshort : ∀ p ∈ t.piecesOf c, p.bytes.length ≤ p.party.limit :=
    fun p hp => ht.content.short p (List.mem_filter.mp hp).1
  have htail := ht.ordered.order c
  unfold received readsOf
  cases hp : t.piecesOf c with
  | nil => exact Nat.zero_le _
  | cons p ps =>
    rw [hp] at hshort htail
    have hrest := length_flatMap_le (fun q hq => hshort q (List.mem_cons_of_mem _ hq)) htail
    have hfirst := hshort p List.mem_cons_self
    rw [List.flatMap_cons, List.length_append, List.countP_cons]
    cases hparty : p.party with
    | acceptor =>
      rw [hparty] at hfirst
      simp only [Party.limit] at hfirst
      omega
    | reader =>
      rw [hparty] at hfirst
      simp only [Party.limit] at hfirst
      simp only [decide_true, if_true]
      omega

end Traffic

end BaseCom.Epoll
