import BaseCom.Epoll.Ownership

/-! The reader under edge triggering. A registered connection that is readable
must have an edge pending or an event still ahead in the batch, or nothing makes the
reader come back to it. Arrivals, registration, reports and closing keep this; a read
keeps it exactly if it takes everything, and leaves the batch only when the events
behind it can be spared. -/

namespace BaseCom.Epoll

open Transition

namespace Kernel

/-- Every registered connection that is readable has an edge pending or an event
ahead in the batch. -/
def Covered (k : Kernel) (batch : List Handle) : Prop :=
  ∀ i ∈ k.interest, (k.sock i.file).readable = true → i.edge = true ∨ i.data ∈ batch

/-- The entry of `h` has an edge pending. -/
def EdgePending (k : Kernel) (h : Handle) : Prop :=
  ∀ i ∈ k.interest, i.data = h → i.edge = true

/-- The batch can do without the event of `h`. -/
def Spares (k : Kernel) (h : Handle) : Prop := (k.sock h.conn).readable = true → k.EdgePending h

/-- Before a read of `h`, with the events `rest` behind it: what is queued fits one
read and no end of stream follows it, or an edge has come since the report; an end
of stream or an empty queue, on which the code leaves the batch, costs no other
event; and neither does an error, which takes nothing. -/
def Drains (k : Kernel) (fault : Option Errno) (h : Handle) (rest : List Handle) : Prop :=
  match fault with
  | none =>
    if 0 < (k.sock h.conn).unread then
      ((k.sock h.conn).unread ≤ 1024 ∧ (k.sock h.conn).eof = false) ∨ k.EdgePending h
    else ∀ g ∈ rest, k.Spares g
  | some .eintr => k.Spares h
  | some _ => k.Spares h ∧ ∀ g ∈ rest, k.Spares g

instance (k : Kernel) (batch : List Handle) : Decidable (k.Covered batch) :=
  inferInstanceAs (Decidable (∀ i ∈ k.interest, _ → _))

variable {k : Kernel} {front batch rest : List Handle} {h : Handle}

theorem readable_iff {c : Conn} :
    (k.sock c).readable = true ↔ 0 < (k.sock c).unread ∨ (k.sock c).eof = true := by
  simp [Socket.readable]

/-! ### Everything but reads -/

theorem Covered.arrive (hk : k.Covered batch) (addr : SockaddrIn) :
    (k.arrive addr).Covered batch := by
  intro i hi hread
  by_cases hc : i.file = k.nextConn
  · simp only [Kernel.arrive, hc, Function.update_self] at hread
    cases hread
  · simp only [Kernel.arrive, Function.update_of_ne hc] at hread
    exact hk i hi hread

/-- What the network does to one connection raises its edge. -/
theorem Covered.wake (hk : k.Covered batch) {sock : Conn → Socket} {c : Conn}
    (hsock : ∀ d, d ≠ c → sock d = k.sock d) :
    Covered (Kernel.wake { k with sock := sock } c) batch := by
  intro i hi hread
  obtain ⟨j, hj, rfl⟩ := List.mem_map.mp hi
  by_cases hc : j.file = c
  · rw [if_pos hc]
    exact .inl rfl
  · rw [if_neg hc] at hread ⊢
    refine hk j hj ?_
    rw [← hsock _ hc]
    exact hread

theorem Covered.report (hk : k.Covered []) (events : List (EpollEvent Handle)) :
    (k.report events).Covered (events.map (·.data)) := by
  intro i hi hread
  obtain ⟨j, hj, rfl⟩ := List.mem_map.mp hi
  by_cases hm : j.data ∈ events.map (·.data)
  · rw [if_pos hm]
    exact .inr hm
  · rw [if_neg hm] at hread ⊢
    exact .inl ((hk j hj hread).resolve_right List.not_mem_nil)

theorem Covered.epollAdd (hk : k.Covered batch) (h : Handle) (c : Conn) :
    (k.epollAdd h c).Covered batch := by
  intro i hi hread
  rcases List.mem_append.mp hi with hi | hi
  · exact hk i hi hread
  · rw [List.mem_singleton.mp hi] at hread ⊢
    exact .inl hread

theorem Covered.close (hk : k.Covered batch) (fd : Int32) : (k.close fd).Covered batch := by
  intro i hi hread
  refine hk i ?_ hread
  simp only [Kernel.close] at hi
  split at hi
  · exact List.mem_of_mem_filter hi
  · exact hi

/-- The connection closed needs its event no more. -/
theorem Covered.closeBatch (t : k.Tracks front (h :: rest)) (hk : k.Covered (h :: rest)) :
    (k.close h.fd).Covered rest := by
  intro i hi hread
  have hint := Tracks.interest_close (t.file_of_batch List.mem_cons_self)
  rcases hk.close h.fd i hi hread with he | hm
  · exact .inl he
  · refine .inr ((List.mem_cons.mp hm).resolve_left ?_)
    rintro rfl
    rw [hint, List.mem_filter, decide_eq_true_eq] at hi
    exact hi.2 (t.items i hi.1)

/-! ### Reads -/

/-- Taking bytes makes nothing readable. -/
theorem Covered.read (hk : k.Covered batch) (fd : Int32) (len : ℕ) (fault : Option Errno) :
    (k.read fd len fault).2.Covered batch := by
  have hconsume : ∀ c n, (k.consume c n).Covered batch := by
    intro c n i hi hread
    refine hk i hi ?_
    by_cases hc : i.file = c
    · rw [readable_iff] at hread ⊢
      simp only [consume, hc, Function.update_self] at hread ⊢
      exact hread.imp_left fun hn => by omega
    · simpa only [consume, Function.update_of_ne hc] using hread
  unfold Kernel.read
  split
  · split_ifs
    · exact hconsume _ _
    · exact hk
    · exact hk
  · exact hk
  · exact hk

/-- A batch may be cut down exactly if the dropped events can be spared. -/
theorem Covered.cut_iff (t : k.Tracks front batch) (hk : k.Covered batch) :
    k.Covered rest ↔ ∀ g ∈ batch, g ∉ rest → k.Spares g := by
  constructor
  · intro hcov g hg hgr hread i hi hd
    have hfile : i.file = g.conn := hd ▸ t.items i hi
    exact (hcov i hi (hfile ▸ hread)).resolve_right (hd ▸ hgr)
  · intro hsp i hi hread
    by_cases hm : i.data ∈ rest
    · exact .inr hm
    · refine .inl ((hk i hi hread).elim id fun hb => ?_)
      rw [t.items i hi] at hread
      exact hsp _ hb hm hread i hi rfl

theorem Covered.cut_head_iff (t : k.Tracks front (h :: rest)) (hk : k.Covered (h :: rest)) :
    k.Covered rest ↔ k.Spares h := by
  have hn : h ∉ rest := (List.nodup_cons.mp t.distinct).1
  rw [hk.cut_iff t]
  constructor
  · exact fun hs => hs h List.mem_cons_self hn
  · intro hs g hg hgr
    rwa [(List.mem_cons.mp hg).resolve_right hgr]

theorem Covered.cut_tail_iff (t : k.Tracks front (h :: rest)) (hk : k.Covered (h :: rest)) :
    k.Covered [h] ↔ ∀ g ∈ rest, k.Spares g := by
  have hn : h ∉ rest := (List.nodup_cons.mp t.distinct).1
  rw [hk.cut_iff t]
  constructor
  · intro hs g hg
    refine hs g (List.mem_cons_of_mem _ hg) fun hgh => hn ?_
    rwa [← List.mem_singleton.mp hgh]
  · intro hs g hg hgh
    exact hs g ((List.mem_cons.mp hg).resolve_left fun he => hgh (he ▸ List.mem_singleton_self _))

theorem Covered.cut_all_iff (t : k.Tracks front (h :: rest)) (hk : k.Covered (h :: rest)) :
    k.Covered [] ↔ k.Spares h ∧ ∀ g ∈ rest, k.Spares g := by
  rw [hk.cut_iff t, ← List.forall_mem_cons]
  exact ⟨fun hs g hg => hs g hg List.not_mem_nil, fun hs g hg _ => hs g hg⟩

/-- A read with its consequences for the loop keeps every readable connection
covered exactly if it drains. -/
theorem Covered.readClient_iff (t : k.Tracks front (h :: rest)) (hk : k.Covered (h :: rest))
    {fault : Option Errno} (hf : fault ≠ some .eagain) {events : List (EpollEvent Handle)}
    (hrest : rest = events.map (·.data)) :
    (k.read h.fd 1024 fault).2.Covered
        (Reader.afterRead (k.read h.fd 1024 fault).1 h events).batch ↔ k.Drains fault h rest := by
  have hfile := t.file_of_batch List.mem_cons_self
  have hread := hk.read h.fd 1024 fault
  have ht := t.read h.fd 1024 fault
  cases fault with
  | none =>
    simp only [Kernel.read, hfile, Drains] at hread ht ⊢
    split_ifs at hread ht ⊢ with hun heof
    · have hmin : 0 < min (k.sock h.conn).unread 1024 := by omega
      obtain ⟨n, hn⟩ := Nat.exists_eq_add_of_lt hmin
      rw [Nat.zero_add] at hn
      have hstay : (Reader.afterRead (.bytes (min (k.sock h.conn).unread 1024)) h events).batch =
          rest := by
        rw [hn, hrest]
        exact Reader.batch_forEvents events
      rw [hstay, hread.cut_head_iff ht]
      unfold Spares
      rw [readable_iff]
      simp only [consume, Function.update_self]
      by_cases hfit : (k.sock h.conn).unread ≤ 1024 ∧ (k.sock h.conn).eof = false
      · refine iff_of_true (fun hleft => ?_) (.inl hfit)
        rcases hleft with hleft | hleft
        · omega
        · rw [hfit.2] at hleft
          cases hleft
      · have hleft : 0 < (k.sock h.conn).unread - min (k.sock h.conn).unread 1024 ∨
            (k.sock h.conn).eof = true := by
          rw [not_and_or, Bool.not_eq_false] at hfit
          exact hfit.imp_left fun hgt => by omega
        rw [or_iff_right hfit]
        exact ⟨fun hs => hs hleft, fun hs _ => hs⟩
    · exact hk.cut_tail_iff t
    · have hquiet : k.Spares h := by
        intro hr
        rw [readable_iff] at hr
        exact absurd hr (not_or.mpr ⟨hun, heof⟩)
      exact (hk.cut_all_iff t).trans (and_iff_right hquiet)
  | some e =>
    simp only [Kernel.read, hfile, Drains]
    cases e with
    | eagain => exact absurd rfl hf
    | eintr =>
      show k.Covered (Reader.forEvents events).batch ↔ _
      rw [Reader.batch_forEvents, ← hrest]
      exact hk.cut_head_iff t
    | other => exact hk.cut_all_iff t

end Kernel

namespace Sys

/-- The guard of the reader's reads. -/
def Drains (s : Sys) : Act → Prop
  | .reader (.readClient fault) =>
    match s.reader with
    | .readClient h rest => s.kern.Drains fault h (rest.map (·.data))
    | _ => True
  | _ => True

/-- No registered connection is readable with neither an edge nor an event ahead. -/
def Covered (s : Sys) : Prop := s.kern.Covered s.reader.batch

instance (s : Sys) : Decidable s.Covered := inferInstanceAs (Decidable (s.kern.Covered _))

variable {listenfd : Int32} {s t : Sys} {a : Act}

theorem Initial.covered (hs : s.Initial) : s.Covered := by
  unfold Covered Kernel.Covered
  rw [hs.interest]
  exact List.forall_mem_nil _

theorem covered_of_batch {batch : List Handle} (hb : s.reader.batch = batch)
    (hk : s.kern.Covered batch) : s.Covered := by
  unfold Covered
  rwa [hb]

/-- Every step keeps connections covered, the reader's reads exactly if they drain. -/
theorem Covered.step_iff (hs : s.Sound) (hc : s.Covered) (hst : Step listenfd s a t) :
    t.Covered ↔ s.Drains a := by
  have hk : s.kern.Covered s.reader.batch := hc
  have htr := hs.tracks
  cases hst with
  | readClient hr hf =>
    rw [hr] at hk htr
    unfold Drains
    simp only [hr]
    exact hk.readClient_iff htr hf rfl
  | connect addr => exact iff_of_true (hk.arrive addr) trivial
  | deliver _ _ _ | peerClose _ | peerError _ =>
    exact iff_of_true (hk.wake fun d hd => Function.update_of_ne hd _ _) trivial
  | listenReport _ _ | listenTimeout _ | accept _ _ | acceptFails _ | writePipe _ | writeFails _ =>
    exact iff_of_true hk trivial
  | readOnce _ => exact iff_of_true (hk.read _ _ _) trivial
  | closeClient _ => exact iff_of_true (hk.close _) trivial
  | readFails hr =>
    rw [hr] at hk
    exact iff_of_true hk trivial
  | readPipe hr _ | readEmpty hr _ =>
    rw [hr] at hk
    exact iff_of_true (covered_of_batch (Reader.batch_afterReadPipe _ _) hk) trivial
  | setNoBlocking hr =>
    rw [hr] at hk
    exact iff_of_true (covered_of_batch (Reader.batch_afterSetNoBlocking _ _) hk) trivial
  | epollAdd hr _ _ =>
    rw [hr] at hk
    exact iff_of_true (hk.epollAdd _ _) trivial
  | epollAddFails hr =>
    rw [hr] at hk
    exact iff_of_true hk trivial
  | closeUnregistered hr =>
    rw [hr] at hk
    exact iff_of_true (hk.close _) trivial
  | epollWait hr _ =>
    rw [hr] at hk
    exact iff_of_true (covered_of_batch (Reader.batch_forEvents _) (hk.report _)) trivial
  | closePeer hr =>
    rw [hr] at hk htr
    exact iff_of_true (hk.closeBatch htr) trivial
  | closeError hr =>
    rw [hr] at hk htr
    exact iff_of_true (covered_of_batch (Reader.batch_forEvents _) (hk.closeBatch htr)) trivial

end Sys

/-- If every read of the reader drains, then at the top of the loop every registered
connection with bytes or an end of stream unread has an edge pending. The first read
that does not drain leaves one such connection with neither edge nor event. -/
theorem edges_pending_of_drains {listenfd : Int32} {s₀ s : Sys} {tr : List (Sys × Act)}
    (hi : s₀.Initial) (hr : Run (server listenfd) s₀ tr s) :
    (Always Sys.Drains tr → s.reader = .readPipe →
      ∀ i ∈ s.kern.interest, (s.kern.sock i.file).readable = true → i.edge = true) ∧
    (Always (fun u _ => u.Covered) tr ∧ s.Covered ↔ Always Sys.Drains tr) := by
  have hiff : Always (fun u _ => u.Covered) tr ∧ s.Covered ↔ Always Sys.Drains tr :=
    hr.along_iff (fun _ _ _ hu hk => hu.step (Sys.step_cases hk))
      (fun _ _ _ hu hc hk => hc.step_iff hu (Sys.step_cases hk)) hi.sound hi.covered
  refine ⟨fun hG htop => ?_, hiff⟩
  have hcov : s.kern.Covered s.reader.batch := (hiff.mpr hG).2
  rw [htop] at hcov
  exact fun i hm hread => (hcov i hm hread).resolve_right List.not_mem_nil

/-- A client that sends 1000 bytes, read in one pass. -/
theorem edges_pending_short_message : ∃ s tr, Run (server 5) Sys.start tr s ∧
    Always Sys.Drains tr ∧ s.reader = .readPipe ∧ s.kern.interest ≠ [] ∧
    ∀ i ∈ s.kern.interest, (s.kern.sock i.file).readable = true → i.edge = true := by
  have hall : Always (fun u _ => u.Covered) (trace (server 5) Sys.start (firstClient ++
      [.env (.deliver 0 1000), .reader (.epollWait [firstReadable]),
        .reader (.readClient none)])) := by
    unfold Always
    decide +kernel
  obtain ⟨s, hr, htop, hint, hcov⟩ := exists_run_of_exec (S := server 5) Sys.start
    (firstClient ++ [.env (.deliver 0 1000), .reader (.epollWait [firstReadable]),
      .reader (.readClient none)])
    (P := fun s => s.reader = .readPipe ∧ s.kern.interest ≠ [] ∧ s.Covered) (by decide +kernel)
  have hboth := edges_pending_of_drains Sys.initial_start hr
  have hG := hboth.2.mp ⟨hall, hcov⟩
  exact ⟨s, _, hr, hG, htop, hint, hboth.1 hG htop⟩

/-- A client that sends 2000 bytes at once: the pass reads 1024 of them and nothing
makes the reader come back for the others. -/
theorem edges_lost_long_message : ¬ ∀ listenfd s, Reachable (server listenfd) s →
    s.reader = .readPipe →
    ∀ i ∈ s.kern.interest, (s.kern.sock i.file).readable = true → i.edge = true := by
  intro hall
  obtain ⟨s, hr, htop, hint, hsock⟩ := exists_reachable_of_exec (S := server 5) Sys.initial_start
    (firstClient ++ [.env (.deliver 0 2000), .reader (.epollWait [firstReadable]),
      .reader (.readClient none)])
    (P := fun s => s.reader = .readPipe ∧ s.kern.interest = [⟨⟨8, 0⟩, 0, false⟩] ∧
      s.kern.sock 0 = ⟨976, false⟩) (by decide +kernel)
  have hedge := hall 5 s hr htop ⟨⟨8, 0⟩, 0, false⟩ (by rw [hint]; exact List.mem_singleton_self _)
    (by rw [hsock]; rfl)
  cases hedge

end BaseCom.Epoll
