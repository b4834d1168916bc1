import BaseCom.Epoll.Ownership

/-! Dead connections. The reader learns that a connection is no more from a read, from
`epoll_ctl` or from a report without `EPOLLIN`, and each time has a branch for it. Beside
the run we note the connections it has learned this of. The branch for a failed read does
not close, and the two branches that leave the batch pass over the reports behind them. -/

namespace BaseCom.Epoll

open Transition

/-- A report of an error or a hang-up that the code does not answer with a read. -/
def EpollEvent.failed (e : EpollEvent Handle) : Bool :=
  !e.events.epollin && (e.events.epollerr || e.events.epollhup)

/-- The connections a batch reports as failed. -/
def failures (events : List (EpollEvent Handle)) : List Handle :=
  (events.filter EpollEvent.failed).map EpollEvent.data

/-- The connections the reader closes before it is back at the top, as far as they are
known to be dead. -/
def Reader.doomed : Reader → List Handle
  | .closeUnregistered h | .closePeer h => [h]
  | .readClient _ rest => failures rest
  | .closeError h rest => h :: failures rest
  | .readPipe | .setNoBlocking _ | .epollAdd _ | .epollWait | .returned | .exited => []

/-- The descriptor is still the one of its connection. -/
def Kernel.Open (k : Kernel) (h : Handle) : Prop := k.file h.fd = some (.conn h.conn)

instance (k : Kernel) (h : Handle) : Decidable (k.Open h) := inferInstanceAs (Decidable (_ = _))

namespace Sys

/-- The connection of which a call of the reader tells that it is dead. -/
def learns (s : Sys) : ReaderAct → List Handle
  | .epollAdd ok =>
    match s.reader with
    | .epollAdd h => if ok then [] else [h]
    | _ => []
  | .epollWait events => failures events
  | .readClient fault =>
    match s.reader with
    | .readClient h _ =>
      match (s.kern.read h.fd 1024 fault).1 with
      | .bytes 0 | .error .other => [h]
      | .bytes (_ + 1) | .error .eagain | .error .eintr => []
    | _ => []
  | .readPipe _ | .setNoBlocking _ | .closeUnregistered | .closePeer | .closeError => []

/-- The connections known to be dead after a step. -/
def noteDead (s : Sys) (a : Act) (dead : List Handle) : List Handle :=
  match a with
  | .reader b => s.learns b ++ dead
  | .env _ | .acceptor _ => dead

/-- A read fails for no reason but interruption or an empty queue, and one that ends the
batch has no failed connection behind it. -/
def PassesOverNone (s : Sys) : Act → Prop
  | .reader (.readClient fault) =>
    match s.reader with
    | .readClient h rest =>
      match (s.kern.read h.fd 1024 fault).1 with
      | .error .other => False
      | .error .eagain | .bytes 0 => failures rest = []
      | .error .eintr | .bytes (_ + 1) => True
    | _ => True
  | _ => True

end Sys

/-- The server, with the connections the reader knows to be dead. -/
def mourned (listenfd : Int32) : Lts (Sys × List Handle) Act :=
  (server listenfd).noting [] Sys.noteDead

/-- At the top of the loop no connection known to be dead is open. -/
def DeadClosed (p : Sys × List Handle) : Prop :=
  p.1.reader = .readPipe → ∀ h ∈ p.2, ¬ p.1.kern.Open h

instance (p : Sys × List Handle) : Decidable (DeadClosed p) := inferInstanceAs (Decidable (_ → _))

/-! ### Reports -/

theorem EpollEvent.failed_eq (e : EpollEvent Handle) : e.failed = !e.events.epollin := by
  have hc := e.events.cause
  unfold failed
  cases hin : e.events.epollin with
  | true => rfl
  | false =>
    rw [hin, Bool.false_or] at hc
    rw [hc]
    rfl

theorem failures_cons (e : EpollEvent Handle) (rest : List (EpollEvent Handle)) :
    failures (e :: rest) = if e.events.epollin then failures rest else e.data :: failures rest := by
  unfold failures
  rw [List.filter_cons, e.failed_eq]
  cases e.events.epollin <;> rfl

/-- The loop closes what a batch reports as failed. -/
theorem Reader.doomed_forEvents (events : List (EpollEvent Handle)) :
    (forEvents events).doomed = failures events := by
  cases events with
  | nil => rfl
  | cons e rest =>
    rw [forEvents_cons, failures_cons]
    split <;> rfl

/-- A read that goes on with the batch keeps its failed connections, one that leaves the
batch forgets them, and an end of file adds the connection itself. -/
theorem Reader.doomed_afterRead (r : ReadResult) (h : Handle) (rest : List (EpollEvent Handle)) :
    (afterRead r h rest).doomed =
      match r with
      | .bytes (_ + 1) | .error .eintr => failures rest
      | .bytes 0 => [h]
      | .error .eagain | .error .other => [] := by
  cases r with
  | bytes n =>
    cases n with
    | zero => rfl
    | succ n => exact doomed_forEvents rest
  | error e =>
    cases e with
    | eintr => exact doomed_forEvents rest
    | eagain | other => rfl

theorem failures_subset (events : List (EpollEvent Handle)) :
    failures events ⊆ events.map EpollEvent.data :=
  List.map_subset _ List.filter_sublist.subset

theorem Kernel.not_open_close (k : Kernel) (h : Handle) : ¬ (k.close h.fd).Open h := by
  simp [Open, Kernel.close]

namespace Sys

variable {listenfd : Int32} {s t : Sys} {a : Act} {h : Handle} {dead : List Handle}

/-- A descriptor of a connection that is past the backlog is not opened again. -/
theorem Step.open_back (hst : Step listenfd s a t) (hnew : h.conn < s.kern.nextConn)
    (hback : h.conn ∉ s.kern.backlog) (ho : t.kern.Open h) : s.kern.Open h := by
  have hclose : ∀ fd, (s.kern.close fd).Open h → s.kern.Open h := by
    intro fd hc
    unfold Kernel.Open Kernel.close at *
    rcases eq_or_ne h.fd fd with rfl | hne
    · simp at hc
    · simpa only [Function.update_of_ne hne] using hc
  cases hst with
  | accept ha hfd =>
    rename_i fd rest
    unfold Kernel.Open Kernel.accept at ho
    simp only at ho
    split_ifs at ho with hpos
    · rcases eq_or_ne h.fd fd with rfl | hne
      · rw [Function.update_self] at ho
        have hc : s.kern.backlog.headD s.kern.nextConn = h.conn := by simpa using ho
        cases hb : s.kern.backlog with
        | nil =>
          rw [hb] at hc
          exact absurd hc (Nat.ne_of_gt hnew)
        | cons c cs =>
          rw [hb] at hc hback
          exact absurd (hc ▸ List.mem_cons_self) hback
      · rwa [Function.update_of_ne hne] at ho
    · exact ho
  | closeClient _ | closeUnregistered _ | closePeer _ | closeError _ => exact hclose _ ho
  | readOnce _ | readClient _ _ => exact (congrFun (Kernel.read_file ..) h.fd).symm.trans ho
  | _ => exact ho

theorem registered_close {k : Kernel} {front batch : List Handle} (hk : k.Tracks front batch)
    {g : Handle} (hg : g ∈ front ++ k.registered) (hh : h ∈ k.registered) (hne : g.conn ≠ h.conn) :
    h ∈ (k.close g.fd).registered := by
  obtain ⟨i, hi, rfl⟩ := List.mem_map.mp hh
  rw [Kernel.registered, Kernel.Tracks.interest_close (hk.file_of_mem hg)]
  refine List.mem_map_of_mem (List.mem_filter.mpr ⟨hi, decide_eq_true ?_⟩)
  rw [hk.items i hi]
  exact hne.symm

/-- A registered connection stays registered until the reader closes it. -/
theorem Sound.registered_kept (hs : s.Sound) (hst : Step listenfd s a t)
    (hh : h ∈ s.kern.registered) (hne : ∀ g, s.reader.target = some g → g.conn ≠ h.conn) :
    h ∈ t.kern.registered := by
  have hk := hs.tracks
  have htarget : ∀ g, s.reader.target = some g → h ∈ (s.kern.close g.fd).registered := by
    intro g hg
    refine registered_close hk ?_ hh (hne g hg)
    rcases Reader.hand_or_batch_of_target hg with hm | hm
    · exact List.mem_append_left _ (List.mem_append_right _ (List.mem_append_right _ hm))
    · exact List.mem_append_right _ (hk.reported hm)
  cases hst with
  | closeClient ha =>
    rename_i g rest
    have hg : g ∈ s.front := by
      refine List.mem_append_left _ ?_
      rw [ha]
      exact List.mem_singleton_self g
    refine registered_close hk (List.mem_append_left _ hg) hh fun he => ?_
    have heq := hk.eq_of_conn (List.mem_append_left _ hg) (List.mem_append_right _ hh) he
    exact hk.notMem_front hh (heq ▸ hg)
  | closeUnregistered hr | closePeer hr | closeError hr => exact htarget _ (by rw [hr]; rfl)
  | deliver _ _ _ | peerClose _ | peerError _ | readOnce _ | readClient _ _ | epollWait _ _ =>
    simpa using hh
  | epollAdd _ _ _ =>
    rw [Kernel.registered_epollAdd]
    exact List.mem_append_left _ hh
  | _ => exact hh

/-! ### The notes -/

/-- What is known to be dead has been accepted, and what the reader will close for being
dead is noted. -/
structure Mourns (s : Sys) (dead : List Handle) : Prop where
  sound : s.Sound
  old : ∀ h ∈ dead, h.conn < s.kern.nextConn
  accepted : ∀ h ∈ dead, h.conn ∉ s.kern.backlog
  noted : s.reader.doomed ⊆ dead

theorem Step.backlog_mem (hst : Step listenfd s a t) : s.kern.nextConn ≤ t.kern.nextConn ∧
    ∀ c ∈ t.kern.backlog, c ∈ s.kern.backlog ∨ c = s.kern.nextConn := by
  cases hst with
  | connect addr =>
    refine ⟨Nat.le_succ _, fun c hc => ?_⟩
    exact (List.mem_append.mp hc).imp_right List.mem_singleton.mp
  | accept _ _ => exact ⟨Nat.le_refl _, fun c hc => .inl (List.mem_of_mem_tail hc)⟩
  | readOnce _ | readClient _ _ =>
    rw [Kernel.read_nextConn, Kernel.read_backlog]
    exact ⟨Nat.le_refl _, fun c hc => .inl hc⟩
  | _ => exact ⟨Nat.le_refl _, fun c hc => .inl hc⟩

/-- The reader learns of connections in its hand or in the interest list. -/
theorem Sound.learns_mem (hs : s.Sound) {b : ReaderAct} (hst : Step listenfd s (.reader b) t) :
    ∀ h ∈ s.learns b, h ∈ s.front ++ s.kern.registered := by
  intro h hh
  cases hst with
  | epollWait hr hm =>
    obtain ⟨e, he, rfl⟩ := List.mem_map.mp hh
    obtain ⟨i, hi, hd, -⟩ := hm.2.2 e (List.mem_of_mem_filter he)
    exact List.mem_append_right _ (hd ▸ List.mem_map_of_mem hi)
  | epollAdd hr hf hnew => simp [learns, hr] at hh
  | epollAddFails hr =>
    rename_i g
    have hg : h = g := by simpa [learns, hr] using hh
    refine List.mem_append_left _ (List.mem_append_right _ (List.mem_append_right _ ?_))
    rw [hr, hg]
    exact List.mem_singleton_self g
  | readClient hr hf =>
    rename_i fault g rest
    have hg : h = g := by
      simp only [learns, hr] at hh
      split at hh
      · exact List.mem_singleton.mp hh
      · exact List.mem_singleton.mp hh
      all_goals cases hh
    refine List.mem_append_right _ (hs.tracks.reported ?_)
    rw [hr, hg]
    exact List.mem_cons_self
  | readPipe _ _ | readEmpty _ _ | readFails _ | setNoBlocking _ | closeUnregistered _
  | closePeer _ | closeError _ => cases hh

theorem mem_noteDead :
    h ∈ s.noteDead a dead ↔ (∃ b, a = .reader b ∧ h ∈ s.learns b) ∨ h ∈ dead := by
  cases a with
  | reader b => simp [noteDead]
  | env e | acceptor b => simp [noteDead]

theorem doomed_afterReadPipe (v : Verdict) (conn : Conn) :
    (Reader.afterReadPipe v conn).doomed = [] := by
  unfold Reader.afterReadPipe
  split
  · rfl
  · rfl
  · rfl
  · split_ifs <;> rfl

/-- The reader is going to close only what it knew to be dead, or has just learned of. -/
theorem Step.doomed_subset (hst : Step listenfd s a t) :
    ∀ h ∈ t.reader.doomed, h ∈ s.reader.doomed ∨ ∃ b, a = .reader b ∧ h ∈ s.learns b := by
  intro h hh
  cases hst with
  | readPipe hr _ | readEmpty hr _ =>
    rw [doomed_afterReadPipe] at hh
    cases hh
  | setNoBlocking hr =>
    rename_i ok g
    cases ok <;> cases hh
  | readFails _ | epollAdd _ _ _ | closeUnregistered _ | closePeer _ => cases hh
  | epollAddFails hr =>
    refine .inr ⟨_, rfl, ?_⟩
    simpa [learns, hr, Reader.afterEpollAdd, Reader.doomed] using hh
  | epollWait hr hm =>
    rw [Reader.doomed_forEvents] at hh
    exact .inr ⟨_, rfl, hh⟩
  | closeError hr =>
    rw [Reader.doomed_forEvents] at hh
    rw [hr]
    exact .inl (List.mem_cons_of_mem _ hh)
  | readClient hr hf =>
    rename_i fault g rest
    rw [Reader.doomed_afterRead] at hh
    split at hh
    · rw [hr]
      exact .inl hh
    · rw [hr]
      exact .inl hh
    · rename_i hres
      exact .inr ⟨_, rfl, by simpa only [learns, hr, hres] using hh⟩
    all_goals cases hh
  | _ => exact .inl hh

theorem Mourns.step (hm : s.Mourns dead) (hst : Step listenfd s a t) :
    t.Mourns (s.noteDead a dead) := by
  obtain ⟨hnext, hback⟩ := hst.backlog_mem
  have hk := hm.sound.tracks
  have hdead : ∀ h ∈ s.noteDead a dead, h.conn < s.kern.nextConn ∧ h.conn ∉ s.kern.backlog := by
    intro h hh
    rcases mem_noteDead.mp hh with ⟨b, rfl, hb⟩ | hd
    · have hmem := List.mem_map_of_mem (f := Handle.conn) (hm.sound.learns_mem hst h hb)
      refine ⟨hk.old _ (List.mem_append_left _ hmem), fun hc => ?_⟩
      exact (List.nodup_append'.mp hk.known).2.2 hmem hc
    · exact ⟨hm.old h hd, hm.accepted h hd⟩
  refine ⟨hm.sound.step hst, fun h hh => Nat.lt_of_lt_of_le (hdead h hh).1 hnext, ?_, ?_⟩
  · intro h hh hc
    rcases hback _ hc with hc | hc
    · exact (hdead h hh).2 hc
    · exact absurd hc (Nat.ne_of_lt (hdead h hh).1)
  · intro h hh
    refine mem_noteDead.mpr ((hst.doomed_subset h hh).symm.imp_right fun hd => hm.noted hd)

/-! ### Closing what is dead -/

/-- What is known to be dead and still open is about to be closed. -/
def Buried (s : Sys) (dead : List Handle) : Prop :=
  ∀ h ∈ dead, s.kern.Open h → h ∈ s.reader.doomed

/-- A dead connection is open and registered, and the reader is past closing it. -/
def Owing (s : Sys) (dead : List Handle) : Prop :=
  s.Mourns dead ∧ ∃ h ∈ dead, h ∈ s.kern.registered ∧
    (s.reader = .readPipe ∨ ∃ g, s.reader = .closePeer g ∧ g.conn ≠ h.conn)

/-- What the reader was going to close it closes, or is still going to. -/
theorem Step.doomed_kept (hst : Step listenfd s a t) (hg : s.PassesOverNone a)
    (hh : h ∈ s.reader.doomed) (ho : t.kern.Open h) : h ∈ t.reader.doomed := by
  cases hst with
  | readPipe hr _ | readEmpty hr _ | readFails hr | setNoBlocking hr | epollAdd hr _ _
  | epollAddFails hr | epollWait hr _ =>
    rw [hr] at hh
    cases hh
  | closeUnregistered hr | closePeer hr =>
    rw [hr] at hh
    obtain rfl := List.mem_singleton.mp hh
    exact absurd ho (s.kern.not_open_close _)
  | closeError hr =>
    rw [hr] at hh
    rw [Reader.doomed_forEvents]
    rcases List.mem_cons.mp hh with rfl | hh
    · exact absurd ho (s.kern.not_open_close _)
    · exact hh
  | readClient hr hf =>
    rename_i fault g rest
    rw [hr] at hh
    simp only [PassesOverNone, hr] at hg
    rw [Reader.doomed_afterRead]
    have hrest : h ∈ failures rest := hh
    -- a read that leaves the batch has no failed connection behind it
    cases hres : (s.kern.read g.fd 1024 fault).1 with
    | bytes n =>
      cases n with
      | zero =>
        simp only [hres] at hg
        rw [hg] at hrest
        cases hrest
      | succ n => exact hrest
    | error e =>
      cases e with
      | eintr => exact hrest
      | eagain =>
        simp only [hres] at hg
        rw [hg] at hrest
        cases hrest
      | other => simp only [hres] at hg
  | _ => exact hh

/-- What a call tells the reader to be dead it is going to close. -/
theorem Step.learned_doomed {b : ReaderAct} (hst : Step listenfd s (.reader b) t)
    (hg : s.PassesOverNone (.reader b)) (hh : h ∈ s.learns b) : h ∈ t.reader.doomed := by
  cases hst with
  | epollAdd hr _ _ => simp [learns, hr] at hh
  | epollAddFails hr => simpa [learns, hr, Reader.afterEpollAdd, Reader.doomed] using hh
  | epollWait hr hm =>
    rw [Reader.doomed_forEvents]
    exact hh
  | readClient hr hf =>
    simp only [PassesOverNone, hr] at hg
    simp only [learns, hr] at hh
    rw [Reader.doomed_afterRead]
    split at hh
    next hres => rwa [hres]
    next hres => simp only [hres] at hg
    all_goals cases hh
  | readPipe _ _ | readEmpty _ _ | readFails _ | setNoBlocking _ | closeUnregistered _
  | closePeer _ | closeError _ => cases hh

theorem Buried.step (hm : s.Mourns dead) (hb : s.Buried dead) (hst : Step listenfd s a t)
    (hg : s.PassesOverNone a) : t.Buried (s.noteDead a dead) := by
  intro h hh ho
  rcases mem_noteDead.mp hh with ⟨b, rfl, hl⟩ | hd
  · exact hst.learned_doomed hg hl
  · have hopen : s.kern.Open h := hst.open_back (hm.old h hd) (hm.accepted h hd) ho
    exact hst.doomed_kept hg (hb h hd hopen) ho

/-- A read that passes over a dead connection leaves it open. -/
theorem Mourns.owing (hm : s.Mourns dead) (hst : Step listenfd s a t)
    (hg : ¬ s.PassesOverNone a) : t.Owing (s.noteDead a dead) := by
  refine ⟨hm.step hst, ?_⟩
  cases hst with
  | readClient hr hf =>
    rename_i fault g rest
    have hk := hm.sound.tracks
    rw [hr] at hk
    have hreg : ∀ h ∈ g :: rest.map EpollEvent.data,
        h ∈ (s.kern.read g.fd 1024 fault).2.registered := by
      intro h hh
      rw [Kernel.registered_read]
      exact hk.reported hh
    -- a failed connection behind the read is known since the report
    have hbehind : failures rest ≠ [] →
        ∃ h ∈ dead, h ∈ g :: rest.map EpollEvent.data ∧ g.conn ≠ h.conn := by
      intro hne
      obtain ⟨h, hh⟩ := List.exists_mem_of_ne_nil _ hne
      have hmem : h ∈ rest.map EpollEvent.data := failures_subset rest hh
      have hin : h ∈ g :: rest.map EpollEvent.data := List.mem_cons_of_mem _ hmem
      refine ⟨h, hm.noted (by rw [hr]; exact hh), hin, fun he => ?_⟩
      have hgh : g = h := hk.eq_of_conn (List.mem_append_right _ (hk.reported List.mem_cons_self))
        (List.mem_append_right _ (hk.reported hin)) he
      exact (List.nodup_cons.mp hk.distinct).1 (hgh ▸ hmem)
    simp only [PassesOverNone, hr] at hg
    cases hres : (s.kern.read g.fd 1024 fault).1 with
    | bytes n =>
      cases n with
      | zero =>
        simp only [hres] at hg
        obtain ⟨h, hd, hin, hne⟩ := hbehind hg
        exact ⟨h, mem_noteDead.mpr (.inr hd), hreg h hin, .inr ⟨g, rfl, hne⟩⟩
      | succ n => simp only [hres, not_true_eq_false] at hg
    | error e =>
      cases e with
      | eintr => simp only [hres, not_true_eq_false] at hg
      | eagain =>
        simp only [hres] at hg
        obtain ⟨h, hd, hin, -⟩ := hbehind hg
        exact ⟨h, mem_noteDead.mpr (.inr hd), hreg h hin, .inl rfl⟩
      | other =>
        have hl : g ∈ s.learns (.readClient fault) := by simp [learns, hr, hres]
        exact ⟨g, mem_noteDead.mpr (.inl ⟨_, rfl, hl⟩), hreg g List.mem_cons_self, .inl rfl⟩
  | _ => exact absurd trivial hg

/-- While the reader closes another connection, the one passed over stays open. -/
theorem Owing.step (ho : s.Owing dead) (hst : Step listenfd s a t) :
    ¬ DeadClosed (s, dead) ∨ t.Owing (s.noteDead a dead) := by
  obtain ⟨hm, h, hd, hreg, hr | ⟨g, hr, hne⟩⟩ := ho
  · refine .inl fun hclosed => hclosed hr h hd ?_
    exact hm.sound.tracks.file_of_mem (List.mem_append_right _ hreg)
  · have htarget : ∀ x, s.reader.target = some x → x.conn ≠ h.conn := by
      intro x hx
      rw [hr] at hx
      cases hx
      exact hne
    refine .inr ⟨hm.step hst, h, mem_noteDead.mpr (.inr hd),
      hm.sound.registered_kept hst hreg htarget, ?_⟩
    cases hst with
    | closePeer _ => exact .inl rfl
    | readPipe h' _ | readEmpty h' _ | readFails h' | setNoBlocking h' | epollAdd h' _ _
    | epollAddFails h' | closeUnregistered h' | epollWait h' _ | readClient h' _
    | closeError h' =>
      have hcontra := hr.symm.trans h'
      cases hcontra
    | _ => exact .inr ⟨g, hr, hne⟩

end Sys

/-- In every run that has come back to the top of the loop, no connection known to be dead
was open there at any time, if and only if no read failed for another reason than
interruption or an empty queue, and no read that ended a batch had a failed connection
behind it. -/
theorem dead_closed_iff {listenfd : Int32} {p₀ p : Sys × List Handle}
    {tr : List ((Sys × List Handle) × Act)} (hi : (mourned listenfd).init p₀)
    (hr : Run (mourned listenfd) p₀ tr p) (htop : p.1.reader = .readPipe) :
    Always (fun q _ => DeadClosed q) tr ∧ DeadClosed p ↔
      Always (fun q a => q.1.PassesOverNone a) tr := by
  have hsound : p₀.1.Mourns p₀.2 ∧ p₀.1.Buried p₀.2 := by
    obtain ⟨hs, hdead⟩ := hi
    rw [hdead]
    refine ⟨⟨hs.sound, List.forall_mem_nil _, List.forall_mem_nil _, ?_⟩, List.forall_mem_nil _⟩
    rw [hs.reader]
    exact List.nil_subset _
  have hclosed : ∀ q : Sys × List Handle, q.1.Buried q.2 → DeadClosed q := by
    intro q hb hq h hh ho
    have hd := hb h hh ho
    rw [hq] at hd
    cases hd
  have hguard : ∀ q a q', (q.1.Mourns q.2 ∧ q.1.Buried q.2) → q.1.PassesOverNone a →
      (mourned listenfd).step q a = some q' →
      DeadClosed q ∧ q'.1.Mourns q'.2 ∧ q'.1.Buried q'.2 := by
    rintro q a q' ⟨hm, hb⟩ hG hk
    obtain ⟨hst, hnote⟩ := noting_cases hk
    refine ⟨hclosed q hb, ?_⟩
    rw [hnote]
    exact ⟨hm.step (Sys.step_cases hst), hb.step hm (Sys.step_cases hst) hG⟩
  have hbreak : ∀ q a q', (q.1.Mourns q.2 ∧ q.1.Buried q.2) → ¬ q.1.PassesOverNone a →
      (mourned listenfd).step q a = some q' → ¬ DeadClosed q ∨ q'.1.Owing q'.2 := by
    rintro q a q' ⟨hm, -⟩ hG hk
    obtain ⟨hst, hnote⟩ := noting_cases hk
    rw [hnote]
    exact .inr (hm.owing (Sys.step_cases hst) hG)
  have howe : ∀ q a q', q.1.Owing q.2 → (mourned listenfd).step q a = some q' →
      ¬ DeadClosed q ∨ q'.1.Owing q'.2 := by
    intro q a q' ho hk
    obtain ⟨hst, hnote⟩ := noting_cases hk
    rw [hnote]
    exact ho.step (Sys.step_cases hst)
  rcases hr.guarded_or_owing hguard hbreak howe hsound with ⟨hG, hP, hs⟩ | ⟨hG, hP⟩
  · exact iff_of_true ⟨hP, hclosed p hs.2⟩ hG
  · refine iff_of_false (fun ⟨hall, hp⟩ => ?_) hG
    rcases hP with hP | ⟨hm, h, hd, hreg, -⟩
    · exact hP hall
    · exact hp htop h hd (hm.sound.tracks.file_of_mem (List.mem_append_right _ hreg))

/-- The first client, registered, closes its side, and the reader closes. -/
def firstClientCloses : List Act :=
  firstClient ++ [.env (.peerClose 0), .reader (.epollWait [firstReadable]),
    .reader (.readClient none), .reader .closePeer]

/-- The first client, registered, resets: the read fails and the loop goes on. -/
def firstClientResets : List Act :=
  firstClient ++ [.env (.peerError 0), .reader (.epollWait [firstReadable]),
    .reader (.readClient (some .other))]

theorem dead_closed_first_client : ∃ p tr, Run (mourned 5) (Sys.start, []) tr p ∧
    p.2 = [⟨8, 0⟩] ∧ DeadClosed p ∧ Always (fun q a => q.1.PassesOverNone a) tr := by
  have hall : Always (fun q _ => DeadClosed q)
      (trace (mourned 5) (Sys.start, []) firstClientCloses) := by
    unfold Always
    decide +kernel
  obtain ⟨p, hr, htop, hdead, hend⟩ := exists_run_of_exec (S := mourned 5) (Sys.start, [])
    firstClientCloses (P := fun p => p.1.reader = .readPipe ∧ p.2 = [⟨8, 0⟩] ∧ DeadClosed p)
    (by decide +kernel)
  have hi : (mourned 5).init (Sys.start, []) := ⟨Sys.initial_start, rfl⟩
  exact ⟨p, _, hr, hdead, hend, (dead_closed_iff hi hr htop).mp ⟨hall, hend⟩⟩

/-- A reset connection stays open, and known to be dead. -/
theorem dead_open_first_client : ¬ ∀ listenfd p, Reachable (mourned listenfd) p → DeadClosed p := by
  intro hall
  obtain ⟨p, hr, htop, hdead, ho⟩ := exists_reachable_of_exec (S := mourned 5)
    (s := (Sys.start, [])) ⟨Sys.initial_start, rfl⟩ firstClientResets
    (P := fun p => p.1.reader = .readPipe ∧ p.2 = [⟨8, 0⟩] ∧ p.1.kern.Open ⟨8, 0⟩)
    (by decide +kernel)
  exact hall 5 p hr htop ⟨8, 0⟩ (by rw [hdead]; exact List.mem_singleton_self _) ho

end BaseCom.Epoll
