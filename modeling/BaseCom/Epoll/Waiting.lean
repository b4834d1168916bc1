import BaseCom.Epoll.Backlog
import BaseCom.Epoll.Stall
import BaseCom.Transition.Progress

/-! What a place in the backlog costs. A call of `accept` is paid for by the arrival of a
client, as an arrival is worth one edge at most, so those who are queued when the edge is used
up are worked off at the rate at which others come. How many have to come before a client
leaves the backlog is fixed by its place and by the calls that are paid for already; and where
the queue is full none can come. -/

namespace BaseCom.Epoll

open Transition

/-- `m_backlog`. A client is let into the queue while no more than so many are in it. -/
def listenBacklog : ℕ := 5

/-- The connections a call of `accept` takes off the backlog, if they are there. -/
def Act.accepting : Act → ℕ
  | .acceptor (.accept _) => 1
  | _ => 0

/-- The calls of `accept` that leave the backlog alone. -/
def Act.failing : Act → ℕ
  | .acceptor .acceptFails => 1
  | _ => 0

theorem Act.accepting_cases (a : Act) : a.accepting = 0 ∨ a.accepting = 1 := by
  unfold accepting
  split
  · exact .inr rfl
  · exact .inl rfl

namespace Sys

/-- The calls of `accept` the thread makes if nobody arrives. -/
def credit (listenfd : Int32) (s : Sys) : ℕ :=
  s.kern.listenEdge.toNat + s.acceptor.acceptsLeft listenfd

/-- Since `s`, `k` clients have arrived and those in `gone` have left the backlog, in order and
paid for. -/
structure Behind (listenfd : Int32) (s t : Sys) (k : ℕ) (gone : List Conn) : Prop where
  arrived : t.kern.nextConn = s.kern.nextConn + k
  queue : s.kern.backlog ++ List.range' s.kern.nextConn k = gone ++ t.kern.backlog
  paid : gone.length + t.credit listenfd ≤ s.credit listenfd + k

variable {listenfd : Int32} {s t u : Sys} {a : Act} {k : ℕ} {gone : List Conn}

theorem Behind.refl (s : Sys) : Behind listenfd s s 0 [] :=
  ⟨rfl, List.append_nil _, Nat.le_of_eq (Nat.zero_add _)⟩

/-- Where nobody arrives and nobody leaves. -/
theorem Behind.stay (h : Behind listenfd s t k gone) (hn : u.kern.nextConn = t.kern.nextConn)
    (hb : u.kern.backlog = t.kern.backlog) (hc : u.credit listenfd ≤ t.credit listenfd) :
    Behind listenfd s u k gone :=
  ⟨hn.trans h.arrived, by rw [hb]; exact h.queue, (Nat.add_le_add_left hc _).trans h.paid⟩

theorem Behind.connect (h : Behind listenfd s t k gone) (addr : SockaddrIn) :
    Behind listenfd s { t with kern := t.kern.arrive addr } (k + 1) gone := by
  refine ⟨?_, ?_, ?_⟩
  · simp only [Kernel.arrive, h.arrived, Nat.add_assoc]
  · rw [List.range'_concat, ← List.append_assoc, h.queue, Nat.one_mul, ← h.arrived]
    exact List.append_assoc _ _ _
  · have hpaid := h.paid
    simp only [credit, Kernel.arrive, Bool.toNat_true] at hpaid ⊢
    omega

theorem Behind.accept (h : Behind listenfd s t k gone)
    (hn : u.kern.nextConn = t.kern.nextConn) (hb : u.kern.backlog = t.kern.backlog.tail)
    (hc : u.credit listenfd + 1 ≤ t.credit listenfd) : ∃ gone, Behind listenfd s u k gone := by
  have hpaid := h.paid
  cases hl : t.kern.backlog with
  | nil =>
    rw [hl] at hb
    exact ⟨gone, h.stay hn (hb.trans hl.symm) (by omega)⟩
  | cons c cs =>
    rw [hl] at hb
    refine ⟨gone ++ [c], hn.trans h.arrived, ?_, ?_⟩
    · rw [h.queue, hl, hb]
      exact (List.append_assoc gone [c] cs).symm
    · rw [List.length_append, List.length_singleton]
      omega

/-- But for arrivals, the credit falls by the calls made, and each that does not fail takes one
client off. -/
theorem Step.credit_eq (hst : Step listenfd s a t) (harrive : ∀ addr, a ≠ .env (.connect addr)) :
    t.kern.nextConn = s.kern.nextConn ∧ t.kern.backlog = s.kern.backlog.drop a.accepting ∧
      t.credit listenfd + a.accepting + a.failing = s.credit listenfd := by
  cases hst with
  | connect addr => exact absurd rfl (harrive addr)
  | listenReport ha he =>
    refine ⟨rfl, rfl, ?_⟩
    rw [credit, credit, ha, he, Acceptor.acceptsLeft_forEvents, acceptsIn_listenEvent,
      Acceptor.acceptsLeft_epollWait]
    rfl
  | listenTimeout ha =>
    refine ⟨rfl, rfl, ?_⟩
    rw [credit, credit, ha]
    rfl
  | accept ha hfd =>
    refine ⟨rfl, List.drop_one.symm, ?_⟩
    rw [credit, credit, ha, Acceptor.acceptsLeft_afterAccept, Acceptor.acceptsLeft_accept]
    rfl
  | acceptFails ha =>
    refine ⟨rfl, rfl, ?_⟩
    rw [credit, credit, ha, Acceptor.acceptsLeft_forEvents, Acceptor.acceptsLeft_accept]
    rfl
  | readOnce ha =>
    refine ⟨Kernel.read_nextConn .., Kernel.read_backlog .., ?_⟩
    rw [credit, credit, ha, Kernel.read_listenEdge]
    rfl
  | writePipe ha | writeFails ha =>
    refine ⟨rfl, rfl, ?_⟩
    rw [credit, credit, ha, Acceptor.acceptsLeft_afterWrite, Acceptor.acceptsLeft_writePipe]
    rfl
  | closeClient ha =>
    refine ⟨rfl, rfl, ?_⟩
    rw [credit, credit, ha, Acceptor.acceptsLeft_forEvents, Acceptor.acceptsLeft_closeClient]
    rfl
  | readClient hr hf =>
    refine ⟨Kernel.read_nextConn .., Kernel.read_backlog .., ?_⟩
    rw [credit, credit, Kernel.read_listenEdge]
    rfl
  | _ => exact ⟨rfl, rfl, rfl⟩

theorem Step.behind (h : Behind listenfd s t k gone) (hst : Step listenfd t a u) :
    ∃ k gone, Behind listenfd s u k gone := by
  by_cases harrive : ∃ addr, a = .env (.connect addr)
  · obtain ⟨addr, rfl⟩ := harrive
    cases hst with
    | connect addr => exact ⟨k + 1, gone, h.connect addr⟩
  · obtain ⟨hn, hb, hc⟩ := hst.credit_eq (not_exists.mp harrive)
    rcases a.accepting_cases with hcall | hcall
    · rw [hcall] at hb
      exact ⟨k, gone, h.stay hn hb (by omega)⟩
    · rw [hcall] at hb
      exact ⟨k, h.accept hn (hb.trans List.drop_one) (by omega)⟩

variable {i : ℕ} {c : Conn}

/-- The kernel lets a client into the queue only where there is room. -/
def HasRoom (s : Sys) : Act → Prop
  | .env (.connect _) => s.kern.backlog.length ≤ listenBacklog
  | _ => True

/-- The clients and the accept thread alone act, and no call fails; where nobody is queued
`accept` has nobody to return. -/
def Smooth (s : Sys) : Act → Prop
  | .env a => s.HasRoom (.env a)
  | .acceptor (.accept fd) => 0 ≤ fd ∨ s.kern.backlog = []
  | .acceptor .acceptFails => False
  | .acceptor (.readClient fault) => fault = none
  | .acceptor (.writePipe _ ok) => ok = true
  | .acceptor (.epollWait _) | .acceptor .closeClient => True
  | .reader _ => False

/-- The accept thread waits, and no edge is pending. -/
def AtRest (s : Sys) : Prop := s.acceptor = .epollWait ∧ s.kern.listenEdge = false

/-- The numbers are free. -/
structure Free (fds : List Int32) (s : Sys) : Prop where
  nodup : fds.Nodup
  nonneg : ∀ fd ∈ fds, 0 ≤ fd
  free : ∀ fd ∈ fds, s.kern.file fd = none

/-- On the way from `s` the thread has spent some of its credit, and of the free numbers one
for each client it has taken off. -/
structure Working (listenfd : Int32) (fds : List Int32) (s t : Sys) : Prop where
  sound : t.Sound
  live : t.reader = s.reader
  arrived : t.kern.nextConn = s.kern.nextConn
  taken : t.kern.backlog.length ≤ s.kern.backlog.length
  paid : s.kern.backlog.length + t.credit listenfd ≤ t.kern.backlog.length + s.credit listenfd
  backlog : t.kern.backlog.length - t.credit listenfd ≤
    s.kern.backlog.length - s.credit listenfd
  free : t.Free (fds.drop (s.kern.backlog.length - t.kern.backlog.length))

variable {fds : List Int32}

theorem Free.drop (h : s.Free fds) (n : ℕ) : s.Free (fds.drop n) :=
  ⟨h.nodup.sublist (List.drop_sublist _ _), fun fd hfd => h.nonneg fd (List.mem_of_mem_drop hfd),
    fun fd hfd => h.free fd (List.mem_of_mem_drop hfd)⟩

/-- Only `accept` gives a number away. -/
theorem Step.file_eq_none (hst : Step listenfd s a t) (hno : a.accepting = 0) {fd : Int32}
    (hf : s.kern.file fd = none) : t.kern.file fd = none := by
  have hclose : ∀ fd', (s.kern.close fd').file fd = none := by
    intro fd'
    simp only [Kernel.close]
    rcases eq_or_ne fd fd' with rfl | hne
    · exact Function.update_self ..
    · exact (Function.update_of_ne hne _ _).trans hf
  cases hst with
  | accept ha hfd => cases hno
  | readOnce _ | readClient _ _ => exact (congrFun (Kernel.read_file ..) fd).trans hf
  | closeClient _ | closeUnregistered _ | closePeer _ | closeError _ => exact hclose _
  | _ => exact hf

theorem Free.step (h : s.Free fds) (hst : Step listenfd s a t) (hno : a.accepting = 0) :
    t.Free fds :=
  ⟨h.nodup, h.nonneg, fun fd hfd => hst.file_eq_none hno (h.free fd hfd)⟩

/-- The accept thread and its clients leave the reader where it is. -/
theorem Step.reader_eq (hst : Step listenfd s a t) (hno : ∀ b, a ≠ .reader b) :
    t.reader = s.reader := by
  cases hst with
  | readPipe _ _ | readEmpty _ _ | readFails _ | setNoBlocking _ | epollAdd _ _ _
  | epollAddFails _ | closeUnregistered _ | epollWait _ _ | readClient _ _ | closePeer _
  | closeError _ => exact absurd rfl (hno _)
  | _ => rfl

/-- The calls before the thread waits, with a client's bytes where its read needs them. -/
def workLeft (listenfd : Int32) (s : Sys) : ℕ :=
  5 * s.kern.listenEdge.toNat + 4 * s.acceptor.acceptsLeft listenfd +
    match s.acceptor with
    | .readClient h _ _ => 3 - (s.kern.sock h.conn).readable.toNat
    | .writePipe _ _ _ | .closeClient _ _ => 1
    | .epollWait | .accept _ => 0

theorem workLeft_of_hand (h : s.acceptor.hand = []) :
    workLeft listenfd s = 5 * s.kern.listenEdge.toNat + 4 * s.acceptor.acceptsLeft listenfd := by
  unfold workLeft
  cases ha : s.acceptor with
  | epollWait | accept rest => rfl
  | readClient _ _ _ | writePipe _ _ _ | closeClient _ _ =>
    rw [ha] at h
    cases h

/-- A call of `accept` is done, and what it may leave to do for its client is less. -/
theorem workLeft_afterAccept {rest : List (EpollEvent Int32)} (ha : s.acceptor = .accept rest)
    {k : Kernel} (hk : k.listenEdge = s.kern.listenEdge) (fd : Int32) (c : Conn)
    (addr : SockaddrIn) :
    workLeft listenfd { s with kern := k, acceptor := .afterAccept listenfd fd c addr rest } <
      workLeft listenfd s := by
  have hleft := Acceptor.acceptsLeft_afterAccept listenfd rest fd c addr
  rw [workLeft_of_hand (s := s) (by rw [ha]; rfl), ha, Acceptor.acceptsLeft_accept]
  unfold workLeft
  simp only [hleft, hk]
  unfold Acceptor.afterAccept
  split_ifs
  · simp only
    omega
  · rcases Acceptor.forEvents_cases listenfd rest with hw | ⟨more, hw⟩
    · rw [hw]
      simp only
      omega
    · rw [hw]
      simp only
      omega

theorem Working.start (hs : s.Sound) (hfree : s.Free fds) : Working listenfd fds s s where
  sound := hs
  live := rfl
  arrived := rfl
  taken := Nat.le_refl _
  paid := Nat.le_refl _
  backlog := Nat.le_refl _
  free := hfree.drop _

/-- A step that takes nobody off. -/
theorem Working.pass (h : Working listenfd fds s t) (hst : Step listenfd t a u)
    (hno : a.accepting = 0) (hsmooth : t.Smooth a) (harrive : ∀ addr, a ≠ .env (.connect addr)) :
    Working listenfd fds s u := by
  obtain ⟨hn, hb, hc⟩ := hst.credit_eq harrive
  have hfail : a.failing = 0 := by
    unfold Act.failing
    split
    · exact hsmooth.elim
    · rfl
  have hreader : ∀ b, a ≠ .reader b := by
    rintro b rfl
    exact hsmooth
  rw [hno, List.drop_zero] at hb
  rw [hno, hfail, Nat.add_zero] at hc
  refine ⟨h.sound.step hst, (hst.reader_eq hreader).trans h.live, hn.trans h.arrived,
    ?_, ?_, ?_, ?_⟩
  · rw [hb]
    exact h.taken
  · rw [hb, hc]
    exact h.paid
  · rw [hb, hc]
    exact h.backlog
  · rw [hb]
    exact h.free.step hst hno

/-- With a number for everybody it can still pay for there is one for the next. -/
theorem Working.exists_number (h : Working listenfd fds s t) {rest : List (EpollEvent Int32)}
    (ha : t.acceptor = .accept rest) (hne : t.kern.backlog ≠ [])
    (hfds : min (s.credit listenfd) s.kern.backlog.length ≤ fds.length) :
    ∃ fd, fds.drop (s.kern.backlog.length - t.kern.backlog.length) =
      fd :: fds.drop (s.kern.backlog.length - t.kern.backlog.length + 1) := by
  have hpaid := h.paid
  have htaken := h.taken
  have hpos := List.length_pos_of_ne_nil hne
  have hcredit : 1 ≤ t.credit listenfd := by
    rw [credit, ha, Acceptor.acceptsLeft_accept]
    omega
  exact ⟨_, List.drop_eq_getElem_cons (by omega)⟩

/-- The next client is taken off, under the next number. -/
theorem Working.accept (h : Working listenfd fds s t) {fd : Int32}
    (hst : Step listenfd t (.acceptor (.accept fd)) u) (hne : t.kern.backlog ≠ [])
    (hdrop : fds.drop (s.kern.backlog.length - t.kern.backlog.length) =
      fd :: fds.drop (s.kern.backlog.length - t.kern.backlog.length + 1)) :
    Working listenfd fds s u := by
  obtain ⟨hn, hb, hc⟩ := hst.credit_eq fun _ he => by cases he
  have hlen := congrArg List.length hb
  rw [List.length_drop] at hlen
  have hone : Act.accepting (.acceptor (.accept fd)) = 1 := rfl
  have hzero : Act.failing (.acceptor (.accept fd)) = 0 := rfl
  have hpos := List.length_pos_of_ne_nil hne
  have hpaid := h.paid
  have htaken := h.taken
  have hback := h.backlog
  have hfree := h.free
  rw [hdrop] at hfree
  obtain ⟨hnot, hnodup⟩ := List.nodup_cons.mp hfree.nodup
  refine ⟨h.sound.step hst, (hst.reader_eq fun _ he => by cases he).trans h.live,
    hn.trans h.arrived, by omega, by omega, by omega, ?_⟩
  have htail : s.kern.backlog.length - u.kern.backlog.length =
      s.kern.backlog.length - t.kern.backlog.length + 1 := by omega
  rw [htail]
  refine ⟨hnodup, fun g hg => hfree.nonneg g (List.mem_cons_of_mem _ hg), fun g hg => ?_⟩
  have hold := hfree.free g (List.mem_cons_of_mem _ hg)
  have hne' : g ≠ fd := fun he => hnot (he ▸ hg)
  cases hst with
  | accept ha hfd =>
    simp only [Kernel.accept]
    split_ifs
    · exact (Function.update_of_ne hne' _ _).trans hold
    · exact hold

/-- With nobody queued the call spends its credit. -/
theorem Working.acceptNobody (h : Working listenfd fds s t) {fd : Int32}
    (hst : Step listenfd t (.acceptor (.accept fd)) u) (hnil : t.kern.backlog = [])
    (hneg : fd < 0) :
    Working listenfd fds s u := by
  obtain ⟨hn, hb, hc⟩ := hst.credit_eq fun _ he => by cases he
  rw [hnil, List.drop_nil] at hb
  have hone : Act.accepting (.acceptor (.accept fd)) = 1 := rfl
  have hpaid := h.paid
  have hback := h.backlog
  have hfree := h.free
  rw [hnil] at hpaid hback hfree
  refine ⟨h.sound.step hst, (hst.reader_eq fun _ he => by cases he).trans h.live,
    hn.trans h.arrived, ?_, ?_, ?_, ?_⟩
  · rw [hb]
    exact Nat.zero_le _
  · rw [hb]
    omega
  · rw [hb, List.length_nil, Nat.zero_sub]
    exact Nat.zero_le _
  · rw [hb]
    refine ⟨hfree.nodup, hfree.nonneg, fun g hg => ?_⟩
    have hold := hfree.free g hg
    cases hst with
    | accept ha hfd =>
      simp only [Kernel.accept, if_neg (Int32.not_le.mpr hneg)]
      exact hold

/-- Until it waits with no edge pending the thread or the client it reads from has a step. -/
theorem Working.next (h : Working listenfd fds s t) (hlive : s.reader ≠ .exited)
    (hfds : min (s.credit listenfd) s.kern.backlog.length ≤ fds.length) (hrest : ¬ t.AtRest) :
    ∃ a u, (server listenfd).step t a = some u ∧ t.Smooth a ∧ Working listenfd fds s u ∧
      workLeft listenfd u < workLeft listenfd t := by
  have hlive : t.reader ≠ .exited := h.live ▸ hlive
  have hpass : ∀ a u, (server listenfd).step t a = some u → a.accepting = 0 → t.Smooth a →
      (∀ addr, a ≠ .env (.connect addr)) → workLeft listenfd u < workLeft listenfd t →
      ∃ a u, (server listenfd).step t a = some u ∧ t.Smooth a ∧ Working listenfd fds s u ∧
        workLeft listenfd u < workLeft listenfd t :=
    fun a u hk hno hsmooth harrive hlt =>
      ⟨a, u, hk, hsmooth, h.pass (step_cases hk) hno hsmooth harrive, hlt⟩
  cases ha : t.acceptor with
  | epollWait =>
    have he : t.kern.listenEdge = true := by
      rw [← Bool.not_eq_false]
      exact fun he => hrest ⟨ha, he⟩
    refine hpass (.acceptor (.epollWait true)) { t with
      kern := { t.kern with listenEdge := false }
      acceptor := .forEvents listenfd [listenEvent listenfd] } ?_ rfl trivial ?_ ?_
    · simp only [server, Sys.step, if_neg hlive, acceptorStep, ha, if_true, he]
    · rintro addr ⟨⟩
    · rw [workLeft_of_hand (Acceptor.hand_forEvents _ _), Acceptor.acceptsLeft_forEvents,
        acceptsIn_listenEvent, workLeft_of_hand (by rw [ha]; rfl), ha, he]
      exact Nat.lt_succ_self 4
  | accept rest =>
    have hcall : ∀ fd, t.kern.MayAccept fd → (server listenfd).step t (.acceptor (.accept fd)) =
        some { t with
          kern := t.kern.accept fd
          acceptor := .afterAccept listenfd fd (t.kern.backlog.headD t.kern.nextConn)
            (t.kern.peer (t.kern.backlog.headD t.kern.nextConn)) rest } := by
      intro fd hmay
      simp only [server, Sys.step, if_neg hlive, acceptorStep, ha, if_pos hmay]
    by_cases hnil : t.kern.backlog = []
    · have hk := hcall (-1) (.inl (by decide))
      exact ⟨_, _, hk, .inr hnil, h.acceptNobody (step_cases hk) hnil (by decide),
        workLeft_afterAccept ha rfl _ _ _⟩
    · obtain ⟨fd, hdrop⟩ := h.exists_number ha hnil hfds
      have hmem : fd ∈ fds.drop (s.kern.backlog.length - t.kern.backlog.length) := by
        rw [hdrop]
        exact List.mem_cons_self
      have hk := hcall fd (.inr ⟨hnil, h.free.free fd hmem⟩)
      exact ⟨_, _, hk, .inl (h.free.nonneg fd hmem), h.accept (step_cases hk) hnil hdrop,
        workLeft_afterAccept ha rfl _ _ _⟩
  | readClient g msg rest =>
    have hh := mem_hand_of_readClient ha
    have hblocks := h.sound.blocks_eq hh
    cases hread : (t.kern.sock g.conn).readable with
    | false =>
      have heof : (t.kern.sock g.conn).eof = false := by
        simp only [Socket.readable, Bool.or_eq_false_iff] at hread
        exact hread.2
      refine hpass (.env (.deliver g.conn 1)) { t with kern := t.kern.deliver g.conn 1 } ?_ rfl
        trivial ?_ ?_
      · have hok : g.conn < t.kern.nextConn ∧ 0 < 1 ∧ (t.kern.sock g.conn).eof = false :=
          ⟨h.sound.hand_old hh, Nat.one_pos, heof⟩
        simp only [server, Sys.step, if_neg hlive, envStep, if_pos hok]
      · rintro addr ⟨⟩
      · have hsent : Socket.readable ⟨(t.kern.sock g.conn).unread + 1, (t.kern.sock g.conn).eof⟩ =
            true := by simp [Socket.readable]
        simp only [workLeft, ha, hread, Kernel.deliver, Kernel.wake, Function.update_self, hsent]
        exact Nat.lt_succ_self _
    | true =>
      rw [hread, Bool.not_true] at hblocks
      refine hpass (.acceptor (.readClient none)) { t with
        kern := (t.kern.read g.fd 39 none).2
        acceptor := .afterRead g msg rest } ?_ rfl rfl ?_ ?_
      · simp [server, Sys.step, hlive, acceptorStep, ha, hblocks]
      · rintro addr ⟨⟩
      · simp only [workLeft, ha, hread, Kernel.read_listenEdge, Acceptor.afterRead,
          Acceptor.acceptsLeft_writePipe, Acceptor.acceptsLeft_readClient]
        exact Nat.lt_succ_self _
  | writePipe g msg rest =>
    refine hpass (.acceptor (.writePipe .zero true)) { t with
      pipe := t.pipe.write msg .zero
      acceptor := .afterWrite listenfd 14 g rest
      inFlight := t.inFlight ++ [g] } ?_ rfl rfl ?_ ?_
    · simp only [server, Sys.step, if_neg hlive, acceptorStep, ha, if_true]
    · rintro addr ⟨⟩
    · have hhand : (Acceptor.afterWrite listenfd 14 g rest).hand = [] :=
        Acceptor.hand_forEvents _ _
      rw [workLeft_of_hand hhand, Acceptor.acceptsLeft_afterWrite]
      simp only [workLeft, ha, Acceptor.acceptsLeft_writePipe]
      exact Nat.lt_succ_self _
  | closeClient g rest =>
    refine hpass (.acceptor .closeClient) { t with
      kern := t.kern.close g.fd
      acceptor := .forEvents listenfd rest } ?_ rfl trivial ?_ ?_
    · simp only [server, Sys.step, if_neg hlive, acceptorStep, ha]
    · rintro addr ⟨⟩
    · rw [workLeft_of_hand (Acceptor.hand_forEvents _ _), Acceptor.acceptsLeft_forEvents]
      simp only [workLeft, ha, Acceptor.acceptsLeft_closeClient]
      exact Nat.lt_succ_self _

theorem AtRest.credit_eq (h : s.AtRest) : s.credit listenfd = 0 := by
  rw [credit, h.1, h.2, Acceptor.acceptsLeft_epollWait]
  rfl

end Sys

end BaseCom.Epoll
