import BaseCom.Epoll.Rationing

/-! Visitors keep the reader going. A client that connects and closes at once gives the reader
a message and so a pass, and each pass reads one more buffer of another client. So the bound on
what is read of a client is attained, whatever number of clients it is to share. -/

namespace BaseCom.Epoll

open Transition

theorem Reader.afterRead_full (h : Handle) (rest : List (EpollEvent Handle)) :
    afterRead (.bytes 1024) h rest = forEvents rest := rfl

theorem Reader.afterRead_end (h : Handle) (rest : List (EpollEvent Handle)) :
    afterRead (.bytes 0) h rest = .closePeer h := rfl

namespace Traffic

/-- A moment at which both threads are at the head of their loops. Numbers 8 and 9 are those of
one connection and of a visitor. -/
structure Scene where
  inFlight : List Handle
  arrived : ℕ
  eight : Option Conn
  nine : Option Conn
  interest : List EpItem
  got : ℕ

/-- The state as far as connection `c`, whose queue is empty, and the visitor go. -/
structure Fits (c : Conn) (x : Scene) (t : Traffic) : Prop where
  acceptor : t.sys.acceptor = .epollWait
  reader : t.sys.reader = .readPipe
  inFlight : t.sys.inFlight = x.inFlight
  backlog : t.sys.kern.backlog = []
  arrived : t.sys.kern.nextConn = x.arrived
  eight : t.sys.kern.file 8 = x.eight.map .conn
  nine : t.sys.kern.file 9 = x.nine.map .conn
  interest : t.sys.kern.interest = x.interest
  dry : c < x.arrived → t.sys.kern.sock c = ⟨0, false⟩
  closed : ∀ v ∈ x.nine, t.sys.kern.sock v = ⟨0, true⟩
  unread : t.unread c = []
  got : (t.received c).length = x.got

/-- Some run comes to the scene. -/
def Shows (listenfd : Int32) (c : Conn) (x : Scene) : Prop :=
  ∃ t, Reachable (traffic listenfd) t ∧ t.Fits c x

variable {listenfd : Int32} {c n v : Conn} {x y : Scene} {k : ℕ}

theorem Shows.exec (as : List TrafficAct) (h : Shows listenfd c x)
    (hexec : ∀ t, t.sys.Sound → t.Fits c x →
      ∃ u, Transition.exec (traffic listenfd) t as = some u ∧ u.Fits c y) :
    Shows listenfd c y := by
  obtain ⟨t, hr, hx⟩ := h
  obtain ⟨u, hu, hy⟩ := hexec t (sound_of_reachable hr).sys hx
  exact ⟨u, hr.trans (run_of_exec hu), hy⟩

/-- Bytes that one read takes. -/
theorem exists_bytes (n : ℕ) :
    ∃ bytes : Bytes, bytes.length = n ∧ bytes.drop n = [] ∧ bytes.take n = bytes := by
  have hlen : (List.replicate n (0 : UInt8)).length = n := List.length_replicate
  exact ⟨_, hlen, List.drop_eq_nil_of_le hlen.le, List.take_of_length_le hlen.le⟩

theorem closed_none {sock : Conn → Socket} : ∀ v ∈ (none : Option Conn), sock v = ⟨0, true⟩ :=
  fun v hv => absurd hv (Option.not_mem_none v)

theorem shows_start (listenfd : Int32) (c : Conn) :
    Shows listenfd c ⟨[], 0, none, none, [], 0⟩ := by
  refine ⟨start, .of_init (traffic_init listenfd), ?_⟩
  exact ⟨rfl, rfl, rfl, rfl, rfl, rfl, rfl, rfl, fun hc => absurd hc (Nat.not_lt_zero c),
    closed_none, rfl, rfl⟩

/-- A visitor connects, closes, and is accepted. -/
theorem Shows.visit {eight : Option Conn} {items : List EpItem}
    (h : Shows listenfd c ⟨[], n, eight, none, items, k⟩) (hc : c ≠ n)
    (hi : ∀ i ∈ items, i.file ≠ n) :
    Shows listenfd c ⟨[⟨9, n⟩], n + 1, eight, some n, items, k⟩ := by
  refine h.exec [.other (.env (.connect ⟨16777343, 4661⟩)), .other (.env (.peerClose n)),
    .other (.acceptor (.epollWait true)), .other (.acceptor (.accept 9)),
    .other (.acceptor (.readClient none)), .other (.acceptor (.writePipe .zero true))] ?_
  rintro ⟨⟨⟨file, sock, peer, nextConn, backlog, edge, interest⟩, pipe, acceptor, reader,
    inFlight⟩, sent, unread, pieces⟩ - ⟨ha, hr, hf, hb, hn, h8, h9, hint, hdry, -, hu, hg⟩
  dsimp only [Option.map_none, received, piecesOf] at ha hr hf hb hn h8 h9 hint hdry hu hg
  subst ha hr hf hb hn hint
  -- the visitor is not registered, so its close wakes nothing
  have hwake : (interest.map fun i =>
      if i.file = nextConn then { i with edge := true } else i) = interest :=
    (List.map_congr_left fun i hmem => if_neg (hi i hmem)).trans (List.map_id' _)
  refine ⟨{
    sys := {
      kern := {
        file := Function.update file 9 (some (.conn nextConn))
        sock := Function.update sock nextConn ⟨0, true⟩
        peer := Function.update peer nextConn ⟨16777343, 4661⟩
        nextConn := nextConn + 1
        backlog := []
        listenEdge := false
        interest := interest }
      pipe := pipe.write ⟨1, 9, 16777343, 4661⟩ .zero
      acceptor := .epollWait
      reader := .readPipe
      inFlight := [⟨9, nextConn⟩] }
    sent := sent
    unread := Function.update unread nextConn ((unread nextConn).drop 39)
    pieces := pieces ++ [⟨.acceptor, ⟨9, nextConn⟩, (unread nextConn).take 39⟩] }, ?_, ?_⟩
  · simp [Transition.exec, traffic, step, Act.delivers, Sys.step, Sys.envStep, Sys.acceptorStep,
      Sys.reading, Kernel.arrive, Kernel.peerClose, Kernel.wake, hwake, Acceptor.forEvents,
      Sys.listenEvent, EventMask.readable, Kernel.MayAccept, h9, Acceptor.afterAccept,
      Kernel.accept, Kernel.blocks, Socket.readable, Kernel.read, Traffic.read, Party.limit,
      Acceptor.afterRead, Acceptor.afterWrite]
  · refine ⟨rfl, rfl, rfl, rfl, rfl, ?_, ?_, rfl, fun hlt => ?_, ?_, ?_, ?_⟩
    · simpa using h8
    · simp
    · have hlt' : c < nextConn := Nat.lt_of_le_of_ne (Nat.lt_succ_iff.mp hlt) hc
      simpa [hc] using hdry hlt'
    · simp
    · simpa [hc] using hu
    · simpa [received, piecesOf, hc.symm] using hg

/-- Before the connection has come, the reader sees the visitor off. -/
theorem Shows.leave (h : Shows listenfd c ⟨[⟨9, v⟩], n, none, some v, [], k⟩) (hv : v ≠ c) :
    Shows listenfd c ⟨[], n, none, none, [], k⟩ := by
  refine h.exec [.other (.reader (.readPipe true)), .other (.reader (.setNoBlocking true)),
    .other (.reader (.epollAdd true)), .other (.reader (.epollWait [⟨.readable, ⟨9, v⟩⟩])),
    .other (.reader (.readClient none)), .other (.reader .closePeer)] ?_
  rintro ⟨⟨⟨file, sock, peer, nextConn, backlog, edge, interest⟩, pipe, acceptor, reader,
    inFlight⟩, sent, unread, pieces⟩ hs ⟨ha, hr, hf, hb, hn, h8, h9, hint, hdry, hcl, hu, hg⟩
  have hread := (hs.read_inFlight hf).2
  dsimp only [Option.map_some, Option.map_none, received, piecesOf] at *
  subst ha hr hf hb hn hint
  refine ⟨{
    sys := {
      kern := ⟨Function.update file 9 none, sock, peer, nextConn, [], edge, []⟩
      pipe := pipe.read.2
      acceptor := .epollWait
      reader := .readPipe
      inFlight := [] }
    sent := sent
    unread := Function.update unread v ((unread v).drop 1024)
    pieces := pieces ++ [⟨.reader, ⟨9, v⟩, (unread v).take 1024⟩] }, ?_, ?_⟩
  · simp [Transition.exec, traffic, step, Act.delivers, Sys.step, Sys.readerStep, Sys.reading,
      hread, h9, hcl v rfl, Reader.afterSetNoBlocking, Reader.afterEpollAdd, Kernel.epollAdd,
      Kernel.MayReport, Kernel.report, Reader.forEvents, EventMask.readable, Socket.readable,
      Kernel.read, Reader.afterRead_end, Traffic.read, Party.limit, Kernel.close]
  · refine ⟨rfl, rfl, rfl, rfl, rfl, ?_, ?_, rfl, hdry, closed_none, ?_, ?_⟩
    · simpa using h8
    · simp
    · simpa [hv.symm] using hu
    · simpa [received, piecesOf, hv] using hg

/-- The connection comes with 39 bytes, which the accept thread reads. -/
theorem Shows.greet (h : Shows listenfd c ⟨[], c, none, none, [], 0⟩) :
    Shows listenfd c ⟨[⟨8, c⟩], c + 1, some c, none, [], 39⟩ := by
  obtain ⟨bytes, hlen, hdrop, htake⟩ := exists_bytes 39
  refine h.exec [.other (.env (.connect ⟨16777343, 4660⟩)), .other (.acceptor (.epollWait true)),
    .other (.acceptor (.accept 8)), .send c bytes, .other (.acceptor (.readClient none)),
    .other (.acceptor (.writePipe .zero true))] ?_
  rintro ⟨⟨⟨file, sock, peer, nextConn, backlog, edge, interest⟩, pipe, acceptor, reader,
    inFlight⟩, sent, unread, pieces⟩ - ⟨ha, hr, hf, hb, hn, h8, h9, hint, -, -, hu, hg⟩
  dsimp only [Option.map_none, received, piecesOf] at ha hr hf hb hn h8 h9 hint hu hg
  subst ha hr hf hb hn hint
  refine ⟨{
    sys := {
      kern := {
        file := Function.update file 8 (some (.conn nextConn))
        sock := Function.update sock nextConn ⟨0, false⟩
        peer := Function.update peer nextConn ⟨16777343, 4660⟩
        nextConn := nextConn + 1
        backlog := []
        listenEdge := false
        interest := [] }
      pipe := pipe.write ⟨1, 8, 16777343, 4660⟩ .zero
      acceptor := .epollWait
      reader := .readPipe
      inFlight := [⟨8, nextConn⟩] }
    sent := Function.update sent nextConn (sent nextConn ++ bytes)
    unread := Function.update unread nextConn []
    pieces := pieces ++ [⟨.acceptor, ⟨8, nextConn⟩, bytes⟩] }, ?_, ?_⟩
  · simp [Transition.exec, traffic, step, Act.delivers, Sys.step, Sys.envStep, Sys.acceptorStep,
      Sys.reading, hlen, hdrop, htake, hu, Kernel.arrive, Kernel.deliver, Kernel.wake,
      Acceptor.forEvents, Sys.listenEvent, EventMask.readable, Kernel.MayAccept, h8,
      Acceptor.afterAccept, Kernel.accept, Kernel.blocks, Socket.readable, Kernel.read,
      Kernel.consume, Traffic.read, Party.limit, Acceptor.afterRead, Acceptor.afterWrite]
  · refine ⟨rfl, rfl, rfl, rfl, rfl, ?_, ?_, rfl, fun _ => ?_, closed_none, ?_, ?_⟩
    · simp
    · simpa using h9
    · simp
    · simp
    · simpa [received, piecesOf, hlen] using hg

/-- The connection is registered, sends a full buffer, and the pass reads it. -/
theorem Shows.join (h : Shows listenfd c ⟨[⟨8, c⟩], c + 1, some c, none, [], k⟩) :
    Shows listenfd c ⟨[], c + 1, some c, none, [⟨⟨8, c⟩, c, false⟩], k + 1024⟩ := by
  obtain ⟨bytes, hlen, hdrop, htake⟩ := exists_bytes 1024
  refine h.exec [.other (.reader (.readPipe true)), .other (.reader (.setNoBlocking true)),
    .other (.reader (.epollAdd true)), .send c bytes,
    .other (.reader (.epollWait [⟨.readable, ⟨8, c⟩⟩])), .other (.reader (.readClient none))] ?_
  rintro ⟨⟨⟨file, sock, peer, nextConn, backlog, edge, interest⟩, pipe, acceptor, reader,
    inFlight⟩, sent, unread, pieces⟩ hs ⟨ha, hr, hf, hb, hn, h8, h9, hint, hdry, -, hu, hg⟩
  have hread := (hs.read_inFlight hf).2
  dsimp only [Option.map_some, Option.map_none, received, piecesOf] at *
  subst ha hr hf hb hn hint
  have hdry := hdry (Nat.lt_succ_self c)
  refine ⟨{
    sys := {
      kern := {
        file := file
        sock := Function.update sock c ⟨0, false⟩
        peer := peer
        nextConn := c + 1
        backlog := []
        listenEdge := edge
        interest := [⟨⟨8, c⟩, c, false⟩] }
      pipe := pipe.read.2
      acceptor := .epollWait
      reader := .readPipe
      inFlight := [] }
    sent := Function.update sent c (sent c ++ bytes)
    unread := Function.update unread c []
    pieces := pieces ++ [⟨.reader, ⟨8, c⟩, bytes⟩] }, ?_, ?_⟩
  · simp [Transition.exec, traffic, step, Act.delivers, Sys.step, Sys.envStep, Sys.readerStep,
      Sys.reading, hread, hlen, hdrop, htake, hu, h8, hdry, Reader.afterSetNoBlocking,
      Reader.afterEpollAdd, Kernel.epollAdd, Kernel.deliver, Kernel.wake, Kernel.MayReport,
      Kernel.report, Reader.forEvents, EventMask.readable, Socket.readable, Kernel.read,
      Reader.afterRead_full, Kernel.consume, Traffic.read, Party.limit]
  · refine ⟨rfl, rfl, rfl, rfl, rfl, ?_, ?_, rfl, fun _ => ?_, closed_none, ?_, ?_⟩
    · simpa using h8
    · simpa using h9
    · simp
    · simp
    · simpa [received, piecesOf, hlen] using hg

/-- While the connection is registered, a visitor's message brings the pass that reads its next
full buffer, and sees the visitor off. -/
theorem Shows.serve
    (h : Shows listenfd c ⟨[⟨9, v⟩], n, some c, some v, [⟨⟨8, c⟩, c, false⟩], k⟩) (hc : c < n)
    (hv : v ≠ c) : Shows listenfd c ⟨[], n, some c, none, [⟨⟨8, c⟩, c, false⟩], k + 1024⟩ := by
  obtain ⟨bytes, hlen, hdrop, htake⟩ := exists_bytes 1024
  refine h.exec [.other (.reader (.readPipe true)), .other (.reader (.setNoBlocking true)),
    .other (.reader (.epollAdd true)), .send c bytes,
    .other (.reader (.epollWait [⟨.readable, ⟨8, c⟩⟩, ⟨.readable, ⟨9, v⟩⟩])),
    .other (.reader (.readClient none)), .other (.reader (.readClient none)),
    .other (.reader .closePeer)] ?_
  rintro ⟨⟨⟨file, sock, peer, nextConn, backlog, edge, interest⟩, pipe, acceptor, reader,
    inFlight⟩, sent, unread, pieces⟩ hs ⟨ha, hr, hf, hb, hn, h8, h9, hint, hdry, hcl, hu, hg⟩
  have hread := (hs.read_inFlight hf).2
  dsimp only [Option.map_some, received, piecesOf] at *
  subst ha hr hf hb hn hint
  have hdry := hdry hc
  refine ⟨{
    sys := {
      kern := {
        file := Function.update file 9 none
        sock := Function.update sock c ⟨0, false⟩
        peer := peer
        nextConn := nextConn
        backlog := []
        listenEdge := edge
        interest := [⟨⟨8, c⟩, c, false⟩] }
      pipe := pipe.read.2
      acceptor := .epollWait
      reader := .readPipe
      inFlight := [] }
    sent := Function.update sent c (sent c ++ bytes)
    unread := Function.update (Function.update unread c []) v ((unread v).drop 1024)
    pieces := pieces ++
      [⟨.reader, ⟨8, c⟩, bytes⟩, ⟨.reader, ⟨9, v⟩, (unread v).take 1024⟩] }, ?_, ?_⟩
  · simp [Transition.exec, traffic, step, Act.delivers, Sys.step, Sys.envStep, Sys.readerStep,
      Sys.reading, hread, hlen, hdrop, htake, hu, hc, h8, h9, hv, hv.symm, hdry, hcl v rfl,
      Reader.afterSetNoBlocking, Reader.afterEpollAdd, Kernel.epollAdd, Kernel.deliver,
      Kernel.wake, Kernel.MayReport, Kernel.report, Reader.forEvents, EventMask.readable,
      Socket.readable, Kernel.read, Reader.afterRead_full, Reader.afterRead_end, Kernel.consume,
      Traffic.read, Party.limit, Kernel.close]
  · refine ⟨rfl, rfl, rfl, rfl, rfl, ?_, ?_, rfl, fun _ => ?_, closed_none, ?_, ?_⟩
    · simpa using h8
    · simp
    · simp
    · simp [hv.symm]
    · simp [received, piecesOf, hlen, hv, hg]

/-- Every client before the connection is a visitor. -/
theorem shows_before (listenfd : Int32) (hn : n ≤ c) :
    Shows listenfd c ⟨[], n, none, none, [], 0⟩ := by
  induction n with
  | zero => exact shows_start listenfd c
  | succ n ih =>
    have hne : n ≠ c := Nat.ne_of_lt hn
    have hbefore := ih (Nat.le_of_succ_le hn)
    exact (hbefore.visit hne.symm (List.forall_mem_nil _)).leave hne

/-- And so is every client after it. -/
theorem shows_after (listenfd : Int32) (c m : ℕ) :
    Shows listenfd c
      ⟨[], c + 1 + m, some c, none, [⟨⟨8, c⟩, c, false⟩], 39 + 1024 * (m + 1)⟩ := by
  induction m with
  | zero =>
    rw [Nat.zero_add, Nat.mul_one]
    exact (shows_before listenfd (Nat.le_refl c)).greet.join
  | succ m ih =>
    have hne : c ≠ c + 1 + m := by omega
    have hvisit := ih.visit hne fun i hi => by
      rw [List.mem_singleton.mp hi]
      exact hne
    rw [Nat.mul_succ, ← Nat.add_assoc 39]
    have hlt : c < c + 1 + m + 1 := by omega
    exact hvisit.serve hlt hne.symm

end Traffic

/-- If `n` clients have connected, the most that can have been read of the one that came after
`c` others is one buffer of the accept thread, and one of the reader for itself and for each
that came after it, however much it sends and however long the server runs. -/
theorem isGreatest_received {c n : ℕ} (listenfd : Int32) (hc : c < n) :
    IsGreatest {k | ∃ t, Reachable (traffic listenfd) t ∧ t.sys.kern.nextConn = n ∧
      (t.received c).length = k} (39 + 1024 * (n - c)) := by
  constructor
  · obtain ⟨t, hr, hfits⟩ := Traffic.shows_after listenfd c (n - (c + 1))
    refine ⟨t, hr, ?_, ?_⟩
    · have hn : c + 1 + (n - (c + 1)) = n := by omega
      exact hfits.arrived.trans hn
    · have hn : 39 + 1024 * (n - (c + 1) + 1) = 39 + 1024 * (n - c) := by omega
      exact hfits.got.trans hn
  · rintro k ⟨t, hr, hn, rfl⟩
    have hration := Traffic.rationed_of_reachable hr
    have hreads := hration.reads c
    have hfrontier : t.sys.frontier ≤ n := by
      rw [← hn]
      exact hration.taking.order.foremost_le
    have hbytes := (Traffic.sound_of_reachable hr).length_received_le c
    have hle : 1024 * t.readsOf c ≤ 1024 * (n - c) := Nat.mul_le_mul_left _ (by omega)
    omega

/-- The last of three clients. -/
theorem isGreatest_received_last_of_three :
    IsGreatest {k | ∃ t, Reachable (traffic 5) t ∧ t.sys.kern.nextConn = 3 ∧
      (t.received 2).length = k} 1063 := isGreatest_received 5 (by decide)

end BaseCom.Epoll
