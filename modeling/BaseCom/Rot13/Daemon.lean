import BaseCom.Rot13.Connection
import BaseCom.Resource.Ledger

/-! The server as a whole. `event_base_dispatch` runs `do_accept` for the listener and the
callbacks of the bufferevents one at a time, in any order. A bufferevent knows its socket by
number alone, and numbers are given out again after a close; the table of descriptors says
which client a number is for. `SIGPIPE` is left at its default: a write to a connection its
client has broken may be the end of the process. -/

namespace BaseCom.Rot13

open Transition Resource

/-- A client, numbered in the order of arrival. -/
abbrev Client := ℕ

/-- What a descriptor number denotes. The listener, the descriptors of the event base and
the standard streams are `other`. -/
inductive File
  | conn (c : Client)
  | other
  deriving DecidableEq

/-- The client may send, has shut down its sending side, or its connection is broken. -/
inductive Peer
  | sending
  | finished
  | reset
  deriving DecidableEq

/-- The descriptor of a bufferevent. The code knows `fd`; `client` is history. -/
structure Socket where
  fd : ℤ
  client : Client
  deriving DecidableEq

/-- For each client, what it has sent, what of it the server has not read, what has been
written to its socket and what has become of its side; the live bufferevents, and the state of
each bufferevent ever made. -/
structure Daemon where
  alive : Bool
  file : ℤ → Option File
  sent : Client → Bytes
  unread : Client → Bytes
  written : Client → Bytes
  peer : Client → Peer
  next : Client
  backlog : List Client
  live : List Socket
  bev : Client → Connection

/-- What the clients do, and the callbacks with what the kernel answers. An `accept` that
fails leaves the backlog alone, or (`aborted`) has taken a connection that is gone. A client
takes bytes off the send buffer of the server's socket. In a pass the socket takes something if
it can, and the read event finds so many bytes, the end or an error. -/
inductive DaemonAct
  | connect
  | send (c : Client) (bytes : Bytes)
  | finish (c : Client)
  | reset (c : Client)
  | take (s : Socket) (n : ℕ)
  | accept (fd : ℤ) (sndbuf : SendBuffer)
  | aborted
  | pass (s : Socket) (offer : ℕ) (ready : Ready ℕ)
  | writeFails (s : Socket)
  | sigpipe (s : Socket)

namespace Ready

variable {ρ τ : Type}

def map (f : ρ → τ) : Ready ρ → Ready τ
  | idle => idle
  | bytes chunk => bytes (f chunk)
  | eof => eof
  | error => error

/-- How many bytes there are. -/
def count : Ready ℕ → ℕ
  | bytes n => n
  | _ => 0

end Ready

namespace Daemon

/-- The numbers `accept` may return: a negative one, or one that is not open. -/
def MayAccept (d : Daemon) (fd : ℤ) : Prop := fd < 0 ∨ (d.backlog ≠ [] ∧ d.file fd = none)

instance (d : Daemon) (fd : ℤ) : Decidable (d.MayAccept fd) := inferInstanceAs (Decidable (_ ∨ _))

/-- What the read event of a client's socket may find. It is active if there are bytes, and
also after the last of them if the client's side has been shut down or broken. -/
def MayFind (d : Daemon) (c : Client) : Ready ℕ → Prop
  | .idle => d.unread c = [] ∧ d.peer c = .sending
  | .bytes n => n ≤ (d.unread c).length
  | .eof => d.unread c = [] ∧ d.peer c ≠ .sending
  | .error => d.peer c = .reset

instance (d : Daemon) (c : Client) (ready : Ready ℕ) : Decidable (d.MayFind c ready) :=
  match ready with
  | .idle | .eof => inferInstanceAs (Decidable (_ ∧ _))
  | .bytes n => inferInstanceAs (Decidable (n ≤ _))
  | .error => inferInstanceAs (Decidable (_ = _))

/-- The connection of a client is broken and the bufferevent has output waiting for it: the next
write fails. -/
def Broken (d : Daemon) (s : Socket) (c : Client) : Prop :=
  d.peer c = .reset ∧ (d.bev s.client).bev.output ≠ []

instance (d : Daemon) (s : Socket) (c : Client) : Decidable (d.Broken s c) :=
  inferInstanceAs (Decidable (_ ∧ _))

/-- `do_accept`, called for the head of the backlog. -/
def acceptcb (d : Daemon) (fd : ℤ) (sndbuf : SendBuffer) : Daemon :=
  match doAccept fd with
  | .perror => d
  | .close fd => { d with backlog := d.backlog.tail, file := Function.update d.file fd none }
  | .serve bev =>
    { d with backlog := d.backlog.tail
             file := Function.update d.file fd (some (.conn (d.backlog.headD d.next)))
             live := ⟨fd, d.backlog.headD d.next⟩ :: d.live
             bev := Function.update d.bev (d.backlog.headD d.next) (accepted sndbuf bev) }

/-- A bufferevent after its callbacks. If it was freed its descriptor is closed:
`BEV_OPT_CLOSE_ON_FREE`. -/
def settle (d : Daemon) (s : Socket) (b : Connection) : Daemon :=
  { d with bev := Function.update d.bev s.client b
           live := if b.freed = none then d.live else d.live.erase s
           file := if b.freed = none then d.file else Function.update d.file s.fd none }

/-- The callbacks of a live bufferevent, for the client its descriptor stands for. -/
def callbacks (d : Daemon) (s : Socket) (run : Client → Option Daemon) : Option Daemon :=
  if s ∈ d.live then
    match d.file s.fd with
    | some (.conn c) => run c
    | _ => none
  else none

/-- A step of the living process and its surroundings. -/
def act (d : Daemon) : DaemonAct → Option Daemon
  | .connect => some { d with next := d.next + 1, backlog := d.backlog ++ [d.next] }
  | .send c bytes =>
    if c < d.next ∧ d.peer c = .sending then
      some { d with sent := Function.update d.sent c (d.sent c ++ bytes)
                    unread := Function.update d.unread c (d.unread c ++ bytes) }
    else none
  | .finish c =>
    if c < d.next ∧ d.peer c = .sending then
      some { d with peer := Function.update d.peer c .finished }
    else none
  | .reset c =>
    if c < d.next then some { d with peer := Function.update d.peer c .reset } else none
  | .take s n =>
    if s ∈ d.live ∧ d.peer s.client ≠ .reset then
      ((d.bev s.client).step (.take n)).map fun b =>
        { d with bev := Function.update d.bev s.client b }
    else none
  | .accept fd sndbuf => if d.MayAccept fd then some (d.acceptcb fd sndbuf) else none
  | .aborted => some { d with backlog := d.backlog.tail }
  | .pass s offer ready =>
    d.callbacks s fun c =>
      if d.MayFind c ready ∧ ¬ d.Broken s c then
        ((d.bev s.client).step (.pass offer (ready.map fun n => (d.unread c).take n))).map fun b =>
          { d.settle s b with
            unread := Function.update d.unread c ((d.unread c).drop ready.count)
            written := Function.update d.written c
              (d.written c ++ (d.bev s.client).bev.output.take offer) }
      else none
  | .writeFails s =>
    d.callbacks s fun c =>
      if d.Broken s c then ((d.bev s.client).step .writeFails).map (d.settle s) else none
  | .sigpipe s =>
    d.callbacks s fun c =>
      if d.Broken s c then some { d with alive := false, file := fun _ => none, live := [] }
      else none

def step (d : Daemon) (a : DaemonAct) : Option Daemon := if d.alive then d.act a else none

/-- The listener is set up and no client has connected. -/
structure Initial (d : Daemon) : Prop where
  alive : d.alive = true
  file : ∀ fd c, d.file fd ≠ some (.conn c)
  silent : d.sent = (fun _ => []) ∧ d.unread = (fun _ => []) ∧ d.written = fun _ => []
  peer : d.peer = fun _ => .sending
  next : d.next = 0
  backlog : d.backlog = []
  live : d.live = []

end Daemon

def daemon : Lts Daemon DaemonAct where
  init := Daemon.Initial
  step := Daemon.step

theorem doAccept_range {fd : ℤ} {bev : Bufferevent} (h : doAccept fd = .serve bev) :
    0 ≤ fd ∧ fd ≤ fdSetSize := by
  unfold doAccept at h
  split_ifs at h with h₁ h₂
  exact ⟨by omega, by omega⟩

namespace Daemon

/-- One case for each callback and each kind of outcome. -/
inductive Step (d : Daemon) : DaemonAct → Daemon → Prop
  | connect : Step d .connect { d with next := d.next + 1, backlog := d.backlog ++ [d.next] }
  | send {c : Client} {bytes : Bytes} (hc : c < d.next) :
      Step d (.send c bytes)
        { d with sent := Function.update d.sent c (d.sent c ++ bytes)
                 unread := Function.update d.unread c (d.unread c ++ bytes) }
  | ends {a : DaemonAct} {peer : Client → Peer} (ha : ∃ c, a = .finish c ∨ a = .reset c) :
      Step d a { d with peer := peer }
  | take {s : Socket} {n : ℕ} {b : Connection} (hs : s ∈ d.live)
      (hb : (d.bev s.client).step (.take n) = some b) :
      Step d (.take s n) { d with bev := Function.update d.bev s.client b }
  | failed {fd : ℤ} {sndbuf : SendBuffer} : Step d (.accept fd sndbuf) d
  | refuse {a : DaemonAct} (ha : a = .aborted ∨ ∃ fd sndbuf, a = .accept fd sndbuf) :
      Step d a { d with backlog := d.backlog.tail }
  | serve {fd : ℤ} {sndbuf : SendBuffer} {bev : Bufferevent} {c : Client} {cs : List Client}
      (hb : doAccept fd = .serve bev) (hfree : d.file fd = none) (hc : d.backlog = c :: cs) :
      Step d (.accept fd sndbuf)
        { d with backlog := cs
                 file := Function.update d.file fd (some (.conn c))
                 live := ⟨fd, c⟩ :: d.live
                 bev := Function.update d.bev c (accepted sndbuf bev) }
  | pass {s : Socket} {offer : ℕ} {ready : Ready ℕ} {c : Client} {b : Connection}
      (hs : s ∈ d.live) (hf : d.file s.fd = some (.conn c))
      (hb : (d.bev s.client).step (.pass offer (ready.map fun n => (d.unread c).take n)) =
        some b) :
      Step d (.pass s offer ready)
        { d.settle s b with
          unread := Function.update d.unread c ((d.unread c).drop ready.count)
          written := Function.update d.written c
            (d.written c ++ (d.bev s.client).bev.output.take offer) }
  | writeFails {s : Socket} {b : Connection} (hs : s ∈ d.live)
      (hb : (d.bev s.client).step .writeFails = some b) : Step d (.writeFails s) (d.settle s b)
  | sigpipe {s : Socket} :
      Step d (.sigpipe s) { d with alive := false, file := fun _ => none, live := [] }

variable {d e : Daemon} {a : DaemonAct}

theorem acceptcb_cases {fd : ℤ} {sndbuf : SendBuffer} (hfd : d.MayAccept fd) :
    Step d (.accept fd sndbuf) (d.acceptcb fd sndbuf) := by
  unfold acceptcb
  cases hb : doAccept fd with
  | perror => exact .failed
  | close fd' =>
    have hsame : fd' = fd ∧ 0 ≤ fd := by
      unfold doAccept at hb
      split_ifs at hb with h₁ h₂
      exact ⟨(AcceptOutcome.close.inj hb).symm, by omega⟩
    obtain ⟨rfl, hpos⟩ := hsame
    have hfree := (hfd.resolve_left (Int.not_lt.mpr hpos)).2
    have hfile : Function.update d.file fd' none = d.file := by
      rw [← hfree, Function.update_eq_self]
    simp only [hfile]
    exact .refuse (.inr ⟨_, _, rfl⟩)
  | serve bev =>
    obtain ⟨hne, hfree⟩ := hfd.resolve_left (Int.not_lt.mpr (doAccept_range hb).1)
    obtain ⟨c, cs, hc⟩ := List.exists_cons_of_ne_nil hne
    simp only [hc, List.tail_cons, List.headD_cons]
    exact .serve hb hfree hc

theorem callbacks_cases {s : Socket} {run : Client → Option Daemon}
    (h : d.callbacks s run = some e) :
    ∃ c, s ∈ d.live ∧ d.file s.fd = some (.conn c) ∧ run c = some e := by
  unfold callbacks at h
  split_ifs at h with hs
  split at h
  next c hf => exact ⟨c, hs, hf, h⟩
  next => cases h

theorem act_cases (h : d.act a = some e) : Step d a e := by
  cases a with
  | connect =>
    cases h
    exact .connect
  | send c bytes =>
    simp only [act] at h
    split_ifs at h with hc
    cases h
    exact .send hc.1
  | finish c =>
    simp only [act] at h
    split_ifs at h with hc
    cases h
    exact .ends ⟨c, .inl rfl⟩
  | reset c =>
    simp only [act] at h
    split_ifs at h with hc
    cases h
    exact .ends ⟨c, .inr rfl⟩
  | take s n =>
    simp only [act] at h
    split_ifs at h with hs
    obtain ⟨b, hb, rfl⟩ := Option.map_eq_some_iff.mp h
    exact .take hs.1 hb
  | accept fd sndbuf =>
    simp only [act] at h
    split_ifs at h with hfd
    cases h
    exact acceptcb_cases hfd
  | aborted =>
    cases h
    exact .refuse (.inl rfl)
  | pass s offer ready =>
    obtain ⟨c, hs, hf, h⟩ := callbacks_cases h
    dsimp only at h
    split_ifs at h with hfind
    obtain ⟨b, hb, rfl⟩ := Option.map_eq_some_iff.mp h
    exact .pass hs hf hb
  | writeFails s =>
    obtain ⟨c, hs, -, h⟩ := callbacks_cases h
    split_ifs at h with hbroken
    obtain ⟨b, hb, rfl⟩ := Option.map_eq_some_iff.mp h
    exact .writeFails hs hb
  | sigpipe s =>
    obtain ⟨c, -, -, h⟩ := callbacks_cases h
    split_ifs at h with hbroken
    cases h
    exact .sigpipe

theorem step_cases (h : d.step a = some e) : d.alive = true ∧ Step d a e := by
  unfold step at h
  split_ifs at h with ha
  exact ⟨ha, act_cases h⟩

/-! ### Descriptors -/

/-- The live bufferevents are those of the open descriptors of connections, one each, and no
client has two, or one and a place in the backlog. -/
structure Tracks (d : Daemon) : Prop where
  owned : Owned Socket.fd (fun s => File.conn s.client) d.file d.live
  range : ∀ s ∈ d.live, 0 ≤ s.fd ∧ s.fd ≤ fdSetSize
  exact : ∀ fd c, d.file fd = some (.conn c) → ⟨fd, c⟩ ∈ d.live
  known : (d.live.map Socket.client ++ d.backlog).Nodup
  old : ∀ c ∈ d.live.map Socket.client ++ d.backlog, c < d.next
  alive : d.live ≠ [] → d.alive = true

variable {s : Socket} {b : Connection}

theorem Tracks.rest (h : d.Tracks) {live : List Socket} {backlog : List Client}
    (hl : live.Sublist d.live) (hb : backlog.Sublist d.backlog) :
    (live.map Socket.client ++ backlog).Nodup ∧
      ∀ c ∈ live.map Socket.client ++ backlog, c < d.next := by
  have hsub := (hl.map Socket.client).append hb
  exact ⟨hsub.nodup h.known, fun c hc => h.old c (hsub.subset hc)⟩

theorem Tracks.file_of_mem (h : d.Tracks) (hs : s ∈ d.live) :
    d.file s.fd = some (.conn s.client) := h.owned.denotes s hs

theorem Tracks.client_eq (h : d.Tracks) (hs : s ∈ d.live) {c : Client}
    (hf : d.file s.fd = some (.conn c)) : s.client = c := by
  rw [h.file_of_mem hs] at hf
  simpa using hf

theorem Tracks.eq_of_client (h : d.Tracks) {s' : Socket} (hs : s ∈ d.live) (hs' : s' ∈ d.live)
    (he : s'.client = s.client) : s' = s :=
  List.inj_on_of_nodup_map (List.Nodup.of_append_left h.known) hs' hs he

theorem Tracks.mem_erase_iff (h : d.Tracks) {x : Socket} :
    x ∈ d.live.erase s ↔ x ≠ s ∧ x ∈ d.live :=
  (List.Nodup.of_map _ h.owned.once).mem_erase_iff

/-- A bufferevent that was freed is no longer live, and no other has its descriptor. -/
theorem Tracks.settle (h : d.Tracks) (hs : s ∈ d.live) : (d.settle s b).Tracks := by
  have halive : d.alive = true := h.alive (List.ne_nil_of_mem hs)
  by_cases hb : b.freed = none
  · have hlive : (d.settle s b).live = d.live := if_pos hb
    have hfile : (d.settle s b).file = d.file := if_pos hb
    refine ⟨?_, ?_, ?_, ?_, ?_, fun _ => halive⟩
    · rw [hfile, hlive]
      exact h.owned
    · rw [hlive]
      exact h.range
    · rw [hfile, hlive]
      exact h.exact
    · rw [hlive]
      exact h.known
    · rw [hlive]
      exact h.old
  · have hlive : (d.settle s b).live = d.live.erase s := if_neg hb
    have hfile : (d.settle s b).file = Function.update d.file s.fd none := if_neg hb
    have hsub : (d.live.erase s).Sublist d.live := List.erase_sublist
    obtain ⟨hk, ho⟩ := h.rest hsub (List.Sublist.refl _)
    refine ⟨?_, ?_, ?_, ?_, ?_, fun _ => halive⟩
    · rw [hfile, hlive]
      refine h.owned.closed hsub fun x hx he => ?_
      obtain ⟨hne, hx⟩ := h.mem_erase_iff.mp hx
      exact hne (h.owned.eq_of_name hx hs he)
    · rw [hlive]
      exact fun x hx => h.range x (hsub.subset hx)
    · rw [hfile, hlive]
      intro fd c hf
      have hne : fd ≠ s.fd := by
        rintro rfl
        rw [Function.update_self] at hf
        cases hf
      rw [Function.update_of_ne hne] at hf
      refine h.mem_erase_iff.mpr ⟨?_, h.exact fd c hf⟩
      rintro rfl
      exact hne rfl
    · rw [hlive]
      exact hk
    · rw [hlive]
      exact ho

theorem Tracks.step (h : d.Tracks) (ha : d.alive = true) (hst : Step d a e) : e.Tracks := by
  cases hst with
  | connect =>
    refine ⟨h.owned, h.range, h.exact, ?_, ?_, fun _ => ha⟩
    · rw [← List.append_assoc]
      refine List.nodup_append'.mpr ⟨h.known, List.nodup_singleton _, fun c hc hn => ?_⟩
      rw [List.mem_singleton.mp hn] at hc
      exact Nat.lt_irrefl _ (h.old _ hc)
    · rw [← List.append_assoc]
      intro c hc
      rcases List.mem_append.mp hc with hc | hc
      · exact Nat.lt_succ_of_lt (h.old c hc)
      · rw [List.mem_singleton.mp hc]
        exact Nat.lt_succ_self _
  | failed => exact h
  | refuse =>
    obtain ⟨hk, ho⟩ := h.rest (List.Sublist.refl _) (List.tail_sublist d.backlog)
    exact ⟨h.owned, h.range, h.exact, hk, ho, h.alive⟩
  | serve hb hfree hc =>
    rename_i fd sndbuf bev c cs
    have hperm : (d.live.map Socket.client ++ d.backlog).Perm
        (c :: (d.live.map Socket.client ++ cs)) := by
      rw [hc]
      exact List.perm_middle
    refine ⟨h.owned.opened (x := ⟨fd, c⟩) hfree, ?_, fun fd' c' hf => ?_,
      hperm.nodup_iff.mp h.known, fun c' hc' => h.old c' (hperm.mem_iff.mpr hc'), fun _ => ha⟩
    · exact List.forall_mem_cons.mpr ⟨doAccept_range hb, h.range⟩
    · dsimp only at hf
      by_cases he : fd' = fd
      · subst he
        rw [Function.update_self] at hf
        cases hf
        exact List.mem_cons_self
      · rw [Function.update_of_ne he] at hf
        exact List.mem_cons_of_mem _ (h.exact fd' c' hf)
  | pass hs hf hb =>
    rename_i s offer ready c b
    have hsettle := h.settle hs (b := b)
    exact ⟨hsettle.owned, hsettle.range, hsettle.exact, hsettle.known, hsettle.old, fun _ => ha⟩
  | writeFails hs hb => exact h.settle hs
  | sigpipe =>
    obtain ⟨hk, ho⟩ := h.rest (List.nil_sublist _) (List.Sublist.refl _)
    exact ⟨.nil, List.forall_mem_nil _, fun _ _ hf => (by cases hf), hk, ho,
      fun hne => absurd rfl hne⟩
  | send _ | ends _ | take _ _ => exact ⟨h.owned, h.range, h.exact, h.known, h.old, h.alive⟩

/-! ### One client among the others -/

/-- A client that has not been served. -/
structure Untouched (d : Daemon) (c : Client) : Prop where
  written : d.written c = []
  unread : d.unread c = d.sent c
  dead : ∀ s ∈ d.live, s.client ≠ c

/-- A client that has: its bufferevent has gone through a run of a connection on its own, in
which it was given what the client sent up to what is unread, and what the run has written
is what the client's socket got. -/
structure Served (d : Daemon) (c : Client) : Prop where
  past : c < d.next ∧ c ∉ d.backlog
  run : ∃ b₀ tr, connection.init b₀ ∧ Run connection b₀ tr (d.bev c) ∧
    delivered tr ++ d.unread c = d.sent c
  socket : (d.bev c).socket = d.written c
  opened : ∀ s ∈ d.live, s.client = c → (d.bev c).freed = none

def Alone (d : Daemon) (c : Client) : Prop := d.Untouched c ∨ d.Served c

variable {c : Client}

theorem Alone.untouched (h : d.Alone c) (hc : c ∈ d.backlog) : d.Untouched c :=
  h.resolve_right fun hs => hs.past.2 hc

theorem Alone.served (h : d.Alone c) (hs : s ∈ d.live) (hc : s.client = c) :
    d.Served c := h.resolve_left fun hu => hu.dead s hs hc

/-- A step that has to do with another client. -/
theorem Alone.frame (h : d.Alone c) (hsent : e.sent c = d.sent c)
    (hunread : e.unread c = d.unread c) (hwritten : e.written c = d.written c)
    (hbev : e.bev c = d.bev c) (hlive : ∀ s ∈ e.live, s.client = c → s ∈ d.live)
    (hnext : d.next ≤ e.next) (hback : c ∈ e.backlog → c ∈ d.backlog ∨ c = d.next) :
    e.Alone c := by
  rcases h with ⟨hw, hu, hd⟩ | ⟨⟨hlt, hn⟩, hr, hs, ho⟩
  · refine .inl ⟨by rw [hwritten, hw], by rw [hunread, hsent, hu], fun s hs hc => ?_⟩
    exact hd s (hlive s hs hc) hc
  · refine .inr ⟨⟨Nat.lt_of_lt_of_le hlt hnext, fun hm => ?_⟩, ?_, ?_, fun s hs hc => ?_⟩
    · rcases hback hm with hm | rfl
      · exact hn hm
      · exact Nat.lt_irrefl _ hlt
    · rw [hbev, hunread, hsent]
      exact hr
    · rw [hbev, hwritten, hs]
    · rw [hbev]
      exact ho s (hlive s hs hc) hc

/-- A step of the client's bufferevent, which gets the bytes it reads from what is unread. -/
theorem Served.event (h : d.Served c) {v : Event} (hb : (d.bev c).step v = some b)
    (hbev : e.bev c = b) (hsent : e.sent c = d.sent c)
    (hunread : v.chunk ++ e.unread c = d.unread c)
    (hwritten : e.written c = d.written c ++ (d.bev c).bev.output.take v.offer)
    (hnext : e.next = d.next) (hback : e.backlog = d.backlog)
    (hopen : ∀ s ∈ e.live, s.client = c → b.freed = none) : e.Served c := by
  obtain ⟨hp, ⟨b₀, tr, hi, hr, hread⟩, hw, -⟩ := h
  have hk : connection.step (d.bev c) v = some b := hb
  refine ⟨?_, ⟨b₀, tr ++ [(d.bev c, v)], hi, ?_, ?_⟩, ?_, ?_⟩
  · rw [hnext, hback]
    exact hp
  · rw [hbev]
    exact hr.tail hk
  · rw [delivered_snoc, List.append_assoc, hunread, hsent, hread]
  · rw [hbev, hwritten, (step_of_run hi hr hk).socket, hw]
  · rw [hbev]
    exact hopen

/-- The bufferevent is live afterwards only if it was not freed. -/
theorem Tracks.settle_open (h : d.Tracks) (hs : s ∈ d.live) :
    ∀ s' ∈ (d.settle s b).live, s'.client = s.client → b.freed = none := by
  intro s' hs' hc
  by_contra hb
  have hlive : (d.settle s b).live = d.live.erase s := if_neg hb
  rw [hlive, h.mem_erase_iff] at hs'
  exact hs'.1 (h.eq_of_client hs hs'.2 hc)

theorem mem_of_settle {s' : Socket} (hs' : s' ∈ (d.settle s b).live) : s' ∈ d.live := by
  simp only [settle] at hs'
  split_ifs at hs' with hb
  · exact hs'
  · exact List.mem_of_mem_erase hs'

theorem chunk_map (xs : Bytes) (offer : ℕ) (ready : Ready ℕ) :
    (Event.pass offer (ready.map fun n => xs.take n)).chunk ++ xs.drop ready.count = xs := by
  cases ready with
  | bytes n => exact List.take_append_drop n xs
  | idle | eof | error => rfl

theorem Alone.step (h : d.Alone c) (hd : d.Tracks) (hst : Step d a e) : e.Alone c := by
  cases hst with
  | connect =>
    refine h.frame rfl rfl rfl rfl (fun _ hs _ => hs) (Nat.le_succ _) fun hm => ?_
    exact (List.mem_append.mp hm).imp_right List.mem_singleton.mp
  | send hc =>
    rename_i c' bytes
    by_cases he : c = c'
    · subst he
      rcases h with ⟨hw, hu, hdead⟩ | ⟨hp, ⟨b₀, tr, hi, hr, hsent⟩, hs, ho⟩
      · refine .inl ⟨hw, ?_, hdead⟩
        simp only [Function.update_self, hu]
      · refine .inr ⟨hp, ⟨b₀, tr, hi, hr, ?_⟩, hs, ho⟩
        simp only [Function.update_self, ← hsent, List.append_assoc]
    · exact h.frame (Function.update_of_ne he ..) (Function.update_of_ne he ..) rfl rfl
        (fun _ hs _ => hs) (Nat.le_refl _) .inl
  | ends _ => exact h.frame rfl rfl rfl rfl (fun _ hs _ => hs) (Nat.le_refl _) .inl
  | failed => exact h
  | refuse =>
    exact h.frame rfl rfl rfl rfl (fun _ hs _ => hs) (Nat.le_refl _)
      fun hm => .inl (List.mem_of_mem_tail hm)
  | serve hb hfree hback =>
    rename_i fd sndbuf bev c' cs
    have hmem : c' ∈ d.backlog := by
      rw [hback]
      exact List.mem_cons_self
    by_cases he : c = c'
    · subst he
      obtain ⟨hw, hu, hdead⟩ := h.untouched hmem
      have hnodup := (List.nodup_append'.mp hd.known).2.1
      rw [hback] at hnodup
      refine .inr ⟨⟨hd.old c (List.mem_append_right _ hmem), (List.nodup_cons.mp hnodup).1⟩, ?_,
        ?_, fun s hs hc => ?_⟩
      · simp only [Function.update_self]
        exact ⟨accepted sndbuf bev, [], ⟨fd, bev, sndbuf, hb, rfl⟩, .refl _, hu⟩
      · simp only [Function.update_self, hw]
        rfl
      · simp only [Function.update_self]
        rfl
    · refine h.frame rfl rfl rfl (Function.update_of_ne he ..) (fun s hs hc => ?_) (Nat.le_refl _)
        fun hm => .inl ?_
      · rcases List.mem_cons.mp hs with rfl | hs
        · exact absurd hc.symm he
        · exact hs
      · rw [hback]
        exact List.mem_cons_of_mem _ hm
  | take hs hb =>
    rename_i s n b
    by_cases he : c = s.client
    · subst he
      have hserved := h.served hs rfl
      have hopen := hserved.opened s hs rfl
      refine .inr (hserved.event hb (Function.update_self ..) rfl rfl ?_ rfl rfl fun _ _ _ => ?_)
      · simp [Event.offer]
      · obtain ⟨b₀, tr, hi, hr, -⟩ := hserved.run
        have hk : connection.step (d.bev s.client) (.take n) = some b := hb
        cases step_of_run hi hr hk with
        | take hn => exact hopen
    · exact h.frame rfl rfl rfl (Function.update_of_ne he ..) (fun _ hs _ => hs) (Nat.le_refl _)
        .inl
  | pass hs hf hb =>
    rename_i s offer ready c' b
    obtain rfl := hd.client_eq hs hf
    by_cases he : c = s.client
    · subst he
      refine .inr ((h.served hs rfl).event hb (Function.update_self ..) rfl ?_
        (Function.update_self ..) rfl rfl (hd.settle_open hs))
      simp only [Function.update_self]
      exact chunk_map _ _ _
    · exact h.frame rfl (Function.update_of_ne he ..) (Function.update_of_ne he ..)
        (Function.update_of_ne he ..) (fun _ hs _ => mem_of_settle hs) (Nat.le_refl _) .inl
  | writeFails hs hb =>
    rename_i s b
    by_cases he : c = s.client
    · subst he
      refine .inr ((h.served hs rfl).event hb (Function.update_self ..) rfl rfl ?_ rfl rfl
        (hd.settle_open hs))
      exact (List.append_nil _).symm
    · exact h.frame rfl rfl rfl (Function.update_of_ne he ..) (fun _ hs _ => mem_of_settle hs)
        (Nat.le_refl _) .inl
  | sigpipe =>
    exact h.frame rfl rfl rfl rfl (fun _ hs _ => absurd hs List.not_mem_nil) (Nat.le_refl _) .inl

/-- The descriptors are right, and every client is served as if it were alone. -/
structure Sound (d : Daemon) : Prop where
  tracks : d.Tracks
  alone : ∀ c, d.Alone c

theorem Initial.sound (hd : d.Initial) : d.Sound := by
  obtain ⟨halive, hfile, ⟨hsent, hunread, hwritten⟩, -, hnext, hback, hlive⟩ := hd
  refine ⟨⟨?_, ?_, fun fd c hf => absurd hf (hfile fd c), ?_, ?_, fun _ => halive⟩,
    fun c => .inl ⟨?_, ?_, ?_⟩⟩
  · rw [hlive]
    exact .nil
  · rw [hlive]
    exact List.forall_mem_nil _
  · rw [hlive, hback]
    exact List.nodup_nil
  · rw [hlive, hback]
    exact List.forall_mem_nil _
  · rw [hwritten]
  · rw [hunread, hsent]
  · rw [hlive]
    exact List.forall_mem_nil _

theorem Sound.step (h : d.Sound) (hk : daemon.step d a = some e) : e.Sound := by
  obtain ⟨ha, hst⟩ := step_cases hk
  exact ⟨h.tracks.step ha hst, fun c => (h.alone c).step h.tracks hst⟩

theorem sound_of_reachable (hr : Reachable daemon d) : d.Sound :=
  hr.invariant (fun _ => Initial.sound) fun _ _ _ => .step

/-- The reply to what was read of a client is in part written and, while its bufferevent lives,
for the rest in the output buffer. -/
theorem Sound.reply (h : d.Sound) (c : Client) :
    ∃ read, read ++ d.unread c = d.sent c ∧ d.written c <+: (reference.run [] read).2 ∧
      ∀ s ∈ d.live, s.client = c →
        d.written c ++ (d.bev c).bev.output = (reference.run [] read).2 ∧
          (d.bev c).bev.input = (reference.run [] read).1 := by
  rcases h.alone c with ⟨hw, hu, hd⟩ | ⟨-, ⟨b₀, tr, hi, hrun, hsent⟩, hs, ho⟩
  · refine ⟨[], hu, ?_, fun s hm hc => absurd hc (hd s hm)⟩
    rw [hw]
    exact List.nil_prefix
  · obtain ⟨happ, hopen⟩ := appended_eq_reference hi hrun
    obtain ⟨rest, hrest, -⟩ := unwritten hi hrun
    refine ⟨delivered tr, hsent, ?_, fun s hm hc => ?_⟩
    · rw [← hs, ← happ, ← hrest]
      exact List.prefix_append _ _
    · obtain ⟨hacc, hin⟩ := hopen (ho s hm hc)
      refine ⟨?_, hin⟩
      rw [← hs, hacc.sent, happ]

/-- A live bufferevent is accounted for. -/
theorem Sound.accounted (h : d.Sound) (hs : s ∈ d.live) :
    (d.bev s.client).freed = none ∧ (d.bev s.client).Accounted ∧
      (d.bev s.client).queued ≤ (d.bev s.client).sndbuf.size := by
  obtain ⟨-, ⟨b₀, tr, hi, hr, -⟩, -, ho⟩ := (h.alone s.client).served hs rfl
  have hf := ho s hs rfl
  exact ⟨hf, ((appended_eq_reference hi hr).2 hf).1, (queued_le hi hr).2⟩

end Daemon

/-- Each client is served as if it were alone, whatever the others do and however the
descriptor numbers are given out again: what it got is the front of the reply to what the
server has read of it, and as long as its bufferevent lives the rest of the reply is in the
output buffer and the unfinished line in the input buffer. -/
theorem clients_isolated {d : Daemon} (hr : Reachable daemon d) (c : Client) :
    ∃ read, read ++ d.unread c = d.sent c ∧ d.written c <+: (reference.run [] read).2 ∧
      ∀ s ∈ d.live, s.client = c →
        d.written c ++ (d.bev c).bev.output = (reference.run [] read).2 ∧
          (d.bev c).bev.input = (reference.run [] read).1 :=
  (Daemon.sound_of_reachable hr).reply c

/-- Send buffers of a size common for local connections. -/
def localBuffer : SendBuffer := ⟨87040, 29014, by decide, by decide⟩

/-- Descriptors up to 6 are the standard streams, the listener and those of the event base. -/
def listening : Daemon where
  alive := true
  file fd := if 0 ≤ fd ∧ fd ≤ 6 then some .other else none
  sent _ := []
  unread _ := []
  written _ := []
  peer _ := .sending
  next := 0
  backlog := []
  live := []
  bev _ := accepted localBuffer freshBev

theorem initial_listening : daemon.init listening where
  alive := rfl
  file := by
    intro fd c h
    simp only [listening] at h
    split_ifs at h
    cases h
  silent := ⟨rfl, rfl, rfl⟩
  peer := rfl
  next := rfl
  backlog := rfl
  live := rfl

/-- Two clients are accepted and send, the first of them a whole line. -/
def twoClients : List DaemonAct :=
  [.connect, .accept 7 localBuffer, .send 0 [97, 10], .connect, .accept 8 localBuffer,
    .send 1 [98]]

theorem clients_isolated_two_clients : ∃ d, Reachable daemon d ∧ d.live = [⟨8, 1⟩, ⟨7, 0⟩] ∧
    ∃ read, read ++ d.unread 0 = d.sent 0 ∧ d.written 0 <+: (reference.run [] read).2 := by
  obtain ⟨d, hr, hl⟩ := exists_reachable_of_exec (S := daemon) initial_listening twoClients
    (P := fun d => d.live = [⟨8, 1⟩, ⟨7, 0⟩]) (by decide +kernel)
  obtain ⟨read, hread, hw, -⟩ := clients_isolated hr 0
  exact ⟨d, hr, hl, read, hread, hw⟩

/-- The open descriptors of connections are those of the live bufferevents, one each, all
within the limit, and no client has two. -/
theorem descriptors_of_live {d : Daemon} (hr : Reachable daemon d) :
    (∀ fd c, d.file fd = some (.conn c) ↔ ⟨fd, c⟩ ∈ d.live) ∧
      (d.live.map Socket.fd).Nodup ∧ (d.live.map Socket.client).Nodup ∧
      ∀ s ∈ d.live, (0 ≤ s.fd ∧ s.fd ≤ fdSetSize) ∧ (d.bev s.client).freed = none := by
  have hd := Daemon.sound_of_reachable hr
  have ht := hd.tracks
  refine ⟨fun fd c => ⟨ht.exact fd c, fun hm => ht.file_of_mem hm⟩, ht.owned.once,
    ht.known.of_append_left, fun s hs => ⟨ht.range s hs, (hd.accounted hs).1⟩⟩

theorem descriptors_of_live_two_clients : ∃ d, Reachable daemon d ∧
    d.live = [⟨8, 1⟩, ⟨7, 0⟩] ∧ d.file 7 = some (.conn 0) ∧ d.file 9 ≠ some (.conn 0) := by
  obtain ⟨d, hr, hl⟩ := exists_reachable_of_exec (S := daemon) initial_listening twoClients
    (P := fun d => d.live = [⟨8, 1⟩, ⟨7, 0⟩]) (by decide +kernel)
  have hiff := (descriptors_of_live hr).1
  refine ⟨d, hr, hl, (hiff 7 0).mpr ?_, fun hf => ?_⟩
  · rw [hl]
    decide
  · have hm := (hiff 9 0).mp hf
    rw [hl] at hm
    revert hm
    decide

end BaseCom.Rot13
