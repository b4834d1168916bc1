import BaseCom.Epoll.Lifecycle

/-! The bytes of the connections. Beside the counts the two threads work on we keep what
each client has sent and what of it is unread, and every read the threads make, with the
bytes it copied. A read takes its bytes off the connection its number denotes, whatever the
thread means by the number; that it is the one meant, in order and without a gap, is what is
proved. -/

namespace BaseCom.Epoll

open Transition

abbrev Bytes := List UInt8

/-- The two threads. -/
inductive Party
  | acceptor
  | reader
  deriving DecidableEq

/-- The length a thread passes to `read`: `sizeof(buffer)-1`, and 1024. -/
def Party.limit : Party → ℕ
  | .acceptor => 39
  | .reader => 1024

/-- A read: by whom, under which handle, and the bytes copied. -/
structure Piece where
  party : Party
  handle : Handle
  bytes : Bytes
  deriving DecidableEq

/-- The server, the bytes sent and unread on each connection, and the reads made. -/
structure Traffic where
  sys : Sys
  sent : Conn → Bytes
  unread : Conn → Bytes
  pieces : List Piece

/-- A client sends, or anything else happens. -/
inductive TrafficAct
  | send (c : Conn) (bytes : Bytes)
  | other (a : Act)

/-- Bytes arrive, which a client must have sent. -/
def Act.delivers : Act → Bool
  | .env (.deliver _ _) => true
  | _ => false

/-- The thread about to read a connection, its handle, and how the kernel answers. -/
def Sys.reading (s : Sys) : Act → Option (Party × Handle × Option Errno)
  | .acceptor (.readClient fault) =>
    match s.acceptor with
    | .readClient h _ _ => some (.acceptor, h, fault)
    | _ => none
  | .reader (.readClient fault) =>
    match s.reader with
    | .readClient h _ => some (.reader, h, fault)
    | _ => none
  | _ => none

namespace Traffic

/-- The copying part of a `read`. -/
def read (t : Traffic) (p : Party) (h : Handle) (fault : Option Errno) : Traffic :=
  match t.sys.kern.file h.fd, fault with
  | some (.conn c), none =>
    { t with unread := Function.update t.unread c ((t.unread c).drop p.limit)
             pieces := t.pieces ++ [⟨p, h, (t.unread c).take p.limit⟩] }
  | _, _ => { t with pieces := t.pieces ++ [⟨p, h, []⟩] }

def step (listenfd : Int32) (t : Traffic) : TrafficAct → Option Traffic
  | .send c bytes =>
    (t.sys.step listenfd (.env (.deliver c bytes.length))).map fun s =>
      { t with sys := s
               sent := Function.update t.sent c (t.sent c ++ bytes)
               unread := Function.update t.unread c (t.unread c ++ bytes) }
  | .other a =>
    if a.delivers then none
    else
      (t.sys.step listenfd a).map fun s =>
        match t.sys.reading a with
        | some (p, h, fault) => { t.read p h fault with sys := s }
        | none => { t with sys := s }

/-- The reads made of a connection, under the handles it was given. -/
def piecesOf (t : Traffic) (c : Conn) : List Piece := t.pieces.filter fun p => p.handle.conn = c

/-- What has been read of a connection. -/
def received (t : Traffic) (c : Conn) : Bytes := (t.piecesOf c).flatMap Piece.bytes

end Traffic

/-- The server with the bytes it is sent. -/
def traffic (listenfd : Int32) : Lts Traffic TrafficAct where
  init t := t.sys.Initial ∧ t.sent = (fun _ => []) ∧ t.unread = (fun _ => []) ∧ t.pieces = []
  step := Traffic.step listenfd

/-! ### Steps -/

theorem Kernel.read_conn {k : Kernel} {fd : Int32} {c : Conn} (hf : k.file fd = some (.conn c))
    (len : ℕ) :
    (k.read fd len none).2 =
      if 0 < (k.sock c).unread then k.consume c (min (k.sock c).unread len) else k := by
  simp only [Kernel.read, hf]
  split_ifs <;> rfl

/-- A read takes what it asks for off one receive queue, as far as it is there. -/
theorem Kernel.unread_read {k : Kernel} {fd : Int32} {c : Conn} (hf : k.file fd = some (.conn c))
    (len : ℕ) (d : Conn) :
    ((k.read fd len none).2.sock d).unread =
      if d = c then (k.sock c).unread - len else (k.sock d).unread := by
  rw [Kernel.read_conn hf]
  by_cases hd : d = c
  · subst hd
    rw [if_pos rfl]
    split_ifs with hpos
    · simp only [Kernel.consume, Function.update_self]
      omega
    · omega
  · rw [if_neg hd]
    split_ifs
    · simp only [Kernel.consume, Function.update_of_ne hd]
    · rfl

/-- A fault takes nothing. -/
theorem Kernel.read_fault (k : Kernel) (fd : Int32) (len : ℕ) (e : Errno) :
    (k.read fd len (some e)).2 = k := by
  cases hf : k.file fd with
  | none => simp [Kernel.read, hf]
  | some file => cases file <;> simp [Kernel.read, hf]

namespace Sys

variable {listenfd : Int32} {s t : Sys} {a : Act}

/-- A read is made under a held handle, and changes nothing but receive queues. -/
theorem Step.of_reading (hst : Step listenfd s a t) {p : Party} {h : Handle}
    {fault : Option Errno} (hr : s.reading a = some (p, h, fault)) :
    s.acceptor.target = some h ∨ s.reader.target = some h := by
  cases hst with
  | readOnce ha =>
    simp only [reading, ha, Option.some.injEq, Prod.mk.injEq] at hr
    obtain ⟨-, rfl, -⟩ := hr
    exact .inl (by rw [ha]; rfl)
  | readClient hr' hf =>
    simp only [reading, hr', Option.some.injEq, Prod.mk.injEq] at hr
    obtain ⟨-, rfl, -⟩ := hr
    exact .inr (by rw [hr']; rfl)
  | _ => cases hr

theorem Step.kern_of_reading (hst : Step listenfd s a t) {p : Party} {h : Handle}
    {fault : Option Errno} (hr : s.reading a = some (p, h, fault)) :
    t.kern = (s.kern.read h.fd p.limit fault).2 := by
  cases hst with
  | readOnce ha =>
    simp only [reading, ha, Option.some.injEq, Prod.mk.injEq] at hr
    obtain ⟨rfl, rfl, rfl⟩ := hr
    rfl
  | readClient hr' hf =>
    simp only [reading, hr', Option.some.injEq, Prod.mk.injEq] at hr
    obtain ⟨rfl, rfl, rfl⟩ := hr
    rfl
  | _ => cases hr

/-- A step that neither delivers nor reads leaves the receive queues alone; a new connection
has an empty one. -/
theorem Step.unread_eq (hst : Step listenfd s a t) (hd : a.delivers = false)
    (hr : s.reading a = none) :
    (t.kern.nextConn = s.kern.nextConn ∧
      ∀ c, (t.kern.sock c).unread = (s.kern.sock c).unread) ∨
    (t.kern.nextConn = s.kern.nextConn + 1 ∧ (t.kern.sock s.kern.nextConn).unread = 0 ∧
      ∀ c < s.kern.nextConn, (t.kern.sock c).unread = (s.kern.sock c).unread) := by
  cases hst with
  | connect addr =>
    refine .inr ⟨rfl, ?_, fun c hc => ?_⟩
    · simp only [Kernel.arrive, Function.update_self]
    · simp only [Kernel.arrive, Function.update_of_ne (Nat.ne_of_lt hc)]
  | deliver hc hn he => cases hd
  | peerClose hc | peerError hc =>
    rename_i c
    refine .inl ⟨rfl, fun d => ?_⟩
    simp only [Kernel.peerClose, Kernel.wake]
    by_cases hd : d = c
    · rw [hd, Function.update_self]
    · rw [Function.update_of_ne hd]
  | readOnce ha => simp [reading, ha] at hr
  | readClient hr' hf => simp [reading, hr'] at hr
  | _ => exact .inl ⟨rfl, fun _ => rfl⟩

/-- Only `accept` makes the accept thread read. -/
theorem Step.greets (hst : Step listenfd s a t) {h : Handle} {msg : Pipemsg}
    {rest : List (EpollEvent Int32)} (ht : t.acceptor = .readClient h msg rest) :
    s.acceptor = .readClient h msg rest ∨ h.conn ∈ s.kern.backlog := by
  cases hst with
  | listenReport _ _ | listenTimeout _ | acceptFails _ | closeClient _ =>
    have hhand := congrArg Acceptor.hand ht
    rw [Acceptor.hand_forEvents] at hhand
    cases hhand
  | accept ha hfd =>
    rename_i fd rest'
    simp only [Acceptor.afterAccept] at ht
    split_ifs at ht with hpos
    · cases ht
      refine .inr ?_
      rw [backlog_cons hfd hpos]
      exact List.mem_cons_self
    · have hhand := congrArg Acceptor.hand ht
      rw [Acceptor.hand_forEvents] at hhand
      cases hhand
  | readOnce _ => cases ht
  | writePipe _ =>
    simp only [Acceptor.afterWrite, ne_eq, not_true_eq_false, if_false] at ht
    have hhand := congrArg Acceptor.hand ht
    rw [Acceptor.hand_forEvents] at hhand
    cases hhand
  | writeFails _ => cases ht
  | _ => exact .inl ht

/-- What is in the backlog after a step was there, or has just arrived. -/
theorem Step.backlog_back (hst : Step listenfd s a t) :
    s.kern.nextConn ≤ t.kern.nextConn ∧
      ∀ c ∈ t.kern.backlog, c ∈ s.kern.backlog ∨ c = s.kern.nextConn := by
  rcases hst.accepts_forward with ⟨hsub, hn⟩ | ⟨he, hlt⟩
  · exact ⟨hn.ge, fun c hc => .inl (hsub.subset (List.mem_append_right _ hc))⟩
  · refine ⟨hlt.le, fun c hc => ?_⟩
    have hmem : c ∈ s.queue (fun _ => []) ++ [s.kern.nextConn] := by
      rw [← he]
      exact List.mem_append_right _ hc
    simpa [queue] using hmem

end Sys

namespace Traffic

variable {listenfd : Int32} {t u : Traffic} {b : TrafficAct}

inductive Step (listenfd : Int32) (t : Traffic) : TrafficAct → Traffic → Prop
  | send {c : Conn} {bytes : Bytes} {s : Sys}
      (hst : Sys.Step listenfd t.sys (.env (.deliver c bytes.length)) s) :
      Step listenfd t (.send c bytes)
        { t with sys := s
                 sent := Function.update t.sent c (t.sent c ++ bytes)
                 unread := Function.update t.unread c (t.unread c ++ bytes) }
  | reads {a : Act} {s : Sys} {p : Party} {h : Handle} {fault : Option Errno}
      (hst : Sys.Step listenfd t.sys a s) (hr : t.sys.reading a = some (p, h, fault)) :
      Step listenfd t (.other a) { t.read p h fault with sys := s }
  | quiet {a : Act} {s : Sys} (hst : Sys.Step listenfd t.sys a s) (hr : t.sys.reading a = none)
      (hd : a.delivers = false) : Step listenfd t (.other a) { t with sys := s }

theorem step_cases (h : t.step listenfd b = some u) : Step listenfd t b u := by
  cases b with
  | send c bytes =>
    obtain ⟨s, hs, rfl⟩ := Option.map_eq_some_iff.mp h
    exact .send (Sys.step_cases hs)
  | other a =>
    simp only [step] at h
    split_ifs at h with hd
    obtain ⟨s, hs, rfl⟩ := Option.map_eq_some_iff.mp h
    have hst := Sys.step_cases hs
    have hquiet : a.delivers = false := by simpa using hd
    cases hr : t.sys.reading a with
    | none => exact .quiet hst hr hquiet
    | some r => exact .reads hst hr

/-! ### What is read and what is unread -/

theorem piecesOf_append (t : Traffic) (p : Piece) (c : Conn) :
    piecesOf { t with pieces := t.pieces ++ [p] } c =
      if p.handle.conn = c then t.piecesOf c ++ [p] else t.piecesOf c := by
  simp only [piecesOf, List.filter_append]
  split_ifs with hc <;> simp [hc]

/-- The reads and the unread bytes make up what was sent, and each queue is as long as the
kernel's count says. -/
structure Content (t : Traffic) : Prop where
  queued : ∀ c < t.sys.kern.nextConn, (t.unread c).length = (t.sys.kern.sock c).unread
  absent : ∀ c, t.sys.kern.nextConn ≤ c → t.unread c = []
  stream : ∀ c, t.received c ++ t.unread c = t.sent c
  short : ∀ p ∈ t.pieces, p.bytes.length ≤ p.party.limit

/-- A read takes off the connection it is made for. -/
theorem read_eq {t : Traffic} {h : Handle} (hf : t.sys.kern.file h.fd = some (.conn h.conn))
    (p : Party) (fault : Option Errno) :
    t.read p h fault =
      if fault = none then
        { t with unread := Function.update t.unread h.conn ((t.unread h.conn).drop p.limit)
                 pieces := t.pieces ++ [⟨p, h, (t.unread h.conn).take p.limit⟩] }
      else { t with pieces := t.pieces ++ [⟨p, h, []⟩] } := by
  cases fault with
  | none => simp only [read, hf, if_true]
  | some e => simp [read, hf]

theorem received_append (t : Traffic) (p : Piece) (c : Conn) :
    received { t with pieces := t.pieces ++ [p] } c =
      t.received c ++ if p.handle.conn = c then p.bytes else [] := by
  simp only [received, piecesOf_append]
  split_ifs with hc
  · simp
  · simp

theorem Step.content (hs : t.sys.Sound) (hc : t.Content) (hst : Step listenfd t b u) :
    u.Content := by
  cases hst with
  | send hst =>
    rename_i c bytes s
    have hkern : c < t.sys.kern.nextConn ∧ s.kern = t.sys.kern.deliver c bytes.length := by
      cases hst with
      | deliver hlt hn he => exact ⟨hlt, rfl⟩
    obtain ⟨hlt, hk⟩ := hkern
    refine ⟨fun d hd => ?_, fun d hd => ?_, fun d => ?_, hc.short⟩
    · have hd' : d < t.sys.kern.nextConn := by rwa [hk] at hd
      simp only [hk, Kernel.deliver, Kernel.wake]
      by_cases he : d = c
      · subst he
        simp only [Function.update_self, List.length_append, hc.queued d hd']
      · simp only [Function.update_of_ne he, hc.queued d hd']
    · have hd' : t.sys.kern.nextConn ≤ d := by rwa [hk] at hd
      have hne : d ≠ c := Nat.ne_of_gt (Nat.lt_of_lt_of_le hlt hd')
      simp only [Function.update_of_ne hne, hc.absent d hd']
    · have hstream := hc.stream d
      show t.received d ++ _ = _
      by_cases he : d = c
      · subst he
        simp only [Function.update_self, ← hstream, List.append_assoc]
      · simp only [Function.update_of_ne he, hstream]
  | reads hst hr =>
    rename_i a s p h fault
    have hf := hs.target_file (hst.of_reading hr)
    have hk := hst.kern_of_reading hr
    have hnext : s.kern.nextConn = t.sys.kern.nextConn := by rw [hk, Kernel.read_nextConn]
    rw [read_eq hf]
    split_ifs with hno
    · subst hno
      refine ⟨fun d hd => ?_, fun d hd => ?_, fun d => ?_, fun q hq => ?_⟩
      · simp only [hk, Kernel.unread_read hf]
        rw [hnext] at hd
        by_cases he : d = h.conn
        · subst he
          simp only [Function.update_self, List.length_drop, if_true, hc.queued _ hd]
        · simp only [Function.update_of_ne he, if_neg he, hc.queued d hd]
      · have habs := hc.absent d (hnext ▸ hd)
        by_cases he : d = h.conn
        · subst he
          simp only [Function.update_self, habs, List.drop_nil]
        · simp only [Function.update_of_ne he, habs]
      · have hrec := received_append t ⟨p, h, (t.unread h.conn).take p.limit⟩ d
        refine Eq.trans (congrArg (· ++ _) hrec) ?_
        by_cases he : h.conn = d
        · subst he
          simp only [if_true, Function.update_self, List.append_assoc, List.take_append_drop,
            hc.stream]
        · simp only [if_neg he, Function.update_of_ne (Ne.symm he), List.append_nil, hc.stream]
      · rcases List.mem_append.mp hq with hq | hq
        · exact hc.short q hq
        · rw [List.mem_singleton.mp hq]
          exact List.length_take_le _ _
    · have hfault : ∃ e, fault = some e := Option.ne_none_iff_exists'.mp hno
      obtain ⟨e, rfl⟩ := hfault
      rw [Kernel.read_fault] at hk
      refine ⟨fun d hd => ?_, fun d hd => ?_, fun d => ?_, fun q hq => ?_⟩
      · simp only [hk] at hd ⊢
        exact hc.queued d hd
      · simp only [hk] at hd
        exact hc.absent d hd
      · have hrec := received_append t ⟨p, h, []⟩ d
        refine Eq.trans (congrArg (· ++ _) hrec) ?_
        simp only [ite_self, List.append_nil, hc.stream]
      · rcases List.mem_append.mp hq with hq | hq
        · exact hc.short q hq
        · rw [List.mem_singleton.mp hq]
          exact Nat.zero_le _
  | quiet hst hr hd =>
    rcases hst.unread_eq hd hr with ⟨hn, hsock⟩ | ⟨hn, hnew, hsock⟩
    · refine ⟨fun d hlt => ?_, fun d hle => hc.absent d (hn ▸ hle), hc.stream, hc.short⟩
      exact (hc.queued d (hn ▸ hlt)).trans (hsock d).symm
    · refine ⟨fun d hlt => ?_, fun d hle => ?_, hc.stream, hc.short⟩
      · simp only [hn] at hlt
        rcases Nat.lt_succ_iff_lt_or_eq.mp hlt with hlt | rfl
        · exact (hc.queued d hlt).trans (hsock d hlt).symm
        · exact (congrArg List.length (hc.absent _ (Nat.le_refl _))).trans hnew.symm
      · simp only [hn] at hle
        exact hc.absent d (Nat.le_of_succ_le hle)

/-! ### Who has read -/

/-- The reads of a connection are made under one handle, those of the accept thread before
any of the reader, and the handle is the one that is held if one is. -/
structure Ordered (t : Traffic) : Prop where
  old : ∀ p ∈ t.pieces, p.handle.conn < t.sys.kern.nextConn ∧ p.handle.conn ∉ t.sys.kern.backlog
  owner : ∀ p ∈ t.pieces, ∀ h ∈ t.sys.held, h.conn = p.handle.conn → h = p.handle
  single : ∀ p ∈ t.pieces, ∀ q ∈ t.pieces, p.handle.conn = q.handle.conn → p.handle = q.handle
  greeting : ∀ h msg rest, t.sys.acceptor = .readClient h msg rest → t.piecesOf h.conn = []
  order : ∀ c, ∀ p ∈ (t.piecesOf c).tail, p.party = .reader

theorem piecesOf_eq_nil {t : Traffic} {c : Conn} (h : ∀ p ∈ t.pieces, p.handle.conn ≠ c) :
    t.piecesOf c = [] := by
  apply List.filter_eq_nil_iff.mpr
  intro p hp
  simpa using h p hp

/-- Nothing has been read of a connection in the backlog. -/
theorem Ordered.piecesOf_backlog (ho : t.Ordered) {c : Conn} (hc : c ∈ t.sys.kern.backlog) :
    t.piecesOf c = [] :=
  piecesOf_eq_nil fun p hp he => (ho.old p hp).2 (he ▸ hc)

/-- A step of the server that makes no read. -/
theorem Ordered.other (ho : t.Ordered) (hs : t.sys.Sound) {a : Act} {s : Sys}
    (hst : Sys.Step listenfd t.sys a s) : Ordered { t with sys := s } := by
  obtain ⟨hnext, hback⟩ := hst.backlog_back
  refine ⟨fun p hp => ?_, fun p hp h hh he => ?_, ho.single, fun h msg rest hr => ?_, ho.order⟩
  · obtain ⟨hlt, hn⟩ := ho.old p hp
    refine ⟨Nat.lt_of_lt_of_le hlt hnext, fun hm => ?_⟩
    rcases hback _ hm with hm | hm
    · exact hn hm
    · exact Nat.ne_of_lt hlt hm
  · cases hst.flow hs with
    | keeps held _ => exact ho.owner p hp h ((held h).mp hh) he
    | accepts g held _ _ first _ =>
      rcases (held h).mp hh with rfl | hh
      · exact absurd (he ▸ first) (ho.old p hp).2
      · exact ho.owner p hp h hh he
    | closes g _ held _ => exact ho.owner p hp h ((held h).mp hh).1 he
    | drops g _ held _ _ _ => exact ho.owner p hp h ((held h).mp hh).1 he
  · rcases hst.greets hr with hr | hm
    · exact ho.greeting h msg rest hr
    · exact ho.piecesOf_backlog hm

/-- A read by the thread that holds the connection, before any other if it is the accept
thread's. -/
theorem Ordered.append (ho : t.Ordered) (hs : t.sys.Sound) {p : Piece} (hh : p.handle ∈ t.sys.held)
    (hgreet : p.party = .acceptor → t.piecesOf p.handle.conn = [])
    (hnot : ∀ h msg rest, t.sys.acceptor = .readClient h msg rest → h.conn ≠ p.handle.conn) :
    Ordered { t with pieces := t.pieces ++ [p] } := by
  have hmem : p.handle ∈ t.sys.front ++ t.sys.kern.registered :=
    List.mem_append.mpr (Sys.mem_held.mp hh).symm
  have hconn : p.handle.conn ∈ (t.sys.front ++ t.sys.kern.registered).map Handle.conn :=
    List.mem_map_of_mem hmem
  refine ⟨fun q hq => ?_, fun q hq h hh' he => ?_, fun q hq r hr he => ?_,
    fun h msg rest hr => ?_, fun c q hq => ?_⟩
  · rcases List.mem_append.mp hq with hq | hq
    · exact ho.old q hq
    · rw [List.mem_singleton.mp hq]
      refine ⟨hs.tracks.old _ (List.mem_append_left _ hconn), fun hm => ?_⟩
      exact (List.nodup_append'.mp hs.tracks.known).2.2 hconn hm
  · rcases List.mem_append.mp hq with hq | hq
    · exact ho.owner q hq h hh' he
    · rw [List.mem_singleton.mp hq] at he ⊢
      have hmem' : h ∈ t.sys.front ++ t.sys.kern.registered :=
        List.mem_append.mpr (Sys.mem_held.mp hh').symm
      exact hs.tracks.eq_of_conn hmem' hmem he
  · rcases List.mem_append.mp hq with hq | hq <;> rcases List.mem_append.mp hr with hr | hr
    · exact ho.single q hq r hr he
    · rw [List.mem_singleton.mp hr] at he ⊢
      exact (ho.owner q hq _ hh he.symm).symm
    · rw [List.mem_singleton.mp hq] at he ⊢
      exact ho.owner r hr _ hh he
    · rw [List.mem_singleton.mp hq, List.mem_singleton.mp hr]
  · rw [piecesOf_append, if_neg (Ne.symm (hnot h msg rest hr))]
    exact ho.greeting h msg rest hr
  · rw [piecesOf_append] at hq
    split_ifs at hq with hc
    · subst hc
      cases hl : t.piecesOf p.handle.conn with
      | nil =>
        rw [hl] at hq
        cases hq
      | cons r rs =>
        have htail := ho.order p.handle.conn
        rw [hl] at hq htail
        rcases List.mem_append.mp hq with hq | hq
        · exact htail q hq
        · rw [List.mem_singleton.mp hq]
          cases hparty : p.party with
          | acceptor =>
            have hnil := hgreet hparty
            rw [hl] at hnil
            cases hnil
          | reader => rfl
    · exact ho.order c q hq

theorem Ordered.congr (ho : t.Ordered) (hs : u.sys = t.sys) (hp : u.pieces = t.pieces) :
    u.Ordered := by
  have hof : ∀ c, u.piecesOf c = t.piecesOf c := fun c => by rw [piecesOf, hp, piecesOf]
  refine ⟨?_, ?_, ?_, ?_, ?_⟩
  · rw [hs, hp]
    exact ho.old
  · rw [hs, hp]
    exact ho.owner
  · rw [hp]
    exact ho.single
  · simp only [hs, hof]
    exact ho.greeting
  · simp only [hof]
    exact ho.order

/-- The thread whose read it is, and that the accept thread reads no other connection
meanwhile. -/
theorem of_reading {s s' : Sys} {a : Act} {p : Party} {h : Handle} {fault : Option Errno}
    (hs : s.Sound) (hst : Sys.Step listenfd s a s') (hr : s.reading a = some (p, h, fault)) :
    h ∈ s'.held ∧ (p = .acceptor → ∃ msg rest, s.acceptor = .readClient h msg rest) ∧
      ∀ g msg rest, s'.acceptor = .readClient g msg rest → g.conn ≠ h.conn := by
  cases hst with
  | readOnce ha =>
    rename_i fault' g msg rest
    simp only [Sys.reading, ha, Option.some.injEq, Prod.mk.injEq] at hr
    obtain ⟨rfl, rfl, rfl⟩ := hr
    refine ⟨?_, fun _ => ⟨msg, rest, ha⟩, fun _ _ _ he => by cases he⟩
    apply Sys.mem_held.mpr
    exact .inr (List.mem_append_left _ (List.mem_singleton_self _))
  | readClient hr' hf =>
    rename_i fault' g rest
    simp only [Sys.reading, hr', Option.some.injEq, Prod.mk.injEq] at hr
    obtain ⟨rfl, rfl, rfl⟩ := hr
    have hreg : g ∈ s.kern.registered := by
      apply hs.tracks.reported
      rw [hr']
      exact List.mem_cons_self
    refine ⟨Sys.mem_held.mpr (.inl ?_), fun he => Party.noConfusion he, ?_⟩
    · rw [Kernel.registered_read]
      exact hreg
    · intro x msg rest' hx he
      have hxf : x ∈ s.front := by
        apply List.mem_append_left
        rw [show s.acceptor = _ from hx]
        exact List.mem_singleton_self _
      have hxg : x = g :=
        hs.tracks.eq_of_conn (List.mem_append_left _ hxf) (List.mem_append_right _ hreg) he
      exact hs.tracks.notMem_front hreg (hxg ▸ hxf)
  | _ => cases hr

theorem Step.ordered (hs : t.sys.Sound) (ho : t.Ordered) (hst : Step listenfd t b u) :
    u.Ordered := by
  cases hst with
  | send hst => exact (ho.other hs hst).congr rfl rfl
  | reads hst hr =>
    rename_i a s p h fault
    obtain ⟨hheld, hgreet, hnot⟩ := of_reading hs hst hr
    have hf := hs.target_file (hst.of_reading hr)
    have happend : ∀ bytes, Ordered { t with sys := s, pieces := t.pieces ++ [⟨p, h, bytes⟩] } := by
      intro bytes
      refine (ho.other hs hst).append (hs.step hst) (p := ⟨p, h, bytes⟩) hheld ?_ hnot
      intro hp
      obtain ⟨msg, rest, ha⟩ := hgreet hp
      exact ho.greeting h msg rest ha
    rw [read_eq hf]
    split_ifs
    · exact (happend _).congr rfl rfl
    · exact (happend _).congr rfl rfl
  | quiet hst _ _ => exact ho.other hs hst

/-- Under the bytes there is a step of the server. -/
theorem sys_of_step (h : t.step listenfd b = some u) :
    ∃ a, t.sys.step listenfd a = some u.sys := by
  cases b with
  | send c bytes =>
    obtain ⟨s, hs, rfl⟩ := Option.map_eq_some_iff.mp h
    exact ⟨_, hs⟩
  | other a =>
    simp only [step] at h
    split_ifs at h
    obtain ⟨s, hs, rfl⟩ := Option.map_eq_some_iff.mp h
    refine ⟨a, hs.trans ?_⟩
    cases t.sys.reading a <;> rfl

structure Sound (t : Traffic) : Prop where
  sys : t.sys.Sound
  content : t.Content
  ordered : t.Ordered

theorem sound_of_reachable (hr : Reachable (traffic listenfd) t) : t.Sound := by
  refine hr.invariant ?_ ?_
  · rintro u ⟨hi, hsent, hunread, hp⟩
    refine ⟨hi.sound, ⟨?_, ?_, ?_, ?_⟩, ⟨?_, ?_, ?_, ?_, ?_⟩⟩
    · rw [hi.nextConn]
      exact fun c hc => absurd hc (Nat.not_lt_zero c)
    · rw [hunread]
      exact fun _ _ => rfl
    · intro c
      rw [received, piecesOf, hp, hsent, hunread]
      rfl
    · rw [hp]
      exact List.forall_mem_nil _
    · rw [hp]
      exact List.forall_mem_nil _
    · rw [hp]
      exact List.forall_mem_nil _
    · rw [hp]
      exact List.forall_mem_nil _
    · rw [hi.acceptor]
      exact fun _ _ _ h => by cases h
    · intro c
      rw [piecesOf, hp]
      exact List.forall_mem_nil _
  · intro u b v hu hk
    have hst := step_cases hk
    obtain ⟨a, ha⟩ := sys_of_step hk
    exact ⟨hu.sys.step (Sys.step_cases ha), hst.content hu.sys hu.content,
      hst.ordered hu.sys hu.ordered⟩

end Traffic

/-- Forgetting the bytes, the traffic is the server. -/
theorem server_of_traffic {listenfd : Int32} {t : Traffic}
    (hr : Reachable (traffic listenfd) t) : Reachable (server listenfd) t.sys := by
  have hinit : ∀ u, (traffic listenfd).init u → True ∧ (server listenfd).init u.sys :=
    fun u hu => ⟨trivial, hu.1⟩
  exact hr.map Traffic.sys hinit (fun _ _ _ _ _ => trivial)
    fun _ _ _ _ hk => .inr (Traffic.sys_of_step hk)

/-- What the threads have read of a connection and what is still unread make up, in order,
what its client has sent. The reads are made under one handle, the one still held if one is;
only the first may be the accept thread's, and each takes no more than its thread asks for. -/
theorem traffic_in_order {listenfd : Int32} {t : Traffic} (hr : Reachable (traffic listenfd) t)
    (c : Conn) :
    t.received c ++ t.unread c = t.sent c ∧
      (∀ p ∈ t.piecesOf c, ∀ q ∈ t.piecesOf c, p.handle = q.handle) ∧
      (∀ p ∈ t.piecesOf c, ∀ h ∈ t.sys.held, h.conn = c → h = p.handle) ∧
      (∀ p ∈ (t.piecesOf c).tail, p.party = .reader) ∧
      ∀ p ∈ t.piecesOf c, p.bytes.length ≤ p.party.limit := by
  obtain ⟨-, hc, ho⟩ := Traffic.sound_of_reachable hr
  have hmem : ∀ p ∈ t.piecesOf c, p ∈ t.pieces ∧ p.handle.conn = c := by
    intro p hp
    simpa [Traffic.piecesOf] using hp
  refine ⟨hc.stream c, fun p hp q hq => ?_, fun p hp h hh he => ?_, ho.order c, fun p hp => ?_⟩
  · exact ho.single p (hmem p hp).1 q (hmem q hq).1 ((hmem p hp).2.trans (hmem q hq).2.symm)
  · exact ho.owner p (hmem p hp).1 h hh (he.trans (hmem p hp).2.symm)
  · exact hc.short p (hmem p hp).1

/-- A server whose client has sent nothing yet. -/
def Traffic.start : Traffic := ⟨Sys.start, fun _ => [], fun _ => [], []⟩

theorem traffic_init (listenfd : Int32) : (traffic listenfd).init Traffic.start :=
  ⟨Sys.initial_start, rfl, rfl, rfl⟩

/-- Three bytes are read by the accept thread, two that come later by the reader. -/
def twoPieces : List TrafficAct := [
  .other (.env (.connect ⟨16777343, 4660⟩)), .other (.acceptor (.epollWait true)),
  .other (.acceptor (.accept 8)), .send 0 [49, 50, 51], .other (.acceptor (.readClient none)),
  .other (.acceptor (.writePipe .zero true)), .other (.reader (.readPipe true)),
  .other (.reader (.setNoBlocking true)), .other (.reader (.epollAdd true)), .send 0 [52, 53],
  .other (.reader (.epollWait [firstReadable])), .other (.reader (.readClient none))]

theorem traffic_in_order_two_pieces : ∃ t, Reachable (traffic 5) t ∧
    t.piecesOf 0 = [⟨.acceptor, ⟨8, 0⟩, [49, 50, 51]⟩, ⟨.reader, ⟨8, 0⟩, [52, 53]⟩] ∧
    t.received 0 ++ t.unread 0 = t.sent 0 := by
  obtain ⟨t, hr, hp⟩ := exists_reachable_of_exec (S := traffic 5) (traffic_init 5) twoPieces
    (P := fun t => t.piecesOf 0 = [⟨.acceptor, ⟨8, 0⟩, [49, 50, 51]⟩, ⟨.reader, ⟨8, 0⟩, [52, 53]⟩])
    (by decide +kernel)
  exact ⟨t, hr, hp, (traffic_in_order hr 0).1⟩

end BaseCom.Epoll
