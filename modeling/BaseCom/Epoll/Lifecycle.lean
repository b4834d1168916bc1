import BaseCom.Epoll.Rejection
import BaseCom.Transition.Queue

/-! The way of a connection through the server: from the backlog through the accept
thread's hand, the pipe and the reader's hand into the interest list. The stages put one
behind the other are a queue, in order of arrival, and no step lets a connection overtake
another. At any moment the open descriptors of connections are those at one of the stages,
save the one of a message the reader has returned on. -/

namespace BaseCom.Epoll

open Transition Resource

namespace Sys

variable {listenfd : Int32} {s t : Sys} {a : Act}

/-! ### The stages -/

/-- The handles the accept thread has not written to the pipe, those the reader has not
registered, and all that are not closed. -/
def unwritten (s : Sys) : List Handle := s.acceptor.hand

def unregistered (s : Sys) : List Handle := s.reader.hand ++ (s.inFlight ++ s.unwritten)

def held (s : Sys) : List Handle := s.kern.registered ++ s.unregistered

/-- The connections that are at a stage or before it. -/
def queue (s : Sys) (stage : Sys → List Handle) : List Conn :=
  (stage s).map Handle.conn ++ s.kern.backlog

/-- The connection a call of `accept` takes from the backlog. -/
def accepts (s : Sys) : Act → List Conn
  | .acceptor (.accept fd) => if 0 ≤ fd then [s.kern.backlog.headD s.kern.nextConn] else []
  | _ => []

/-- The connection whose message a `write` puts on the pipe. -/
def announces (s : Sys) : Act → List Conn
  | .acceptor (.writePipe _ true) => s.acceptor.hand.map Handle.conn
  | _ => []

/-- The connection an `epoll_ctl` registers. -/
def registers (s : Sys) : Act → List Conn
  | .reader (.epollAdd true) => s.reader.hand.map Handle.conn
  | _ => []

/-! ### No overtaking -/

/-- What a step does before a point of the way, where it lets these connections pass. -/
def Forward (s t : Sys) (stage : Sys → List Handle) (passes : List Conn) : Prop :=
  Advances (s.queue stage) (t.queue stage) passes s.kern.nextConn t.kern.nextConn

theorem Forward.of_sublist {stage : Sys → List Handle} {passes : List Conn}
    (hs : (passes ++ t.queue stage).Sublist (s.queue stage))
    (hn : t.kern.nextConn = s.kern.nextConn) : Forward s t stage passes := .inl ⟨hs, hn⟩

theorem Forward.of_eq {stage : Sys → List Handle} {passes : List Conn}
    (hs : passes ++ t.queue stage = s.queue stage) (hn : t.kern.nextConn = s.kern.nextConn) :
    Forward s t stage passes := .inl ⟨hs ▸ List.Sublist.refl _, hn⟩

theorem forward_connect (s : Sys) (addr : SockaddrIn) {stage : Sys → List Handle}
    (hst : stage { s with kern := s.kern.arrive addr } = stage s) :
    Forward s { s with kern := s.kern.arrive addr } stage [] := by
  refine .inr ⟨?_, Nat.lt_succ_self _⟩
  rw [queue, queue, hst, List.append_assoc]
  rfl

/-- The head of the backlog is the connection that leaves it. -/
theorem backlog_cons {k : Kernel} {fd : Int32} (hm : k.MayAccept fd) (hfd : 0 ≤ fd) :
    k.backlog = k.backlog.headD k.nextConn :: k.backlog.tail := by
  obtain ⟨hne, -⟩ := hm.resolve_left (Int32.not_lt.mpr hfd)
  obtain ⟨c, cs, hcs⟩ := List.exists_cons_of_ne_nil hne
  rw [hcs]
  rfl

theorem Step.accepts_forward (hst : Step listenfd s a t) :
    Forward s t (fun _ => []) (s.accepts a) := by
  cases hst with
  | connect addr => exact forward_connect s addr rfl
  | accept ha hfd =>
    rename_i fd rest
    dsimp only [accepts]
    split_ifs with hpos
    · refine .of_eq ?_ rfl
      exact (backlog_cons hfd hpos).symm
    · exact .of_sublist (List.tail_sublist _) rfl
  | readOnce ha | readClient hr hf =>
    exact .of_eq (Kernel.read_backlog ..) (Kernel.read_nextConn ..)
  | _ => exact .of_eq rfl rfl

theorem Step.announces_forward (hst : Step listenfd s a t) :
    Forward s t unwritten (s.announces a) := by
  cases hst with
  | connect addr => exact forward_connect s addr rfl
  | listenReport ha he | listenTimeout ha | acceptFails ha =>
    refine .of_eq ?_ rfl
    simp only [queue, unwritten, announces, ha, Acceptor.hand_forEvents]
    rfl
  | accept ha hfd =>
    rename_i fd rest
    simp only [Forward, queue, unwritten, announces, ha, Acceptor.afterAccept]
    split_ifs with hpos
    · refine .inl ⟨?_, rfl⟩
      rw [backlog_cons hfd hpos]
      exact List.Sublist.refl _
    · refine .inl ⟨?_, rfl⟩
      rw [Acceptor.hand_forEvents]
      exact List.tail_sublist _
  | readOnce ha =>
    refine .of_eq ?_ (Kernel.read_nextConn ..)
    simp only [queue, unwritten, announces, ha, Kernel.read_backlog]
    rfl
  | writePipe ha =>
    refine .of_eq ?_ rfl
    simp only [queue, unwritten, announces, ha, Acceptor.afterWrite, ne_eq, not_true_eq_false,
      if_false, Acceptor.hand_forEvents]
    rfl
  | writeFails ha =>
    refine .of_eq ?_ rfl
    simp only [queue, unwritten, announces, ha]
    rfl
  | closeClient ha =>
    refine .of_sublist ?_ rfl
    simp only [queue, unwritten, announces, ha, Acceptor.hand_forEvents]
    exact List.sublist_append_right _ _
  | readClient hr hf =>
    refine .of_eq ?_ (Kernel.read_nextConn ..)
    simp only [queue, unwritten, announces, Kernel.read_backlog]
    rfl
  | _ => exact .of_eq rfl rfl

/-- What leaves one stage is in front of it at the next. -/
theorem Forward.behind {stage stage' : Sys → List Handle} {passes : List Conn}
    (h : Forward s t stage passes) (pre new : List Handle) (hs : stage' s = pre ++ stage s)
    (ht : stage' t = pre ++ (new ++ stage t)) (hnew : new.map Handle.conn = passes) :
    Forward s t stage' [] := by
  have hqs : s.queue stage' = pre.map Handle.conn ++ s.queue stage := by
    rw [queue, hs, List.map_append, List.append_assoc]
    rfl
  have hqt : t.queue stage' = pre.map Handle.conn ++ (passes ++ t.queue stage) := by
    rw [queue, ht, List.map_append, List.map_append, hnew, List.append_assoc, List.append_assoc]
    rfl
  rcases h with ⟨hsub, hn⟩ | ⟨he, hlt⟩
  · refine .inl ⟨?_, hn⟩
    rw [List.nil_append, hqs, hqt]
    exact hsub.append_left _
  · refine .inr ⟨?_, hlt⟩
    rw [List.nil_append, hqs, hqt, he, List.append_assoc]

theorem Step.registers_forward (hs : s.Sound) (hst : Step listenfd s a t) :
    Forward s t unregistered (s.registers a) := by
  have hannounce := hst.announces_forward
  have hreader : t.acceptor = s.acceptor → t.kern.backlog = s.kern.backlog →
      ∀ passes, (passes ++ ((t.reader.hand ++ t.inFlight).map Handle.conn)).Sublist
        ((s.reader.hand ++ s.inFlight).map Handle.conn) →
      t.kern.nextConn = s.kern.nextConn → Forward s t unregistered passes := by
    intro ha hb passes hsub hn
    refine .of_sublist ?_ hn
    have hcut : ∀ u : Sys, u.queue unregistered =
        (u.reader.hand ++ u.inFlight).map Handle.conn ++ u.queue unwritten := by
      intro u
      simp only [queue, unregistered, List.map_append, List.append_assoc]
    have hback : t.queue unwritten = s.queue unwritten := by
      simp only [queue, unwritten, ha, hb]
    rw [hcut, hcut, hback, ← List.append_assoc]
    exact hsub.append_right _
  cases hst with
  | connect _ | deliver _ _ _ | peerClose _ | peerError _ | listenReport _ _ | listenTimeout _
  | accept _ _ | acceptFails _ | readOnce _ | writeFails _ | closeClient _ =>
    exact hannounce.behind (s.reader.hand ++ s.inFlight) [] (List.append_assoc ..).symm
      (List.append_assoc ..).symm rfl
  | writePipe ha =>
    rename_i garbage h msg rest
    have hpass : s.announces (.acceptor (.writePipe garbage true)) = [h.conn] := by
      simp only [announces, ha]
      rfl
    rw [hpass] at hannounce
    refine hannounce.behind (s.reader.hand ++ s.inFlight) [h] (List.append_assoc ..).symm ?_ rfl
    simp only [unregistered, List.append_assoc]
  | readPipe hr hi =>
    rename_i h rest
    refine hreader rfl rfl _ ?_ rfl
    simp only [registers, hr, hi, (hs.read_inFlight hi).2]
    split_ifs
    · exact List.sublist_cons_self _ _
    · exact List.Sublist.refl _
  | readEmpty hr hi =>
    refine hreader rfl rfl _ ?_ rfl
    rw [hs.read_empty hi]
    simp only [registers, hr]
    exact List.Sublist.refl _
  | readFails hr =>
    refine hreader rfl rfl _ ?_ rfl
    simp only [registers, hr]
    exact List.Sublist.refl _
  | setNoBlocking hr =>
    refine hreader rfl rfl _ ?_ rfl
    simp only [registers, hr, Reader.afterSetNoBlocking]
    split_ifs
    · exact List.Sublist.refl _
    · exact List.sublist_cons_self _ _
  | epollAdd hr hf hnew =>
    refine hreader rfl rfl _ ?_ rfl
    simp only [registers, hr]
    exact List.Sublist.refl _
  | epollAddFails hr =>
    refine hreader rfl rfl _ ?_ rfl
    simp only [registers, hr]
    exact List.Sublist.refl _
  | closeUnregistered hr =>
    refine hreader rfl rfl _ ?_ rfl
    simp only [registers, hr]
    exact List.sublist_cons_self _ _
  | epollWait hr hm =>
    refine hreader rfl rfl _ ?_ rfl
    simp only [registers, hr, Reader.hand_forEvents]
    exact List.Sublist.refl _
  | readClient hr hf =>
    refine hreader rfl (Kernel.read_backlog ..) _ ?_ (Kernel.read_nextConn ..)
    simp only [registers, hr, (Reader.afterRead_batch _ _ _).1]
    exact List.Sublist.refl _
  | closePeer hr =>
    refine hreader rfl rfl _ ?_ rfl
    simp only [registers, hr]
    exact List.Sublist.refl _
  | closeError hr =>
    refine hreader rfl rfl _ ?_ rfl
    simp only [registers, hr, Reader.hand_forEvents]
    exact List.Sublist.refl _

theorem Initial.queue_eq (hs : s.Initial) :
    s.queue (fun _ => []) = [] ∧ s.queue unwritten = [] ∧ s.queue unregistered = [] := by
  simp only [queue, unregistered, unwritten, hs.backlog, hs.acceptor, hs.reader, hs.inFlight]
  exact ⟨rfl, rfl, rfl⟩

end Sys

/-- Connections leave the backlog, are written to the pipe and are registered in the order
of their arrival, each at most once, and those still before one of these points are behind
all that have passed it. -/
theorem served_in_order {listenfd : Int32} {s₀ s : Sys} {tr : List (Sys × Act)}
    (hi : s₀.Initial) (hr : Run (server listenfd) s₀ tr s) :
    InOrder (tr.flatMap (fun p => p.1.accepts p.2) ++ s.kern.backlog) s.kern.nextConn ∧
      InOrder (tr.flatMap (fun p => p.1.announces p.2) ++ s.queue Sys.unwritten)
        s.kern.nextConn ∧
      InOrder (tr.flatMap (fun p => p.1.registers p.2) ++ s.queue Sys.unregistered)
        s.kern.nextConn := by
  obtain ⟨haccept, hannounce, hregister⟩ := hi.queue_eq
  have hsound : ∀ u a v, u.Sound → (server listenfd).step u a = some v → v.Sound :=
    fun _ _ _ hu hk => hu.step (Sys.step_cases hk)
  have hstage : ∀ (stage : Sys → List Handle) (passes : Sys → Act → List Conn),
      (∀ u a v, u.Sound → Sys.Step listenfd u a v → Sys.Forward u v stage (passes u a)) →
      s₀.queue stage = [] →
      InOrder (tr.flatMap (fun p => passes p.1 p.2) ++ s.queue stage) s.kern.nextConn := by
    intro stage passes hstep hempty
    exact hr.inOrder hsound (fun u a v hu hk => hstep u a v hu (Sys.step_cases hk)) hi.sound hempty
  refine ⟨?_, ?_, ?_⟩
  · exact hstage (fun _ => []) Sys.accepts (fun _ _ _ _ hst => hst.accepts_forward) haccept
  · exact hstage Sys.unwritten Sys.announces (fun _ _ _ _ hst => hst.announces_forward) hannounce
  · exact hstage Sys.unregistered Sys.registers (fun _ _ _ hu hst => hst.registers_forward hu)
      hregister

/-- Two clients are registered one behind the other. -/
def secondClient : List Act := [
  .env (.connect ⟨16777343, 4661⟩), .acceptor (.epollWait true), .acceptor (.accept 9),
  .acceptor (.readClient (some .eintr)), .acceptor (.writePipe .zero true),
  .reader (.epollWait []), .reader (.readPipe true), .reader (.setNoBlocking true),
  .reader (.epollAdd true)]

theorem served_in_order_two_clients : ∃ s tr, Run (server 5) Sys.start tr s ∧
    tr.flatMap (fun p => p.1.registers p.2) = [0, 1] ∧
    InOrder (tr.flatMap (fun p => p.1.registers p.2) ++ s.queue Sys.unregistered)
      s.kern.nextConn := by
  obtain ⟨s, hr, -⟩ := exists_run_of_exec (S := server 5) Sys.start (firstClient ++ secondClient)
    (P := fun _ => True) (by decide +kernel)
  exact ⟨s, _, hr, by decide +kernel, (served_in_order Sys.initial_start hr).2.2⟩

/-! ### Descriptors -/

theorem Kernel.Tracks.mem_registered_close {k : Kernel} {front batch : List Handle} {h : Handle}
    (hk : k.Tracks front batch) (hh : h ∈ front ++ k.registered) (x : Handle) :
    x ∈ (k.close h.fd).registered ↔ x ∈ k.registered ∧ x ≠ h := by
  rw [registered, interest_close (hk.file_of_mem hh)]
  constructor
  · intro hx
    obtain ⟨i, hi, rfl⟩ := List.mem_map.mp hx
    obtain ⟨hi, hne⟩ := List.mem_filter.mp hi
    refine ⟨List.mem_map_of_mem hi, fun he => ?_⟩
    rw [decide_eq_true_eq, hk.items i hi, he] at hne
    exact hne rfl
  · rintro ⟨hx, hne⟩
    obtain ⟨i, hi, rfl⟩ := List.mem_map.mp hx
    refine List.mem_map_of_mem (List.mem_filter.mpr ⟨hi, decide_eq_true ?_⟩)
    intro he
    rw [hk.items i hi] at he
    exact hne (hk.eq_of_conn (List.mem_append_right _ hx) hh he)

namespace Sys

variable {listenfd : Int32} {s t : Sys} {a : Act}

/-- How a step moves the handles, and what it does to the table. -/
inductive Flow (s t : Sys) : Prop
  | keeps (held : ∀ x, x ∈ t.held ↔ x ∈ s.held) (file : t.kern.file = s.kern.file)
  | accepts (h : Handle) (held : ∀ x, x ∈ t.held ↔ x = h ∨ x ∈ s.held)
      (free : s.kern.file h.fd = none) (nonneg : 0 ≤ h.fd) (first : h.conn ∈ s.kern.backlog)
      (file : t.kern.file = Function.update s.kern.file h.fd (some (.conn h.conn)))
  | closes (h : Handle) (mem : h ∈ s.held) (held : ∀ x, x ∈ t.held ↔ x ∈ s.held ∧ x ≠ h)
      (file : t.kern.file = Function.update s.kern.file h.fd none)
  | drops (h : Handle) (mem : h ∈ s.held) (held : ∀ x, x ∈ t.held ↔ x ∈ s.held ∧ x ≠ h)
      (file : t.kern.file = s.kern.file) (live : s.reader ≠ .returned)
      (gone : t.reader = .exited ∨ h.fd ≤ 0 ∧ t.reader = .returned)

theorem mem_held {x : Handle} : x ∈ s.held ↔ x ∈ s.kern.registered ∨ x ∈ s.front := by
  simp only [held, unregistered, unwritten, front, List.mem_append]
  tauto

/-- What is held is open. -/
theorem Sound.file_of_held (hs : s.Sound) {h : Handle} (hh : h ∈ s.held) :
    s.kern.file h.fd = some (.conn h.conn) :=
  hs.tracks.file_of_mem (List.mem_append.mpr (mem_held.mp hh).symm)

theorem Flow.of_front (hf : ∀ x, x ∈ t.front ↔ x ∈ s.front)
    (hr : t.kern.registered = s.kern.registered) (hfile : t.kern.file = s.kern.file) :
    Flow s t := by
  refine .keeps (fun x => ?_) hfile
  rw [mem_held, mem_held, hf, hr]

/-- A handle at the front is there once. -/
theorem Sound.mem_front_rest (hs : s.Sound) {h : Handle} {rest : List Handle}
    (hp : s.front.Perm (h :: rest)) (x : Handle) : x ∈ rest ↔ x ∈ s.front ∧ x ≠ h := by
  have hnodup : (h :: rest).Nodup := by
    apply hp.nodup_iff.mp
    exact (List.Nodup.of_map _ hs.tracks.owned.once).of_append_left
  have hne : h ∉ rest := (List.nodup_cons.mp hnodup).1
  rw [hp.mem_iff, List.mem_cons]
  constructor
  · intro hx
    refine ⟨.inr hx, fun he => ?_⟩
    exact hne (he ▸ hx)
  · rintro ⟨hx | hx, hn⟩
    · exact absurd hx hn
    · exact hx

theorem Sound.flow_close (hs : s.Sound) {h : Handle} (hh : h ∈ s.held)
    (hk : t.kern = s.kern.close h.fd) (hf : ∀ x, x ∈ t.front ↔ x ∈ s.front ∧ x ≠ h) : Flow s t := by
  have hmem : h ∈ s.front ++ s.kern.registered := by
    rw [List.mem_append]
    exact (mem_held.mp hh).symm
  refine .closes h hh (fun x => ?_) (by rw [hk]; rfl)
  rw [mem_held, mem_held, hf, hk, hs.tracks.mem_registered_close hmem]
  tauto

theorem Sound.flow_closeFront (hs : s.Sound) {h : Handle} (hp : s.front.Perm (h :: t.front))
    (hk : t.kern = s.kern.close h.fd) : Flow s t := by
  have hh : h ∈ s.held := mem_held.mpr (.inr (hp.mem_iff.mpr List.mem_cons_self))
  exact hs.flow_close hh hk (hs.mem_front_rest hp)

theorem Sound.flow_closeRegistered (hs : s.Sound) {h : Handle} (hb : h ∈ s.reader.batch)
    (hk : t.kern = s.kern.close h.fd) (hf : t.front = s.front) : Flow s t := by
  have hreg : h ∈ s.kern.registered := hs.tracks.reported hb
  refine hs.flow_close (mem_held.mpr (.inl hreg)) hk fun x => ?_
  rw [hf]
  refine ⟨fun hx => ⟨hx, fun he => ?_⟩, And.left⟩
  exact hs.tracks.notMem_front hreg (he ▸ hx)

theorem Sound.flow_drop (hs : s.Sound) {h : Handle} (hp : s.front.Perm (h :: t.front))
    (hk : t.kern = s.kern) (live : s.reader ≠ .returned)
    (gone : t.reader = .exited ∨ h.fd ≤ 0 ∧ t.reader = .returned) : Flow s t := by
  have hh : h ∈ s.held := mem_held.mpr (.inr (hp.mem_iff.mpr List.mem_cons_self))
  refine .drops h hh (fun x => ?_) (by rw [hk]) live gone
  rw [mem_held, mem_held, hs.mem_front_rest hp, hk]
  have hreg : x ∈ s.kern.registered → x ≠ h := by
    rintro hx rfl
    exact hs.tracks.notMem_front hx (hp.mem_iff.mpr List.mem_cons_self)
  tauto

theorem Step.flow (hs : s.Sound) (hst : Step listenfd s a t) : Flow s t := by
  have hpass : ∀ (l : List Handle) (h : Handle) (m : List Handle),
      (l ++ (h :: m)).Perm (h :: (l ++ m)) := fun _ _ _ => List.perm_middle
  cases hst with
  | connect addr => exact .of_front (fun _ => Iff.rfl) rfl rfl
  | deliver _ _ _ => exact .of_front (fun _ => Iff.rfl) (Kernel.registered_deliver ..) rfl
  | peerClose _ | peerError _ =>
    exact .of_front (fun _ => Iff.rfl) (Kernel.registered_peerClose ..) rfl
  | listenReport ha _ | listenTimeout ha | acceptFails ha =>
    refine .of_front (fun x => ?_) rfl rfl
    simp only [front, ha, Acceptor.hand_forEvents]
    rfl
  | accept ha hfd =>
    rename_i fd rest
    by_cases hpos : 0 ≤ fd
    · have hcons := backlog_cons hfd hpos
      refine .accepts ⟨fd, s.kern.backlog.headD s.kern.nextConn⟩ (fun x => ?_) ?_ hpos ?_ ?_
      · simp only [mem_held, front, ha, Acceptor.afterAccept, if_pos hpos, Acceptor.hand,
          List.mem_append, List.mem_singleton, List.not_mem_nil, false_or]
        show x ∈ s.kern.registered ∨ _ ↔ _
        tauto
      · exact (hfd.resolve_left (Int32.not_lt.mpr hpos)).2
      · rw [hcons]
        exact List.mem_cons_self
      · simp only [Kernel.accept, if_pos hpos]
    · refine .of_front (fun x => ?_) rfl ?_
      · simp only [front, ha, Acceptor.afterAccept, if_neg hpos, Acceptor.hand_forEvents]
        rfl
      · simp only [Kernel.accept, if_neg hpos]
  | readOnce ha =>
    refine .of_front (fun x => ?_) (Kernel.registered_read ..) (Kernel.read_file ..)
    simp only [front, ha]
    rfl
  | writePipe ha =>
    refine .of_front (fun x => ?_) rfl rfl
    rename_i garbage h msg rest
    simp only [front, ha, Acceptor.afterWrite, ne_eq, not_true_eq_false, if_false,
      Acceptor.hand_forEvents]
    show x ∈ [] ++ ((s.inFlight ++ [h]) ++ s.reader.hand) ↔
      x ∈ [h] ++ (s.inFlight ++ s.reader.hand)
    simp only [List.mem_append, List.mem_singleton, List.not_mem_nil, false_or]
    tauto
  | writeFails ha =>
    refine .of_front (fun x => ?_) rfl rfl
    simp only [front, ha]
    rfl
  | closeClient ha =>
    refine hs.flow_closeFront ?_ rfl
    simp only [front, ha, Acceptor.hand_forEvents]
    exact List.Perm.refl _
  | readPipe hr hi =>
    rename_i h rest
    by_cases hfd : h.fd ≤ 0
    · refine hs.flow_drop (h := h) ?_ rfl (by rw [hr]; exact Reader.noConfusion) (.inr ⟨hfd, ?_⟩)
      · simp only [front, hr, hi, (hs.read_inFlight hi).2, if_pos hfd]
        exact hpass _ _ _
      · simp only [(hs.read_inFlight hi).2, if_pos hfd]
    · refine .of_front (fun x => ?_) rfl rfl
      simp only [front, hr, hi, (hs.read_inFlight hi).2, if_neg hfd, Reader.hand, List.mem_append,
        List.mem_cons, List.not_mem_nil, or_false]
      tauto
  | readEmpty hr hi =>
    refine .of_front (fun x => ?_) rfl rfl
    rw [front, front, hs.read_empty hi, hr]
    rfl
  | readFails hr =>
    refine .of_front (fun x => ?_) rfl rfl
    rw [front, front, hr]
    rfl
  | setNoBlocking hr =>
    rename_i ok h
    cases ok with
    | true =>
      refine .of_front (fun x => ?_) rfl rfl
      rw [front, front, hr]
      rfl
    | false =>
      refine hs.flow_drop (h := h) ?_ rfl (by rw [hr]; exact Reader.noConfusion) (.inl rfl)
      simp only [front, hr, ← List.append_assoc]
      exact hpass _ _ []
  | epollAdd hr _ _ =>
    rename_i h c
    refine .keeps (fun x => ?_) rfl
    simp only [mem_held, front, hr, Kernel.registered_epollAdd, Reader.afterEpollAdd, ne_eq,
      not_true_eq_false, if_false, Reader.hand, List.mem_append, List.mem_singleton,
      List.not_mem_nil, or_false]
    tauto
  | epollAddFails hr =>
    refine .of_front (fun x => ?_) rfl rfl
    rw [front, front, hr]
    rfl
  | closeUnregistered hr =>
    refine hs.flow_closeFront ?_ rfl
    simp only [front, hr, ← List.append_assoc]
    exact hpass _ _ []
  | epollWait hr _ =>
    refine .of_front (fun x => ?_) (Kernel.registered_report ..) rfl
    simp only [front, hr, Reader.hand_forEvents]
    rfl
  | readClient hr _ =>
    refine .of_front (fun x => ?_) (Kernel.registered_read ..) (Kernel.read_file ..)
    simp only [front, hr, (Reader.afterRead_batch _ _ _).1]
    rfl
  | closePeer hr =>
    refine hs.flow_closeRegistered ?_ rfl ?_
    · rw [hr]
      exact List.mem_singleton_self _
    · rw [front, front, hr]
      rfl
  | closeError hr =>
    refine hs.flow_closeRegistered ?_ rfl ?_
    · rw [hr]
      exact List.mem_cons_self
    · simp only [front, hr, Reader.hand_forEvents]
      rfl

/-- The open descriptors of connections are those held and those lost, and a descriptor is
lost only where the reader leaves its loop. -/
structure Exact (s : Sys) (lost : List Handle) : Prop where
  file : ∀ fd c, s.kern.file fd = some (.conn c) → ⟨fd, c⟩ ∈ s.held ∨ ⟨fd, c⟩ ∈ lost
  stray : ∀ h ∈ lost, s.kern.file h.fd = some (.conn h.conn) ∧ h ∉ s.held
  nonneg : ∀ h ∈ s.held, 0 ≤ h.fd
  gone : lost = [] ∨ ∃ h, lost = [h] ∧ (s.reader = .exited ∨ h.fd = 0 ∧ s.reader = .returned)

/-- A reader that has returned makes no more calls. -/
theorem Step.stays_returned (hst : Step listenfd s a t) (hr : s.reader = .returned) :
    t.reader = .returned := by
  cases hst with
  | readPipe h _ | readEmpty h _ | readFails h | setNoBlocking h | epollAdd h _ _
  | epollAddFails h | closeUnregistered h | epollWait h _ | readClient h _ | closePeer h
  | closeError h =>
    rw [hr] at h
    cases h
  | _ => exact hr

/-- `exit(1)` ends the process. -/
theorem live_of_step (hk : (server listenfd).step s a = some t) : s.reader ≠ .exited := by
  intro hx
  simp only [server, step, hx, if_true] at hk
  cases hk

theorem Initial.exact (hs : s.Initial) : s.Exact [] where
  file := fun fd c hf => absurd hf (hs.file fd c)
  stray := List.forall_mem_nil _
  nonneg := by
    have hempty : s.held = [] := by
      simp only [held, unregistered, unwritten, Kernel.registered, hs.interest, hs.reader,
        hs.inFlight, hs.acceptor]
      rfl
    rw [hempty]
    exact List.forall_mem_nil _
  gone := .inl rfl

theorem Exact.step {lost : List Handle} (he : s.Exact lost) (hs : s.Sound)
    (hlive : s.reader ≠ .exited) (hst : Step listenfd s a t) : ∃ lost', t.Exact lost' := by
  have hover : lost = [] ∨
      ∃ h, lost = [h] ∧ (t.reader = .exited ∨ h.fd = 0 ∧ t.reader = .returned) := by
    refine he.gone.imp_right ?_
    rintro ⟨h, hl, hr | ⟨hfd, hr⟩⟩
    · exact absurd hr hlive
    · exact ⟨h, hl, .inr ⟨hfd, hst.stays_returned hr⟩⟩
  cases hst.flow hs with
  | keeps held file =>
    refine ⟨lost, ⟨?_, ?_, ?_, hover⟩⟩
    · simpa only [held, file] using he.file
    · simpa only [held, file] using he.stray
    · simpa only [held] using he.nonneg
  | accepts h held free nonneg first file =>
    have hother : ∀ fd c, fd ≠ h.fd → (t.kern.file fd = some (.conn c) ↔
        s.kern.file fd = some (.conn c)) := by
      intro fd c hne
      rw [file, Function.update_of_ne hne]
    refine ⟨lost, ⟨fun fd c hf => ?_, fun l hl => ?_, fun x hx => ?_, hover⟩⟩
    · by_cases hfd : fd = h.fd
      · subst hfd
        rw [file, Function.update_self] at hf
        obtain rfl : h.conn = c := by simpa using hf
        exact .inl ((held h).mpr (.inl rfl))
      · rcases he.file fd c ((hother fd c hfd).mp hf) with hm | hm
        · exact .inl ((held _).mpr (.inr hm))
        · exact .inr hm
    · obtain ⟨hf, hn⟩ := he.stray l hl
      have hne : l.fd ≠ h.fd := by
        intro heq
        rw [heq, free] at hf
        cases hf
      refine ⟨(hother _ _ hne).mpr hf, fun hm => ?_⟩
      rcases (held l).mp hm with rfl | hm
      · exact hne rfl
      · exact hn hm
    · rcases (held x).mp hx with rfl | hx
      · exact nonneg
      · exact he.nonneg x hx
  | closes h mem held file =>
    have hopen := hs.file_of_held mem
    refine ⟨lost, ⟨fun fd c hf => ?_, fun l hl => ?_, fun x hx => ?_, hover⟩⟩
    · have hne : fd ≠ h.fd := by
        rintro rfl
        rw [file, Function.update_self] at hf
        cases hf
      rw [file, Function.update_of_ne hne] at hf
      refine (he.file fd c hf).imp_left fun hm => (held _).mpr ⟨hm, ?_⟩
      rintro rfl
      exact hne rfl
    · obtain ⟨hf, hn⟩ := he.stray l hl
      have hne : l.fd ≠ h.fd := by
        intro heq
        rw [heq, hopen] at hf
        have hc : h.conn = l.conn := by simpa using hf
        have hlh : l = h := congrArg₂ Handle.mk heq hc.symm
        exact hn (hlh ▸ mem)
      rw [file, Function.update_of_ne hne]
      exact ⟨hf, fun hm => hn ((held l).mp hm).1⟩
    · exact he.nonneg x ((held x).mp hx).1
  | drops h mem held file live gone =>
    have hnone : lost = [] := by
      refine he.gone.resolve_right ?_
      rintro ⟨l, -, hr | ⟨-, hr⟩⟩
      · exact hlive hr
      · exact live hr
    subst hnone
    have hopen := hs.file_of_held mem
    refine ⟨[h], ⟨fun fd c hf => ?_, ?_, fun x hx => he.nonneg x ((held x).mp hx).1, .inr ?_⟩⟩
    · rw [file] at hf
      have hm := (he.file fd c hf).resolve_right List.not_mem_nil
      by_cases heq : (⟨fd, c⟩ : Handle) = h
      · exact .inr (List.mem_singleton.mpr heq)
      · exact .inl ((held _).mpr ⟨hm, heq⟩)
    · rw [List.forall_mem_singleton, file]
      exact ⟨hopen, fun hm => ((held h).mp hm).2 rfl⟩
    · refine ⟨h, rfl, gone.imp_right fun ⟨hle, hr⟩ => ⟨?_, hr⟩⟩
      exact Int32.le_antisymm hle (he.nonneg h mem)

def Balanced (s : Sys) : Prop := s.Sound ∧ ∃ lost, s.Exact lost

theorem balanced_of_reachable (hr : Reachable (server listenfd) s) : s.Balanced := by
  have hstep : ∀ u a v, Balanced u → (server listenfd).step u a = some v → Balanced v := by
    rintro u a v ⟨hu, lost, he⟩ hk
    exact ⟨hu.step (step_cases hk), he.step hu (live_of_step hk) (step_cases hk)⟩
  exact hr.invariant (fun u hu => ⟨hu.sound, [], hu.exact⟩) hstep

end Sys

/-- The open descriptors of connections are exactly those at a stage of the way through the
server; only where the reader has left its loop there is one more, and if it has returned
that one is number 0. -/
theorem descriptors_exact {listenfd : Int32} {s : Sys} (hr : Reachable (server listenfd) s) :
    ∃ lost : List Handle,
      (lost = [] ∨ ∃ h, lost = [h] ∧ (s.reader = .exited ∨ h.fd = 0 ∧ s.reader = .returned)) ∧
      ∀ fd c, s.kern.file fd = some (.conn c) ↔ ⟨fd, c⟩ ∈ s.held ++ lost := by
  obtain ⟨hs, lost, he⟩ := Sys.balanced_of_reachable hr
  refine ⟨lost, he.gone, fun fd c => ?_⟩
  rw [List.mem_append]
  refine ⟨he.file fd c, ?_⟩
  rintro (hm | hm)
  · exact hs.file_of_held hm
  · exact (he.stray _ hm).1

/-- The first client is registered, and its descriptor is the only one open. -/
theorem descriptors_exact_first_client : ∃ s, Reachable (server 5) s ∧
    s.held = [⟨8, 0⟩] ∧ s.kern.file 8 = some (.conn 0) := by
  obtain ⟨s, hr, hheld, hreader⟩ := exists_reachable_of_exec (S := server 5) Sys.initial_start
    firstClient (P := fun s => s.held = [⟨8, 0⟩] ∧ s.reader = .epollWait) (by decide +kernel)
  obtain ⟨lost, -, hiff⟩ := descriptors_exact hr
  refine ⟨s, hr, hheld, (hiff 8 0).mpr ?_⟩
  rw [hheld]
  exact List.mem_cons_self

end BaseCom.Epoll
