import BaseCom.Epoll.Ownership

/-! Calls that wait for a client. An accepted socket is blocking until the reader makes
it non-blocking, and the accept thread reads from it once before it hands it on. So
that read alone can be held up by a client, and it is held up exactly if the client had
nothing queued when its connection was accepted. -/

namespace BaseCom.Epoll

open Transition

namespace Sys

/-- A step of the clients. -/
def ByClient (_ : Sys) (a : Act) : Prop := ∃ e, a = .env e

/-- A read that an error or a signal cuts short. The thread cannot count on it. -/
def CutShort (a : Act) : Prop := ∃ e, a = .acceptor (.readClient (some e))

/-- The accept thread waits for connections, or has a call ahead that returns whatever the
clients do from now on. -/
def Unstalled (listenfd : Int32) (s : Sys) : Prop :=
  s.acceptor = .epollWait ∨ ∃ a, ¬ CutShort (.acceptor a) ∧
    ∀ tr t, Run (server listenfd) s tr t → Always ByClient tr →
      (t.acceptorStep listenfd a).isSome = true

/-- A connection is accepted only when its client has sent something, closed or reset. -/
def AcceptsReadable (s : Sys) : Act → Prop
  | .acceptor (.accept fd) =>
    0 ≤ fd → (s.kern.sock (s.kern.backlog.headD s.kern.nextConn)).readable = true
  | _ => True

instance (s : Sys) (a : Act) : Decidable (s.AcceptsReadable a) :=
  match a with
  | .acceptor (.accept _) => inferInstanceAs (Decidable (_ → _))
  | .env _ | .reader _ | .acceptor (.epollWait _) | .acceptor .acceptFails
  | .acceptor (.readClient _) | .acceptor (.writePipe _ _) | .acceptor .closeClient =>
    isTrue trivial

/-- The client of the connection does nothing, and no read of the accept thread is cut
short. -/
def Silent (c : Conn) (_ : Sys) (a : Act) : Prop :=
  (∀ n, a ≠ .env (.deliver c n)) ∧ a ≠ .env (.peerClose c) ∧ a ≠ .env (.peerError c) ∧
    ¬ CutShort a

/-- The accept thread is about to read from the connection, and nothing is queued. -/
def StalledOn (s : Sys) (h : Handle) : Prop :=
  (∃ msg rest, s.acceptor = .readClient h msg rest) ∧ (s.kern.sock h.conn).readable = false

variable {listenfd : Int32} {s t : Sys} {a : Act} {h : Handle}

/-! ### What changes a receive queue -/

theorem mem_hand_of_readClient {msg : Pipemsg} {rest : List (EpollEvent Int32)}
    (hacc : s.acceptor = .readClient h msg rest) : h ∈ s.acceptor.hand := by
  rw [hacc]
  exact List.mem_singleton_self h

theorem Sound.hand_old (hs : s.Sound) (hh : h ∈ s.acceptor.hand) : h.conn < s.kern.nextConn :=
  hs.tracks.old _ (List.mem_append_left _ (List.mem_map_of_mem
    (List.mem_append_left _ (List.mem_append_left _ hh))))

/-- What the reader reads is not in the acceptor's hand. -/
theorem Sound.hand_ne_batch (hs : s.Sound) {g : Handle} (hh : h ∈ s.acceptor.hand)
    (hg : g ∈ s.reader.batch) : h.conn ≠ g.conn := by
  intro he
  have hfront : h ∈ s.front := List.mem_append_left _ hh
  have hreg : g ∈ s.kern.registered := hs.tracks.reported hg
  have heq : h = g := hs.tracks.eq_of_conn (List.mem_append_left _ hfront)
    (List.mem_append_right _ hreg) he
  exact hs.tracks.notMem_front hreg (heq ▸ hfront)

theorem sock_read {k : Kernel} {fd : Int32} {len : ℕ} {fault : Option Errno} {c d : Conn}
    (hf : k.file fd = some (.conn d)) (hne : c ≠ d) :
    (k.read fd len fault).2.sock c = k.sock c := by
  unfold Kernel.read
  rw [hf]
  cases fault with
  | some e => rfl
  | none =>
    simp only
    split_ifs
    · exact Function.update_of_ne hne _ _
    · rfl
    · rfl

/-- The receive queue of a connection in the acceptor's hand is changed by its client and
by the acceptor's own read. -/
theorem Sound.sock_step (hs : s.Sound) (hst : Step listenfd s a t) (hh : h ∈ s.acceptor.hand) :
    t.kern.sock h.conn = s.kern.sock h.conn ∨
      (∃ n, a = .env (.deliver h.conn n) ∧ 0 < n ∧
        t.kern.sock h.conn = ⟨(s.kern.sock h.conn).unread + n, (s.kern.sock h.conn).eof⟩) ∨
      ((a = .env (.peerClose h.conn) ∨ a = .env (.peerError h.conn)) ∧
        t.kern.sock h.conn = ⟨(s.kern.sock h.conn).unread, true⟩) ∨
      ∃ fault, a = .acceptor (.readClient fault) := by
  cases hst with
  | connect addr => exact .inl (Function.update_of_ne (Nat.ne_of_lt (hs.hand_old hh)) _ _)
  | deliver hc hn he =>
    rename_i c n
    rcases eq_or_ne h.conn c with rfl | hne
    · exact .inr (.inl ⟨n, rfl, hn, Function.update_self _ _ _⟩)
    · exact .inl (Function.update_of_ne hne _ _)
  | peerClose hc =>
    rename_i c
    rcases eq_or_ne h.conn c with rfl | hne
    · exact .inr (.inr (.inl ⟨.inl rfl, Function.update_self _ _ _⟩))
    · exact .inl (Function.update_of_ne hne _ _)
  | peerError hc =>
    rename_i c
    rcases eq_or_ne h.conn c with rfl | hne
    · exact .inr (.inr (.inl ⟨.inr rfl, Function.update_self _ _ _⟩))
    · exact .inl (Function.update_of_ne hne _ _)
  | readOnce ha => exact .inr (.inr (.inr ⟨_, rfl⟩))
  | readClient hr hf =>
    rename_i fault g rest
    have hg : g ∈ s.reader.batch := by
      rw [hr]
      exact List.mem_cons_self
    exact .inl (sock_read (hs.tracks.file_of_batch hg) (hs.hand_ne_batch hh hg))
  | _ => exact .inl rfl

/-- Only the acceptor's own read takes anything off that queue. -/
theorem Sound.readable_step (hs : s.Sound) (hst : Step listenfd s a t) (hh : h ∈ s.acceptor.hand)
    (ha : ∀ fault, a ≠ .acceptor (.readClient fault))
    (hr : (s.kern.sock h.conn).readable = true) : (t.kern.sock h.conn).readable = true := by
  rcases hs.sock_step hst hh with he | ⟨n, -, hn, he⟩ | ⟨-, he⟩ | ⟨fault, hf⟩
  · rw [he, hr]
  · have hpos : 0 < (s.kern.sock h.conn).unread + n := by omega
    rw [he]
    simp [Socket.readable, hpos]
  · rw [he]
    simp [Socket.readable]
  · exact absurd hf (ha fault)

/-! ### Calls that return whatever the clients do -/

theorem Step.acceptor_of_others (hst : Step listenfd s a t) (ha : ∀ b, a ≠ .acceptor b) :
    t.acceptor = s.acceptor := by
  cases hst with
  | listenReport _ _ | listenTimeout _ | accept _ _ | acceptFails _ | readOnce _ | writePipe _
  | writeFails _ | closeClient _ => exact absurd rfl (ha _)
  | _ => rfl

/-- What the clients do leaves the accept thread where it is, and what it can read it can
still read. -/
theorem Sound.clients_keep (hs : s.Sound) {tr : List (Sys × Act)}
    (hr : Run (server listenfd) s tr t) (hc : Always ByClient tr) :
    t.Sound ∧ t.acceptor = s.acceptor ∧ ∀ h ∈ s.acceptor.hand,
      (s.kern.sock h.conn).readable = true → (t.kern.sock h.conn).readable = true := by
  have hstep : ∀ u a v, (u.Sound ∧ u.acceptor = s.acceptor ∧ ∀ h ∈ s.acceptor.hand,
      (s.kern.sock h.conn).readable = true → (u.kern.sock h.conn).readable = true) →
      u.ByClient a → (server listenfd).step u a = some v →
      v.Sound ∧ v.acceptor = s.acceptor ∧ ∀ h ∈ s.acceptor.hand,
        (s.kern.sock h.conn).readable = true → (v.kern.sock h.conn).readable = true := by
    rintro u a v ⟨hu, hacc, hread⟩ ha hk
    have hst := step_cases hk
    have hno : ∀ b, a ≠ .acceptor b := by
      obtain ⟨e, rfl⟩ := ha
      rintro b ⟨⟩
    refine ⟨hu.step hst, (hst.acceptor_of_others hno).trans hacc, fun h hh hrs => ?_⟩
    exact hu.readable_step hst (hacc ▸ hh) (fun _ => hno _) (hread h hh hrs)
  exact (hr.along_of_always hstep ⟨hs, rfl, fun _ _ hread => hread⟩ hc).2

theorem Sound.blocks_eq (hs : s.Sound) (hh : h ∈ s.acceptor.hand) :
    s.kern.blocks h.fd = !(s.kern.sock h.conn).readable := by
  simp only [Kernel.blocks, hs.hand_file hh]

theorem StalledOn.mem_hand (hst : s.StalledOn h) : h ∈ s.acceptor.hand := by
  obtain ⟨⟨msg, rest, hacc⟩, -⟩ := hst
  exact mem_hand_of_readClient hacc

theorem StalledOn.refuses (hs : s.Sound) (hst : s.StalledOn h) {b : AcceptorAct}
    (hcut : ¬ CutShort (.acceptor b)) : s.acceptorStep listenfd b = none := by
  have hblocks := hs.blocks_eq hst.mem_hand
  obtain ⟨⟨msg, rest, hacc⟩, hread⟩ := hst
  cases b with
  | readClient fault =>
    cases fault with
    | none => simp [acceptorStep, hacc, hblocks, hread]
    | some e => exact absurd ⟨e, rfl⟩ hcut
  | epollWait _ | accept _ | acceptFails | writePipe _ _ | closeClient =>
    simp [acceptorStep, hacc]

/-- Of the calls of the loop only the read can wait for a client: the thread is held up
exactly if it is about to read a connection with nothing queued. -/
theorem Sound.unstalled_iff (hs : s.Sound) :
    s.Unstalled listenfd ↔ ∀ h msg rest, s.acceptor = .readClient h msg rest →
      (s.kern.sock h.conn).readable = true := by
  constructor
  · rintro (hw | ⟨a, hcut, hall⟩) h msg rest hacc
    · rw [hw] at hacc
      cases hacc
    · have hnow := hall [] s (.refl s) (always_nil _)
      by_contra hread
      have hst : s.StalledOn h := ⟨⟨msg, rest, hacc⟩, Bool.not_eq_true _ ▸ hread⟩
      rw [hst.refuses hs hcut] at hnow
      cases hnow
  · intro hread
    have hcalls : ∀ a, ¬ CutShort (.acceptor a) →
        (∀ u : Sys, u.Sound → u.acceptor = s.acceptor →
          (∀ h ∈ s.acceptor.hand, (s.kern.sock h.conn).readable = true →
            (u.kern.sock h.conn).readable = true) → (u.acceptorStep listenfd a).isSome = true) →
        s.Unstalled listenfd := by
      refine fun a hcut hall => .inr ⟨a, hcut, fun tr t hr hc => ?_⟩
      obtain ⟨ht, hacc, hkeep⟩ := hs.clients_keep hr hc
      exact hall t ht hacc hkeep
    cases hacc : s.acceptor with
    | epollWait => exact .inl hacc
    | accept rest =>
      refine hcalls (.accept (-1)) (by rintro ⟨e, ⟨⟩⟩) fun u _ hu _ => ?_
      have hmay : u.kern.MayAccept (-1) := .inl (by decide)
      simp [acceptorStep, hu, hacc, hmay]
    | readClient h msg rest =>
      refine hcalls (.readClient none) (by rintro ⟨e, ⟨⟩⟩) fun u hsu hu hkeep => ?_
      have hh := mem_hand_of_readClient hacc
      have hopen := hsu.blocks_eq (hu ▸ hh)
      rw [hkeep h hh (hread h msg rest hacc)] at hopen
      simp [acceptorStep, hu, hacc, hopen]
    | writePipe h msg rest =>
      refine hcalls (.writePipe .zero true) (by rintro ⟨e, ⟨⟩⟩) fun u _ hu _ => ?_
      simp [acceptorStep, hu, hacc]
    | closeClient h rest =>
      refine hcalls .closeClient (by rintro ⟨e, ⟨⟩⟩) fun u _ hu _ => ?_
      simp [acceptorStep, hu, hacc]

theorem Sound.unstalled_of_hand (hs : s.Sound) (hh : s.acceptor.hand = []) :
    s.Unstalled listenfd := by
  refine hs.unstalled_iff.mpr fun h msg rest hacc => ?_
  rw [hacc] at hh
  cases hh

/-- Only an accepted connection with nothing queued holds the thread up. -/
theorem Unstalled.step_iff (hs : s.Sound) (hu : s.Unstalled listenfd)
    (hst : Step listenfd s a t) : t.Unstalled listenfd ↔ s.AcceptsReadable a := by
  have ht := hs.step hst
  have hkeep : t.acceptor = s.acceptor → (∀ fault, a ≠ .acceptor (.readClient fault)) →
      t.Unstalled listenfd := by
    intro hacc ha
    refine ht.unstalled_iff.mpr fun h msg rest hr => ?_
    have hsr : s.acceptor = .readClient h msg rest := hacc.symm.trans hr
    exact hs.readable_step hst (mem_hand_of_readClient hsr) ha
      (hs.unstalled_iff.mp hu h msg rest hsr)
  cases hst with
  | accept hacc hfd =>
    rename_i fd rest
    rcases Int32.lt_or_le fd 0 with hneg | hpos
    · refine iff_of_true (ht.unstalled_of_hand ?_) fun h0 => absurd h0 (Int32.not_le.mpr hneg)
      show Acceptor.hand (.afterAccept _ _ _ _ _) = _
      rw [Acceptor.afterAccept, if_neg (Int32.not_le.mpr hneg), Acceptor.hand_forEvents]
    · rw [ht.unstalled_iff]
      simp only [Acceptor.afterAccept, if_pos hpos, Kernel.accept, AcceptsReadable]
      constructor
      · exact fun hread _ => hread _ _ _ rfl
      · rintro hread h msg rest ⟨⟩
        exact hread hpos
  | listenReport _ _ | listenTimeout _ | acceptFails _ | closeClient _ =>
    exact iff_of_true (ht.unstalled_of_hand (Acceptor.hand_forEvents _ _)) trivial
  | readOnce hacc =>
    refine iff_of_true (ht.unstalled_iff.mpr fun h msg rest hr => ?_) trivial
    cases hr
  | writePipe hacc =>
    refine iff_of_true (ht.unstalled_of_hand ?_) trivial
    simp only [Acceptor.afterWrite, ne_eq, not_true_eq_false, if_false, Acceptor.hand_forEvents]
  | writeFails hacc =>
    refine iff_of_true (ht.unstalled_iff.mpr fun h msg rest hr => ?_) trivial
    cases hr
  | _ => exact iff_of_true (hkeep rfl fun fault hf => by cases hf) trivial

/-! ### How long a stall lasts -/

/-- The thread stays held up until that one client sends, closes or resets, or its read is cut
short: meanwhile it accepts nobody, whatever the other clients and the reader do. -/
theorem StalledOn.lasts (hs : s.Sound) (hst : s.StalledOn h) {tr : List (Sys × Act)}
    (hr : Run (server listenfd) s tr t) (hc : Always (Silent h.conn) tr) :
    Always (fun u _ => u.StalledOn h) tr ∧ t.StalledOn h := by
  have hstep : ∀ u a v, (u.Sound ∧ u.StalledOn h) → u.Silent h.conn a →
      (server listenfd).step u a = some v → v.Sound ∧ v.StalledOn h := by
    rintro u a v ⟨hu, hst⟩ ⟨hdel, hclose, hreset, hcut⟩ hk
    have hno : ∀ b, a ≠ .acceptor b := by
      rintro b rfl
      have hnone : u.acceptorStep listenfd b = none := hst.refuses hu hcut
      simp [server, step, hnone] at hk
    have hcase := step_cases hk
    refine ⟨hu.step hcase, ?_, ?_⟩
    · rw [hcase.acceptor_of_others hno]
      exact hst.1
    · rcases hu.sock_step hcase hst.mem_hand with he | ⟨n, hn, -⟩ | ⟨hc, -⟩ | ⟨fault, hf⟩
      · rw [he, hst.2]
      · exact absurd hn (hdel n)
      · exact (hc.elim hclose hreset).elim
      · exact absurd hf (hno _)
  obtain ⟨halong, hend⟩ := hr.along_of_always hstep ⟨hs, hst⟩ hc
  exact ⟨fun p hp => (halong p hp).2, hend.2⟩

end Sys

/-- In every state of a run the accept thread waits for connections or has a call ahead
that returns whatever the clients do, if and only if every connection had something queued,
or was closed or reset by its client, when it was accepted. Otherwise it is one client the thread
waits for, and it accepts nobody until that client acts. -/
theorem accept_unstalled_iff {listenfd : Int32} {s₀ s : Sys} {tr : List (Sys × Act)}
    (hi : s₀.Initial) (hr : Run (server listenfd) s₀ tr s) :
    (Always (fun u _ => u.Unstalled listenfd) tr ∧ s.Unstalled listenfd ↔
      Always Sys.AcceptsReadable tr) ∧
    (¬ s.Unstalled listenfd → ∃ h, ∀ ts t, Run (server listenfd) s ts t →
      Always (Sys.Silent h.conn) ts → t.StalledOn h) := by
  have hs := hr.invariant (fun _ _ _ hu hk => hu.step (Sys.step_cases hk)) hi.sound
  refine ⟨hr.along_iff (fun _ _ _ hu hk => hu.step (Sys.step_cases hk))
    (fun _ _ _ hu hg hk => hg.step_iff hu (Sys.step_cases hk)) hi.sound (.inl hi.acceptor), ?_⟩
  intro hn
  rw [hs.unstalled_iff] at hn
  push Not at hn
  obtain ⟨h, msg, rest, hacc, hread⟩ := hn
  have hst : s.StalledOn h := ⟨⟨msg, rest, hacc⟩, Bool.not_eq_true _ ▸ hread⟩
  exact ⟨h, fun ts t hts hc => (hst.lasts hs hts hc).2⟩

/-- A client that sends before its connection is accepted. -/
theorem accept_unstalled_prompt_client : ∃ s tr, Run (server 5) Sys.start tr s ∧
    s.acceptor.hand = [⟨8, 0⟩] ∧ Always (fun u _ => u.Unstalled 5) tr ∧ s.Unstalled 5 := by
  have hall : Always Sys.AcceptsReadable (trace (server 5) Sys.start [
      .env (.connect ⟨16777343, 4660⟩), .env (.deliver 0 10), .acceptor (.epollWait true),
      .acceptor (.accept 8)]) := by
    unfold Always
    decide +kernel
  obtain ⟨s, hr, hh⟩ := exists_run_of_exec (S := server 5) Sys.start [
    .env (.connect ⟨16777343, 4660⟩), .env (.deliver 0 10), .acceptor (.epollWait true),
    .acceptor (.accept 8)] (P := fun s => s.acceptor.hand = [⟨8, 0⟩]) (by decide +kernel)
  exact ⟨s, _, hr, hh, (accept_unstalled_iff Sys.initial_start hr).1.mpr hall⟩

/-- A client that connects and sends nothing: the thread is in the read of its socket. -/
theorem accept_stalled_silent_client :
    ¬ ∀ listenfd s, Reachable (server listenfd) s → s.Unstalled listenfd := by
  intro hall
  obtain ⟨s, hr, hacc, hread⟩ := exists_reachable_of_exec (S := server 5) Sys.initial_start [
    .env (.connect ⟨16777343, 4660⟩), .acceptor (.epollWait true), .acceptor (.accept 8)]
    (P := fun s => s.acceptor = .readClient ⟨8, 0⟩ ⟨1, 8, 16777343, 4660⟩ [] ∧
      (s.kern.sock 0).readable = false) (by decide +kernel)
  have hs := Sys.sound_of_reachable hr
  have hopen := hs.unstalled_iff.mp (hall 5 s hr) _ _ _ hacc
  rw [hread] at hopen
  cases hopen

end BaseCom.Epoll
