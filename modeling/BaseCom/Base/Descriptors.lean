import BaseCom.Base.Program

/-! The descriptor table of the program at every moment of a run. Of all that the program opens
beside its connections only the descriptors of the server's start are ever closed, by `FreeFd`
where the start fails. `FreeFd` would pass over number 0, which the start never gets; what it
closes can be given out again, to the reader, before the process ends. -/

namespace BaseCom.Epoll

variable {s t : Sys}

/-- The reader gets no connection a number. -/
theorem Sys.Step.reader_conn {listenfd n : Int32} {c : Conn} {b : ReaderAct}
    (hst : Sys.Step listenfd s (.reader b) t) (hn : t.kern.file n = some (.conn c)) :
    s.kern.file n = some (.conn c) := by
  have hclose : ∀ fd : Int32, (s.kern.close fd).file n = some (.conn c) →
      s.kern.file n = some (.conn c) := by
    intro fd hc
    rcases eq_or_ne n fd with rfl | hne
    · cases (Function.update_self ..).symm.trans hc
    · exact (Function.update_of_ne hne ..).symm.trans hc
  cases hst with
  | closeUnregistered hr | closePeer hr | closeError hr => exact hclose _ hn
  | readClient _ _ => exact (congrFun (Kernel.read_file ..) n).symm.trans hn
  | _ => exact hn

/-- What else is opened or closed is nothing to the books of the threads. -/
theorem Sys.Exact.relabel {lost : List Handle} {file : Int32 → Option File} (h : s.Exact lost)
    (hf : ∀ fd c, file fd = some (.conn c) ↔ s.kern.file fd = some (.conn c)) :
    Sys.Exact { s with kern := { s.kern with file := file } } lost where
  file := fun fd c hc => h.file fd c ((hf fd c).mp hc)
  stray := fun l hl => (h.stray l hl).imp_left (hf l.fd l.conn).mpr
  nonneg := h.nonneg
  gone := h.gone

end BaseCom.Epoll

namespace BaseCom.Base

open Transition Epoll

namespace ProgramAct

/-- The numbers a call opens for as long as the process lives. -/
def opens : ProgramAct → List Int32
  | .openLog fd | .readerEpollCreate fd => (fd.map .ofNat).toList
  | .pipe fd => fd.elim [] fun (rfd, wfd) => [.ofNat rfd, .ofNat wfd]
  | _ => []

/-- The numbers a call opens for the server. -/
def starts : ProgramAct → List Int32
  | .serverEpollCreate fd | .serverSocket fd => (fd.map .ofNat).toList
  | _ => []

end ProgramAct

def opened (tr : List (Program × ProgramAct)) : List Int32 := tr.flatMap fun x => x.2.opens

def started (tr : List (Program × ProgramAct)) : List Int32 := tr.flatMap fun x => x.2.starts

section

variable {tr : List (Program × ProgramAct)} {p : Program} {a : ProgramAct} {n : Int32}

theorem opened_tail : opened (tr ++ [(p, a)]) = opened tr ++ a.opens := by simp [opened]

theorem started_tail : started (tr ++ [(p, a)]) = started tr ++ a.starts := by simp [started]

theorem mem_opened_tail : n ∈ opened (tr ++ [(p, a)]) ↔ n ∈ opened tr ∨ n ∈ a.opens := by
  rw [opened_tail, List.mem_append]

end

/-! ### One call -/

section

variable {k k' : Kernel} {fd : Option ℕ} {n : Int32}

/-- The number was free, and is the only one to change. -/
theorem openOther_file (h : openOther k fd = some k') :
    k'.file n = if n ∈ (fd.map Int32.ofNat).toList then some .other else k.file n := by
  cases fd with
  | none =>
    cases h
    rfl
  | some m =>
    obtain ⟨-, h⟩ := Option.ite_none_right_eq_some.mp h
    cases h
    simp [Function.update_apply]

theorem openOther_fresh (h : openOther k fd = some k') (hn : n ∈ (fd.map Int32.ofNat).toList) :
    k.file n = none := by
  cases fd with
  | none => cases hn
  | some m =>
    obtain ⟨hlow, -⟩ := Option.ite_none_right_eq_some.mp h
    obtain rfl : n = .ofNat m := by simpa using hn
    exact hlow.2.1

/-- A number that is given out while 0 is taken is positive. -/
theorem openOther_pos (h : openOther k fd = some k') (hz : k.file 0 = some .other)
    (hn : n ∈ (fd.map Int32.ofNat).toList) : 0 < n := by
  have hfree := openOther_fresh h hn
  cases fd with
  | none => cases hn
  | some m =>
    obtain ⟨hlow, -⟩ := Option.ite_none_right_eq_some.mp h
    obtain rfl : n = .ofNat m := by simpa using hn
    have hne : m ≠ 0 := by
      rintro rfl
      cases hz.symm.trans hfree
    rw [Int32.lt_iff_toInt_lt, Int32.toInt_ofNat_of_lt hlow.1]
    simpa using Nat.pos_of_ne_zero hne

theorem close_file {fd : Int32} : (if fd > 0 then k.close fd else k).file n =
    if 0 < n ∧ n = fd then none else k.file n := by
  by_cases hpos : fd > 0
  · rw [if_pos hpos]
    rcases eq_or_ne n fd with rfl | hne
    · rw [if_pos ⟨hpos, rfl⟩]
      exact Function.update_self ..
    · rw [if_neg fun h => hne h.2]
      exact Function.update_of_ne hne ..
  · rw [if_neg hpos, if_neg]
    rintro ⟨hn, rfl⟩
    exact hpos hn

/-- `FreeFd` closes what it is to close unless that is number 0. -/
theorem freeFd_file {listenfd epfd : Int32} : (freeFd k listenfd epfd).file n =
    if 0 < n ∧ n ∈ [epfd, listenfd] then none else k.file n := by
  unfold freeFd
  simp only [close_file, List.mem_cons, List.not_mem_nil, or_false]
  split_ifs <;> tauto

end

/-! ### The books -/

/-- What the program has opened beside its connections, against what the process was started
with. -/
structure Books (p₀ : Program) (tr : List (Program × ProgramAct)) (p : Program) : Prop where
  exact : ∀ n, p.sys.kern.file n = some .other ↔
    p₀.sys.kern.file n = some .other ∨ n ∈ opened tr ∨ p.server ≠ .over ∧ n ∈ started tr
  own : p.server ≠ .over → ∀ n ∈ started tr,
    0 < n ∧ p₀.sys.kern.file n ≠ some .other ∧ n ∉ opened tr
  fds : p.server ≠ .over → (∀ listenfd, p.server ≠ .looping listenfd) →
    started tr = p.server.fds
  alone : (∀ listenfd, p.server ≠ .looping listenfd) → ∀ n c, p.sys.kern.file n ≠ some (.conn c)

namespace Books

variable {p₀ p q : Program} {tr : List (Program × ProgramAct)} {a : ProgramAct}

theorem init (hi : p₀.Initial) : Books p₀ [] p₀ where
  exact := by simp [opened, started]
  own := by simp [started]
  fds := by simp [started, hi.server, ServerThread.fds]
  alone := fun _ => hi.sys.file

/-- A call of the start of the server has opened its number. -/
theorem begin (h : Books p₀ tr p) (hopens : a.opens = []) (hp : p.server ≠ .over)
    (hloop : ∀ listenfd, p.server ≠ .looping listenfd) (hq : q.server ≠ .over)
    (hfds : q.server.fds = p.server.fds ++ a.starts)
    (hfile : ∀ n, q.sys.kern.file n = if n ∈ a.starts then some .other else p.sys.kern.file n)
    (hfresh : ∀ n ∈ a.starts, 0 < n ∧ p.sys.kern.file n = none) :
    Books p₀ (tr ++ [(p, a)]) q where
  exact := by
    intro n
    rw [hfile, opened_tail, started_tail, hopens, List.append_nil]
    split_ifs with hn
    · exact iff_of_true rfl (.inr (.inr ⟨hq, List.mem_append_right _ hn⟩))
    · rw [h.exact]
      simp [hp, hq, hn]
  own := by
    intro _ n hn
    rw [opened_tail, hopens, List.append_nil]
    rw [started_tail] at hn
    rcases List.mem_append.mp hn with hn | hn
    · exact h.own hp n hn
    · obtain ⟨hpos, hnone⟩ := hfresh n hn
      have hexact := h.exact n
      rw [hnone] at hexact
      have hnot := hexact.not.mp nofun
      exact ⟨hpos, fun h0 => hnot (.inl h0), fun ho => hnot (.inr (.inl ho))⟩
  fds := fun _ _ => by rw [started_tail, hfds, h.fds hp hloop]
  alone := by
    intro _ n c hc
    rw [hfile] at hc
    split_ifs at hc
    · cases hc
    · exact h.alone hloop n c hc

/-- The start has failed, and `FreeFd` has closed what it held. -/
theorem clean (h : Books p₀ tr p) (hopens : a.opens = []) (hp : p.server ≠ .over)
    (hloop : ∀ listenfd, p.server ≠ .looping listenfd)
    (hq : q.server = .over)
    (hfile : ∀ n, q.sys.kern.file n =
      if 0 < n ∧ n ∈ p.server.fds then none else p.sys.kern.file n) :
    Books p₀ (tr ++ [(p, a)]) q where
  exact := by
    intro n
    rw [hfile, opened_tail, hopens, List.append_nil]
    have hexact := h.exact n
    split_ifs with hn
    · obtain ⟨-, h0, ho⟩ := h.own hp n (h.fds hp hloop ▸ hn.2)
      simp [hq, h0, ho]
    · have hnot : n ∉ started tr := fun hs => hn ⟨(h.own hp n hs).1, h.fds hp hloop ▸ hs⟩
      rw [hexact]
      simp [hq, hnot]
  own := fun hn => absurd hq hn
  fds := fun hn => absurd hq hn
  alone := by
    intro _ n c hc
    rw [hfile] at hc
    split_ifs at hc
    exact h.alone hloop n c hc

/-- A call that is none of the start. -/
theorem move (h : Books p₀ tr p) (hstarts : a.starts = [])
    (hserver : q.server = p.server ∨ p.server = .unborn ∧ q.server = .epollCreate ∨
      ∃ epfd listenfd, p.server = .configure epfd listenfd ∧ q.server = .looping listenfd)
    (hfile : ∀ n, q.sys.kern.file n = some .other ↔
      n ∈ a.opens ∨ p.sys.kern.file n = some .other)
    (hfresh : ∀ n ∈ a.opens, p.sys.kern.file n ≠ some .other)
    (halone : (∀ listenfd, q.server ≠ .looping listenfd) → ∀ n c,
      q.sys.kern.file n = some (.conn c) → p.sys.kern.file n = some (.conn c)) :
    Books p₀ (tr ++ [(p, a)]) q := by
  have hover : q.server ≠ .over ↔ p.server ≠ .over := by
    rcases hserver with he | ⟨hp, hq⟩ | ⟨epfd, listenfd, hp, hq⟩
    · rw [he]
    · simp [hp, hq]
    · simp [hp, hq]
  have hloop : (∀ listenfd, q.server ≠ .looping listenfd) →
      (∀ listenfd, p.server ≠ .looping listenfd) ∧ q.server.fds = p.server.fds := by
    intro hl
    rcases hserver with he | ⟨hp, hq⟩ | ⟨epfd, listenfd, hp, hq⟩
    · exact ⟨he ▸ hl, by rw [he]⟩
    · simp [hp, hq, ServerThread.fds]
    · exact absurd hq (hl _)
  refine ⟨fun n => ?_, fun hq n hn => ?_, fun hq hl => ?_, fun hl n c hc => ?_⟩
  · rw [hfile, h.exact, mem_opened_tail, started_tail, hstarts, List.append_nil, hover]
    tauto
  · rw [started_tail, hstarts, List.append_nil] at hn
    have hp := hover.mp hq
    obtain ⟨hpos, h0, ho⟩ := h.own hp n hn
    refine ⟨hpos, h0, fun hm => ?_⟩
    rcases mem_opened_tail.mp hm with hm | hm
    · exact ho hm
    · exact hfresh n hm ((h.exact n).mpr (.inr (.inr ⟨hp, hn⟩)))
  · obtain ⟨hlp, hfds⟩ := hloop hl
    rw [started_tail, hstarts, List.append_nil, hfds]
    exact h.fds (hover.mp hq) hlp
  · exact h.alone (hloop hl).1 n c (halone hl n c hc)

/-- A call that changes no number. -/
theorem stay (h : Books p₀ tr p) (hopens : a.opens = []) (hstarts : a.starts = [])
    (hserver : q.server = p.server ∨ p.server = .unborn ∧ q.server = .epollCreate ∨
      ∃ epfd listenfd, p.server = .configure epfd listenfd ∧ q.server = .looping listenfd)
    (hk : q.sys.kern = p.sys.kern) : Books p₀ (tr ++ [(p, a)]) q := by
  refine h.move hstarts hserver (fun n => ?_) (fun n hn => ?_) fun _ n c hc => ?_
  · simp [hopens, hk]
  · rw [hopens] at hn
    cases hn
  · rwa [hk] at hc

/-- A call that opens something to stay open. -/
theorem opens (h : Books p₀ tr p) (hstarts : a.starts = []) (hserver : q.server = p.server)
    (hfile : ∀ n, q.sys.kern.file n = if n ∈ a.opens then some .other else p.sys.kern.file n)
    (hfresh : ∀ n ∈ a.opens, p.sys.kern.file n = none) : Books p₀ (tr ++ [(p, a)]) q := by
  refine h.move hstarts (.inl hserver) (fun n => ?_) (fun n hn he => ?_) fun _ n c hc => ?_
  · rw [hfile]
    split_ifs with hn <;> simp [hn]
  · cases he.symm.trans (hfresh n hn)
  · rw [hfile] at hc
    split_ifs at hc
    · cases hc
    · exact hc

/-- A thread's step within the system. -/
theorem sysStep (h : Books p₀ tr p) (hfit : p.Fit) {b : Act} {s : Sys} (ha : p.Allows b)
    (hk : Sys.Step p.listenfd p.sys b s) :
    Books p₀ (tr ++ [(p, .sys b)]) { p with sys := s } := by
  refine h.move rfl (.inl rfl) (fun n => ?_) (fun _ hn => ?_) fun hl n c => ?_
  · simpa [ProgramAct.opens] using hfit.handed.sound.other_iff hk
  · cases hn
  · cases b with
    | env e | acceptor b => exact absurd ha (hl _)
    | reader b => exact hk.reader_conn

theorem step (h : Books p₀ tr p) (hfit : p.Fit) (hst : Program.Step p a q) :
    Books p₀ (tr ++ [(p, a)]) q := by
  cases hst with
  | openLog hm hk =>
    exact h.opens rfl rfl (fun _ => openOther_file hk) fun _ => openOther_fresh hk
  | pipe hm hr hw =>
    rename_i rfd wfd k k'
    have hsplit : ∀ n, n ∈ ProgramAct.opens (.pipe (some (rfd, wfd))) ↔
        n ∈ ((some rfd).map Int32.ofNat).toList ∨ n ∈ ((some wfd).map Int32.ofNat).toList := by
      simp [ProgramAct.opens]
    refine h.opens rfl rfl (fun n => ?_) fun n hn => ?_
    · show k'.file n = _
      simp only [openOther_file hw, openOther_file hr, hsplit]
      split_ifs <;> tauto
    · rcases (hsplit n).mp hn with hn | hn
      · exact openOther_fresh hr hn
      · have hnone := openOther_fresh hw hn
        rw [openOther_file hr] at hnone
        split_ifs at hnone
        exact hnone
  | startServer hm =>
    rename_i ok
    have hb := (hfit.unborn (by simp [hm]) (by simp [hm]) (by simp [hm])).1
    refine h.stay rfl rfl ?_ rfl
    cases ok
    · exact .inl hb.symm
    · exact .inr (.inl ⟨hb, rfl⟩)
  | fork hm | execlp hm | pipeFails hm | setNoBlocking hm | startReader hm | scanf hm =>
    exact h.stay rfl rfl (.inl rfl) rfl
  | serverEpollCreate hs hk =>
    rename_i fd k
    have hzero := hfit.zero
    cases fd with
    | none =>
      cases hk
      refine h.clean rfl (by simp [hs]) (by simp [hs]) rfl fun n => ?_
      simp [hs, ServerThread.fds, Program.withKern]
    | some m =>
      refine h.begin rfl (by simp [hs]) (by simp [hs]) ServerThread.noConfusion ?_
        (fun _ => openOther_file hk) fun n hn => ⟨openOther_pos hk hzero hn, openOther_fresh hk hn⟩
      simp [hs, ServerThread.fds, ServerThread.afterEpollCreate, ProgramAct.starts]
  | socketFails hs =>
    rename_i epfd
    refine h.clean rfl (by simp [hs]) (by simp [hs]) rfl fun n => ?_
    have hneg : ¬ (0 < n ∧ n = -1) := by
      rintro ⟨hpos, rfl⟩
      exact absurd hpos (by decide)
    show (freeFd p.sys.kern (-1) epfd).file n = _
    rw [freeFd_file, hs]
    congr 1
    simp only [ServerThread.fds, List.mem_cons, List.not_mem_nil, or_false, and_or_left, hneg]
  | socket hs hk =>
    have hzero := hfit.zero
    refine h.begin rfl (by simp [hs]) (by simp [hs]) ServerThread.noConfusion ?_
      (fun _ => openOther_file hk) fun n hn => ⟨openOther_pos hk hzero hn, openOther_fresh hk hn⟩
    simp [hs, ServerThread.fds, ProgramAct.starts]
  | configureFails hs =>
    refine h.clean rfl (by simp [hs]) (by simp [hs]) rfl fun n => ?_
    rw [hs]
    exact freeFd_file
  | configureExits hs => exact h.stay rfl rfl (.inl rfl) rfl
  | configure hs => exact h.stay rfl rfl (.inr (.inr ⟨_, _, hs, rfl⟩)) rfl
  | readerEpollCreate hr hk =>
    exact h.opens rfl rfl (fun _ => openOther_file hk) fun _ => openOther_fresh hk
  | sys ha hk => exact h.sysStep hfit ha hk

end Books

namespace Program

variable {p₀ p q : Program} {tr : List (Program × ProgramAct)} {a : ProgramAct}

/-- A step opens or closes beside the connections, or is one of the threads within the system. -/
theorem Step.beside_or_sys (hst : Step p a q) (h : p.Fit) :
    (∃ k, Beside p.sys.kern k ∧ q.sys = { p.sys with kern := k }) ∨
      ∃ b, Sys.Step p.listenfd p.sys b q.sys := by
  cases hst with
  | openLog hm hk => exact .inl ⟨_, openOther_beside hk, rfl⟩
  | pipe hm hr hw => exact .inl ⟨_, (openOther_beside hr).trans (openOther_beside hw), rfl⟩
  | serverEpollCreate hs hk | socket hs hk | readerEpollCreate hs hk =>
    exact .inl ⟨_, openOther_beside hk, rfl⟩
  | socketFails hs =>
    refine .inl ⟨_, h.freeFd_beside (fun hpos => absurd hpos (by decide)) ?_, rfl⟩
    simp [hs, ServerThread.fds]
  | configureFails hs =>
    refine .inl ⟨_, h.freeFd_beside (fun _ => ?_) ?_, rfl⟩ <;> simp [hs, ServerThread.fds]
  | sys ha hk => exact .inr ⟨_, hk⟩
  | _ => exact .inl ⟨_, .refl _, rfl⟩

/-- A step is made in a process that is still there. -/
theorem live_of_step (hk : p.step a = some q) : p.sys.reader ≠ .exited := by
  intro hx
  simp [step, hx] at hk

theorem exact_step {lost : List Handle} (he : p.sys.Exact lost) (h : p.Fit)
    (hk : p.step a = some q) : ∃ lost', q.sys.Exact lost' := by
  rcases (step_cases hk).beside_or_sys h with ⟨k, hb, hq⟩ | ⟨b, hst⟩
  · obtain ⟨file, rfl⟩ := hb.same
    rw [hq]
    exact ⟨lost, he.relabel hb.conn⟩
  · exact he.step h.handed.sound (live_of_step hk) hst

theorem books_of_run (hi : p₀.Initial) (hr : Run program p₀ tr p) :
    p.Fit ∧ Books p₀ tr p ∧ ∃ lost, p.sys.Exact lost := by
  induction hr with
  | refl => exact ⟨hi.fit, .init hi, [], hi.sys.exact⟩
  | tail _ hk ih =>
    obtain ⟨hfit, hbooks, lost, he⟩ := ih
    have hst := step_cases hk
    exact ⟨hfit.step hst, hbooks.step hfit hst, exact_step he hfit hk⟩

end Program

theorem File.eq_of_other_iff {x y : Option File} (hx : ∀ c, x ≠ some (.conn c))
    (hy : ∀ c, y ≠ some (.conn c)) (h : x = some .other ↔ y = some .other) : x = y := by
  rcases x with _ | c | _
  · rcases y with _ | c | _
    · rfl
    · exact absurd rfl (hy c)
    · exact h.mpr rfl
  · exact absurd rfl (hx c)
  · exact (h.mp rfl).symm

/-- The descriptor table, whatever calls fail. The connections in it are those in a thread's
hand, on the pipe or registered, until the reader ends the process. What else it has is what
the process was started with, the log, the pipe and the reader's, and the server's unless its
start has failed; then the start has left nothing. -/
theorem descriptors_accounted {p₀ p : Program} {tr : List (Program × ProgramAct)}
    (hi : p₀.Initial) (hr : Run program p₀ tr p) :
    (p.sys.reader ≠ .exited → ∀ n c, p.sys.kern.file n = some (.conn c) ↔ ⟨n, c⟩ ∈ p.sys.held) ∧
    (∀ n, p.sys.kern.file n = some .other ↔ p₀.sys.kern.file n = some .other ∨
      n ∈ opened tr ∨ p.server ≠ .over ∧ n ∈ started tr) ∧
    (p.server = .over → ∀ n, p.sys.kern.file n =
      if n ∈ opened tr then some .other else p₀.sys.kern.file n) := by
  obtain ⟨hfit, hb, lost, he⟩ := Program.books_of_run hi hr
  refine ⟨fun hlive n c => ?_, hb.exact, fun hover n => ?_⟩
  · have hnone : lost = [] := by
      refine he.gone.resolve_right ?_
      rintro ⟨h, -, hx | ⟨-, hx⟩⟩
      · exact hlive hx
      · exact hfit.accepting.1 hx
    subst hnone
    refine ⟨fun hc => (he.file n c hc).resolve_right List.not_mem_nil, fun hm => ?_⟩
    exact hfit.handed.sound.file_of_held hm
  · have hnot := hb.alone (by simp [hover]) n
    have hexact := hb.exact n
    simp only [hover, ne_eq, not_true, false_and, or_false] at hexact
    split_ifs with hn
    · exact hexact.mpr (.inr hn)
    · exact File.eq_of_other_iff hnot (hi.sys.file n) (by simpa [hn] using hexact)

/-- `listen` fails, and the reader gets the number the server had. -/
def failedRun : List ProgramAct := [
  .openLog none, .fork 0, .execlp false, .pipe (some (3, 4)), .setNoBlocking true,
  .startServer true, .startReader true, .serverEpollCreate (some 5), .serverSocket (some 6),
  .configure .returned, .readerEpollCreate (some 5)]

theorem descriptors_accounted_failed : ∃ p tr, Run program bare tr p ∧ p.server = .over ∧
    opened tr = [3, 4, 5] ∧ started tr = [5, 6] ∧
    ∀ n, p.sys.kern.file n = if n ∈ opened tr then some .other else bare.sys.kern.file n := by
  obtain ⟨p, hr, hover⟩ := exists_run_of_exec (S := program) bare failedRun
    (P := fun p => p.server = .over) (by decide +kernel)
  obtain ⟨-, -, htable⟩ := descriptors_accounted initial_bare hr
  exact ⟨p, _, hr, hover, by decide +kernel, by decide +kernel, htable hover⟩

end BaseCom.Base
