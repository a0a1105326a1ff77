import BurpTUI.Base.StepSystem

namespace BurpTUI

/-! What `asio` documents of an acceptor and of an event loop. -/

inductive Acceptor
  | closed
  | opened
  | bound
  | listening
  deriving DecidableEq, Repr

/-- `thread_`: without a thread, with one that runs the event loop, or with one whose loop is over. -/
inductive LoopThread
  | none
  | looping
  | exited
  deriving DecidableEq, Repr

structure ProxyServer where
  running : Bool := false
  acceptor : Acceptor := .closed
  pendingAccept : Bool := false
  workGuard : Bool := true
  ioStopped : Bool := false
  thread : LoopThread := .none
  terminated : Bool := false
  deriving DecidableEq, Repr

namespace ProxyServer

/-- The operations of `start` that can throw. -/
inductive Stage
  | resolve
  | openAcceptor
  | setOption
  | bind
  | listen
  | launchThread
  deriving DecidableEq, Repr

/-- The operation of a stage. An exception carries the state in which it leaves the server. -/
def attempt (fail : Option Stage) (stage : Stage) (s : ProxyServer) : Except ProxyServer Unit :=
  if fail = some stage then .error s else .ok ()

/-- An acceptor that is open cannot be opened. -/
def openAcceptor (fail : Option Stage) (s : ProxyServer) : Except ProxyServer ProxyServer :=
  if fail = some .openAcceptor ∨ s.acceptor ≠ .closed then .error s
  else .ok { s with acceptor := .opened }

def doAccept (s : ProxyServer) : ProxyServer :=
  if s.running then { s with pendingAccept := true } else s

/-- `io_context::run` returns at once when it has been stopped, and when there is no work. -/
def runLoop (s : ProxyServer) : LoopThread :=
  if s.ioStopped ∨ (s.workGuard = false ∧ s.pendingAccept = false) then .exited else .looping

/-- The assignment to a thread that is joinable terminates the program. -/
def launchThread (s : ProxyServer) : ProxyServer :=
  if s.thread = .none then { s with thread := s.runLoop } else { s with terminated := true }

/-- The body of the `try` block. -/
def tryStart (fail : Option Stage) (s : ProxyServer) : Except ProxyServer ProxyServer := do
  attempt fail .resolve s
  let s ← s.openAcceptor fail
  attempt fail .setOption s
  attempt fail .bind s
  let s := { s with acceptor := .bound }
  attempt fail .listen s
  let s := { s with acceptor := .listening }
  let s := { s with running := true }.doAccept
  attempt fail .launchThread s
  return s.launchThread

def start (fail : Option Stage) (s : ProxyServer) : ProxyServer :=
  if s.running then s
  else match s.tryStart fail with
    | .ok s => s
    | .error s => { s with running := false }

def stop (s : ProxyServer) : ProxyServer :=
  if s.running then
    { s with
      running := false
      acceptor := .closed
      pendingAccept := false
      workGuard := false
      ioStopped := true
      thread := .none }
  else s

def isRunning (s : ProxyServer) : Bool := s.running

/-- The event loop is able to run handlers. -/
def loopAlive (s : ProxyServer) : Bool := s.thread = .looping ∧ s.ioStopped = false

/-- Calls, and what the event loop does: a handler of `async_accept` that comes to its end, and any
handler that throws, this one or another. -/
inductive Label
  | start (fail : Option Stage)
  | stop
  | accept
  | handlerThrows (inAccept : Bool)
  deriving DecidableEq, Repr

def step (s : ProxyServer) : Label → Option ProxyServer
  | .start fail => some (s.start fail)
  | .stop => some s.stop
  | .accept =>
    if s.loopAlive ∧ s.acceptor = .listening ∧ s.pendingAccept then
      some { s with pendingAccept := false }.doAccept
    else none
  | .handlerThrows inAccept =>
    -- The exception is logged in the thread function, which then ends.
    if s.loopAlive then
      some { s with thread := .exited, pendingAccept := s.pendingAccept && !inAccept }
    else none

def system : StepSystem.System ProxyServer Label where
  init s := s = {}
  step := step

/-- The flag tells whether connections can be accepted. -/
def FlagRight (s : ProxyServer) : Prop :=
  s.isRunning = true ↔ s.acceptor = .listening ∧ s.loopAlive = true

/-- What is asked of a step: the flag stays right, a start that does not fail makes the server
accept connections, and one that fails leaves it stopped such that a later one can succeed. -/
def Meets (s : ProxyServer) (a : Label) (t : ProxyServer) : Prop :=
  t.FlagRight ∧ match a with
    | .start none => s.running = false → (t.step .accept).isSome
    | .start (some _) =>
      s.running = false → t.running = false ∧ ((t.start none).step .accept).isSome
    | _ => True

/-- No handler throws, and a start comes before any stop and fails, if it does, while resolving or
opening. -/
def Smooth (s : ProxyServer) : Label → Prop
  | .start fail =>
    s.running = true ∨
      s.ioStopped = false ∧ (fail = none ∨ fail = some .resolve ∨ fail = some .openAcceptor)
  | .handlerThrows _ => False
  | _ => True

instance (s : ProxyServer) (a : Label) : Decidable (Smooth s a) := by
  unfold Smooth
  split <;> infer_instance

/-- The states of smooth runs. -/
structure Tidy (s : ProxyServer) : Prop where
  alive : s.terminated = false
  started : s.running = true →
    s.acceptor = .listening ∧ s.thread = .looping ∧ s.ioStopped = false ∧ s.pendingAccept = true
  idle : s.running = false → s.acceptor = .closed ∧ s.thread = .none ∧ s.pendingAccept = false

variable {s t : ProxyServer}

theorem Tidy.flagRight (h : s.Tidy) : s.FlagRight := by
  unfold FlagRight isRunning loopAlive
  cases hr : s.running with
  | true =>
    obtain ⟨hacc, hthread, hio, -⟩ := h.started hr
    simp [hacc, hthread, hio]
  | false =>
    obtain ⟨hacc, -, -⟩ := h.idle hr
    simp [hacc]

theorem start_of_running (h : s.running = true) (fail : Option Stage) : s.start fail = s := by
  rw [start, if_pos h]

/-- A start on an open acceptor gets no further than `open`. -/
theorem start_of_open (hr : s.running = false) (h : s.acceptor ≠ .closed) (fail : Option Stage) :
    s.start fail = s := by
  have hbody : s.tryStart fail = .error s := by
    unfold tryStart attempt openAcceptor
    split
    · rfl
    · simp [bind, Except.bind, h]
  rw [start, if_neg (by simp [hr]), hbody]
  cases s
  simp_all

/-- A start that does not fail, from a server that is idle. -/
theorem start_of_idle (h : s.Tidy) (hr : s.running = false) :
    s.start none = { s with
      running := true
      acceptor := .listening
      pendingAccept := true
      thread := if s.ioStopped then .exited else .looping } := by
  obtain ⟨hacc, hthread, -⟩ := h.idle hr
  rw [start, if_neg (by simp [hr])]
  simp [tryStart, attempt, openAcceptor, hacc, bind, Except.bind, pure, Except.pure, doAccept,
    launchThread, hthread, runLoop]

/-- A start that fails before the acceptor is open changes nothing. -/
theorem start_failed_early (h : s.Tidy) (hr : s.running = false) {f : Stage}
    (hf : f = .resolve ∨ f = .openAcceptor) : s.start (some f) = s := by
  have hbody : s.tryStart (some f) = .error s := by
    rcases hf with rfl | rfl
    · simp [tryStart, attempt, bind, Except.bind]
    · simp [tryStart, attempt, openAcceptor, bind, Except.bind]
  rw [start, if_neg (by simp [hr]), hbody]
  cases s
  simp_all

/-- A start that fails later leaves the acceptor open. -/
theorem start_failed_late (h : s.Tidy) (hr : s.running = false) {f : Stage}
    (hf : ¬(f = .resolve ∨ f = .openAcceptor)) :
    (s.start (some f)).running = false ∧ (s.start (some f)).acceptor ≠ .closed := by
  obtain ⟨hacc, hthread, -⟩ := h.idle hr
  cases f with
  | resolve => simp at hf
  | openAcceptor => simp at hf
  | setOption => simp [start, hr, tryStart, attempt, openAcceptor, hacc, bind, Except.bind]
  | bind => simp [start, hr, tryStart, attempt, openAcceptor, hacc, bind, Except.bind]
  | listen => simp [start, hr, tryStart, attempt, openAcceptor, hacc, bind, Except.bind]
  | launchThread =>
    simp [start, hr, tryStart, attempt, openAcceptor, hacc, bind, Except.bind, doAccept]

/-- An open acceptor under a stopped server never accepts. -/
theorem accept_of_open (hr : s.running = false) (h : s.acceptor ≠ .closed) (hl : s.FlagRight) :
    (s.start none).step .accept = none := by
  rw [start_of_open hr h, step, if_neg]
  rintro ⟨halive, hacc, -⟩
  have hrun := hl.mpr ⟨hacc, halive⟩
  rw [isRunning, hr] at hrun
  cases hrun

/-- After a start from the idle state connections are accepted, unless the event loop was stopped. -/
theorem accept_of_idle (h : s.Tidy) (hr : s.running = false) :
    ((s.start none).step .accept).isSome ↔ s.ioStopped = false := by
  rw [start_of_idle h hr]
  cases s.ioStopped with
  | true => simp [step, loopAlive]
  | false => simp [step, loopAlive]

theorem flagRight_of_idle (h : s.Tidy) (hr : s.running = false) :
    (s.start none).FlagRight ↔ s.ioStopped = false := by
  rw [start_of_idle h hr]
  cases s.ioStopped with
  | true => simp [FlagRight, isRunning, loopAlive]
  | false => simp [FlagRight, isRunning, loopAlive]

theorem Tidy.step (h : s.Tidy) {a : Label} (hc : Smooth s a) (hstep : s.step a = some t) : t.Tidy := by
  cases a with
  | start fail =>
    obtain rfl := Option.some.inj hstep
    cases hr : s.running with
    | true =>
      rw [start_of_running hr]
      exact h
    | false =>
      obtain ⟨hio, hfail⟩ := hc.resolve_left (by simp [hr])
      cases fail with
      | none =>
        rw [start_of_idle h hr]
        exact ⟨h.alive, fun _ => ⟨rfl, by simp [hio], hio, rfl⟩, fun hn => by cases hn⟩
      | some f =>
        rw [start_failed_early h hr (by simpa using hfail)]
        exact h
  | stop =>
    obtain rfl := Option.some.inj hstep
    unfold ProxyServer.stop
    split
    · exact ⟨h.alive, fun hn => (by cases hn), fun _ => ⟨rfl, rfl, rfl⟩⟩
    · exact h
  | accept =>
    simp only [ProxyServer.step] at hstep
    split at hstep
    · rename_i hen
      obtain rfl := Option.some.inj hstep
      have hr : s.running = true := h.flagRight.mpr ⟨hen.2.1, hen.1⟩
      obtain ⟨hacc, hthread, hio, -⟩ := h.started hr
      rw [doAccept, if_pos hr]
      exact ⟨h.alive, fun _ => ⟨hacc, hthread, hio, rfl⟩, fun hn => by rw [hr] at hn; cases hn⟩
    · cases hstep
  | handlerThrows inAccept => exact absurd hc id

/-- From a tidy state a step meets what is asked of it exactly when it is smooth. -/
theorem Tidy.meets_iff (h : s.Tidy) {a : Label} (hstep : s.step a = some t) :
    Meets s a t ↔ Smooth s a := by
  cases a with
  | start fail =>
    obtain rfl := Option.some.inj hstep
    cases hr : s.running with
    | true =>
      rw [start_of_running hr]
      cases fail with
      | none => simp [Meets, Smooth, hr, h.flagRight]
      | some f => simp [Meets, Smooth, hr, h.flagRight]
    | false =>
      cases fail with
      | none => simp [Meets, Smooth, hr, accept_of_idle h hr, flagRight_of_idle h hr]
      | some f =>
        by_cases hf : f = .resolve ∨ f = .openAcceptor
        · rw [start_failed_early h hr hf]
          simp [Meets, Smooth, hr, accept_of_idle h hr, h.flagRight, hf]
        · obtain ⟨hstopped, hopen⟩ := start_failed_late h hr hf
          have hnot : ¬Meets s (.start (some f)) (s.start (some f)) := by
            rintro ⟨hflag, hlater⟩
            have haccept := (hlater hr).2
            rw [accept_of_open hstopped hopen hflag] at haccept
            cases haccept
          simp only [hnot, false_iff]
          rintro (hrun | ⟨-, hfail⟩)
          · rw [hr] at hrun
            cases hrun
          · exact hf (by simpa using hfail)
  | stop =>
    obtain rfl := Option.some.inj hstep
    have hflag : s.stop.FlagRight := (h.step (a := .stop) trivial rfl).flagRight
    exact iff_of_true ⟨hflag, trivial⟩ trivial
  | accept =>
    have hflag : t.FlagRight := (h.step (a := .accept) trivial hstep).flagRight
    exact iff_of_true ⟨hflag, trivial⟩ trivial
  | handlerThrows inAccept =>
    simp only [ProxyServer.step] at hstep
    split at hstep
    · rename_i halive
      obtain rfl := Option.some.inj hstep
      refine iff_of_false ?_ id
      rintro ⟨hflag, -⟩
      -- The flag is still set, but the loop is over.
      have hr : s.running = true := by
        cases hr : s.running with
        | true => rfl
        | false =>
          obtain ⟨-, hthread, -⟩ := h.idle hr
          simp [loopAlive, hthread] at halive
      have hdead := (hflag.mp hr).2
      simp [loopAlive] at hdead
    · cases hstep

/-- In smooth runs the flag is right in every state, and a step meets what is asked of it exactly
when it keeps the run smooth. -/
theorem smooth_runs {s : ProxyServer} (h : system.ReachedUnder Smooth s) :
    s.FlagRight ∧ s.terminated = false ∧
      ∀ a t, system.step s a = some t → (Meets s a t ↔ Smooth s a) := by
  have htidy : s.Tidy := by
    refine h.invariant (I := Tidy) ?_ ?_
    · rintro _ rfl
      exact ⟨rfl, fun hn => (by cases hn), fun _ => ⟨rfl, rfl, rfl⟩⟩
    · intro s a t hs hc hstep
      exact hs.step hc hstep
  exact ⟨htidy.flagRight, htidy.alive, fun a t hstep => htidy.meets_iff hstep⟩

/-- The port is not resolved at first; then a connection is accepted and the server is stopped. -/
theorem smooth_runs_startedAndStopped : ∃ s, system.runUnder Smooth {}
    [.start (some .resolve), .start none, .accept, .start (some .bind), .stop] = some s ∧
      s.isRunning = false ∧ s.FlagRight := by
  have hrun : (system.runUnder Smooth {}
      [.start (some .resolve), .start none, .accept, .start (some .bind), .stop]).any
        (fun s => s.isRunning = false) = true := by decide
  obtain ⟨s, hs, hstopped⟩ := (Option.any_eq_true _ _).mp hrun
  have hreached : system.ReachedUnder Smooth s := .runUnder (.init rfl) hs
  exact ⟨s, hs, of_decide_eq_true hstopped, (smooth_runs hreached).1⟩

/-- A handler that throws leaves a server that says it is running; a start after a stop does so
without accepting; after a failed bind no start succeeds. -/
theorem server_gets_stuck :
    (∃ s, system.run {} [.start none, .handlerThrows false] = some s ∧ s.isRunning = true ∧
      s.loopAlive = false) ∧
    (∃ s, system.run {} [.start none, .stop, .start none] = some s ∧ s.isRunning = true ∧
      s.step .accept = none) ∧
    (∃ s, system.run {} [.start (some .bind), .start none] = some s ∧ s.isRunning = false) := by
  refine ⟨⟨_, rfl, rfl, rfl⟩, ⟨_, rfl, rfl, rfl⟩, ⟨_, rfl, rfl⟩⟩

end ProxyServer

end BurpTUI
