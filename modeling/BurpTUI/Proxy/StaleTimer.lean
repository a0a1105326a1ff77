import BurpTUI.Base.Grows
import BurpTUI.Base.Marked
import BurpTUI.Proxy.MitmFlow
import BurpTUI.Proxy.OneAnswer

namespace BurpTUI

/-- The timer has been armed `n` times: each time one more of its handlers is outstanding. No wait
expires, and nothing is decided. -/
structure Io.Ticks (n : ℕ) (x y : Io) : Prop where
  ready : Grows (fun e => e ≠ (.timer, .ok)) x.ready y.ready
  timers : y.outstanding Op.isTimer = x.outstanding Op.isTimer + n
  pending : n = 0 → .timer ∈ y.pending → .timer ∈ x.pending
  decisions : ∀ a, y.count (.decision a) = x.count (.decision a)

namespace Io.Ticks

variable {x y z : Io} {m n : ℕ}

theorem refl (x : Io) : Ticks 0 x x := ⟨.refl _, rfl, fun _ => id, fun _ => rfl⟩

theorem trans (h : Ticks m x y) (h' : Ticks n y z) : Ticks (m + n) x z where
  ready := h.ready.trans h'.ready
  timers := by
    have hxy := h.timers
    have hyz := h'.timers
    omega
  pending hzero hz := h.pending (by omega) (h'.pending (by omega) hz)
  decisions a := (h'.decisions a).trans (h.decisions a)

theorem start (x : Io) {op : Op} (htimer : op.isTimer = false) (hdecision : ∀ a, op.kind ≠ .decision a) :
    Ticks 0 x (x.start op) := by
  refine ⟨.refl _, ?_, fun _ hmem => ?_, fun a => ?_⟩
  · rw [Executor.outstanding_start, htimer]
    rfl
  · rcases List.mem_append.mp hmem with hmem | hmem
    · exact hmem
    · rw [← List.mem_singleton.mp hmem] at htimer
      cases htimer
  · rw [Io.count_start]
    simp [Op.weight, hdecision a]

theorem cancel (x : Io) (p : Op → Bool) : Ticks 0 x (x.cancel p .aborted) := by
  refine ⟨⟨_, rfl, fun e he => ?_⟩, ?_, fun _ hmem => (List.mem_filter.mp hmem).1, fun a => ?_⟩
  · obtain ⟨op, -, rfl⟩ := List.mem_map.mp he
    simp
  · exact Executor.outstanding_cancel x p _ _
  · exact Io.count_cancel x p _ _

/-- The timer is armed again. -/
theorem arm (x : Io) : Ticks 1 x ((x.cancel (· == .timer) .aborted).start .timer) := by
  have hcancel := cancel x (· == .timer)
  refine ⟨hcancel.ready, ?_, fun hzero => absurd hzero (by simp), fun a => ?_⟩
  · rw [Executor.outstanding_start, hcancel.timers]
    rfl
  · rw [Io.count_start, hcancel.decisions]
    simp [Op.weight, Op.kind]

/-- After the timer is cancelled none is pending. -/
theorem cancelled (x : Io) : .timer ∉ (x.cancel (· == .timer) Outcome.aborted).pending := by
  intro hmem
  have hnot := (List.mem_filter.mp hmem).2
  simp at hnot

end Io.Ticks

/-- What the timer of a session is about: the operations, and the requests that are paused. -/
structure Clock where
  io : Io
  asked : List Ref

/-- Arming the timer adds to its outstanding handlers; the handler that a step takes out is not
counted. -/
def Io.rearmed (x : Io) (a : Session.Label) (y : Io) : Bool :=
  let taken := match a with
    | .dispatch k _ => x.ready[k]?.any fun e : Op × Outcome => e.1.isTimer
    | _ => false
  decide (x.outstanding Op.isTimer < y.outstanding Op.isTimer + taken.toNat)

def Session.Label.taken : Session.Label → Option ℕ
  | .dispatch k _ => some k
  | _ => none

namespace Clock

open StepSystem (Unmarked remark)

variable {c d e : Clock} {m n : ℕ} {marks : List Bool}

/-- No request is paused: none is with the intercept manager, and no decision waits to be handled. -/
def Awake (c : Clock) : Prop := c.asked = [] ∧ ∀ a, c.io.count (.decision a) = 0

/-- The timer has been armed `n` times, and the same requests are paused. -/
structure Ticks (n : ℕ) (c d : Clock) : Prop where
  io : Io.Ticks n c.io d.io
  asked : d.asked = c.asked

/-- A request has been given to the intercept manager, and the timer is off. -/
structure Pauses (n : ℕ) (c d : Clock) : Prop where
  ready : Grows (fun e => e ≠ (.timer, .ok)) c.io.ready d.io.ready
  timers : d.io.outstanding Op.isTimer = c.io.outstanding Op.isTimer + n
  off : .timer ∉ d.io.pending

theorem Ticks.trans (h : Ticks m c d) (h' : Ticks n d e) : Ticks (m + n) c e :=
  ⟨h.io.trans h'.io, h'.asked.trans h.asked⟩

theorem Ticks.awake (h : Ticks n c d) (hc : c.Awake) : d.Awake :=
  ⟨h.asked.trans hc.1, fun a => (h.io.decisions a).trans (hc.2 a)⟩

theorem Ticks.pauses (h : Ticks m c d) (h' : Pauses n d e) : Pauses (m + n) c e where
  ready := h.io.ready.trans h'.ready
  timers := by
    have hcd := h.io.timers
    have hde := h'.timers
    omega
  off := h'.off

/-- A request may have been paused too. -/
def Moves (n : ℕ) (c d : Clock) : Prop := Ticks n c d ∨ Pauses n c d

/-- What arms nothing can follow. -/
theorem Moves.next (h : Moves n c d) (h' : Moves 0 d e) : Moves n c e := by
  rcases h with h | h
  · exact h'.imp h.trans h.pauses
  · rcases h' with h' | h'
    · exact .inr ⟨h.ready.trans h'.io.ready, h'.io.timers.trans h.timers, fun hmem => h.off (h'.io.pending rfl hmem)⟩
    · exact .inr ⟨h.ready.trans h'.ready, h'.timers.trans h.timers, h'.off⟩

/-- No request is paused while the timer runs or an expired wait is queued, and the timer has not been
armed again since the wait expired. -/
structure Watches (c : Clock) (marks : List Bool) : Prop where
  pending : .timer ∈ c.io.pending → c.Awake
  ready : (.timer, .ok) ∈ c.io.ready → c.Awake
  unmarked : Unmarked (fun e => e = (.timer, .ok)) c.io.ready marks

theorem not_mem_of_grows {l l' : List (Op × Outcome)} (h : Grows (fun e => e ≠ (.timer, .ok)) l l')
    (hmem : (.timer, .ok) ∈ l') : (.timer, .ok) ∈ l := by
  obtain ⟨es, rfl, hes⟩ := h
  rcases List.mem_append.mp hmem with hmem | hmem
  · exact hmem
  · exact absurd rfl (hes _ hmem)

theorem rearmed_quiet {a : Session.Label} (ha : a.taken = none) {io : Io}
    (htimers : io.outstanding Op.isTimer = c.io.outstanding Op.isTimer) : c.io.rearmed a io = false := by
  unfold Io.rearmed
  apply decide_eq_false
  cases a with
  | dispatch k env => cases ha
  | _ =>
    simp only [Bool.toNat_false]
    omega

theorem rearmed_handled {k : ℕ} {env : Env} {op : Op} {o : Outcome} {io : Io} {rearms : Bool}
    (hio : c.io.take k = some ((op, o), io))
    (htimers : d.io.outstanding Op.isTimer = io.outstanding Op.isTimer + rearms.toNat) :
    c.io.rearmed (.dispatch k env) d.io = rearms := by
  have htaken := Executor.outstanding_take hio Op.isTimer
  obtain ⟨he, rfl⟩ := Executor.take_spec hio
  dsimp only at htaken
  unfold Io.rearmed
  simp only [he, Option.any_some]
  cases rearms with
  | true =>
    apply decide_eq_true
    rw [Bool.toNat_true] at htimers
    omega
  | false =>
    apply decide_eq_false
    rw [Bool.toNat_false] at htimers
    omega

/-- The session is closed from outside. -/
theorem Watches.closed (h : Watches c marks) (ht : Ticks 0 c d) :
    Watches d (remark none (c.io.rearmed .close d.io) d.io.ready.length marks) := by
  rw [rearmed_quiet rfl ht.io.timers]
  refine ⟨fun hmem => ht.awake (h.pending (ht.io.pending rfl hmem)),
    fun hmem => ht.awake (h.ready (not_mem_of_grows ht.io.ready hmem)), ?_⟩
  obtain ⟨es, hes, -⟩ := ht.io.ready
  rw [hes]
  exact h.unmarked.append es

/-- An operation completes. The timer that expires is the one that was armed last. -/
theorem Watches.complete (h : Watches c marks) {k : ℕ} {o : Outcome} {op : Op} {io : Io}
    (hio : c.io.complete k o = some (op, io)) :
    Watches { c with io := io }
      (remark none (c.io.rearmed (.complete k o) io) io.ready.length marks) := by
  rw [rearmed_quiet rfl (Executor.outstanding_complete hio _)]
  have hcount := Io.count_complete hio
  have hawake (hc : c.Awake) : Awake { c with io := io } :=
    ⟨hc.1, fun a => (congrFun hcount _).trans (hc.2 a)⟩
  simp only [Executor.complete, Option.map_eq_some_iff, Prod.mk.injEq] at hio
  obtain ⟨op', hk, rfl, rfl⟩ := hio
  refine ⟨fun hmem => hawake (h.pending (List.mem_of_mem_eraseIdx hmem)), fun hmem => hawake ?_,
    h.unmarked.append _⟩
  rcases List.mem_append.mp hmem with hmem | hmem
  · exact h.ready hmem
  · have heq := List.mem_singleton.mp hmem
    rw [Prod.mk.injEq] at heq
    exact h.pending (heq.1 ▸ List.mem_of_getElem? hk)

/-- The intercept manager calls back: a request was paused, so the timer is off. -/
theorem Watches.decided (h : Watches c marks) {ref : Ref} (href : ref ∈ c.asked)
    (action : InterceptAction) :
    Watches { io := c.io.post (.decision action) .ok, asked := c.asked.erase ref }
      (remark none (c.io.rearmed (.decide ref action) (c.io.post (.decision action) .ok))
        (c.io.post (.decision action) .ok).ready.length marks) := by
  rw [rearmed_quiet rfl (Executor.outstanding_post _ _ _ _)]
  have hpaused : ¬ c.Awake := fun hc => by
    rw [hc.1] at href
    cases href
  refine ⟨fun hmem => absurd (h.pending hmem) hpaused, fun hmem => absurd (h.ready ?_) hpaused,
    h.unmarked.append _⟩
  rcases List.mem_append.mp hmem with hmem | hmem
  · exact hmem
  · cases List.mem_singleton.mp hmem

/-- A handler runs. If it arms the timer, no expired wait may be queued. -/
theorem Watches.handled (h : Watches c marks) {k : ℕ} {env : Env} {op : Op} {o : Outcome} {io : Io}
    {rearms : Bool} (hio : c.io.take k = some ((op, o), io))
    (ht : Ticks rearms.toNat { c with io := io } d ∨ rearms = true ∧ Pauses 1 { c with io := io } d)
    (hprompt : rearms = true → (.timer, .ok) ∉ c.io.ready)
    (hawake : rearms = true → Awake { c with io := io }) :
    Watches d (remark (some k) (c.io.rearmed (.dispatch k env) d.io) d.io.ready.length marks) := by
  have htimers : d.io.outstanding Op.isTimer = io.outstanding Op.isTimer + rearms.toNat := by
    rcases ht with ht | ⟨htrue, ht⟩
    · exact ht.io.timers
    · rw [htrue]
      exact ht.timers
  rw [rearmed_handled hio htimers]
  have hcount := Io.count_take hio
  obtain ⟨he, rfl⟩ := Executor.take_spec hio
  have hlt := (List.getElem?_eq_some_iff.mp he).1
  have herased := h.unmarked.eraseIdx hlt
  have hgrows : Grows (fun e => e ≠ (.timer, .ok)) (c.io.ready.eraseIdx k) d.io.ready := by
    rcases ht with ht | ⟨-, ht⟩
    · exact ht.io.ready
    · exact ht.ready
  have hold (hmem : (.timer, .ok) ∈ d.io.ready) : (.timer, .ok) ∈ c.io.ready :=
    List.mem_of_mem_eraseIdx (not_mem_of_grows hgrows hmem)
  obtain ⟨es, hes, hnone⟩ := hgrows
  -- the marks only change when the timer is armed
  cases hr : rearms with
  | true =>
    have hprompt := hprompt hr
    refine ⟨fun hmem => ?_, fun hmem => absurd (hold hmem) hprompt, ?_⟩
    · rcases ht with ht | ⟨-, ht⟩
      · exact ht.awake (hawake hr)
      · exact absurd hmem ht.off
    · rw [hes]
      refine herased.event es fun e hmem heq => hprompt (hold ?_)
      rwa [hes, ← heq]
  | false =>
    rw [hr] at ht
    have ht : Ticks 0 { c with io := { c.io with ready := c.io.ready.eraseIdx k } } d := by
      rcases ht with ht | ⟨hfalse, -⟩
      · exact ht
      · cases hfalse
    -- the handler that was taken out may have been a decision
    have hkeep (hc : c.Awake) : Awake { c with io := { c.io with ready := c.io.ready.eraseIdx k } } := by
      refine ⟨hc.1, fun a => ?_⟩
      have hzero := hc.2 a
      rw [hcount, Nat.add_eq_zero_iff] at hzero
      exact hzero.1
    refine ⟨fun hmem => ht.awake (hkeep (h.pending (ht.io.pending rfl hmem))),
      fun hmem => ht.awake (hkeep (h.ready (hold hmem))), ?_⟩
    rw [hes]
    exact herased.append es

end Clock

namespace Session

open BurpTUI.Flow (Idle Cleared Sound SoundAfter)

variable {L : Llhttp} {b : Flow} {new ref : Ref} {s t u : Session L} {op : Op} {m n : ℕ}

def clock (s : Session L) : Clock where
  io := s.io
  asked := s.asked

/-- From `s` to `t` the timer has been armed `n` times. -/
def Ticks (n : ℕ) (s t : Session L) : Prop := Clock.Ticks n s.clock t.clock

namespace Ticks

theorem refl (s : Session L) : Ticks 0 s s := ⟨.refl _, rfl⟩

theorem trans (h : Ticks m s t) (h' : Ticks n t u) : Ticks (m + n) s u := Clock.Ticks.trans h h'

/-- First nothing is armed. -/
theorem next (h : Ticks 0 s t) (h' : Ticks n t u) : Ticks n s u := by
  have hboth := h.trans h'
  rwa [Nat.zero_add] at hboth

theorem same (hio : t.io = s.io) (hasked : t.asked = s.asked) : Ticks 0 s t := by
  refine ⟨?_, hasked⟩
  show Io.Ticks 0 s.io t.io
  rw [hio]
  exact .refl _

theorem emit (s : Session L) (e : Effect) : Ticks 0 s (s.emit e) := same rfl rfl

theorem start (s : Session L) {p : Op} (htimer : p.isTimer = false)
    (hdecision : ∀ a, p.kind ≠ .decision a) : Ticks 0 s (s.start p) := ⟨.start _ htimer hdecision, rfl⟩

theorem cancel (s : Session L) (p : Op → Bool) : Ticks 0 s (s.cancel p) := ⟨.cancel _ p, rfl⟩

theorem resetTimer (s : Session L) : Ticks 1 s s.resetTimer := ⟨.arm _, rfl⟩

theorem closes : AllowsClose (Ticks (L := L) 0) where
  refl := refl
  trans := next
  cancel := cancel
  removed s _ := emit s _
  clientGone _ := same rfl rfl
  closed s := emit s _
  serverGone _ := same rfl rfl

theorem answers : AllowsAnswer (Ticks (L := L) 0) where
  refl := refl
  trans := next
  send s _ := (emit s _).next (start _ rfl (by simp [Op.kind]))
  sendServer s _ := (emit s _).next (start _ rfl (by simp [Op.kind]))
  respond _ _ := same rfl rfl
  queue _ _ := same rfl rfl

theorem dials : AllowsDial (Ticks (L := L) 0) where
  refl := refl
  trans := next
  error s _ _ _ := answers.sendErrorResponse s _ _
  serverOpen _ := same rfl rfl
  store _ _ := same rfl rfl
  handed s _ _ := emit s _
  start s op hop := start s (by cases op <;> simp_all [Op.kind, Op.isTimer]) fun a h => by simp [h] at hop

theorem finishes : AllowsFinish (Ticks (L := L) 0) where
  refl := refl
  trans := next
  respond _ _ := same rfl rfl
  parser _ _ := same rfl rfl
  renew _ := same rfl rfl
  flag _ := same rfl rfl
  readClient s := start s rfl (by simp [Op.kind])
  readUpstream s := start s rfl (by simp [Op.kind])

/-- A decision arms the timer if the client is still there. -/
theorem handleDecision (s : Session L) (action : InterceptAction) :
    Ticks s.clientOpen.toNat s (s.handleDecision action) := by
  unfold Session.handleDecision
  split
  · rename_i hopen
    rw [hopen, Bool.toNat_true]
    cases action with
    | forward => exact (resetTimer s).trans (dials.forwardRequest (closes.closeServer _))
    | drop => exact (resetTimer s).trans (answers.sendErrorResponse _ _ _)
  · rename_i hopen
    rw [Bool.eq_false_iff.mpr hopen, Bool.toNat_false]
    exact refl s

theorem received (s : Session L) (env : Env) (data : Bytes) :
    Ticks 1 s (s.handleUpstreamRead env (.bytes data)) :=
  (((resetTimer s).trans (emit _ _)).trans (answers.writeClient (same rfl rfl))).trans
    (finishes.received closes.close s env data)

end Ticks

def Pauses (n : ℕ) (s t : Session L) : Prop := Clock.Pauses n s.clock t.clock

theorem Ticks.moves (h : Ticks n s t) : Clock.Moves n s.clock t.clock := .inl h

/-- Only the intercept manager pauses a request. -/
theorem moves_takes : AllowsTake fun s t : Session L => Clock.Moves 0 s.clock t.clock where
  refl s := (Ticks.refl s).moves
  trans := Clock.Moves.next
  target s _ _ _ := (Ticks.same (s := s) rfl rfl).moves
  connected s _ := (Ticks.same (s := s) rfl rfl).moves
  spawn s _ _ := ((Ticks.cancel s (· == .timer)).trans (.same rfl rfl)).moves
  route s _ _ := (Ticks.same (s := s) rfl rfl).moves
  tunnel s := (Ticks.same (s := s) rfl rfl).moves
  tested s _ _ := (Ticks.emit s _).moves
  resolve s := (Ticks.start s rfl (by simp [Op.kind])).moves

theorem intercept_pauses (s : Session L) (item : InterceptedRequest Ref) :
    Pauses 0 s (s.cancelTimer.intercept item) := by
  have hcancel := Io.Ticks.cancel s.io (· == .timer)
  exact ⟨hcancel.ready, hcancel.timers, Io.Ticks.cancelled s.io⟩

theorem handleRequest_moves {env : Env} {req : HttpRequest} (hok : s.handleRequest env req = .ok t) :
    Clock.Moves 0 s.clock t.clock :=
  handleRequest_of moves_takes.toChain (Ticks.same rfl rfl).moves moves_takes.handleConnect
    (fun s => (Ticks.answers.sendErrorResponse s _ _).moves) (fun s => (Ticks.answers.serveCaCert s env).moves)
    (fun s => (Ticks.answers.serveBurpHelpPage s env).moves)
    (fun t _ => moves_takes.handleUpstreamRoute (fun s item => .inr (intercept_pauses s item))
      (fun t _ => (Ticks.dials.forwardRequest (Ticks.closes.closeServer t)).moves) env (s := t)) hok

theorem handleClientRead_ticks {env : Env} {data : Bytes}
    (hok : s.handleClientRead env (.bytes data) = .ok t) : Ticks 1 s t ∨ Pauses 1 s t := by
  have hread : Ticks 1 s (s.resetTimer.emit (.read data)) := (Ticks.resetTimer s).trans (.emit _ _)
  refine hread.moves.next (handleClientRead_of moves_takes.toChain (fun s _ _ => ?_) (fun s => ?_) (fun s => ?_)
    (fun s => ?_) (fun _ _ _ => handleRequest_moves) hok)
  · exact (Ticks.same (s := s) rfl rfl).moves
  · exact (Ticks.answers.writeServerBlind (s := s) (.same rfl rfl)).moves
  · exact (Ticks.finishes.readClient s).moves
  · exact (Ticks.answers.sendErrorResponse s _ _).moves

/-- The handlers that arm the timer again. -/
def rearms (s : Session L) : Op → Outcome → Bool
  | .clientRead, .bytes _ => true
  | .upstreamRead, .bytes _ => true
  | .decision _, _ => s.clientOpen
  | _, _ => false

theorem handle_ticks {env : Env} {o : Outcome} (hok : s.handle env op o = .ok t) :
    Ticks (s.rearms op o).toNat s t ∨ s.rearms op o = true ∧ Pauses 1 s t := by
  cases op with
  | clientRead =>
    cases o with
    | bytes data => exact (handleClientRead_ticks hok).imp_right fun hpauses => ⟨rfl, hpauses⟩
    | _ => cases hok; exact .inl (Ticks.closes.close s)
  | upstreamRead =>
    cases hok
    cases o with
    | bytes data => exact .inl (Ticks.received s env data)
    | _ => exact .inl (Ticks.finishes.ended Ticks.closes.close s env (by simp))
  | timer =>
    cases hok
    exact .inl (handleTimeout_of Ticks.closes.toChain (fun s p _ => Ticks.cancel s p)
      (fun s => Ticks.answers.sendErrorResponse s _ _) (Ticks.closes.close s) o)
  | resolve => cases hok; exact .inl (Ticks.dials.handleResolve (Ticks.closes.closeServer s) o)
  | connect =>
    cases hok
    exact .inl (Ticks.dials.handleConnected (Ticks.answers.writeClient (.same rfl rfl))
      Ticks.finishes.readClient env o)
  | clientWrite data =>
    cases hok
    exact .inl (Ticks.answers.handleClientWrite Ticks.closes.close (.same rfl rfl) o)
  | upstreamWrite data => cases hok; exact .inl (Ticks.dials.handleUpstreamWrite s o)
  | serverWrite data =>
    cases hok
    exact .inl (Ticks.answers.handleServerWrite (fun _ _ => Ticks.closes.close s) (.same rfl rfl))
  | decision action => cases hok; exact .inl (Ticks.handleDecision s action)
  | rawWrite data => cases hok; exact .inl (Ticks.refl s)
  | established => cases hok; exact .inl (Ticks.refl s)
  | clientHandshake => cases hok; exact .inl (Ticks.refl s)
  | upstreamHandshake => cases hok; exact .inl (Ticks.refl s)

/-- A handler that arms the timer finds no request paused. -/
theorem rearms_awake (hs : SoundAfter b new op s.flow) {o : Outcome} (hr : s.rearms op o = true) :
    s.clock.Awake := by
  have hidle : Idle b new s.flow := by
    cases op with
    | clientRead => exact hs.idle (Or.inl rfl)
    | upstreamRead => exact hs.idle (Or.inr (Or.inr rfl))
    | decision action => exact hs.decided.1
    | _ => cases hr
  exact ⟨hidle.asked, hidle.decision⟩

def rearmsAt (s : Session L) (k : ℕ) : Bool := s.io.ready[k]?.any fun e => s.rearms e.1 e.2

/-- No handler that arms the timer runs while an expired wait is queued. -/
def Prompt (r : Running L) : Label → Prop
  | .dispatch k _ => r.session.rearmsAt k = true → (.timer, .ok) ∉ r.session.io.ready
  | _ => True

instance (r : Running L) (a : Label) : Decidable (Prompt r a) :=
  match a with
  | .dispatch _ _ => inferInstanceAs (Decidable (_ → _ ∉ _))
  | .complete _ _ | .decide _ _ | .close => inferInstanceAs (Decidable True)

/-- The session with a mark for each queued handler: whether the timer has been armed again since. -/
def watched (L : Llhttp) : StepSystem.System (StepSystem.Marked (Running L)) Label :=
  (system L).marked (fun r => r.session.io.ready.length) Label.taken
    fun r a r' => r.session.io.rearmed a r'.session.io

theorem watches_step {m w : StepSystem.Marked (Running L)} {a : Label} (hs : m.now.session.flow.Holds)
    (h : m.now.loopEnded = false → m.now.session.clock.Watches m.marks) (hprompt : Prompt m.now a)
    (hstep : (watched L).step m a = some w) (hloop : w.now.loopEnded = false) :
    w.now.session.clock.Watches w.marks := by
  obtain ⟨r, hr, rfl⟩ := Option.map_eq_some_iff.mp hstep
  cases moves_of_step hr with
  | complete ht =>
    obtain ⟨op, io, hio, -, rfl⟩ := complete_spec ht
    exact (h hloop).complete hio
  | @handled k env t _ _ ht =>
    obtain ⟨op, o, io, hio, hhandle⟩ := dispatch_spec ht
    have hat : m.now.session.rearmsAt k = rearms { m.now.session with io := io } op o := by
      simp only [rearmsAt, (Executor.take_spec hio).1, Option.any_some]
      cases op <;> rfl
    have hawake := rearms_awake (taken_sound hs hio env.newRef) (o := o)
    simp only [Prompt, hat] at hprompt
    exact (h hloop).handled hio (handle_ticks hhandle) hprompt hawake
  | threw => cases hloop
  | decide href => exact (h hloop).decided href _
  | close => exact (h hloop).closed (Ticks.closes.close m.now.session)

theorem reached_watches {m : StepSystem.Marked (Running L)}
    (h : (watched L).ReachedUnder (fun m a => Prompt m.now a) m) (hloop : m.now.loopEnded = false) :
    m.now.session.clock.Watches m.marks := by
  revert hloop
  refine h.invariant_of (J := fun m => m.now.session.flow.Holds)
    (I := fun m => m.now.loopEnded = false → m.now.session.clock.Watches m.marks)
    (fun m hm => reached_holds (StepSystem.System.ReachedUnder.unmarked hm).reached) ?_ ?_
  · rintro ⟨_, marks⟩ ⟨⟨hasCertCache, rfl⟩, hmarks⟩ _
    refine ⟨fun _ => ⟨rfl, fun _ => rfl⟩, fun hmem => (by cases hmem), ?_⟩
    rw [hmarks]
    exact ⟨rfl, fun k e he => by cases he⟩
  · intro m a w hs hm hprompt hstep hloop
    exact watches_step hs hm hprompt hstep hloop

end Session

namespace MitmSession

open BurpTUI.Flow (Idle Cleared Sound SoundAfter)

variable {L : Llhttp} {b : Flow} {new ref : Ref} {s t u : MitmSession L} {op : Op} {m n : ℕ}

def clock (s : MitmSession L) : Clock where
  io := s.io
  asked := s.asked

/-- From `s` to `t` the timer has been armed `n` times. -/
def Ticks (n : ℕ) (s t : MitmSession L) : Prop := Clock.Ticks n s.clock t.clock

namespace Ticks

theorem refl (s : MitmSession L) : Ticks 0 s s := ⟨.refl _, rfl⟩

theorem trans (h : Ticks m s t) (h' : Ticks n t u) : Ticks (m + n) s u := Clock.Ticks.trans h h'

/-- First nothing is armed. -/
theorem next (h : Ticks 0 s t) (h' : Ticks n t u) : Ticks n s u := by
  have hboth := h.trans h'
  rwa [Nat.zero_add] at hboth

theorem same (hio : t.io = s.io) (hasked : t.asked = s.asked) : Ticks 0 s t := by
  refine ⟨?_, hasked⟩
  show Io.Ticks 0 s.io t.io
  rw [hio]
  exact .refl _

theorem emit (s : MitmSession L) (e : Effect) : Ticks 0 s (s.emit e) := same rfl rfl

theorem start (s : MitmSession L) {p : Op} (htimer : p.isTimer = false)
    (hdecision : ∀ a, p.kind ≠ .decision a) : Ticks 0 s (s.start p) := ⟨.start _ htimer hdecision, rfl⟩

theorem cancel (s : MitmSession L) (p : Op → Bool) : Ticks 0 s (s.cancel p) := ⟨.cancel _ p, rfl⟩

theorem resetTimer (s : MitmSession L) : Ticks 1 s s.resetTimer := ⟨.arm _, rfl⟩

theorem closes : AllowsClose (Ticks (L := L) 0) where
  refl := refl
  trans := next
  cancel := cancel
  removed s _ := emit s _
  gone _ := same rfl rfl
  closed s := emit s _

theorem answers : AllowsAnswer (Ticks (L := L) 0) where
  refl := refl
  trans := next
  send s _ := (emit s _).next (start _ rfl (by simp [Op.kind]))
  respond _ _ := same rfl rfl
  queue _ _ := same rfl rfl
  raw s _ := (emit s _).next (start _ rfl (by simp [Op.kind]))

theorem readClient (s : MitmSession L) : Ticks 0 s s.readClient :=
  startOpen_of closes.toChain (start s rfl (by simp [Op.kind]))

theorem readUpstream (s : MitmSession L) : Ticks 0 s s.readUpstream :=
  startOpen_of closes.toChain (start s rfl (by simp [Op.kind]))

theorem sets : AllowsSetup (Ticks (L := L) 0) where
  refl := refl
  trans := next
  connect s := start s rfl (by simp [Op.kind])
  established s := (emit s _).next (start _ rfl (by simp [Op.kind]))
  handshakes s := (start s rfl (by simp [Op.kind])).next (start _ rfl (by simp [Op.kind]))
  clientDone _ := same rfl rfl
  upstreamDone _ := same rfl rfl
  readClient := readClient

theorem forwards : AllowsForward (Ticks (L := L) 0) where
  refl := refl
  trans := next
  push _ _ _ := same rfl rfl
  send s _ _ := ((emit s _).next (emit _ _)).next (start _ rfl (by simp [Op.kind]))

theorem finishes : AllowsFinish (Ticks (L := L) 0) where
  refl := refl
  trans := next
  respond _ _ := same rfl rfl
  parser _ _ _ := same rfl rfl
  renew _ := same rfl rfl
  flag _ := same rfl rfl
  readClient := readClient
  readUpstream := readUpstream

theorem handleDecision (s : MitmSession L) (env : Env) (action : InterceptAction) :
    Ticks (!s.isClosed).toNat s (s.handleDecision env action) := by
  unfold MitmSession.handleDecision
  split
  · rename_i hclosed
    rw [hclosed]
    exact refl s
  · rename_i hopen
    rw [Bool.eq_false_iff.mpr hopen]
    cases action with
    | forward => exact (resetTimer s).trans (forwards.writeUpstream _ _ _)
    | drop => exact (resetTimer s).trans (answers.sendErrorResponse _ _ _)

theorem received (hopen : s.isClosed = false) (env : Env) (data : Bytes) :
    Ticks 1 s (s.handleUpstreamRead env (.bytes data)) :=
  (((resetTimer s).trans (emit _ _)).trans (answers.writeClient fun _ => same rfl rfl)).trans
    (finishes.received closes.close hopen env data)

theorem ended (s : MitmSession L) (env : Env) {o : Outcome}
    (ho : s.isClosed = true ∨ ∀ data, o ≠ .bytes data) : Ticks 0 s (s.handleUpstreamRead env o) := by
  rcases ho with hclosed | ho
  · unfold MitmSession.handleUpstreamRead
    rw [if_pos hclosed]
    exact refl s
  · exact finishes.ended closes.close s env ho

end Ticks

def Pauses (n : ℕ) (s t : MitmSession L) : Prop := Clock.Pauses n s.clock t.clock

theorem Ticks.moves (h : Ticks n s t) : Clock.Moves n s.clock t.clock := .inl h

/-- Only the intercept manager pauses a request. -/
theorem chain_moves : Chain fun s t : MitmSession L => Clock.Moves 0 s.clock t.clock :=
  ⟨fun s => (Ticks.refl s).moves, Clock.Moves.next⟩

theorem handleRequest_moves (s : MitmSession L) (env : Env) (req : HttpRequest) :
    Clock.Moves 0 s.clock (s.handleRequest env req).clock := by
  refine handleRequest_of chain_moves (Ticks.same (s := s) rfl rfl).moves (fun s => (Ticks.emit s _).moves)
    (fun s item => .inr ?_) (fun s ref data => (Ticks.forwards.writeUpstream s ref data).moves)
  have hcancel := Io.Ticks.cancel s.io (· == .timer)
  exact ⟨hcancel.ready, hcancel.timers, Io.Ticks.cancelled s.io⟩

theorem handleClientRead_ticks (hopen : s.isClosed = false) (env : Env) (data : Bytes) :
    Ticks 1 s (s.handleClientRead env (.bytes data)) ∨ Pauses 1 s (s.handleClientRead env (.bytes data)) := by
  have hread : Ticks 1 s (s.resetTimer.emit (.read data)) := (Ticks.resetTimer s).trans (.emit _ _)
  refine hread.moves.next (handleClientRead_of chain_moves hopen (fun s _ _ => ?_) (fun s => ?_) (fun s => ?_)
    (fun u req _ => handleRequest_moves u env req))
  · exact (Ticks.same (s := s) rfl rfl).moves
  · exact (Ticks.readClient s).moves
  · exact (Ticks.closes.close s).moves

/-- The handlers that arm the timer again. -/
def rearms (s : MitmSession L) : Op → Outcome → Bool
  | .clientRead, .bytes _ => !s.isClosed
  | .upstreamRead, .bytes _ => !s.isClosed
  | .decision _, _ => !s.isClosed
  | _, _ => false

theorem handle_ticks (env : Env) (s : MitmSession L) (op : Op) (o : Outcome) :
    Ticks (s.rearms op o).toNat s (s.handle env op o) ∨
      s.rearms op o = true ∧ Pauses 1 s (s.handle env op o) := by
  cases op with
  | clientRead =>
    cases hopen : s.isClosed with
    | true =>
      have hnone : s.rearms .clientRead o = false := by cases o <;> simp [rearms, hopen]
      have hsame : s.handle env .clientRead o = s := if_pos hopen
      rw [hnone, hsame]
      exact Or.inl (Ticks.refl s)
    | false =>
      cases o with
      | bytes data =>
        simp only [rearms, hopen, Bool.not_false, Bool.toNat_true, true_and]
        exact handleClientRead_ticks hopen env data
      | _ =>
        left
        simp only [rearms, handle, handleClientRead, hopen]
        exact Ticks.closes.close s
  | upstreamRead =>
    left
    cases hopen : s.isClosed with
    | true =>
      have hnone : s.rearms .upstreamRead o = false := by cases o <;> simp [rearms, hopen]
      rw [hnone]
      exact Ticks.ended s env (Or.inl hopen)
    | false =>
      cases o with
      | bytes data =>
        simp only [rearms, hopen, Bool.not_false, Bool.toNat_true]
        exact Ticks.received hopen env data
      | _ => exact Ticks.ended s env (Or.inr (by simp))
  | timer => exact .inl (handleTimeout_of Ticks.closes.toChain fun _ => Ticks.closes.close s)
  | resolve => exact .inl (Ticks.sets.handleResolve (Ticks.answers.sendErrorResponse s _ _) o)
  | connect => exact .inl (Ticks.sets.handleConnected (Ticks.answers.sendErrorResponse s _ _) o)
  | established => exact .inl (Ticks.sets.handleEstablished (Ticks.closes.close s) env o)
  | clientHandshake => exact .inl (Ticks.sets.handleClientHandshake fun _ => Ticks.closes.close s)
  | upstreamHandshake => exact .inl (Ticks.sets.handleUpstreamHandshake fun _ => Ticks.closes.close s)
  | clientWrite data => exact .inl (Ticks.answers.handleClientWrite Ticks.closes.close (.same rfl rfl) o)
  | upstreamWrite data =>
    exact .inl (Ticks.forwards.handleUpstreamWrite (fun _ => Ticks.closes.close s) (.same rfl rfl)
      Ticks.readUpstream)
  | decision action => exact .inl (Ticks.handleDecision s env action)
  | rawWrite data => exact .inl (Ticks.closes.close s)
  | serverWrite data => exact .inl (Ticks.refl s)

/-- A handler that arms the timer finds no request paused. -/
theorem rearms_awake (hs : InvAfter b new op s) {o : Outcome} (hr : s.rearms op o = true) :
    s.clock.Awake := by
  have hidle : Idle b new s.flow := by
    cases op with
    | clientRead => exact hs.idle (Or.inl rfl)
    | upstreamRead => exact hs.idle (Or.inr (Or.inr (Or.inl rfl)))
    | decision action => exact hs.idle (Or.inr (Or.inr (Or.inr ⟨action, rfl⟩)))
    | _ => cases hr
  exact ⟨hidle.asked, fun a => hidle.decision a⟩

def rearmsAt (s : MitmSession L) (k : ℕ) : Bool := s.io.ready[k]?.any fun e => s.rearms e.1 e.2

/-- No handler that arms the timer runs while an expired wait is queued. -/
def Prompt (s : MitmSession L) : Session.Label → Prop
  | .dispatch k _ => s.rearmsAt k = true → (.timer, .ok) ∉ s.io.ready
  | _ => True

instance (s : MitmSession L) (a : Session.Label) : Decidable (Prompt s a) :=
  match a with
  | .dispatch _ _ => inferInstanceAs (Decidable (_ → _ ∉ _))
  | .complete _ _ | .decide _ _ | .close => inferInstanceAs (Decidable True)

/-- The session with a mark for each queued handler: whether the timer has been armed again since. -/
def watched (L : Llhttp) : StepSystem.System (StepSystem.Marked (MitmSession L)) Session.Label :=
  (system L).marked (fun s => s.io.ready.length) Session.Label.taken fun s a t => s.io.rearmed a t.io

theorem watches_step {m w : StepSystem.Marked (MitmSession L)} {a : Session.Label} (hs : m.now.Holds)
    (h : m.now.clock.Watches m.marks) (hprompt : Prompt m.now a)
    (hstep : (watched L).step m a = some w) : w.now.clock.Watches w.marks := by
  obtain ⟨t, ht, rfl⟩ := Option.map_eq_some_iff.mp hstep
  cases moves_of_step ht with
  | complete ht =>
    obtain ⟨op, io, hio, -, rfl⟩ := complete_spec ht
    exact h.complete hio
  | @handled k env t _ ht =>
    obtain ⟨op, o, io, hio, rfl⟩ := dispatch_spec ht
    have hat : m.now.rearmsAt k = rearms { m.now with io := io } op o := by
      simp only [rearmsAt, (Executor.take_spec hio).1, Option.any_some]
      cases op <;> rfl
    have hawake := rearms_awake (taken_inv hs hio env.newRef) (o := o)
    simp only [Prompt, hat] at hprompt
    exact h.handled hio (handle_ticks env { m.now with io := io } op o) hprompt hawake
  | decide href => exact h.decided href _
  | close => exact h.closed (Ticks.closes.close m.now)

theorem reached_watches {m : StepSystem.Marked (MitmSession L)}
    (h : (watched L).ReachedUnder (fun m a => Prompt m.now a) m) : m.now.clock.Watches m.marks := by
  refine h.invariant_of (J := fun m => m.now.Holds) (I := fun m => m.now.clock.Watches m.marks)
    (fun m hm => reached_holds (StepSystem.System.ReachedUnder.unmarked hm).reached) ?_ ?_
  · rintro ⟨_, marks⟩ ⟨⟨targetHost, targetPort, rfl⟩, hmarks⟩
    refine ⟨fun _ => ⟨rfl, fun _ => rfl⟩, fun hmem => (by cases hmem), ?_⟩
    rw [hmarks]
    exact ⟨rfl, fun k e he => by cases he⟩
  · intro m a w hs hm hprompt hstep
    exact watches_step hs hm hprompt hstep

end MitmSession

/-- The handler of an expired wait is only run when the timer has not been armed again since, and no
request of the session is paused. -/
theorem stale_timer_never_acts {L : Llhttp} :
    (∀ m k env w, (Session.watched L).ReachedUnder (fun m a => Session.Prompt m.now a) m →
      (Session.watched L).step m (.dispatch k env) = some w →
      m.now.session.io.ready[k]? = some (.timer, .ok) →
        m.marks[k]? = some false ∧ m.now.session.clock.Awake) ∧
    ∀ m k env w, (MitmSession.watched L).ReachedUnder (fun m a => MitmSession.Prompt m.now a) m →
      (MitmSession.watched L).step m (.dispatch k env) = some w →
      m.now.io.ready[k]? = some (.timer, .ok) → m.marks[k]? = some false ∧ m.now.clock.Awake := by
  refine ⟨fun m k env w hm hstep hk => ?_, fun m k env w hm _ hk => ?_⟩
  · have hloop : m.now.loopEnded = false := by
      obtain ⟨r, hr, -⟩ := Option.map_eq_some_iff.mp hstep
      have hr : Session.step m.now (.dispatch k env) = some r := hr
      cases Session.moves_of_step hr with
      | handled hloop => exact hloop
      | threw hloop => exact hloop
    have hwatches := Session.reached_watches hm hloop
    exact ⟨hwatches.unmarked.clear k _ hk rfl, hwatches.ready (List.mem_of_getElem? hk)⟩
  · have hwatches := MitmSession.reached_watches hm
    exact ⟨hwatches.unmarked.clear k _ hk rfl, hwatches.ready (List.mem_of_getElem? hk)⟩

section Examples

open Session (started env1 sentRun)

theorem stale_timer_never_acts_silentUpstream :
    (∃ m w, (Session.watched (answering [])).runUnder (fun m a => Session.Prompt m.now a)
        { now := { session := started false } } (sentRun ++ [.complete 0 .ok]) = some m ∧
      (Session.watched (answering [])).step m (.dispatch 1 env1) = some w ∧
      m.marks[1]? = some false ∧ m.now.session.clock.Awake) ∧
    ∃ m w, (MitmSession.watched (answering [])).runUnder (fun m a => MitmSession.Prompt m.now a)
        { now := MitmSession.started [] 443 } [.complete 0 .ok] = some m ∧
      (MitmSession.watched (answering [])).step m (.dispatch 0 {}) = some w ∧
      m.marks[0]? = some false ∧ m.now.clock.Awake := by
  have hrun : ((Session.watched (answering [])).runUnder (fun m a => Session.Prompt m.now a)
      { now := { session := started false } } (sentRun ++ [.complete 0 .ok])).any (fun m =>
        ((Session.watched (answering [])).step m (.dispatch 1 env1)).isSome &&
          m.now.session.io.ready[1]? == some (.timer, .ok)) = true := by decide
  have htls : ((MitmSession.watched (answering [])).runUnder (fun m a => MitmSession.Prompt m.now a)
      { now := MitmSession.started [] 443 } [.complete 0 .ok]).any (fun m =>
        ((MitmSession.watched (answering [])).step m (.dispatch 0 {})).isSome &&
          m.now.io.ready[0]? == some (.timer, .ok)) = true := by decide
  obtain ⟨m, hm, hat⟩ := (Option.any_eq_true _ _).mp hrun
  obtain ⟨m', hm', hat'⟩ := (Option.any_eq_true _ _).mp htls
  rw [Bool.and_eq_true, beq_iff_eq] at hat hat'
  obtain ⟨w, hw⟩ := Option.isSome_iff_exists.mp hat.1
  obtain ⟨w', hw'⟩ := Option.isSome_iff_exists.mp hat'.1
  have hreached := (StepSystem.System.ReachedUnder.init ⟨⟨false, rfl⟩, rfl⟩ :
    (Session.watched (answering [])).ReachedUnder (fun m a => Session.Prompt m.now a)
      { now := { session := started false } }).runUnder hm
  have hreached' := (StepSystem.System.ReachedUnder.init ⟨⟨[], 443, rfl⟩, rfl⟩ :
    (MitmSession.watched (answering [])).ReachedUnder (fun m a => MitmSession.Prompt m.now a)
      { now := MitmSession.started [] 443 }).runUnder hm'
  exact ⟨⟨m, w, hm, hw, stale_timer_never_acts.1 m 1 env1 w hreached hw hat.2⟩,
    ⟨m', w', hm', hw', stale_timer_never_acts.2 m' 0 {} w' hreached' hw' hat'.2⟩⟩

/-- The wait expires when the request has arrived; the request's handler runs first and pauses it. -/
def pausedRun : List Session.Label :=
  [.complete 1 (.bytes simpleGet.message.wire), .complete 0 .ok, .dispatch 0 { interceptEnabled := true }]

theorem stale_timer_acts :
    ¬ ∀ m k env w, (Session.watched (answering [])).Reached m →
      (Session.watched (answering [])).step m (.dispatch k env) = some w →
      m.now.session.io.ready[k]? = some (.timer, .ok) →
        m.marks[k]? = some false ∧ m.now.session.clock.Awake := by
  intro hall
  have hrun : ((Session.watched (answering [])).run { now := { session := started false } } pausedRun).any
      (fun m => ((Session.watched (answering [])).step m (.dispatch 0 env1)).isSome &&
        m.now.session.io.ready[0]? == some (.timer, .ok) && m.marks[0]? == some true &&
          m.now.session.asked == [0]) = true := by decide
  obtain ⟨m, hm, hat⟩ := (Option.any_eq_true _ _).mp hrun
  simp only [Bool.and_eq_true, beq_iff_eq] at hat
  obtain ⟨⟨⟨hstep, hready⟩, hmark⟩, -⟩ := hat
  obtain ⟨w, hw⟩ := Option.isSome_iff_exists.mp hstep
  have hreached := (StepSystem.System.ReachedUnder.init ⟨⟨false, rfl⟩, rfl⟩ :
    (Session.watched (answering [])).Reached { now := { session := started false } }).run hm
  have hfresh := (hall m 0 env1 w hreached hw hready).1
  rw [hmark] at hfresh
  cases hfresh

end Examples

end BurpTUI
