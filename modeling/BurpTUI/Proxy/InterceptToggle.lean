import BurpTUI.Base.StepSystem
import BurpTUI.Proxy.InterceptManager

namespace BurpTUI.InterceptToggle

variable {κ : Type}

/-- Where the UI thread stands in a call of `setInterceptEnabled`. -/
inductive ToggleCall
  | none
  /-- `true` is stored, the notification is still to come -/
  | enabling
  /-- `false` is stored, `forwardAll` has not drained the queue yet -/
  | disabling
  deriving DecidableEq, Repr

/-- `between` holds the requests whose session has read the flag as true and has not called
`interceptRequest` yet. -/
structure State (κ : Type) where
  manager : InterceptManager κ := {}
  between : List (InterceptedRequest κ) := []
  call : ToggleCall := .none
  deriving DecidableEq, Repr

inductive Label (κ : Type)
  | testEnabled (item : InterceptedRequest κ)
  | interceptRequest (k : ℕ)
  | removeById (id : ℤ)
  | store (enabled : Bool)
  | finishCall
  | forwardCurrent
  | dropCurrent

open InterceptManager in
/-- The UI steps need the UI thread to be outside `setInterceptEnabled`. -/
def step (s : State κ) : Label κ → Option (State κ)
  | .testEnabled item =>
    some (if s.manager.interceptEnabled then { s with between := s.between ++ [item] } else s)
  | .interceptRequest k =>
    s.between[k]?.map fun item =>
      { s with manager := s.manager.interceptRequest item, between := s.between.eraseIdx k }
  | .removeById id => some { s with manager := s.manager.removeById id }
  | .store enabled =>
    if s.call = .none then
      some { s with
        manager := s.manager.storeEnabled enabled
        call := if enabled then .enabling else .disabling }
    else none
  | .finishCall =>
    match s.call with
    | .none => none
    | .enabling => some { s with call := .none }
    | .disabling => some { s with manager := s.manager.forwardAll.2, call := .none }
  | .forwardCurrent =>
    if s.call = .none then some { s with manager := s.manager.forwardCurrent.2 } else none
  | .dropCurrent =>
    if s.call = .none then some { s with manager := s.manager.dropCurrent.2 } else none

def system : StepSystem.System (State κ) (Label κ) where
  init s := s = {}
  step := step

/-- Interception is off, no session is between its two steps, no toggle call is in progress. -/
def Quiet (s : State κ) : Prop :=
  s.manager.interceptEnabled = false ∧ s.between = [] ∧ s.call = .none

/-- No request stays paused. -/
def NoneForgotten (s : State κ) : Prop := Quiet s → s.manager.queue = []

/-- A request is queued only while interception is on or the call that switches it off has yet
to drain the queue. -/
def QueuedInTime (s : State κ) : Label κ → Prop
  | .interceptRequest _ => s.manager.interceptEnabled = true ∨ s.call = .disabling
  | _ => True

instance (s : State κ) (a : Label κ) : Decidable (QueuedInTime s a) := by
  cases a <;> unfold QueuedInTime <;> infer_instance

/-- The invariant behind `NoneForgotten`: off and drained means empty. -/
def Drained (s : State κ) : Prop :=
  s.manager.interceptEnabled = false → s.call ≠ .disabling → s.manager.queue = []

theorem drained_step {s t : State κ} {a : Label κ} (hs : Drained s) (hc : QueuedInTime s a)
    (h : step s a = some t) : Drained t := by
  cases a with
  | testEnabled item =>
    simp only [step, Option.some.injEq] at h
    subst h
    split <;> exact hs
  | interceptRequest k =>
    simp only [step, Option.map_eq_some_iff] at h
    obtain ⟨item, -, rfl⟩ := h
    intro hoff hcall
    -- interception is still on, or the call that disables it has yet to empty the queue
    rcases hc with hon | hdis
    · simp_all
    · exact absurd hdis hcall
  | removeById id =>
    simp only [step, Option.some.injEq] at h
    subst h
    intro hoff hcall
    simp [hs hoff hcall]
  | store enabled =>
    simp only [step, Option.ite_none_right_eq_some, Option.some.injEq] at h
    obtain ⟨-, rfl⟩ := h
    cases enabled <;> simp [Drained]
  | finishCall =>
    simp only [step] at h
    split at h <;> cases h
    · rename_i hcall
      intro hoff _
      exact hs hoff (by simp [hcall])
    · intro _ _
      rfl
  | forwardCurrent =>
    simp only [step, Option.ite_none_right_eq_some, Option.some.injEq] at h
    obtain ⟨-, rfl⟩ := h
    intro hoff hcall
    simp [hs (by simpa using hoff) hcall]
  | dropCurrent =>
    simp only [step, Option.ite_none_right_eq_some, Option.some.injEq] at h
    obtain ⟨-, rfl⟩ := h
    intro hoff hcall
    simp [hs (by simpa using hoff) hcall]

theorem drained_of_reachedUnder {s : State κ} (h : system.ReachedUnder QueuedInTime s) :
    Drained s :=
  h.invariant (fun s h0 => by subst h0; intro _ _; rfl) fun _ _ _ hs hc he => drained_step hs hc he

/-- A request queued while interception is off and nobody is going to drain the queue. -/
structure Late (s : State κ) : Prop where
  off : s.manager.interceptEnabled = false
  call : s.call = .none
  pending : s.manager.queue ≠ []

/-- The other sessions finish their calls one by one; the late request stays. -/
theorem late_forgotten (n : ℕ) {s : State κ} (hn : s.between.length = n) (hs : Late s) :
    ∃ as u, system.run s as = some u ∧ ¬ NoneForgotten u := by
  induction n generalizing s with
  | zero =>
    refine ⟨[], s, rfl, fun h => hs.pending (h ⟨hs.off, ?_, hs.call⟩)⟩
    exact List.length_eq_zero_iff.mp hn
  | succ n ih =>
    obtain ⟨item, rest, hb⟩ := List.exists_cons_of_length_eq_add_one hn
    have hstep : system.step s (.interceptRequest 0) =
        some { s with manager := s.manager.interceptRequest item, between := rest } := by
      simp [system, step, hb]
    have hlen : rest.length = n := by simpa [hb] using hn
    obtain ⟨as, u, hrun, hu⟩ := ih (s := { s with
      manager := s.manager.interceptRequest item, between := rest }) hlen
      ⟨hs.off, hs.call, by simp⟩
    exact ⟨.interceptRequest 0 :: as, u, by simp [StepSystem.System.run, hstep, hrun], hu⟩

theorem late_of_untimely {s t : State κ} {k : ℕ} (hc : ¬ QueuedInTime s (.interceptRequest k))
    (h : step s (.interceptRequest k) = some t) :
    ∃ as u, system.run t as = some u ∧ Late u := by
  simp only [QueuedInTime, not_or, Bool.not_eq_true] at hc
  simp only [step, Option.map_eq_some_iff] at h
  obtain ⟨item, -, rfl⟩ := h
  cases hcall : s.call with
  | none => exact ⟨[], _, rfl, hc.1, rfl, by simp⟩
  | disabling => exact absurd hcall hc.2
  | enabling =>
    let u : State κ :=
      { manager := s.manager.interceptRequest item, between := s.between.eraseIdx k }
    exact ⟨[.finishCall], u, rfl, hc.1, rfl, by simp [u]⟩

/-- No request is forgotten in a run that queues every request in time, and a request that is
queued too late leads to a state in which it is forgotten. -/
theorem none_forgotten_exactly_when_queued_in_time :
    (∀ s : State κ, system.ReachedUnder QueuedInTime s → NoneForgotten s) ∧
    ∀ (s t : State κ) (k : ℕ), system.Reached s → ¬ QueuedInTime s (.interceptRequest k) →
      system.step s (.interceptRequest k) = some t →
      ∃ as u, system.run t as = some u ∧ ¬ NoneForgotten u := by
  constructor
  · intro s hs hq
    exact drained_of_reachedUnder hs hq.1 (by simp [hq.2.2])
  · intro s t k _ hc h
    obtain ⟨as, u, hrun, hu⟩ := late_of_untimely hc h
    obtain ⟨bs, v, hrun', hv⟩ := late_forgotten _ rfl hu
    exact ⟨as ++ bs, v, StepSystem.System.run_append hrun hrun', hv⟩

/-- The request of one client, whose callback is named 0. -/
def someRequest : InterceptedRequest ℕ :=
  { id := 1, isHttps := false, host := str "a", port := 80, request := some 0, onDecision := 0 }

/-- The session has read the flag as true; the UI has switched interception off and drained. -/
def overtaken : State ℕ := { between := [someRequest] }

theorem overtaken_reached : system.ReachedUnder QueuedInTime overtaken := by
  have hrun : system.runUnder QueuedInTime ({} : State ℕ) [.store true, .finishCall,
      .testEnabled someRequest, .store false, .finishCall] = some overtaken := by decide
  exact .runUnder (.init rfl) hrun

/-- The session queues its request when interception is already off, but before the UI drains the queue. -/
def queuedInTimeRun : List (Label ℕ) :=
  [.store true, .finishCall, .testEnabled someRequest, .store false, .interceptRequest 0, .finishCall]

theorem none_forgotten_overtaken :
    (∃ s : State ℕ, system.runUnder QueuedInTime {} queuedInTimeRun = some s ∧ Quiet s ∧ NoneForgotten s) ∧
    ∃ as u, system.run ({ manager := { queue := [someRequest] } } : State ℕ) as = some u ∧
      ¬ NoneForgotten u := by
  have hrun : (system.runUnder QueuedInTime ({} : State ℕ) queuedInTimeRun).any
      (fun s => s.manager.interceptEnabled = false ∧ s.between = [] ∧ s.call = .none) = true := by decide
  obtain ⟨s, hs, hquiet⟩ := (Option.any_eq_true _ _).mp hrun
  obtain ⟨hoff, hnone, hcall⟩ := of_decide_eq_true hquiet
  exact ⟨⟨s, hs, ⟨hoff, hnone, hcall⟩,
      none_forgotten_exactly_when_queued_in_time.1 s (.runUnder (.init rfl) hs)⟩,
    none_forgotten_exactly_when_queued_in_time.2 overtaken _ 0 overtaken_reached.reached
      (by decide) rfl⟩

/-- The session reads the flag, the UI switches interception off and drains, the session queues. -/
theorem request_forgotten_by_disabling :
    ¬ ∀ s : State ℕ, system.Reached s → NoneForgotten s := by
  intro h
  have hstep : system.step overtaken (.interceptRequest 0) =
      some { manager := { queue := [someRequest] } } := rfl
  have hs := h _ (.step overtaken_reached.reached trivial hstep)
  exact absurd (hs ⟨rfl, rfl, rfl⟩) (by decide)

end BurpTUI.InterceptToggle
