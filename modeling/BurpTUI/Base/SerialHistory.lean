import BurpTUI.Base.Monitor

namespace StepSystem.Monitor

variable {τ κ σ ρ : Type*}

/-- An operation that has acted on the shared state. -/
structure Act (τ κ ρ : Type*) where
  thread : τ
  op : κ
  result : ρ
  deriving DecidableEq, Repr

/-- Operations one after the other, each with its guard true and with the result that it gives then. -/
inductive Serial (M : Monitor τ κ σ ρ) : σ → List (Act τ κ ρ) → σ → Prop
  | nil (x : σ) : Serial M x [] x
  | snoc {x y : σ} {acts : List (Act τ κ ρ)} (t : τ) (op : κ) (h : Serial M x acts y)
    (hguard : (M.body op).guard y = true) :
    Serial M x (acts ++ [⟨t, op, ((M.body op).act y).2⟩]) ((M.body op).act y).1

/-- The induction rule for what holds of an initial state and of the operations done on it. -/
theorem Serial.invariant {M : Monitor τ κ σ ρ} {I : List (Act τ κ ρ) → σ → Prop} {x y : σ}
    {acts : List (Act τ κ ρ)} (h0 : I [] x)
    (h1 : ∀ acts y t op, I acts y → (M.body op).guard y = true →
      I (acts ++ [⟨t, op, ((M.body op).act y).2⟩]) ((M.body op).act y).1)
    (h : M.Serial x acts y) : I acts y := by
  induction h with
  | nil => exact h0
  | snoc t op _ hguard ih => exact h1 _ _ t op ih hguard

variable (M : Monitor τ κ σ ρ)

/-- What acts in a step. -/
def acted (s : State τ κ σ ρ) : Label τ κ → List (Act τ κ ρ)
  | .enter k => match s.calls[k]? with
    | some ⟨t, .ready op⟩ =>
      if (M.body op).guard s.shared then [⟨t, op, ((M.body op).act s.shared).2⟩] else []
    | _ => []
  | _ => []

/-- What is called in a step. -/
def called : Label τ κ → List (τ × κ)
  | .call t op => [(t, op)]
  | _ => []

/-- What was called in a run, and what has acted, in the order of the run. -/
structure History (τ κ ρ : Type*) where
  called : List (τ × κ) := []
  acted : List (Act τ κ ρ) := []
  deriving DecidableEq

def History.add (h : History τ κ ρ) (s : State τ κ σ ρ) (a : Label τ κ) : History τ κ ρ where
  called := h.called ++ Monitor.called a
  acted := h.acted ++ M.acted s a

/-- The monitor with its history. -/
def recorded [DecidableEq τ] (init : σ → Prop) :
    System (State τ κ σ ρ × History τ κ ρ) (Label τ κ) where
  init p := (M.system init).init p.1 ∧ p.2 = {}
  step p a := (M.step p.1 a).map fun s => (s, p.2.add M p.1 a)

/-- Every run has a history. -/
theorem exists_recorded [DecidableEq τ] {init : σ → Prop} {s : State τ κ σ ρ} (h : (M.system init).Reached s) :
    ∃ h, (M.recorded init).Reached (s, h) := by
  induction h with
  | init h0 => exact ⟨{}, .init ⟨h0, rfl⟩⟩
  | @step s a t _ _ he ih =>
    obtain ⟨h, hh⟩ := ih
    have hstep : (M.recorded init).step (s, h) a = some (t, h.add M s a) := by
      show (M.step s a).map _ = _
      rw [show M.step s a = some t from he]
      rfl
    exact ⟨_, .step hh trivial hstep⟩

/-- And the monitor does not depend on it. -/
theorem reached_of_recorded [DecidableEq τ] {init : σ → Prop} {p : State τ κ σ ρ × History τ κ ρ}
    (h : (M.recorded init).Reached p) : (M.system init).Reached p.1 := by
  induction h with
  | init h0 => exact .init h0.1
  | step _ _ he ih =>
    obtain ⟨s, hs, rfl⟩ := Option.map_eq_some_iff.mp he
    exact .step ih trivial hs

section Linear

variable {β : Type*} {calls calls' rest : List (Call τ κ ρ)}

/-- The result of an operation that has acted and not returned. -/
def Phase.result : Phase κ ρ → Option ρ
  | .notifying result => some result
  | _ => none

/-- What the calls of a thread tell. -/
def ofThread [DecidableEq τ] (f : Phase κ ρ → Option β) (t : τ) (calls : List (Call τ κ ρ)) : List β :=
  calls.filterMap fun c => if c.thread = t then f c.phase else none

def pending [DecidableEq τ] (t : τ) (calls : List (Call τ κ ρ)) : List ρ := ofThread Phase.result t calls

/-- The operation of a thread that has not acted. -/
def waiting [DecidableEq τ] (t : τ) (calls : List (Call τ κ ρ)) : List κ := ofThread Phase.op? t calls

/-- No thread is inside two operations. -/
def OneEach (calls : List (Call τ κ ρ)) : Prop := (calls.map Call.thread).Nodup

theorem OneEach.perm (h : OneEach calls) (hp : calls.Perm calls') : OneEach calls' :=
  (hp.map Call.thread).nodup_iff.mp h

/-- A call goes on in the same thread. -/
theorem OneEach.goes_on (h : OneEach calls) {t : τ} {p p' : Phase κ ρ} (hp : calls.Perm (⟨t, p⟩ :: rest))
    (hp' : calls'.Perm (⟨t, p'⟩ :: rest)) : OneEach calls' := by
  have hrest : OneEach (⟨t, p⟩ :: rest) := h.perm hp
  have hrest' : OneEach (⟨t, p'⟩ :: rest) := hrest
  exact hrest'.perm hp'.symm

variable [DecidableEq τ] {f : Phase κ ρ → Option β}

theorem ofThread_cons (f : Phase κ ρ → Option β) (t u : τ) (p : Phase κ ρ) (rest : List (Call τ κ ρ)) :
    ofThread f u (⟨t, p⟩ :: rest) = (if t = u then (f p).toList else []) ++ ofThread f u rest := by
  simp only [ofThread, List.filterMap_cons]
  by_cases hu : t = u
  · rw [if_pos hu, if_pos hu]
    cases f p <;> rfl
  · rw [if_neg hu, if_neg hu]
    rfl

/-- The other calls are of other threads. -/
theorem OneEach.ofThread_rest {c : Call τ κ ρ} (h : OneEach (c :: rest)) : ofThread f c.thread rest = [] := by
  rw [OneEach, List.map_cons, List.nodup_cons] at h
  rw [ofThread, List.filterMap_eq_nil_iff]
  intro c' hc'
  refine if_neg fun hthread => ?_
  rw [← hthread] at h
  exact h.1 (List.mem_map_of_mem hc')

theorem OneEach.ofThread_length (h : OneEach calls) (t : τ) : (ofThread f t calls).length ≤ 1 := by
  induction calls with
  | nil => exact Nat.zero_le 1
  | cons c calls ih =>
    obtain ⟨u, p⟩ := c
    rw [ofThread_cons]
    by_cases hu : u = t
    · subst hu
      have hrest : ofThread f u calls = [] := h.ofThread_rest
      rw [hrest, if_pos rfl, List.append_nil]
      cases f p <;> simp
    · rw [if_neg hu]
      exact ih (List.nodup_cons.mp h).2

omit [DecidableEq τ] in
theorem eq_of_perm {l l' : List β} (hl : l.length ≤ 1) (h : l.Perm l') : l' = l := by
  match l, hl with
  | [], _ => exact List.nil_perm.mp h
  | [a], _ => exact List.singleton_perm.mp h |>.symm

/-- A thread's call tells what its phase tells, whatever the order of the calls. -/
theorem OneEach.ofThread_eq (h : OneEach calls) {t : τ} {p : Phase κ ρ} (hp : calls.Perm (⟨t, p⟩ :: rest))
    (u : τ) : ofThread f u calls = if t = u then (f p).toList else ofThread f u rest := by
  have hrest : OneEach (⟨t, p⟩ :: rest) := h.perm hp
  have heq : ofThread f u calls = ofThread f u (⟨t, p⟩ :: rest) :=
    eq_of_perm (hrest.ofThread_length u) (hp.symm.filterMap _)
  rw [heq, ofThread_cons]
  by_cases hu : t = u
  · subst hu
    have hnone : ofThread f t rest = [] := hrest.ofThread_rest
    rw [if_pos rfl, if_pos rfl, hnone, List.append_nil]
  · rw [if_neg hu, if_neg hu]
    rfl

/-- A call that tells the same before and after the step. -/
theorem OneEach.ofThread_same (h : OneEach calls) {t : τ} {p p' : Phase κ ρ}
    (hp : calls.Perm (⟨t, p⟩ :: rest)) (hp' : calls'.Perm (⟨t, p'⟩ :: rest)) (hf : f p' = f p) (u : τ) :
    ofThread f u calls' = ofThread f u calls := by
  rw [h.ofThread_eq hp, (h.goes_on hp hp').ofThread_eq hp', hf]

/-- The threads are inside one operation each; what has acted did so one after the other; each thread gets
the results of its own operations in their order; and what it called, in that order, is what has acted and
the call that waits. -/
structure Linear (init : σ → Prop) (p : State τ κ σ ρ × History τ κ ρ) : Prop where
  oneEach : OneEach p.1.calls
  serial : ∃ x, init x ∧ M.Serial x p.2.acted p.1.shared
  results : ∀ t, (p.1.returned.filter fun r => r.1 = t).map Prod.snd ++ pending t p.1.calls =
    (p.2.acted.filter fun a => a.thread = t).map Act.result
  called : ∀ t, (p.2.called.filter fun c => c.1 = t).map Prod.snd =
    (p.2.acted.filter fun a => a.thread = t).map Act.op ++ waiting t p.1.calls

variable {M} {init : σ → Prop} {s s' : State τ κ σ ρ} {h : History τ κ ρ}

/-- A step in which nothing is called, nothing acts and nobody returns. -/
theorem Linear.waits (hl : M.Linear init (s, h)) (hone : OneEach calls)
    (hpending : ∀ t, pending t calls = pending t s.calls) (hwaiting : ∀ t, waiting t calls = waiting t s.calls) :
    M.Linear init ({ s with calls := calls }, h) :=
  ⟨hone, hl.serial, fun t => by rw [← hl.results t, hpending t],
    fun t => by rw [hl.called t, hwaiting t]⟩

theorem Linear.call (hl : M.Linear init (s, h)) {t : τ} (op : κ) (hother : ∀ c ∈ s.calls, c.thread ≠ t) :
    M.Linear init ({ s with calls := s.calls ++ [⟨t, .ready op⟩] },
      { h with called := h.called ++ [(t, op)] }) := by
  refine ⟨?_, hl.serial, fun u => ?_, fun u => ?_⟩
  · rw [OneEach, List.map_append, List.nodup_append]
    refine ⟨hl.oneEach, by simp, ?_⟩
    simpa using hother
  · rw [← hl.results u]
    simp [pending, ofThread, Phase.result]
  · have hcalled := hl.called u
    dsimp only at hcalled ⊢
    rw [List.filter_append, List.map_append, hcalled, List.append_assoc]
    by_cases hu : t = u
    · simp [waiting, ofThread, Phase.op?, hu]
    · simp [waiting, ofThread, hu]

theorem Linear.act (hl : M.Linear init (s, h)) {t : τ} {op : κ}
    (hcalls : s.calls.Perm (⟨t, .ready op⟩ :: rest)) (hguard : (M.body op).guard s.shared = true)
    (hcalls' : calls.Perm (⟨t, .notifying ((M.body op).act s.shared).2⟩ :: rest)) :
    M.Linear init ({ s with shared := ((M.body op).act s.shared).1, calls := calls },
      { h with acted := h.acted ++ [⟨t, op, ((M.body op).act s.shared).2⟩] }) := by
  have hone := hl.oneEach.goes_on hcalls hcalls'
  obtain ⟨x, hx, hserial⟩ := hl.serial
  refine ⟨hone, ⟨x, hx, hserial.snoc t op hguard⟩, fun u => ?_, fun u => ?_⟩
  · have hresults := hl.results u
    rw [pending, hl.oneEach.ofThread_eq hcalls] at hresults
    dsimp only at hresults ⊢
    rw [pending, hone.ofThread_eq hcalls', List.filter_append, List.map_append, ← hresults]
    by_cases hu : t = u <;> simp [hu, Phase.result]
  · have hcalled := hl.called u
    rw [waiting, hl.oneEach.ofThread_eq hcalls] at hcalled
    dsimp only at hcalled ⊢
    rw [waiting, hone.ofThread_eq hcalls', List.filter_append, List.map_append, hcalled]
    by_cases hu : t = u <;> simp [hu, Phase.op?]

theorem Linear.returns (hl : M.Linear init (s, h)) {t : τ} {result : ρ}
    (hcalls : s.calls.Perm (⟨t, .notifying result⟩ :: rest)) (hone : OneEach calls)
    (hpending : ∀ u, pending u calls = pending u rest) (hwaiting : ∀ u, waiting u calls = waiting u rest) :
    M.Linear init ({ s with calls := calls, returned := s.returned ++ [(t, result)] }, h) := by
  have hrest : OneEach (⟨t, .notifying result⟩ :: rest) := hl.oneEach.perm hcalls
  refine ⟨hone, hl.serial, fun u => ?_, fun u => ?_⟩
  · have hresults := hl.results u
    rw [pending, hl.oneEach.ofThread_eq hcalls] at hresults
    dsimp only at hresults ⊢
    rw [← hresults, hpending u, List.filter_append, List.map_append]
    by_cases hu : t = u
    · subst hu
      have hnone : pending t rest = [] := hrest.ofThread_rest
      simp [hnone, Phase.result]
    · simp [hu, pending]
  · have hcalled := hl.called u
    rw [waiting, hl.oneEach.ofThread_eq hcalls] at hcalled
    dsimp only at hcalled ⊢
    rw [hcalled, hwaiting u]
    by_cases hu : t = u
    · subst hu
      have hnone : waiting t rest = [] := hrest.ofThread_rest
      rw [if_pos rfl, hnone]
      rfl
    · rw [if_neg hu, waiting]

theorem linear_step {a : Label τ κ} (hl : M.Linear init (s, h)) (hs : M.step s a = some s') :
    M.Linear init (s', h.add M s a) := by
  have hnothing (hcalled : Monitor.called a = ([] : List (τ × κ))) (hacted : M.acted s a = [])
      (hlinear : M.Linear init (s', h)) : M.Linear init (s', h.add M s a) := by
    rw [History.add, hcalled, hacted, List.append_nil, List.append_nil]
    exact hlinear
  cases a with
  | call t op =>
    simp only [step] at hs
    split at hs
    · rename_i hmay
      obtain rfl := Option.some.inj hs
      rw [History.add, show M.acted s (.call t op) = [] from rfl, List.append_nil]
      exact hl.call op hmay.2
    · cases hs
  | enter k =>
    simp only [step] at hs
    split at hs
    · rename_i t op hk
      have hcalls := perm_of_get hk
      split at hs
      · rename_i hguard
        obtain rfl := Option.some.inj hs
        have hacted : M.acted s (.enter k) = [⟨t, op, ((M.body op).act s.shared).2⟩] := by
          simp only [acted, hk, if_pos hguard]
        rw [History.add, hacted, show Monitor.called (.enter k) = ([] : List (τ × κ)) from rfl, List.append_nil]
        exact hl.act hcalls hguard (perm_set hk _)
      · rename_i hguard
        obtain rfl := Option.some.inj hs
        refine hnothing rfl (by simp only [acted, hk, if_neg hguard]) ?_
        have hcalls' := perm_set hk (⟨t, .asleep op⟩ : Call τ κ ρ)
        exact hl.waits (hl.oneEach.goes_on hcalls hcalls') (hl.oneEach.ofThread_same hcalls hcalls' rfl)
          (hl.oneEach.ofThread_same hcalls hcalls' rfl)
    · cases hs
  | wake w =>
    refine hnothing rfl rfl ?_
    cases M.moves_of_step hs with
    | @wake w t op calls rest hcalls hcalls' =>
      exact hl.waits (hl.oneEach.goes_on hcalls hcalls') (hl.oneEach.ofThread_same hcalls hcalls' rfl)
        (hl.oneEach.ofThread_same hcalls hcalls' rfl)
  | notify k w =>
    refine hnothing rfl rfl ?_
    cases M.moves_of_step hs with
    | @notify k w t op t' result calls rest hcalls hw hrest hcalls' =>
      have hone : OneEach (s.calls.eraseIdx k) := (List.nodup_cons.mp (hl.oneEach.perm hcalls)).2
      exact hl.returns hcalls (hone.goes_on hrest hcalls') (hone.ofThread_same hrest hcalls' rfl)
        (hone.ofThread_same hrest hcalls' rfl)
    | @unheard k t result calls hcalls _ =>
      exact hl.returns hcalls (List.nodup_cons.mp (hl.oneEach.perm hcalls)).2 (fun _ => rfl) (fun _ => rfl)

/-- A monitor is linearizable. -/
theorem linear_of_recorded {p : State τ κ σ ρ × History τ κ ρ} (hp : (M.recorded init).Reached p) :
    M.Linear init p := by
  refine hp.invariant ?_ ?_
  · rintro ⟨s, h⟩ ⟨⟨hinit, hcalls, hreturned⟩, rfl⟩
    refine ⟨?_, ⟨s.shared, hinit, .nil _⟩, fun t => ?_, fun t => ?_⟩
    · rw [OneEach, hcalls]
      exact List.nodup_nil
    · rw [hcalls, hreturned]
      rfl
    · rw [hcalls]
      rfl
  · rintro ⟨s, h⟩ a p hlinear _ he
    obtain ⟨s', hs, rfl⟩ := Option.map_eq_some_iff.mp he
    exact linear_step hlinear hs

/-- A thread acts by the operations that it may call. -/
theorem suited_acts {p : State τ κ σ ρ × History τ κ ρ} (hp : (M.recorded init).Reached p) :
    ∀ a ∈ p.2.acted, M.may a.thread a.op = true := by
  refine hp.invariant_of (I := fun p => ∀ a ∈ p.2.acted, M.may a.thread a.op = true)
    (fun _ hp => M.suited (M.reached_of_recorded hp)) ?_ ?_
  · rintro ⟨s, h⟩ ⟨-, rfl⟩ a ha
    cases ha
  · rintro ⟨s, h⟩ a p hsuited hacts _ he
    obtain ⟨s', -, rfl⟩ := Option.map_eq_some_iff.mp he
    intro b hb
    rcases List.mem_append.mp hb with hb | hb
    · exact hacts b hb
    · unfold acted at hb
      split at hb
      · split at hb
        · rename_i t op hk
          split at hb
          · rw [List.mem_singleton] at hb
            subst hb
            exact hsuited _ (List.mem_of_getElem? hk) op rfl
          · cases hb
        · cases hb
      · cases hb

end Linear

end StepSystem.Monitor
