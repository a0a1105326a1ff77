import BurpTUI.Base.StepSystem
import Mathlib.Data.List.Perm.Basic

namespace StepSystem

/-- What an operation of a monitor does: it waits until `guard` holds, then `act` changes the state
and gives the operation's result. -/
structure Guarded (σ ρ : Type*) where
  guard : σ → Bool
  act : σ → σ × ρ

/-- Operations under one mutex with one condition variable. An operation that has acted leaves the
mutex and notifies one waiter. `may` says which thread calls what. -/
structure Monitor (τ κ σ ρ : Type*) where
  may : τ → κ → Bool
  body : κ → Guarded σ ρ

namespace Monitor

/-- Where a thread is inside an operation: about to take the mutex and to test the guard, asleep on
the condition variable, or out of the mutex and about to notify. -/
inductive Phase (κ ρ : Type*)
  | ready (op : κ)
  | asleep (op : κ)
  | notifying (result : ρ)
  deriving DecidableEq

structure Call (τ κ ρ : Type*) where
  thread : τ
  phase : Phase κ ρ
  deriving DecidableEq

/-- The calls in progress, and the results that were returned. -/
structure State (τ κ σ ρ : Type*) where
  shared : σ
  calls : List (Call τ κ ρ) := []
  returned : List (τ × ρ) := []
  deriving DecidableEq

/-- Steps of call number `k`. A notification wakes call number `w`, which may be any sleeper, and
none only if no call sleeps. `wake` is a spurious wake-up. -/
inductive Label (τ κ : Type*)
  | call (t : τ) (op : κ)
  | enter (k : ℕ)
  | notify (k : ℕ) (w : Option ℕ)
  | wake (w : ℕ)

variable {τ κ σ ρ : Type*}

def Phase.Asleep : Phase κ ρ → Prop
  | .asleep _ => True
  | _ => False

instance (p : Phase κ ρ) : Decidable p.Asleep := by
  cases p <;> unfold Phase.Asleep <;> infer_instance

def wakeUp (calls : List (Call τ κ ρ)) (w : ℕ) : Option (List (Call τ κ ρ)) :=
  match calls[w]? with
  | some ⟨t, .asleep op⟩ => some (calls.set w ⟨t, .ready op⟩)
  | _ => none

variable [DecidableEq τ] (M : Monitor τ κ σ ρ)

def step (s : State τ κ σ ρ) : Label τ κ → Option (State τ κ σ ρ)
  | .call t op =>
    if M.may t op ∧ ∀ c ∈ s.calls, c.thread ≠ t then
      some { s with calls := s.calls ++ [⟨t, .ready op⟩] }
    else none
  | .enter k => match s.calls[k]? with
    | some ⟨t, .ready op⟩ =>
      if (M.body op).guard s.shared then
        let (shared, result) := (M.body op).act s.shared
        some { s with shared, calls := s.calls.set k ⟨t, .notifying result⟩ }
      else some { s with calls := s.calls.set k ⟨t, .asleep op⟩ }
    | _ => none
  | .notify k w => match s.calls[k]? with
    | some ⟨t, .notifying result⟩ =>
      let returned := s.returned ++ [(t, result)]
      match w with
      | some w => (wakeUp s.calls w).map fun calls =>
        { s with calls := calls.eraseIdx k, returned }
      | none =>
        if ∀ c ∈ s.calls, ¬ c.phase.Asleep then
          some { s with calls := s.calls.eraseIdx k, returned }
        else none
    | _ => none
  | .wake w => (wakeUp s.calls w).map fun calls => { s with calls }

def system (init : σ → Prop) : System (State τ κ σ ρ) (Label τ κ) where
  init s := init s.shared ∧ s.calls = [] ∧ s.returned = []
  step := M.step

/-! ## What a step does to the calls -/

omit [DecidableEq τ] in
theorem perm_of_get {l : List (Call τ κ ρ)} {k : ℕ} {a : Call τ κ ρ} (h : l[k]? = some a) :
    l.Perm (a :: l.eraseIdx k) := by
  obtain ⟨hk, rfl⟩ := List.getElem?_eq_some_iff.mp h
  exact (List.getElem_cons_eraseIdx_perm hk).symm

omit [DecidableEq τ] in
theorem perm_set {l : List (Call τ κ ρ)} {k : ℕ} {a : Call τ κ ρ} (h : l[k]? = some a)
    (b : Call τ κ ρ) : (l.set k b).Perm (b :: l.eraseIdx k) :=
  List.set_perm_cons_eraseIdx (List.getElem?_eq_some_iff.mp h).1 b

omit [DecidableEq τ] in
/-- One call changes and another one ends. -/
theorem perm_set_eraseIdx {l : List (Call τ κ ρ)} {k w : ℕ} {a : Call τ κ ρ}
    (hw : l[w]? = some a) (hne : k ≠ w) (c : Call τ κ ρ) :
    ∃ rest, (l.eraseIdx k).Perm (a :: rest) ∧ ((l.set w c).eraseIdx k).Perm (c :: rest) := by
  rcases Nat.lt_or_gt_of_ne hne with h | h
  · rw [List.eraseIdx_set_lt h]
    have hget : (l.eraseIdx k)[w - 1]? = some a := by
      rw [List.getElem?_eraseIdx_of_ge (by omega), Nat.sub_add_cancel (by omega), hw]
    exact ⟨_, perm_of_get hget, perm_set hget c⟩
  · rw [List.eraseIdx_set_gt h]
    have hget : (l.eraseIdx k)[w]? = some a := by rw [List.getElem?_eraseIdx_of_lt h, hw]
    exact ⟨_, perm_of_get hget, perm_set hget c⟩

/-- What a step can do, up to the order of the calls. -/
inductive Moves (s : State τ κ σ ρ) : Label τ κ → State τ κ σ ρ → Prop
  | call {t op calls} : M.may t op → calls.Perm (⟨t, .ready op⟩ :: s.calls) →
      Moves s (.call t op) { s with calls }
  | pass {k t op calls rest} : s.calls.Perm (⟨t, .ready op⟩ :: rest) →
      (M.body op).guard s.shared = true →
      calls.Perm (⟨t, .notifying ((M.body op).act s.shared).2⟩ :: rest) →
      Moves s (.enter k) { s with shared := ((M.body op).act s.shared).1, calls }
  | sleep {k t op calls rest} : s.calls.Perm (⟨t, .ready op⟩ :: rest) →
      ¬ (M.body op).guard s.shared = true → calls.Perm (⟨t, .asleep op⟩ :: rest) →
      Moves s (.enter k) { s with calls }
  | notify {k w t op t' result calls rest} :
      s.calls.Perm (⟨t', .notifying result⟩ :: s.calls.eraseIdx k) →
      s.calls[w]? = some ⟨t, .asleep op⟩ → (s.calls.eraseIdx k).Perm (⟨t, .asleep op⟩ :: rest) →
      calls.Perm (⟨t, .ready op⟩ :: rest) →
      Moves s (.notify k (some w)) { s with calls, returned := s.returned ++ [(t', result)] }
  | unheard {k t result calls} : s.calls.Perm (⟨t, .notifying result⟩ :: calls) →
      (∀ c ∈ s.calls, ¬ c.phase.Asleep) →
      Moves s (.notify k none) { s with calls, returned := s.returned ++ [(t, result)] }
  | wake {w t op calls rest} : s.calls.Perm (⟨t, .asleep op⟩ :: rest) →
      calls.Perm (⟨t, .ready op⟩ :: rest) → Moves s (.wake w) { s with calls }

omit [DecidableEq τ] in
theorem wakeUp_spec {l l' : List (Call τ κ ρ)} {w : ℕ} (h : wakeUp l w = some l') :
    ∃ t op, l[w]? = some ⟨t, .asleep op⟩ ∧ l' = l.set w ⟨t, .ready op⟩ := by
  unfold wakeUp at h
  split at h
  · rename_i t op hw
    exact ⟨t, op, hw, (Option.some.inj h).symm⟩
  · cases h

theorem moves_of_step {s s' : State τ κ σ ρ} {a : Label τ κ} (h : M.step s a = some s') :
    M.Moves s a s' := by
  cases a with
  | call t op =>
    simp only [step] at h
    split at h
    · rename_i hmay
      cases h
      exact .call hmay.1 (List.perm_append_singleton _ _)
    · cases h
  | enter k =>
    simp only [step] at h
    split at h
    · rename_i t op hk
      -- a call goes on if its guard holds, and sleeps otherwise
      split at h
      · rename_i hguard
        cases h
        exact .pass (perm_of_get hk) hguard (perm_set hk _)
      · rename_i hguard
        cases h
        exact .sleep (perm_of_get hk) hguard (perm_set hk _)
    · cases h
  | notify k w =>
    simp only [step] at h
    split at h
    · rename_i t' result hk
      cases w with
      | none =>
        dsimp only at h
        split at h
        · rename_i hnone
          cases h
          exact .unheard (perm_of_get hk) hnone
        · cases h
      | some w =>
        obtain ⟨calls, hwake, rfl⟩ := Option.map_eq_some_iff.mp h
        obtain ⟨t, op, hw, rfl⟩ := wakeUp_spec hwake
        -- the call that notifies is not asleep
        have hne : k ≠ w := by
          intro e
          rw [e, hw] at hk
          simp at hk
        obtain ⟨rest, hrest, hset⟩ := perm_set_eraseIdx hw hne ⟨t, .ready op⟩
        exact .notify (perm_of_get hk) hw hrest hset
    · cases h
  | wake w =>
    obtain ⟨calls, hwake, rfl⟩ := Option.map_eq_some_iff.mp h
    obtain ⟨t, op, hw, rfl⟩ := wakeUp_spec hwake
    exact .wake (perm_of_get hw) (perm_set hw _)

/-! ## Lost wake-ups -/

/-- The call sleeps although its guard holds. -/
def Overlooked (x : σ) (c : Call τ κ ρ) : Prop := match c.phase with
  | .asleep op => (M.body op).guard x = true
  | _ => False

/-- The call is about to notify, or about to find that its guard holds. -/
def Awake (x : σ) (c : Call τ κ ρ) : Prop := match c.phase with
  | .notifying _ => True
  | .ready op => (M.body op).guard x = true
  | .asleep _ => False

section

omit [DecidableEq τ]

variable (x : σ) (t : τ) (op : κ) (result : ρ)

@[simp] theorem overlooked_ready : ¬ M.Overlooked x ⟨t, .ready op⟩ := fun h => h

@[simp] theorem overlooked_asleep :
    M.Overlooked x ⟨t, .asleep op⟩ ↔ (M.body op).guard x = true := Iff.rfl

@[simp] theorem overlooked_notifying : ¬ M.Overlooked x ⟨t, .notifying result⟩ := fun h => h

@[simp] theorem awake_ready : M.Awake x ⟨t, .ready op⟩ ↔ (M.body op).guard x = true := Iff.rfl

@[simp] theorem awake_asleep : ¬ M.Awake x ⟨t, .asleep op⟩ := fun h => h

@[simp] theorem awake_notifying : M.Awake x ⟨t, .notifying result⟩ := trivial

theorem asleep_of_overlooked {x : σ} {c : Call τ κ ρ} (h : M.Overlooked x c) : c.phase.Asleep := by
  obtain ⟨t, p⟩ := c
  cases p with
  | asleep op => trivial
  | ready op => exact absurd h (M.overlooked_ready x t op)
  | notifying result => exact absurd h (M.overlooked_notifying x t result)

theorem not_awake_of_asleep {x : σ} {c : Call τ κ ρ} (h : c.phase.Asleep) : ¬ M.Awake x c := by
  obtain ⟨t, p⟩ := c
  cases p with
  | asleep op => exact M.awake_asleep x t op
  | ready op => exact h.elim
  | notifying result => exact h.elim

end

/-- A call sleeps although its guard holds, and nobody is left to wake it. -/
def Lost (s : State τ κ σ ρ) : Prop :=
  (∃ c ∈ s.calls, M.Overlooked s.shared c) ∧ ∀ c ∈ s.calls, ¬ M.Awake s.shared c

/-- All calls in progress sleep, one of them although its guard holds. -/
def Stuck (s : State τ κ σ ρ) : Prop :=
  (∃ c ∈ s.calls, M.Overlooked s.shared c) ∧ ∀ c ∈ s.calls, c.phase.Asleep

/-- A notification that wakes a call finds its guard true, or another call can still notify, or no
sleeper's guard is true. -/
def Heeded (s : State τ κ σ ρ) : Label τ κ → Prop
  | .notify k (some w) => (∃ c, s.calls[w]? = some c ∧ M.Overlooked s.shared c) ∨
      (∃ c ∈ s.calls.eraseIdx k, M.Awake s.shared c) ∨ ∀ c ∈ s.calls, ¬ M.Overlooked s.shared c
  | _ => True

omit [DecidableEq τ] in
instance (x : σ) (c : Call τ κ ρ) : Decidable (M.Overlooked x c) :=
  match c with
  | ⟨_, .asleep op⟩ => inferInstanceAs (Decidable ((M.body op).guard x = true))
  | ⟨_, .ready _⟩ | ⟨_, .notifying _⟩ => inferInstanceAs (Decidable False)

omit [DecidableEq τ] in
instance (x : σ) (c : Call τ κ ρ) : Decidable (M.Awake x c) :=
  match c with
  | ⟨_, .ready op⟩ => inferInstanceAs (Decidable ((M.body op).guard x = true))
  | ⟨_, .notifying _⟩ => inferInstanceAs (Decidable True)
  | ⟨_, .asleep _⟩ => inferInstanceAs (Decidable False)

omit [DecidableEq τ] in
instance (s : State τ κ σ ρ) (a : Label τ κ) : Decidable (M.Heeded s a) :=
  match a with
  | .notify k (some w) => decidable_of_iff ((∃ c ∈ s.calls[w]?, M.Overlooked s.shared c) ∨
      (∃ c ∈ s.calls.eraseIdx k, M.Awake s.shared c) ∨ ∀ c ∈ s.calls, ¬ M.Overlooked s.shared c) Iff.rfl
  | .notify _ none | .call _ _ | .enter _ | .wake _ => inferInstanceAs (Decidable True)

omit [DecidableEq τ] in
theorem Stuck.lost {M : Monitor τ κ σ ρ} {s : State τ κ σ ρ} (h : M.Stuck s) : M.Lost s :=
  ⟨h.1, fun c hc => M.not_awake_of_asleep (h.2 c hc)⟩

/-- A step loses a wake-up exactly if it is a notification that is not heeded. -/
theorem lost_iff_of_step {s s' : State τ κ σ ρ} {a : Label τ κ} (hs : ¬ M.Lost s)
    (h : M.step s a = some s') : M.Lost s' ↔ ¬ M.Heeded s a := by
  have heeded (hkeep : M.Lost s' → M.Lost s) (hheeded : M.Heeded s a) : M.Lost s' ↔ ¬ M.Heeded s a :=
    ⟨fun hl => absurd (hkeep hl) hs, fun hn => absurd hheeded hn⟩
  cases M.moves_of_step h with
  | call _ hcalls =>
    refine heeded (fun hl => ?_) trivial
    simp only [Lost, hcalls.mem_iff, List.forall_mem_cons, List.exists_mem_cons_iff,
      overlooked_ready, false_or] at hl
    exact ⟨hl.1, hl.2.2⟩
  | pass _ _ hcalls' =>
    -- the call that went on is awake, and will notify
    refine heeded (fun hl => ?_) trivial
    simp only [Lost, hcalls'.mem_iff, List.forall_mem_cons, awake_notifying, not_true_eq_false,
      false_and, and_false] at hl
  | sleep hcalls hguard hcalls' =>
    refine heeded (fun hl => ?_) trivial
    simp only [Lost, hcalls.mem_iff, hcalls'.mem_iff, List.forall_mem_cons,
      List.exists_mem_cons_iff, overlooked_ready, overlooked_asleep, awake_ready, hguard,
      Bool.false_eq_true, not_false_eq_true, true_and, false_or] at hl ⊢
    exact ⟨hl.1, hl.2.2⟩
  | @notify k w t op t' result calls rest hcalls hw hrest hcalls' =>
    by_cases hguard : (M.body op).guard s.shared = true
    · have hheeded : M.Heeded s (.notify k (some w)) := .inl ⟨_, hw, hguard⟩
      refine heeded (fun hl => ?_) hheeded
      exact absurd hguard (hl.2 ⟨t, .ready op⟩ (hcalls'.mem_iff.mpr (by simp)))
    · -- the sleeper that is woken goes back to sleep, so the other calls decide
      simp only [Lost, Heeded, hw, hcalls.mem_iff, hrest.mem_iff, hcalls'.mem_iff,
        List.forall_mem_cons, List.exists_mem_cons_iff, overlooked_ready, overlooked_asleep,
        overlooked_notifying, awake_ready, awake_asleep, hguard, Bool.false_eq_true, false_or,
        Option.some.injEq, exists_eq_left', not_or, not_false_eq_true, true_and, not_exists,
        not_and, not_forall, not_not, exists_prop]
      exact and_comm
  | unheard hcalls hnone =>
    refine heeded (fun hl => ?_) trivial
    obtain ⟨c, hc, hover⟩ := hl.1
    exact absurd (M.asleep_of_overlooked hover) (hnone c (hcalls.mem_iff.mpr (by simp [hc])))
  | @wake w t op calls rest hcalls hcalls' =>
    refine heeded (fun hl => ?_) trivial
    simp only [Lost, hcalls.mem_iff, hcalls'.mem_iff, List.forall_mem_cons,
      List.exists_mem_cons_iff, overlooked_ready, awake_asleep, false_or] at hl ⊢
    exact ⟨.inr hl.1, not_false, hl.2.2⟩

variable {init : σ → Prop}

/-- As long as notifications are heeded, no wake-up is lost. -/
theorem not_lost {s : State τ κ σ ρ} (h : (M.system init).ReachedUnder M.Heeded s) : ¬ M.Lost s := by
  refine h.invariant (I := fun s => ¬ M.Lost s) (fun s h0 hl => ?_) fun s a t ih hheeded he hl => ?_
  · obtain ⟨c, hc, -⟩ := hl.1
    rw [h0.2.1] at hc
    cases hc
  · exact (M.lost_iff_of_step ih he).mp hl hheeded

/-- Once a wake-up is lost, the calls that were woken go back to sleep one after the other. -/
theorem stuck_of_lost {s : State τ κ σ ρ} (h : M.Lost s) :
    ∃ t, ((M.system init).after s).Reached t ∧ M.Stuck t := by
  -- by induction on the calls that are awake: every one of them finds its guard false and sleeps
  induction hn : s.calls.countP (fun c => ¬ c.phase.Asleep) generalizing s with
  | zero =>
    refine ⟨s, .init rfl, h.1, fun c hc => ?_⟩
    have hall := List.countP_eq_zero.mp hn c hc
    simpa using hall
  | succ n ih =>
    have hpos : 0 < s.calls.countP (fun c => ¬ c.phase.Asleep) := by omega
    obtain ⟨c, hc, hawake⟩ := List.countP_pos_iff.mp hpos
    obtain ⟨k, hk⟩ := List.mem_iff_getElem?.mp hc
    obtain ⟨t, p⟩ := c
    cases p with
    | asleep op => simp [Phase.Asleep] at hawake
    | notifying result => exact absurd (M.awake_notifying _ t result) (h.2 _ hc)
    | ready op =>
      have hguard : ¬ (M.body op).guard s.shared = true := h.2 _ hc
      set s' : State τ κ σ ρ := { s with calls := s.calls.set k ⟨t, .asleep op⟩ } with hs'
      have hstep : ((M.system init).after s).step s (.enter k) = some s' := by
        simp [System.after, system, step, hk, hguard, hs']
      have hold := perm_of_get hk
      have hnew : s'.calls.Perm (⟨t, .asleep op⟩ :: s.calls.eraseIdx k) := perm_set hk _
      have hlost : M.Lost s' := by
        simp only [Lost, hold.mem_iff, List.forall_mem_cons, List.exists_mem_cons_iff,
          overlooked_ready, false_or] at h
        simp only [Lost, hnew.mem_iff, List.forall_mem_cons, List.exists_mem_cons_iff,
          awake_asleep]
        exact ⟨.inr h.1, not_false, h.2.2⟩
      have hcount : s'.calls.countP (fun c => ¬ c.phase.Asleep) = n := by
        have hs := hold.countP_eq (fun c => ¬ c.phase.Asleep)
        have ht := hnew.countP_eq (fun c => ¬ c.phase.Asleep)
        have hready : ¬ (Phase.ready op : Phase κ ρ).Asleep := fun h => h
        have hasleep : (Phase.asleep op : Phase κ ρ).Asleep := trivial
        simp only [List.countP_cons, hready, hasleep, not_true_eq_false, not_false_eq_true,
          decide_true, decide_false, Bool.false_eq_true, if_true, if_false] at hs ht
        omega
      obtain ⟨u, hu, hstuck⟩ := ih hlost hcount
      have hone : ((M.system init).after s).Reached s' := .step (.init rfl) trivial hstep
      exact ⟨u, hone.after hu, hstuck⟩

/-! ## Invariants -/

variable {C : State τ κ σ ρ → Label τ κ → Prop}

/-- What every operation keeps under its guard holds of the shared state. -/
theorem shared_invariant {I : σ → Prop} (h0 : ∀ x, init x → I x)
    (h1 : ∀ op x, I x → (M.body op).guard x = true → I ((M.body op).act x).1)
    {s : State τ κ σ ρ} (h : (M.system init).ReachedUnder C s) : I s.shared := by
  apply h.invariant (I := fun s => I s.shared)
  · intro s hs
    exact h0 _ hs.1
  intro s a t ih _ he
  cases M.moves_of_step he with
  | pass _ hguard _ => exact h1 _ _ ih hguard
  | call | sleep | notify | unheard | wake => exact ih

/-- The operation that a call waits for. -/
def Phase.op? : Phase κ ρ → Option κ
  | .ready op | .asleep op => some op
  | .notifying _ => none

/-- A thread is only inside operations that it may call. -/
theorem suited {s : State τ κ σ ρ} (h : (M.system init).ReachedUnder C s) :
    ∀ c ∈ s.calls, ∀ op ∈ c.phase.op?, M.may c.thread op = true := by
  apply h.invariant (I := fun s => ∀ c ∈ s.calls, ∀ op ∈ c.phase.op?, M.may c.thread op = true)
  · intro s hs
    simp [hs.2.1]
  intro s a t ih _ he
  cases M.moves_of_step he with
  | call hmay hcalls =>
    simp only [hcalls.mem_iff, List.forall_mem_cons]
    exact ⟨by simpa [Phase.op?] using hmay, ih⟩
  | pass hcalls _ hcalls' =>
    simp only [hcalls.mem_iff, List.forall_mem_cons] at ih
    simp only [hcalls'.mem_iff, List.forall_mem_cons]
    exact ⟨by simp [Phase.op?], ih.2⟩
  | sleep hcalls _ hcalls' =>
    simp only [hcalls.mem_iff, List.forall_mem_cons] at ih
    simp only [hcalls'.mem_iff, List.forall_mem_cons]
    exact ih
  | notify hcalls _ hrest hcalls' =>
    simp only [hcalls.mem_iff, hrest.mem_iff, List.forall_mem_cons] at ih
    simp only [hcalls'.mem_iff, List.forall_mem_cons]
    exact ih.2
  | unheard hcalls _ =>
    simp only [hcalls.mem_iff, List.forall_mem_cons] at ih
    exact ih.2
  | wake hcalls hcalls' =>
    simp only [hcalls.mem_iff, List.forall_mem_cons] at ih
    simp only [hcalls'.mem_iff, List.forall_mem_cons]
    exact ih

end Monitor

end StepSystem
