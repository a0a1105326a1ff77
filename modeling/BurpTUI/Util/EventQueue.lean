import BurpTUI.Base.Monitor

namespace BurpTUI.EventQueue

open StepSystem

variable {ι α : Type*}

/-- The threads that use a queue: one consumer, and any producers. -/
inductive Thread (ι : Type*)
  | consumer
  | producer (i : ι)
  deriving DecidableEq

inductive Method (α : Type*)
  | push (item : α)
  | pop
  deriving DecidableEq

def push (maxSize : ℕ) (item : α) : Guarded (List α) (Option α) where
  guard q := q.length < maxSize
  act q := (q ++ [item], none)

/-- `pop` returns the front item. -/
def pop : Guarded (List α) (Option α) where
  guard q := !q.isEmpty
  act q := (q.tail, q.head?)

variable (ι α) in
def monitor (maxSize : ℕ) : Monitor (Thread ι) (Method α) (List α) (Option α) where
  may
    | .consumer, .pop => true
    | .producer _, .push _ => true
    | _, _ => false
  body
    | .push item => push maxSize item
    | .pop => pop

/-- The calls in progress on a queue, with `q_` as the shared state. -/
abbrev State (ι α : Type*) := Monitor.State (Thread ι) (Method α) (List α) (Option α)

variable (ι α) in
def system [DecidableEq ι] (maxSize : ℕ) : System (State ι α) (Monitor.Label (Thread ι) (Method α)) :=
  (monitor ι α maxSize).system fun q => q = []

def ConsumerAsleep (s : State ι α) : Prop := ∃ c ∈ s.calls, c.thread = .consumer ∧ c.phase.Asleep

def ProducerAsleep (s : State ι α) : Prop :=
  ∃ c ∈ s.calls, (∃ i, c.thread = .producer i) ∧ c.phase.Asleep

/-- Every thread inside `push` or `pop` sleeps, the consumer on a queue that is not empty, or a
producer on one that has room. -/
def Deadlocked (maxSize : ℕ) (s : State ι α) : Prop :=
  (∀ c ∈ s.calls, c.phase.Asleep) ∧
    (s.shared ≠ [] ∧ ConsumerAsleep s ∨ s.shared.length < maxSize ∧ ProducerAsleep s)

variable [DecidableEq ι] {maxSize : ℕ} {s : State ι α}

/-- The consumer sleeps in `pop`, a producer in `push`. -/
theorem asleep_cases (h : (system ι α maxSize).Reached s) {c : Monitor.Call (Thread ι) (Method α) (Option α)}
    (hc : c ∈ s.calls) (hasleep : c.phase.Asleep) :
    c = ⟨.consumer, .asleep .pop⟩ ∨ ∃ i item, c = ⟨.producer i, .asleep (.push item)⟩ := by
  have hsuited := (monitor ι α maxSize).suited h c hc
  obtain ⟨t, p⟩ := c
  cases p with
  | ready op => exact hasleep.elim
  | notifying result => exact hasleep.elim
  | asleep op =>
    have hmay := hsuited op rfl
    cases t with
    | consumer => cases op with
      | pop => exact .inl rfl
      | push item => cases hmay
    | producer i => cases op with
      | pop => cases hmay
      | push item => exact .inr ⟨i, item, rfl⟩

theorem deadlocked_iff (h : (system ι α maxSize).Reached s) :
    Deadlocked maxSize s ↔ (monitor ι α maxSize).Stuck s := by
  constructor
  · rintro ⟨hall, hwait⟩
    refine ⟨?_, hall⟩
    rcases hwait with ⟨hne, c, hc, hthread, hasleep⟩ | ⟨hroom, c, hc, ⟨i, hthread⟩, hasleep⟩
    · rcases asleep_cases h hc hasleep with rfl | ⟨i, item, rfl⟩
      · exact ⟨_, hc, by simpa [Monitor.Overlooked, monitor, pop] using hne⟩
      · cases hthread
    · rcases asleep_cases h hc hasleep with rfl | ⟨j, item, rfl⟩
      · cases hthread
      · exact ⟨_, hc, by simpa [Monitor.Overlooked, monitor, push] using hroom⟩
  · rintro ⟨⟨c, hc, hover⟩, hall⟩
    refine ⟨hall, ?_⟩
    rcases asleep_cases h hc (hall c hc) with rfl | ⟨i, item, rfl⟩
    · exact .inl ⟨by simpa [Monitor.Overlooked, monitor, pop] using hover, _, hc, rfl, trivial⟩
    · exact .inr ⟨by simpa [Monitor.Overlooked, monitor, push] using hover, _, hc, ⟨i, rfl⟩, trivial⟩

/-- The queue never holds more than `maxSize` items. -/
theorem queue_bounded (h : (system ι α maxSize).Reached s) : s.shared.length ≤ maxSize := by
  apply Monitor.shared_invariant (I := fun q => q.length ≤ maxSize) _ _ _ h
  · rintro q rfl
    exact Nat.zero_le maxSize
  · intro op q hq hguard
    cases op with
    | push item =>
      have hroom : q.length < maxSize := by simpa [monitor, push] using hguard
      change (q ++ [item]).length ≤ maxSize
      rw [List.length_append, List.length_singleton]
      omega
    | pop =>
      change q.tail.length ≤ maxSize
      rw [List.length_tail]
      omega

/-- As long as every notification reaches a thread that can go on, or another thread still can, the
queue does not deadlock. The first notification that does neither leads to a deadlock. -/
theorem queue_deadlock_free_exactly (ι α : Type*) [DecidableEq ι] (maxSize : ℕ) :
    (∀ s, (system ι α maxSize).ReachedUnder (monitor ι α maxSize).Heeded s →
      ¬ Deadlocked maxSize s) ∧
    ∀ s a t, (system ι α maxSize).ReachedUnder (monitor ι α maxSize).Heeded s →
      ¬ (monitor ι α maxSize).Heeded s a → (system ι α maxSize).step s a = some t →
      ∃ u, ((system ι α maxSize).after t).Reached u ∧ Deadlocked maxSize u := by
  constructor
  · intro s h hdead
    have hstuck := (deadlocked_iff h.reached).mp hdead
    exact (monitor ι α maxSize).not_lost h hstuck.lost
  · intro s a t h hnot he
    have hlost := ((monitor ι α maxSize).lost_iff_of_step (Monitor.not_lost _ h) he).mpr hnot
    obtain ⟨u, hu, hstuck⟩ : ∃ u, ((system ι α maxSize).after t).Reached u ∧
        (monitor ι α maxSize).Stuck u := (monitor ι α maxSize).stuck_of_lost hlost
    have ht : (system ι α maxSize).Reached t := .step h.reached trivial he
    exact ⟨u, hu, (deadlocked_iff (ht.after hu)).mpr hstuck⟩

/-- An item goes through the queue, and its notification wakes the consumer. -/
def heardRun : List (Monitor.Label (Thread ℕ) (Method ℕ)) :=
  [.call .consumer .pop, .enter 0, .call (.producer 0) (.push 0), .enter 1, .notify 1 (some 0), .enter 0,
    .notify 0 none]

/-- The consumer sleeps on the empty queue, producer 0 fills it, producer 1 sleeps on the full
queue, and the notification of producer 0 wakes producer 1, who goes back to sleep. -/
def lostWakeUp : List (Monitor.Label (Thread ℕ) (Method ℕ)) :=
  [.call .consumer .pop, .enter 0, .call (.producer 0) (.push 0), .enter 1,
    .call (.producer 1) (.push 1), .enter 2, .notify 1 (some 2), .enter 1]

/-- Behind a notification that is heard comes one that is not. -/
theorem queue_deadlock_free_exactly_heardRun :
    ∃ s t, (system ℕ ℕ 1).runUnder (monitor ℕ ℕ 1).Heeded ⟨[], [], []⟩ (heardRun ++ lostWakeUp.take 6) = some s ∧
      ¬ Deadlocked 1 s ∧ ¬ (monitor ℕ ℕ 1).Heeded s (.notify 1 (some 2)) ∧
      (system ℕ ℕ 1).step s (.notify 1 (some 2)) = some t ∧
      ∃ u, ((system ℕ ℕ 1).after t).Reached u ∧ Deadlocked 1 u := by
  have hrun : ((system ℕ ℕ 1).runUnder (monitor ℕ ℕ 1).Heeded ⟨[], [], []⟩ (heardRun ++ lostWakeUp.take 6)).any
      (fun s => decide (¬ (monitor ℕ ℕ 1).Heeded s (.notify 1 (some 2))) &&
        ((system ℕ ℕ 1).step s (.notify 1 (some 2))).isSome) = true := by decide
  obtain ⟨s, hs, hlast⟩ := (Option.any_eq_true _ _).mp hrun
  rw [Bool.and_eq_true] at hlast
  obtain ⟨t, ht⟩ := Option.isSome_iff_exists.mp hlast.2
  have hnot := of_decide_eq_true hlast.1
  have hreached : (system ℕ ℕ 1).ReachedUnder (monitor ℕ ℕ 1).Heeded s := .runUnder (.init ⟨rfl, rfl, rfl⟩) hs
  obtain ⟨hfree, hexact⟩ := queue_deadlock_free_exactly ℕ ℕ 1
  exact ⟨s, t, hs, hfree s hreached, hnot, ht, hexact s _ t hreached hnot ht⟩

theorem queue_deadlocks : ¬ ∀ maxSize ≥ 1, ∀ s, (system ℕ ℕ maxSize).Reached s →
    ¬ Deadlocked maxSize s := by
  intro h
  have hrun : (system ℕ ℕ 1).run ⟨[], [], []⟩ lostWakeUp = some
      ⟨[0], [⟨.consumer, .asleep .pop⟩, ⟨.producer 1, .asleep (.push 1)⟩], [(.producer 0, none)]⟩ := by
    decide
  have hinit : (system ℕ ℕ 1).Reached ⟨[], [], []⟩ := .init ⟨rfl, rfl, rfl⟩
  refine h 1 (Nat.le_refl 1) _ (hinit.run hrun) ⟨by decide, .inl ⟨by decide, ?_⟩⟩
  exact ⟨_, List.mem_cons_self, rfl, trivial⟩

end BurpTUI.EventQueue
