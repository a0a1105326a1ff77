import BurpTUI.Base.SerialHistory
import BurpTUI.Util.EventQueue
import Mathlib.Data.List.ReduceOption

namespace BurpTUI.EventQueue

open StepSystem

variable {ι α : Type*}

abbrev Act (ι α : Type*) := Monitor.Act (Thread ι) (Method α) (Option α)

abbrev History (ι α : Type*) := Monitor.History (Thread ι) (Method α) (Option α)

variable (ι α) in
/-- The queue with the record of its run: the calls, and the critical sections as they go through. -/
def recorded [DecidableEq ι] (maxSize : ℕ) :
    System (State ι α × History ι α) (Monitor.Label (Thread ι) (Method α)) :=
  (monitor ι α maxSize).recorded fun q => q = []

def Method.item : Method α → Option α
  | .push item => some item
  | .pop => none

def pushed (acts : List (Act ι α)) : List α := acts.filterMap fun a => a.op.item

def popped (acts : List (Act ι α)) : List α := acts.filterMap Monitor.Act.result

section Threads

variable [DecidableEq ι]

def calledBy (t : Thread ι) (h : History ι α) : List (Method α) :=
  (h.called.filter fun c => c.1 = t).map Prod.snd

def actedBy (t : Thread ι) (h : History ι α) : List (Method α) :=
  (h.acted.filter fun a => a.thread = t).map Monitor.Act.op

/-- The items that `pop` has returned to the consumer. -/
def received (s : State ι α) : List α :=
  ((s.returned.filter fun r => r.1 = .consumer).map Prod.snd).reduceOption

def inHand (s : State ι α) : List α := (Monitor.pending .consumer s.calls).reduceOption

/-- The number of calls that a thread has come back from, or is about to. -/
def finished (t : Thread ι) (s : State ι α) : ℕ :=
  (s.returned.filter fun r => r.1 = t).length + (Monitor.pending t s.calls).length

end Threads

variable {maxSize : ℕ} {acts : List (Act ι α)} {q : List α}

/-- One after the other, what is pushed is what is popped and what is left, and only the consumer pops. -/
theorem serial_fifo (h : (monitor ι α maxSize).Serial [] acts q) : pushed acts = popped acts ++ q := by
  refine h.invariant (I := fun acts q => pushed acts = popped acts ++ q) rfl ?_
  intro acts q t op ih hguard
  rw [pushed, popped, List.filterMap_append, List.filterMap_append, ← pushed, ← popped, ih]
  cases op with
  | push item =>
    show popped acts ++ q ++ [item] = popped acts ++ [] ++ (q ++ [item])
    rw [List.append_nil, List.append_assoc]
  | pop =>
    cases q with
    | nil => cases hguard
    | cons item q =>
      show popped acts ++ item :: q ++ [] = popped acts ++ [item] ++ q
      simp

theorem result_of_push (h : (monitor ι α maxSize).Serial [] acts q) :
    ∀ a ∈ acts, ∀ item, a.op = .push item → a.result = none := by
  refine h.invariant (I := fun acts _ => ∀ a ∈ acts, ∀ item, a.op = .push item → a.result = none) ?_ ?_
  · intro a ha
    cases ha
  · intro acts q t op ih _ a ha item hop
    rcases List.mem_append.mp ha with ha | ha
    · exact ih a ha item hop
    · rw [List.mem_singleton] at ha
      subst ha
      dsimp only at hop
      subst hop
      rfl

theorem popped_eq [DecidableEq ι] (h : ∀ a ∈ acts, a.thread ≠ .consumer → a.result = none) :
    popped acts = ((acts.filter fun a => a.thread = .consumer).map Monitor.Act.result).reduceOption := by
  induction acts with
  | nil => rfl
  | cons a acts ih =>
    have hrest := ih fun b hb => h b (List.mem_cons_of_mem _ hb)
    rw [popped] at hrest ⊢
    rw [List.filterMap_cons, hrest, List.filter_cons]
    by_cases hconsumer : a.thread = .consumer
    · rw [if_pos (by simpa using hconsumer), List.map_cons]
      cases a.result <;> rfl
    · rw [if_neg (by simpa using hconsumer), h a List.mem_cons_self hconsumer]

variable [DecidableEq ι] {s : State ι α} {h : History ι α}

theorem push_of_acted (hr : (recorded ι α maxSize).Reached (s, h)) {a : Act ι α} (ha : a ∈ h.acted)
    (hthread : a.thread ≠ .consumer) : ∃ item, a.op = .push item := by
  have hmay := Monitor.suited_acts hr a ha
  obtain ⟨t, op, result⟩ := a
  cases t with
  | consumer => exact absurd rfl hthread
  | producer i => cases op with
    | push item => exact ⟨item, rfl⟩
    | pop => cases hmay

theorem fifo_of_recorded (hr : (recorded ι α maxSize).Reached (s, h)) :
    pushed h.acted = received s ++ inHand s ++ s.shared := by
  obtain ⟨-, ⟨x, rfl, hserial⟩, hresults, -⟩ := Monitor.linear_of_recorded hr
  have hnone : ∀ a ∈ h.acted, a.thread ≠ .consumer → a.result = none := by
    intro a ha hthread
    obtain ⟨item, hop⟩ := push_of_acted hr ha hthread
    exact result_of_push hserial a ha item hop
  rw [serial_fifo hserial, popped_eq hnone, ← hresults, List.reduceOption_append, received, inHand]

/-- Every run has its record. In it the items of the calls of `push` are, in the order in which these calls
went through, those that the consumer has received, the one that it is about to get and those in the queue,
which are at most `maxSize`. What went through of a thread is what the thread called, in its order, but for
the call that still waits; and it is as many calls as the thread has come back from, or is about to. -/
theorem queue_fifo (ι α : Type*) [DecidableEq ι] (maxSize : ℕ) :
    (∀ s, (system ι α maxSize).Reached s → ∃ h, (recorded ι α maxSize).Reached (s, h)) ∧
    ∀ s h, (recorded ι α maxSize).Reached (s, h) →
      pushed h.acted = received s ++ inHand s ++ s.shared ∧ s.shared.length ≤ maxSize ∧
      ∀ t, calledBy t h = actedBy t h ++ Monitor.waiting t s.calls ∧
        (actedBy t h).length = finished t s := by
  refine ⟨fun s hs => (monitor ι α maxSize).exists_recorded hs, fun s h hr => ?_⟩
  obtain ⟨-, -, hresults, hcalled⟩ := Monitor.linear_of_recorded hr
  have hbounded : s.shared.length ≤ maxSize := queue_bounded (Monitor.reached_of_recorded _ hr)
  refine ⟨fifo_of_recorded hr, hbounded, fun t => ⟨hcalled t, ?_⟩⟩
  have hlength := congrArg List.length (hresults t)
  rw [List.length_append, List.length_map, List.length_map] at hlength
  rw [actedBy, List.length_map]
  exact hlength.symm

/-- Two items are pushed while the first one is being returned, and a third producer waits for room. -/
def twoItems : List (Monitor.Label (Thread ℕ) (Method ℕ)) :=
  [.call (.producer 0) (.push 7), .enter 0, .call .consumer .pop, .enter 1, .call (.producer 1) (.push 8),
    .enter 2, .notify 1 none, .call (.producer 2) (.push 9), .enter 2]

theorem queue_fifo_twoItems : ∃ s h, (recorded ℕ ℕ 1).run (⟨[], [], []⟩, {}) twoItems = some (s, h) ∧
    received s = [7] ∧ s.shared = [8] ∧ Monitor.waiting (.producer 2) s.calls = [.push 9] ∧
    (pushed h.acted = received s ++ inHand s ++ s.shared ∧ s.shared.length ≤ 1 ∧
      ∀ t, calledBy t h = actedBy t h ++ Monitor.waiting t s.calls ∧
        (actedBy t h).length = finished t s) := by
  have hrun : ((recorded ℕ ℕ 1).run (⟨[], [], []⟩, {}) twoItems).any (fun p =>
      received p.1 = [7] ∧ p.1.shared = [8] ∧ Monitor.waiting (.producer 2) p.1.calls = [.push 9]) = true := by
    decide
  obtain ⟨⟨s, h⟩, hs, hlast⟩ := (Option.any_eq_true _ _).mp hrun
  obtain ⟨hreceived, hshared, hwaiting⟩ := of_decide_eq_true hlast
  have hreached : (recorded ℕ ℕ 1).Reached (s, h) := .run (.init ⟨⟨rfl, rfl, rfl⟩, rfl⟩) hs
  exact ⟨s, h, hs, hreceived, hshared, hwaiting, (queue_fifo ℕ ℕ 1).2 s h hreached⟩

end BurpTUI.EventQueue
