import BurpTUI.Http.Message

namespace BurpTUI

inductive InterceptAction
  | forward
  | drop
  deriving DecidableEq, Repr

/-- `κ` stands for the callbacks: `onDecision` says whose callback it is. -/
structure InterceptedRequest (κ : Type*) where
  id : ℤ
  isHttps : Bool
  host : Bytes
  port : UInt16
  request : Option Ref
  onDecision : κ
  deriving DecidableEq, Repr

/-- The state behind the manager's mutex, and the atomic flag. Every operation below is one
critical section; the callbacks that follow a section are steps of their own. -/
structure InterceptManager (κ : Type*) where
  interceptEnabled : Bool := false
  queue : List (InterceptedRequest κ) := []
  deriving DecidableEq, Repr

namespace InterceptManager

variable {κ : Type*}

/-- A request taken from the queue whose callback is still to be called. -/
abbrev Taken (κ : Type*) := InterceptedRequest κ × InterceptAction

def storeEnabled (m : InterceptManager κ) (enabled : Bool) : InterceptManager κ :=
  { m with interceptEnabled := enabled }

def interceptRequest (m : InterceptManager κ) (item : InterceptedRequest κ) : InterceptManager κ :=
  { m with queue := m.queue ++ [item] }

def peekCurrent (m : InterceptManager κ) : Option (InterceptedRequest κ) := m.queue.head?

/-- The critical section that `forwardCurrent` and `dropCurrent` share. -/
def popFront (m : InterceptManager κ) (action : InterceptAction) :
    Option (Taken κ) × InterceptManager κ :=
  match m.queue with
  | [] => (none, m)
  | item :: rest => (some (item, action), { m with queue := rest })

abbrev forwardCurrent (m : InterceptManager κ) := m.popFront .forward

abbrev dropCurrent (m : InterceptManager κ) := m.popFront .drop

/-- The critical section that `forwardAll` and `dropAll` share. -/
def popAll (m : InterceptManager κ) (action : InterceptAction) :
    List (Taken κ) × InterceptManager κ :=
  (m.queue.map fun item => (item, action), { m with queue := [] })

abbrev forwardAll (m : InterceptManager κ) := m.popAll .forward

abbrev dropAll (m : InterceptManager κ) := m.popAll .drop

def removeById (m : InterceptManager κ) (id : ℤ) : InterceptManager κ :=
  { m with queue := m.queue.filter fun item => item.id ≠ id }

@[simp] theorem storeEnabled_queue (m : InterceptManager κ) (b : Bool) :
    (m.storeEnabled b).queue = m.queue := rfl

@[simp] theorem storeEnabled_enabled (m : InterceptManager κ) (b : Bool) :
    (m.storeEnabled b).interceptEnabled = b := rfl

@[simp] theorem interceptRequest_queue (m : InterceptManager κ) (item : InterceptedRequest κ) :
    (m.interceptRequest item).queue = m.queue ++ [item] := rfl

@[simp] theorem interceptRequest_enabled (m : InterceptManager κ) (item : InterceptedRequest κ) :
    (m.interceptRequest item).interceptEnabled = m.interceptEnabled := rfl

@[simp] theorem popFront_queue (m : InterceptManager κ) (a : InterceptAction) :
    (m.popFront a).2.queue = m.queue.tail := by
  unfold popFront
  split <;> simp_all

@[simp] theorem popFront_enabled (m : InterceptManager κ) (a : InterceptAction) :
    (m.popFront a).2.interceptEnabled = m.interceptEnabled := by
  unfold popFront
  split <;> rfl

theorem popFront_taken (m : InterceptManager κ) (a : InterceptAction) :
    (m.popFront a).1 = m.peekCurrent.map fun item => (item, a) := by
  unfold popFront peekCurrent
  split <;> simp_all

@[simp] theorem popAll_queue (m : InterceptManager κ) (a : InterceptAction) :
    (m.popAll a).2.queue = [] := rfl

@[simp] theorem popAll_enabled (m : InterceptManager κ) (a : InterceptAction) :
    (m.popAll a).2.interceptEnabled = m.interceptEnabled := rfl

@[simp] theorem removeById_queue (m : InterceptManager κ) (id : ℤ) :
    (m.removeById id).queue = m.queue.filter fun item => item.id ≠ id := rfl

@[simp] theorem removeById_enabled (m : InterceptManager κ) (id : ℤ) :
    (m.removeById id).interceptEnabled = m.interceptEnabled := rfl

end InterceptManager

end BurpTUI
