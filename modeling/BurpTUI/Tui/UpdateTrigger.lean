import BurpTUI.Base.StepSystem
import Mathlib.Tactic.Common

namespace BurpTUI

/-- What the mutex of a `TsQueue` guards. -/
structure TsQueue (τ : Type*) where
  q : List τ := []
  deriving DecidableEq, Repr

namespace TsQueue

variable {τ : Type*}

def push (queue : TsQueue τ) (item : τ) : TsQueue τ := { queue with q := queue.q ++ [item] }

def tryPopAll (queue : TsQueue τ) : List τ × TsQueue τ := (queue.q, { queue with q := [] })

end TsQueue

namespace UpdateTrigger

variable {τ : Type}

/-- Where a thread stands in the update trigger. -/
inductive Notifier
  | compareExchange
  /-- the exchange succeeded, the event is still to be posted -/
  | postEvent
  deriving DecidableEq, Repr

/-- Where the UI thread stands with a Custom event. -/
inductive UiStep
  | idle
  | taken
  /-- `false` is stored, the queue is not emptied yet -/
  | stored
  deriving DecidableEq, Repr

/-- `events` counts the Custom events that wait for the UI; `pushed` only records the run. -/
structure State (τ : Type) where
  queue : TsQueue τ := {}
  updatePending : Bool := false
  events : ℕ := 0
  notifiers : List Notifier := []
  ui : UiStep := .idle
  entries : List τ := []
  pushed : List τ := []
  deriving DecidableEq, Repr

inductive Label (τ : Type)
  | push (tx : τ)
  /-- a notification without a transaction, of the intercept manager or the repeater -/
  | notify
  | compareExchange (k : ℕ)
  | postEvent (k : ℕ)
  /-- the repeater switches tabs and posts an event of its own -/
  | switchTab
  | takeEvent
  | store
  | refresh
  /-- the History tab gets a Custom event that was not posted -/
  | openTab

/-- `HistoryTab` on a Custom event. -/
def refresh (s : State τ) : State τ :=
  let (newItems, queue) := s.queue.tryPopAll
  { s with queue := queue, entries := s.entries ++ newItems }

def step (s : State τ) : Label τ → Option (State τ)
  | .push tx => some { s with
      queue := s.queue.push tx
      pushed := s.pushed ++ [tx]
      notifiers := s.notifiers ++ [.compareExchange] }
  | .notify => some { s with notifiers := s.notifiers ++ [.compareExchange] }
  | .compareExchange k =>
    if s.notifiers[k]? = some .compareExchange then
      if s.updatePending then some { s with notifiers := s.notifiers.eraseIdx k }
      else some { s with updatePending := true, notifiers := s.notifiers.set k .postEvent }
    else none
  | .postEvent k =>
    if s.notifiers[k]? = some .postEvent then
      some { s with events := s.events + 1, notifiers := s.notifiers.eraseIdx k }
    else none
  | .switchTab => some { s with events := s.events + 1 }
  | .takeEvent =>
    if s.ui = .idle ∧ 0 < s.events then some { s with events := s.events - 1, ui := .taken } else none
  | .store => if s.ui = .taken then some { s with updatePending := false, ui := .stored } else none
  | .refresh => if s.ui = .stored then some (refresh { s with ui := .idle }) else none
  | .openTab => if s.ui = .idle then some (refresh s) else none

def system (τ : Type) : StepSystem.System (State τ) (Label τ) where
  init s := s = {}
  step := step

/-- What a step can be. -/
inductive Moves (s : State τ) : Label τ → State τ → Prop
  | push (tx : τ) : Moves s (.push tx)
      { s with
        queue := s.queue.push tx
        pushed := s.pushed ++ [tx]
        notifiers := s.notifiers ++ [.compareExchange] }
  | notify : Moves s .notify { s with notifiers := s.notifiers ++ [.compareExchange] }
  | coalesced {k : ℕ} (hk : s.notifiers[k]? = some .compareExchange) (hset : s.updatePending = true) :
    Moves s (.compareExchange k) { s with notifiers := s.notifiers.eraseIdx k }
  | exchanged {k : ℕ} (hk : s.notifiers[k]? = some .compareExchange) :
    Moves s (.compareExchange k)
      { s with updatePending := true, notifiers := s.notifiers.set k .postEvent }
  | posted {k : ℕ} (hk : s.notifiers[k]? = some .postEvent) :
    Moves s (.postEvent k) { s with events := s.events + 1, notifiers := s.notifiers.eraseIdx k }
  | switchTab : Moves s .switchTab { s with events := s.events + 1 }
  | taken (hui : s.ui = .idle) (hpos : 0 < s.events) :
    Moves s .takeEvent { s with events := s.events - 1, ui := .taken }
  | stored (hui : s.ui = .taken) : Moves s .store { s with updatePending := false, ui := .stored }
  | refreshed (hui : s.ui = .stored) :
    Moves s .refresh (UpdateTrigger.refresh { s with ui := .idle })
  | opened (hui : s.ui = .idle) : Moves s .openTab (UpdateTrigger.refresh s)

theorem moves_of_step {s t : State τ} {a : Label τ} (h : step s a = some t) : Moves s a t := by
  cases a with
  | push tx => cases h; exact .push tx
  | notify => cases h; exact .notify
  | switchTab => cases h; exact .switchTab
  | compareExchange k =>
    simp only [step, Option.ite_none_right_eq_some] at h
    obtain ⟨hk, h⟩ := h
    split at h
    · rename_i hset
      cases h
      exact .coalesced hk hset
    · cases h
      exact .exchanged hk
  | postEvent k =>
    simp only [step, Option.ite_none_right_eq_some, Option.some.injEq] at h
    obtain ⟨hk, rfl⟩ := h
    exact .posted hk
  | takeEvent =>
    simp only [step, Option.ite_none_right_eq_some, Option.some.injEq] at h
    obtain ⟨⟨hui, hpos⟩, rfl⟩ := h
    exact .taken hui hpos
  | store =>
    simp only [step, Option.ite_none_right_eq_some, Option.some.injEq] at h
    obtain ⟨hui, rfl⟩ := h
    exact .stored hui
  | refresh =>
    simp only [step, Option.ite_none_right_eq_some, Option.some.injEq] at h
    obtain ⟨hui, rfl⟩ := h
    exact .refreshed hui
  | openTab =>
    simp only [step, Option.ite_none_right_eq_some, Option.some.injEq] at h
    obtain ⟨hui, rfl⟩ := h
    exact .opened hui

/-- A set flag means that an event is about to clear it. -/
def Pending (s : State τ) : Prop :=
  s.updatePending = true → 0 < s.events ∨ s.ui = .taken ∨ .postEvent ∈ s.notifiers

/-- A queued transaction is about to be seen. -/
def Woken (s : State τ) : Prop :=
  s.queue.q ≠ [] → 0 < s.events ∨ s.ui ≠ .idle ∨ s.notifiers ≠ []

theorem pending_step {s t : State τ} {a : Label τ} (hs : Pending s) (h : step s a = some t) :
    Pending t := by
  cases moves_of_step h with
  | push tx =>
    intro hp
    refine (hs hp).imp_right fun hrest => hrest.imp_right fun hmem => ?_
    exact List.mem_append_left _ hmem
  | notify =>
    intro hp
    refine (hs hp).imp_right fun hrest => hrest.imp_right fun hmem => ?_
    exact List.mem_append_left _ hmem
  | @coalesced k hk =>
    intro hp
    refine (hs hp).imp_right fun hrest => hrest.imp_right fun hmem => ?_
    -- the notifier that gives up is none of those that are about to post
    rw [List.mem_eraseIdx_iff_getElem?]
    obtain ⟨i, hi⟩ := List.getElem?_of_mem hmem
    refine ⟨i, fun heq => ?_, hi⟩
    rw [heq, hk] at hi
    cases hi
  | @exchanged k hk =>
    intro _
    have hlt : k < s.notifiers.length := (List.getElem?_eq_some_iff.mp hk).1
    exact Or.inr (Or.inr (List.mem_set hlt _))
  | posted =>
    intro _
    exact Or.inl (Nat.succ_pos _)
  | switchTab =>
    intro _
    exact Or.inl (Nat.succ_pos _)
  | taken =>
    intro _
    exact Or.inr (Or.inl rfl)
  | stored =>
    intro hp
    cases hp
  | refreshed hui =>
    -- the event that was taken has cleared the flag, so another one is under way
    intro hp
    rcases hs hp with hevents | htaken | hpost
    · exact Or.inl hevents
    · rw [hui] at htaken
      cases htaken
    · exact Or.inr (Or.inr hpost)
  | opened => exact hs

theorem woken_step {s t : State τ} {a : Label τ} (hp : Pending s) (h : step s a = some t) :
    Woken t := by
  have hgrow (n : Notifier) : s.notifiers ++ [n] ≠ [] := by simp
  have hpending := pending_step hp h
  cases moves_of_step h with
  | push tx =>
    intro _
    exact Or.inr (Or.inr (hgrow _))
  | notify =>
    intro _
    exact Or.inr (Or.inr (hgrow _))
  | coalesced _ hset =>
    -- someone else has set the flag, and it is not cleared yet
    intro _
    rcases hpending hset with hevents | htaken | hpost
    · exact Or.inl hevents
    · refine Or.inr (Or.inl fun hidle => ?_)
      rw [hidle] at htaken
      cases htaken
    · exact Or.inr (Or.inr (List.ne_nil_of_mem hpost))
  | @exchanged k hk =>
    intro _
    have hlt : k < s.notifiers.length := (List.getElem?_eq_some_iff.mp hk).1
    exact Or.inr (Or.inr (List.ne_nil_of_mem (List.mem_set hlt _)))
  | posted =>
    intro _
    exact Or.inl (Nat.succ_pos _)
  | switchTab =>
    intro _
    exact Or.inl (Nat.succ_pos _)
  | taken =>
    intro _
    exact Or.inr (Or.inl (by simp))
  | stored =>
    intro _
    exact Or.inr (Or.inl (by simp))
  | refreshed =>
    intro hne
    exact absurd rfl hne
  | opened =>
    intro hne
    exact absurd rfl hne

theorem entries_refresh {s : State τ} (hs : s.entries ++ s.queue.q = s.pushed) :
    (refresh s).entries ++ (refresh s).queue.q = (refresh s).pushed := by
  show (s.entries ++ s.queue.q) ++ [] = s.pushed
  rw [List.append_nil]
  exact hs

theorem entries_step {s t : State τ} {a : Label τ} (hs : s.entries ++ s.queue.q = s.pushed)
    (h : step s a = some t) : t.entries ++ t.queue.q = t.pushed := by
  cases moves_of_step h with
  | push tx =>
    show s.entries ++ (s.queue.q ++ [tx]) = s.pushed ++ [tx]
    rw [← List.append_assoc, hs]
  | refreshed => exact entries_refresh (s := { s with ui := .idle }) hs
  | opened => exact entries_refresh hs
  | _ => exact hs

/-- While a transaction is queued the UI has an event, or is about to empty the queue, or some
notifier is still at work; and no transaction is lost, repeated or overtaken on its way. -/
theorem no_lost_wake_up {s : State τ} (h : (system τ).Reached s) :
    Woken s ∧ s.entries ++ s.queue.q = s.pushed := by
  have hinv : Pending s ∧ Woken s ∧ s.entries ++ s.queue.q = s.pushed := by
    refine h.invariant (I := fun s => Pending s ∧ Woken s ∧ s.entries ++ s.queue.q = s.pushed) ?_ ?_
    · rintro _ rfl
      refine ⟨fun hp => ?_, fun hne => absurd rfl hne, rfl⟩
      cases hp
    · rintro s a t ⟨hp, -, he⟩ - hstep
      exact ⟨pending_step hp hstep, woken_step hp hstep, entries_step he hstep⟩
  exact hinv.2

/-- The second notifier finds the flag set; the event of the first one brings both transactions. -/
def coalescedRun : List (Label ℕ) :=
  [.push 1, .push 2, .compareExchange 0, .compareExchange 1, .postEvent 0, .takeEvent, .push 3,
    .store, .compareExchange 0]

theorem no_lost_wake_up_coalescedRun : ∃ s, (system ℕ).run {} coalescedRun = some s ∧
    s.queue.q = [1, 2, 3] ∧ Woken s ∧ s.entries ++ s.queue.q = s.pushed := by
  have hrun : ((system ℕ).run {} coalescedRun).any (fun s => s.queue.q == [1, 2, 3]) = true := by
    decide
  obtain ⟨s, hs, hqueue⟩ := (Option.any_eq_true _ _).mp hrun
  exact ⟨s, hs, eq_of_beq hqueue, no_lost_wake_up (.run (.init rfl) hs)⟩

end UpdateTrigger

end BurpTUI
