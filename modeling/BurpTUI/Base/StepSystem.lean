import Mathlib.Data.List.Basic

namespace StepSystem

/-- A labelled system with functional steps: the label resolves every choice, and `none` means
that the label is not enabled. -/
structure System (σ α : Type*) where
  init : σ → Prop
  step : σ → α → Option σ

namespace System

variable {σ α : Type*} (S : System σ α)

/-- The states of runs whose every step meets `C`, a condition on the state before the step. -/
inductive ReachedUnder (C : σ → α → Prop) : σ → Prop
  | init {s} : S.init s → ReachedUnder C s
  | step {s a t} : ReachedUnder C s → C s a → S.step s a = some t → ReachedUnder C t

abbrev Reached : σ → Prop := S.ReachedUnder fun _ _ => True

def run (s : σ) : List α → Option σ
  | [] => some s
  | a :: as => match S.step s a with
    | none => none
    | some t => run t as

/-- Runs that stop at the first step that does not meet `C`. -/
def runUnder (C : σ → α → Prop) [∀ s a, Decidable (C s a)] (s : σ) : List α → Option σ
  | [] => some s
  | a :: as => if C s a then match S.step s a with
    | none => none
    | some t => runUnder C t as
    else none

/-- The runs that go on from a state. -/
def after (s : σ) : System σ α := { S with init := fun t => t = s }

variable {S} {C : σ → α → Prop}

theorem ReachedUnder.mono {D : σ → α → Prop} (h : ∀ s a, C s a → D s a) {s : σ}
    (hs : S.ReachedUnder C s) : S.ReachedUnder D s := by
  induction hs with
  | init h0 => exact .init h0
  | step _ hc he ih => exact .step ih (h _ _ hc) he

theorem ReachedUnder.reached {s : σ} (hs : S.ReachedUnder C s) : S.Reached s :=
  hs.mono fun _ _ _ => trivial

/-- The induction rule for invariants of conditioned runs. -/
theorem ReachedUnder.invariant {I : σ → Prop} (h0 : ∀ s, S.init s → I s)
    (h1 : ∀ s a t, I s → C s a → S.step s a = some t → I t) {s : σ}
    (hs : S.ReachedUnder C s) : I s := by
  induction hs with
  | init h => exact h0 _ h
  | step _ hc he ih => exact h1 _ _ _ ih hc he

/-- The same rule with an invariant that is already known. -/
theorem ReachedUnder.invariant_of {I J : σ → Prop} (hJ : ∀ s, S.ReachedUnder C s → J s)
    (h0 : ∀ s, S.init s → I s)
    (h1 : ∀ s a t, J s → I s → C s a → S.step s a = some t → I t) {s : σ}
    (hs : S.ReachedUnder C s) : I s := by
  induction hs with
  | init h => exact h0 _ h
  | step hs hc he ih => exact h1 _ _ _ (hJ _ hs) ih hc he

theorem ReachedUnder.after {s t : σ} (hs : S.ReachedUnder C s)
    (ht : (S.after s).ReachedUnder C t) : S.ReachedUnder C t := by
  induction ht with
  | init h => exact h ▸ hs
  | step _ hc he ih => exact .step ih hc he

theorem run_append {s t u : σ} {as bs : List α} (h : S.run s as = some t)
    (h' : S.run t bs = some u) : S.run s (as ++ bs) = some u := by
  induction as generalizing s with
  | nil => simp only [System.run, Option.some.injEq] at h; exact h ▸ h'
  | cons a as ih =>
    rw [System.run] at h
    rw [List.cons_append, System.run]
    split at h
    · cases h
    · exact ih h

theorem ReachedUnder.run {s t : σ} {as : List α} (hs : S.Reached s)
    (h : S.run s as = some t) : S.Reached t := by
  induction as generalizing s with
  | nil => simp only [System.run, Option.some.injEq] at h; exact h ▸ hs
  | cons a as ih =>
    rw [System.run] at h
    split at h
    · cases h
    · exact ih (.step hs trivial ‹_›) h

theorem ReachedUnder.runUnder [∀ s a, Decidable (C s a)] {s t : σ} {as : List α}
    (hs : S.ReachedUnder C s) (h : S.runUnder C s as = some t) : S.ReachedUnder C t := by
  induction as generalizing s with
  | nil => simp only [System.runUnder, Option.some.injEq] at h; exact h ▸ hs
  | cons a as ih =>
    rw [System.runUnder] at h
    split at h
    · split at h
      · cases h
      · exact ih (.step hs ‹_› ‹_›) h
    · cases h

end System

end StepSystem
