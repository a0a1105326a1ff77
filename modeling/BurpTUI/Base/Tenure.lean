import Mathlib.Data.List.Basic
import Mathlib.Data.List.Count
import Mathlib.Data.List.Induction

/-! The record of a store of values by key: a value is made where none is held, served while it is
held, and removed. -/

namespace Tenure

variable {κ ν : Type*} [DecidableEq κ]

inductive Event (κ ν : Type*)
  | made (k : κ) (v : ν)
  | served (k : κ) (v : ν)
  | removed (k : κ)
  deriving DecidableEq

/-- What `k` holds after an event. -/
def Event.next (k : κ) (held : Option ν) : Event κ ν → Option ν
  | .made k' v => if k' = k then some v else held
  | .served _ _ => held
  | .removed k' => if k' = k then none else held

def held (log : List (Event κ ν)) (k : κ) : Option ν := log.foldl (Event.next k) none

/-- Nothing is made for a key that holds a value, and what is served is held. -/
def Event.Lawful (held : κ → Option ν) : Event κ ν → Prop
  | .made k _ => held k = none
  | .served k v => held k = some v
  | .removed _ => True

inductive Kept : List (Event κ ν) → Prop
  | nil : Kept []
  | snoc {log : List (Event κ ν)} {e : Event κ ν} (h : Kept log) (he : e.Lawful (held log)) :
      Kept (log ++ [e])

/-- How often a value was made for a key. -/
def makings (k : κ) (log : List (Event κ ν)) : ℕ :=
  log.countP fun e => match e with
    | .made k' _ => k' = k
    | _ => false

variable {log : List (Event κ ν)} {k : κ}

@[simp] theorem held_nil : held ([] : List (Event κ ν)) k = none := rfl

@[simp] theorem held_snoc (log : List (Event κ ν)) (e : Event κ ν) (k : κ) :
    held (log ++ [e]) k = e.next k (held log k) := by
  simp [held]

theorem makings_snoc (k : κ) (log : List (Event κ ν)) (e : Event κ ν) :
    makings k (log ++ [e]) = makings k log + makings k [e] := by
  simp [makings]

theorem Kept.of_snoc {e : Event κ ν} (h : Kept (log ++ [e])) : Kept log ∧ e.Lawful (held log) := by
  generalize hl : log ++ [e] = l at h
  cases h with
  | nil => simp at hl
  | snoc h he =>
    obtain ⟨rfl, hlast⟩ := List.append_inj' hl rfl
    obtain rfl := List.singleton_inj.mp hlast
    exact ⟨h, he⟩

theorem Kept.of_append {tail : List (Event κ ν)} (h : Kept (log ++ tail)) : Kept log := by
  induction tail using List.reverseRecOn with
  | nil => simpa using h
  | append_singleton tail e ih =>
    rw [← List.append_assoc] at h
    exact ih h.of_snoc.1

/-- Removals are always lawful. -/
theorem Kept.removals (h : Kept log) (ks : List κ) : Kept (log ++ ks.map Event.removed) := by
  induction ks using List.reverseRecOn with
  | nil => simpa using h
  | append_singleton ks k ih =>
    rw [List.map_append, ← List.append_assoc]
    exact ih.snoc trivial

theorem held_removals (log : List (Event κ ν)) (ks : List κ) (k : κ) :
    held (log ++ ks.map Event.removed) k = if k ∈ ks then none else held log k := by
  induction ks using List.reverseRecOn with
  | nil => simp
  | append_singleton ks k' ih =>
    rw [List.map_append, ← List.append_assoc, List.map_singleton, held_snoc, ih]
    by_cases hk : k' = k
    · subst hk
      simp [Event.next]
    · simp [Event.next, hk, Ne.symm hk]

/-- A stretch of the record in which the key is not removed, up to its end: what was served in it is
held there, and a value was made once at most. -/
theorem Kept.stretch {before during : List (Event κ ν)} (h : Kept (before ++ during))
    (hstay : Event.removed k ∉ during) :
    (∀ v, Event.served k v ∈ during → held (before ++ during) k = some v) ∧
      makings k during ≤ 1 ∧ (makings k during = 1 → (held (before ++ during) k).isSome) := by
  induction during using List.reverseRecOn with
  | nil => simp [makings]
  | append_singleton during e ih =>
    rw [← List.append_assoc] at h ⊢
    obtain ⟨hkept, hlawful⟩ := h.of_snoc
    obtain ⟨hserved, hone, hheld⟩ := ih hkept fun hmem => hstay (by simp [hmem])
    rw [makings_snoc, held_snoc]
    cases e with
    | made k' v =>
      by_cases hk : k' = k
      · subst hk
        -- Nothing is held, so that nothing was made or served in the stretch before.
        have hnone : held (before ++ during) k' = none := hlawful
        have hzero : makings k' during = 0 := by
          by_contra hne
          have hsome := hheld (by omega)
          rw [hnone] at hsome
          cases hsome
        refine ⟨?_, ?_, ?_⟩
        · intro w hw
          have hw : Event.served k' w ∈ during := by simpa using hw
          rw [hserved w hw] at hnone
          cases hnone
        · rw [hzero]
          simp [makings]
        · simp [Event.next]
      · have hnew : makings k [Event.made k' v] = 0 := by simp [makings, hk]
        rw [hnew]
        simpa [Event.next, hk] using ⟨hserved, hone, hheld⟩
    | served k' v =>
      have hnew : makings k [Event.served k' v] = 0 := by simp [makings]
      rw [hnew]
      refine ⟨?_, by simpa using hone, by simpa [Event.next] using hheld⟩
      intro w hw
      rcases List.mem_append.mp hw with hw | hw
      · exact hserved w hw
      · simp only [List.mem_singleton, Event.served.injEq] at hw
        obtain ⟨rfl, rfl⟩ := hw
        exact hlawful
    | removed k' =>
      have hk : k' ≠ k := by
        rintro rfl
        exact hstay (by simp)
      have hnew : makings k [Event.removed k' (ν := ν)] = 0 := by simp [makings]
      rw [hnew]
      simpa [Event.next, hk] using ⟨hserved, hone, hheld⟩

/-- One turn: perhaps something is made, then some keys are removed, then perhaps something is
served. `next` is what is held afterwards. -/
theorem Kept.turn (h : Kept log) (made served : Option (κ × ν)) (ks : List κ) {next : κ → Option ν}
    (hmade : ∀ p ∈ made, held log p.1 = none)
    (hnext : ∀ k, next k = if k ∈ ks then none else
      if made.map Prod.fst = some k then made.map Prod.snd else held log k)
    (hserved : ∀ p ∈ served, next p.1 = some p.2) :
    Kept (log ++ (made.toList.map (fun p => .made p.1 p.2) ++ ks.map .removed ++
        served.toList.map fun p => .served p.1 p.2)) ∧
      ∀ k, held (log ++ (made.toList.map (fun p => .made p.1 p.2) ++ ks.map .removed ++
        served.toList.map fun p => .served p.1 p.2)) k = next k := by
  -- What is held after the first and after the second part of the turn.
  have hfirst : Kept (log ++ made.toList.map fun p => .made p.1 p.2) ∧
      ∀ k, held (log ++ made.toList.map fun p => .made p.1 p.2) k =
        if made.map Prod.fst = some k then made.map Prod.snd else held log k := by
    cases made with
    | none => simpa using h
    | some p =>
      constructor
      · exact h.snoc (hmade p rfl)
      · intro k
        rw [Option.toList_some, List.map_singleton, held_snoc, Event.next]
        simp
  have hsecond := hfirst.1.removals ks
  have hheld (k : κ) : held ((log ++ made.toList.map fun p => .made p.1 p.2) ++
      ks.map Event.removed) k = next k := by
    rw [held_removals, hfirst.2 k, hnext k]
  rw [← List.append_assoc, ← List.append_assoc]
  cases served with
  | none =>
    rw [Option.toList_none, List.map_nil, List.append_nil]
    exact ⟨hsecond, hheld⟩
  | some p =>
    rw [Option.toList_some, List.map_singleton]
    constructor
    · apply hsecond.snoc
      rw [Event.Lawful, hheld]
      exact hserved p rfl
    · intro k
      rw [held_snoc, Event.next]
      exact hheld k

end Tenure
