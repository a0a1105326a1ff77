import Mathlib.Data.List.Basic

variable {α : Type*} {p q : α → Prop} {l l' l'' : List α}

/-- A record grows by entries that meet `p`. -/
def Grows (p : α → Prop) (l l' : List α) : Prop := ∃ es, l' = l ++ es ∧ ∀ e ∈ es, p e

namespace Grows

theorem refl (l : List α) : Grows p l l := ⟨[], (List.append_nil l).symm, by simp⟩

theorem trans (h : Grows p l l') (h' : Grows p l' l'') : Grows p l l'' := by
  obtain ⟨es, rfl, hes⟩ := h
  obtain ⟨es', rfl, hes'⟩ := h'
  refine ⟨es ++ es', List.append_assoc _ _ _, fun e he => ?_⟩
  rcases List.mem_append.mp he with he | he
  · exact hes e he
  · exact hes' e he

theorem snoc (l : List α) {e : α} (he : p e) : Grows p l (l ++ [e]) := by
  refine ⟨[e], rfl, fun e' he' => ?_⟩
  rw [List.mem_singleton.mp he']
  exact he

/-- A fold that the new entries do not change. -/
theorem foldl {β : Type*} {f : β → α → β} (h : Grows p l l') (hf : ∀ e, p e → ∀ b, f b e = b) (b : β) :
    l'.foldl f b = l.foldl f b := by
  obtain ⟨es, rfl, hes⟩ := h
  rw [List.foldl_append]
  generalize l.foldl f b = c
  induction es with
  | nil => rfl
  | cons e es ih =>
    rw [List.foldl_cons, hf e (hes e (by simp))]
    exact ih fun e' he' => hes e' (by simp [he'])

end Grows

/-- Each entry of a record stands in the relation `P` to what is before it. -/
def Everywhere (P : List α → α → Prop) (l : List α) : Prop := ∀ l₁ e l₂, l = l₁ ++ e :: l₂ → P l₁ e

namespace Everywhere

variable {P : List α → α → Prop}

theorem nil : Everywhere P [] := by
  intro l₁ e l₂ h
  cases l₁ <;> cases h

theorem snoc (h : Everywhere P l) {e : α} (he : P l e) : Everywhere P (l ++ [e]) := by
  intro l₁ e' l₂ hl
  rcases List.append_eq_append_iff.mp hl with ⟨m, rfl, hm⟩ | ⟨m, rfl, hm⟩
  · cases m with
    | nil =>
      rw [List.nil_append, List.cons.injEq] at hm
      rw [List.append_nil, ← hm.1]
      exact he
    | cons a m => simp at hm
  · cases m with
    | nil =>
      rw [List.nil_append, List.cons.injEq] at hm
      rw [List.append_nil] at he
      exact hm.1 ▸ he
    | cons a m =>
      rw [List.cons_append, List.cons.injEq] at hm
      exact h l₁ e' m (by rw [hm.1])

/-- New entries for which the relation always holds. -/
theorem grow (h : Everywhere P l) (hgrows : Grows p l l') (hp : ∀ e, p e → ∀ m, P m e) :
    Everywhere P l' := by
  obtain ⟨es, rfl, hes⟩ := hgrows
  induction es generalizing l with
  | nil => rwa [List.append_nil]
  | cons e es ih =>
    rw [List.append_cons]
    exact ih (h.snoc (hp e (hes e (by simp)) _)) fun e' he' => hes e' (by simp [he'])

end Everywhere
