import Mathlib.Data.List.Basic
import Mathlib.Data.List.Infix

/-! Lists kept in the order of last use, against the record of all uses, the latest one first. -/

namespace Recency

variable {α : Type*} [DecidableEq α]

/-- The most recently used element comes first. -/
structure Ordered (uses l : List α) : Prop where
  sorted : l.Pairwise fun a b => uses.idxOf a < uses.idxOf b
  used : ∀ a ∈ l, a ∈ uses

/-- Among the residents `b` is the one whose last use is oldest. -/
def LeastRecent (uses residents : List α) (b : α) : Prop :=
  b ∈ residents ∧ ∀ a ∈ residents, a ≠ b → uses.idxOf a < uses.idxOf b

theorem idxOf_use {uses : List α} {a b : α} (h : b ≠ a) :
    (a :: uses).idxOf b = uses.idxOf b + 1 := List.idxOf_cons_ne uses (Ne.symm h)

namespace Ordered

variable {uses l : List α} {a b : α}

theorem nil (uses : List α) : Ordered uses [] := ⟨List.Pairwise.nil, by simp⟩

theorem sublist (h : Ordered uses l) {l' : List α} (hsub : l'.Sublist l) : Ordered uses l' :=
  ⟨h.sorted.sublist hsub, fun a ha => h.used a (hsub.subset ha)⟩

/-- A use of an element outside of the list leaves its order. -/
theorem use_other (h : Ordered uses l) (ha : a ∉ l) : Ordered (a :: uses) l := by
  have hne : ∀ b ∈ l, b ≠ a := by
    rintro b hb rfl
    exact ha hb
  constructor
  · apply h.sorted.imp_of_mem
    intro b c hb hc hlt
    rw [idxOf_use (hne b hb), idxOf_use (hne c hc)]
    omega
  · intro b hb
    exact List.mem_cons_of_mem a (h.used b hb)

/-- An element that is used and put in front. -/
theorem use_new (h : Ordered uses l) (ha : a ∉ l) : Ordered (a :: uses) (a :: l) := by
  have hl := h.use_other ha
  constructor
  · rw [List.pairwise_cons]
    refine ⟨?_, hl.sorted⟩
    intro b hb
    have hne : b ≠ a := by
      rintro rfl
      exact ha hb
    rw [List.idxOf_cons_self, idxOf_use hne]
    omega
  · intro b hb
    rcases List.mem_cons.mp hb with rfl | hb
    · exact List.mem_cons_self
    · exact hl.used b hb

/-- An element that is used and moved to the front. -/
theorem use_moved (h : Ordered uses l) (a : α) :
    Ordered (a :: uses) (a :: l.filter fun b => b ≠ a) := by
  apply (h.sublist List.filter_sublist).use_new
  simp

/-- A use of the first element needs no move. -/
theorem use_front (h : Ordered uses (a :: l)) : Ordered (a :: uses) (a :: l) := by
  have hnot : a ∉ l := by
    intro ha
    exact absurd (List.rel_of_pairwise_cons h.sorted ha) (by omega)
  exact (h.sublist (List.sublist_cons_self a l)).use_new hnot

/-- The last element is the one to be evicted. -/
theorem leastRecent (h : Ordered uses (l ++ [b])) : LeastRecent uses (l ++ [b]) b := by
  refine ⟨by simp, ?_⟩
  intro a ha hne
  have hmem : a ∈ l := by
    rcases List.mem_append.mp ha with ha | ha
    · exact ha
    · exact absurd (List.mem_singleton.mp ha) hne
  exact (List.pairwise_append.mp h.sorted).2.2 a hmem b (by simp)

end Ordered

end Recency
