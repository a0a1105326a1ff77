import Mathlib.Data.List.Basic

/-- The work of an event loop: operations that were started, and operations whose handler is
queued together with the result that it gets. -/
structure Executor (Op R : Type*) where
  pending : List Op := []
  ready : List (Op × R) := []
  deriving DecidableEq, Repr

namespace Executor

variable {Op R : Type*} (x : Executor Op R)

def start (op : Op) : Executor Op R := { x with pending := x.pending ++ [op] }

def post (op : Op) (r : R) : Executor Op R := { x with ready := x.ready ++ [(op, r)] }

/-- The pending operations that meet `p` complete with `r`; queued handlers are not affected. -/
def cancel (p : Op → Bool) (r : R) : Executor Op R where
  pending := x.pending.filter fun op => !p op
  ready := x.ready ++ (x.pending.filter p).map fun op => (op, r)

/-- Pending operation number `k` completes. -/
def complete (k : ℕ) (r : R) : Option (Op × Executor Op R) :=
  x.pending[k]?.map fun op =>
    (op, { pending := x.pending.eraseIdx k, ready := x.ready ++ [(op, r)] })

/-- Queued handler number `k` is taken out to be run. -/
def take (k : ℕ) : Option ((Op × R) × Executor Op R) :=
  x.ready[k]?.map fun e => (e, { x with ready := x.ready.eraseIdx k })

/-- The number of operations that were started, or posted, and whose handler has not run. -/
def outstanding (p : Op → Bool) : ℕ :=
  x.pending.countP p + x.ready.countP fun e => p e.1

@[simp] theorem outstanding_empty (p : Op → Bool) :
    ({} : Executor Op R).outstanding p = 0 := rfl

@[simp] theorem outstanding_start (op : Op) (p : Op → Bool) :
    (x.start op).outstanding p = x.outstanding p + (p op).toNat := by
  simp only [outstanding, start, List.countP_append, List.countP_singleton]
  cases p op <;> simp
  omega

@[simp] theorem outstanding_post (op : Op) (r : R) (p : Op → Bool) :
    (x.post op r).outstanding p = x.outstanding p + (p op).toNat := by
  simp only [outstanding, post, List.countP_append, List.countP_singleton]
  cases p op <;> simp
  omega

/-- Cancelling loses no handler. -/
@[simp] theorem outstanding_cancel (q : Op → Bool) (r : R) (p : Op → Bool) :
    (x.cancel q r).outstanding p = x.outstanding p := by
  have hsplit : x.pending.countP p =
      (x.pending.filter q).countP p + (x.pending.filter fun op => !q op).countP p := by
    induction x.pending with
    | nil => rfl
    | cons op ops ih =>
      cases hq : q op <;> simp [List.countP_cons, hq] at ih ⊢ <;> omega
  have hmap : ((x.pending.filter q).map fun op => (op, r)).countP (fun e => p e.1) =
      (x.pending.filter q).countP p := by
    rw [List.countP_map]
    rfl
  simp only [outstanding, cancel, List.countP_append, hmap, hsplit]
  omega

theorem countP_eraseIdx {α : Type*} {l : List α} {k : ℕ} {a : α} (h : l[k]? = some a)
    (p : α → Bool) : l.countP p = (l.eraseIdx k).countP p + (p a).toNat := by
  induction l generalizing k with
  | nil => cases h
  | cons b l ih =>
    cases k with
    | zero =>
      simp only [List.getElem?_cons_zero, Option.some.injEq] at h
      subst h
      cases hp : p b <;> simp [hp]
    | succ k =>
      have hl := ih (by simpa using h)
      simp only [List.eraseIdx_cons_succ, List.countP_cons]
      omega

theorem complete_spec {x y : Executor Op R} {k : ℕ} {r : R} {op : Op}
    (h : x.complete k r = some (op, y)) : x.pending[k]? = some op ∧
      y = { pending := x.pending.eraseIdx k, ready := x.ready ++ [(op, r)] } := by
  obtain ⟨op', hop, heq⟩ := Option.map_eq_some_iff.mp h
  cases heq
  exact ⟨hop, rfl⟩

theorem take_spec {x y : Executor Op R} {k : ℕ} {e : Op × R} (h : x.take k = some (e, y)) :
    x.ready[k]? = some e ∧ y = { x with ready := x.ready.eraseIdx k } := by
  obtain ⟨e', he, heq⟩ := Option.map_eq_some_iff.mp h
  cases heq
  exact ⟨he, rfl⟩

theorem outstanding_complete {x y : Executor Op R} {k : ℕ} {r : R} {op : Op}
    (h : x.complete k r = some (op, y)) (p : Op → Bool) :
    y.outstanding p = x.outstanding p := by
  obtain ⟨hop, rfl⟩ := complete_spec h
  have hp := countP_eraseIdx hop p
  simp only [outstanding, List.countP_append, List.countP_singleton]
  cases hb : p op <;> simp [hb] at hp ⊢ <;> omega

theorem outstanding_take {x y : Executor Op R} {k : ℕ} {e : Op × R}
    (h : x.take k = some (e, y)) (p : Op → Bool) :
    x.outstanding p = y.outstanding p + (p e.1).toNat := by
  obtain ⟨he, rfl⟩ := take_spec h
  have hp := countP_eraseIdx he fun e => p e.1
  simp only [outstanding]
  omega

end Executor
