import BurpTUI.Base.StepSystem

namespace StepSystem

/-- A state together with a mark for each handler that is queued: whether an event has happened
since then. -/
structure Marked (σ : Type*) where
  now : σ
  marks : List Bool := []

variable {σ α : Type*}

/-- The marks after a step. The handler that the step takes out loses its mark, those that it
queues get one. -/
def remark (taken : Option ℕ) (event : Bool) (queued : ℕ) (marks : List Bool) : List Bool :=
  let kept := match taken with
    | some k => marks.eraseIdx k
    | none => marks
  (if event then kept.map fun _ => true else kept) ++ List.replicate (queued - kept.length) false

/-- `queued` counts the handlers in a state, `taken` says which one a label takes out. -/
def System.marked (S : System σ α) (queued : σ → ℕ) (taken : α → Option ℕ)
    (event : σ → α → σ → Bool) : System (Marked σ) α where
  init m := S.init m.now ∧ m.marks = List.replicate (queued m.now) false
  step m a := (S.step m.now a).map fun t =>
    { now := t, marks := remark (taken a) (event m.now a t) (queued t) m.marks }

theorem System.ReachedUnder.unmarked {S : System σ α} {queued : σ → ℕ} {taken : α → Option ℕ}
    {event : σ → α → σ → Bool} {C : σ → α → Prop} {m : Marked σ}
    (h : (S.marked queued taken event).ReachedUnder (fun m a => C m.now a) m) :
    S.ReachedUnder C m.now := by
  induction h with
  | init h0 => exact .init h0.1
  | step _ hc he ih =>
    obtain ⟨t, ht, rfl⟩ := Option.map_eq_some_iff.mp he
    exact .step ih hc ht

/-- Every handler in `queue` that meets `p` has its mark, and the mark is not set. -/
structure Unmarked {β : Type*} (p : β → Prop) (queue : List β) (marks : List Bool) : Prop where
  length : marks.length = queue.length
  clear : ∀ (k : ℕ) (e : β), queue[k]? = some e → p e → marks[k]? = some false

namespace Unmarked

variable {β : Type*} {p : β → Prop} {queue es : List β} {marks : List Bool}

theorem eraseIdx (h : Unmarked p queue marks) {k : ℕ} (hk : k < queue.length) :
    Unmarked p (queue.eraseIdx k) (marks.eraseIdx k) := by
  refine ⟨?_, fun i e he hp => ?_⟩
  · rw [List.length_eraseIdx_of_lt (h.length ▸ hk), List.length_eraseIdx_of_lt hk, h.length]
  · rw [List.getElem?_eraseIdx] at he ⊢
    split
    · rename_i hi
      rw [if_pos hi] at he
      exact h.clear i e he hp
    · rename_i hi
      rw [if_neg hi] at he
      exact h.clear (i + 1) e he hp

/-- More handlers are queued, and there was no event. -/
theorem append (h : Unmarked p queue marks) (es : List β) :
    Unmarked p (queue ++ es) (marks ++ List.replicate ((queue ++ es).length - marks.length) false) := by
  have hlength := h.length
  refine ⟨?_, fun k e he hp => ?_⟩
  · simp only [List.length_append, List.length_replicate]
    omega
  · by_cases hk : k < queue.length
    · rw [List.getElem?_append_left hk] at he
      rw [List.getElem?_append_left (hlength ▸ hk)]
      exact h.clear k e he hp
    · have hlt := (List.getElem?_eq_some_iff.mp he).1
      rw [List.getElem?_append_right (by omega), List.getElem?_replicate, if_pos (by omega)]

/-- After an event, if no handler meets `p`. -/
theorem event (h : Unmarked p queue marks) (es : List β) (hnone : ∀ e ∈ queue ++ es, ¬ p e) :
    Unmarked p (queue ++ es) ((marks.map fun _ => true) ++
      List.replicate ((queue ++ es).length - marks.length) false) := by
  have hlength := h.length
  refine ⟨?_, fun k e he hp => absurd hp (hnone e (List.mem_of_getElem? he))⟩
  simp only [List.length_append, List.length_replicate, List.length_map]
  omega

end Unmarked

end StepSystem
