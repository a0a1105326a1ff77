import Mathlib.Data.List.Basic

/-! A machine that reads inputs until one of them completes something. -/

namespace Reader

variable {σ α π γ : Type*}

/-- `aside s t`: what happens between two reads. `read s a t`: the input `a` is handled. -/
structure Machine (σ α : Type*) where
  aside : σ → σ → Prop
  read : σ → α → σ → Prop

variable (M : Machine σ α)

inductive Machine.Reads : σ → List α → σ → Prop
  | none (s : σ) : Reads s [] s
  | read {s t u v : σ} {a : α} {as : List α} : M.aside s t → M.read t a u → Reads u as v →
      Reads s (a :: as) v

/-- Of these inputs the last one makes a parser ready, and none before it. -/
def ReadyAtLast (feed : π → α → π × Bool) : π → List α → Prop
  | _, [] => False
  | p, a :: as => ((feed p a).2 = true ↔ as = []) ∧ (as ≠ [] → ReadyAtLast feed (feed p a).1 as)

/-- The machine ends with the last of the inputs, and with none before: until then what `record`
shows stays as it is. -/
def Machine.EndsExactly (record : σ → γ) (Ended : γ → σ → Prop) (s : σ) (as : List α) : Prop :=
  (∀ part t, part <+: as → part ≠ as → M.Reads s part t → record t = record s) ∧
    ∀ t, M.Reads s as t → Ended (record s) t

/-- The machine does with its inputs what a parser tells it: `Has s p` says that the parser of `s`
is `p`. -/
structure Machine.Follows (record : σ → γ) (Ended : γ → σ → Prop) (feed : π → α → π × Bool)
    (Has : σ → π → Prop) : Prop where
  refl : ∀ {s p}, Has s p → M.aside s s
  can : ∀ {s p}, Has s p → ∀ a, ∃ t, M.read s a t
  aside : ∀ {s t p}, Has s p → M.aside s t → Has t p ∧ record t = record s
  more : ∀ {s t p a}, Has s p → (feed p a).2 = false → M.read s a t →
    Has t (feed p a).1 ∧ record t = record s
  done : ∀ {s t p a}, Has s p → (feed p a).2 = true → M.read s a t → Ended (record s) t
  changed : ∀ {s t}, Ended (record s) t → record t ≠ record s

variable {M} {record : σ → γ} {Ended : γ → σ → Prop} {feed : π → α → π × Bool} {Has : σ → π → Prop}
  {s : σ} {p : π} {a : α} {as : List α}

namespace Machine.Follows

theorem step (h : M.Follows record Ended feed Has) (hs : Has s p) {t u : σ} (haside : M.aside s t)
    (hread : M.read t a u) :
    ((feed p a).2 = false ∧ Has u (feed p a).1 ∧ record u = record s) ∨
      ((feed p a).2 = true ∧ Ended (record s) u) := by
  obtain ⟨ht, hrecord⟩ := h.aside hs haside
  cases hready : (feed p a).2 with
  | false =>
    obtain ⟨hu, hsame⟩ := h.more ht hready hread
    exact .inl ⟨rfl, hu, hsame.trans hrecord⟩
  | true => exact .inr ⟨rfl, hrecord ▸ h.done ht hready hread⟩

/-- The first input leaves the machine as it was, and the others end it. -/
theorem endsExactly_cons (h : M.Follows record Ended feed Has) (hs : Has s p) (has : as ≠ []) :
    M.EndsExactly record Ended s (a :: as) ↔ (feed p a).2 = false ∧
      ∀ t u, M.aside s t → M.read t a u → M.EndsExactly record Ended u as := by
  constructor
  · intro hends
    -- reads are left, so the first one has not ended anything
    have hopen {t u : σ} (haside : M.aside s t) (hread : M.read t a u) : record u = record s :=
      hends.1 [a] u ⟨as, rfl⟩ (by simp [Ne.symm has]) (.read haside hread (.none u))
    refine ⟨?_, fun t u haside hread => ⟨fun part v hpart hne hreads => ?_, fun v hreads => ?_⟩⟩
    · obtain ⟨u, hread⟩ := h.can hs a
      rcases h.step hs (h.refl hs) hread with ⟨hready, -⟩ | ⟨-, hended⟩
      · exact hready
      · exact absurd (hopen (h.refl hs) hread) (h.changed hended)
    · rw [hopen haside hread]
      apply hends.1 (a :: part) v ((List.prefix_cons_inj a).mpr hpart) _ (.read haside hread hreads)
      simpa using hne
    · rw [hopen haside hread]
      exact hends.2 v (.read haside hread hreads)
  · rintro ⟨hready, hrest⟩
    have hstep {t u : σ} (haside : M.aside s t) (hread : M.read t a u) :
        M.EndsExactly record Ended u as ∧ record u = record s := by
      rcases h.step hs haside hread with ⟨-, -, hsame⟩ | ⟨hnot, -⟩
      · exact ⟨hrest t u haside hread, hsame⟩
      · rw [hready] at hnot
        cases hnot
    refine ⟨fun part v hpart hne hreads => ?_, fun v hreads => ?_⟩
    · cases hreads with
      | none => rfl
      | read haside hread hreads =>
        obtain ⟨rfl, hprefix⟩ := List.cons_prefix_cons.mp hpart
        obtain ⟨hends, hsame⟩ := hstep haside hread
        rw [← hsame]
        exact hends.1 _ v hprefix (by rintro rfl; exact hne rfl) hreads
    · cases hreads with
      | read haside hread hreads =>
        obtain ⟨hends, hsame⟩ := hstep haside hread
        rw [← hsame]
        exact hends.2 v hreads

theorem endsExactly_singleton (h : M.Follows record Ended feed Has) (hs : Has s p) :
    M.EndsExactly record Ended s [a] ↔ (feed p a).2 = true := by
  constructor
  · intro hends
    obtain ⟨u, hread⟩ := h.can hs a
    rcases h.step hs (h.refl hs) hread with ⟨-, -, hsame⟩ | ⟨hready, -⟩
    · exact absurd hsame (h.changed (hends.2 u (.read (h.refl hs) hread (.none u))))
    · exact hready
  · intro hready
    refine ⟨fun part t hpart hne hreads => ?_, fun t hreads => ?_⟩
    · cases hreads with
      | none => rfl
      | read =>
        obtain ⟨rfl, hnil⟩ := List.cons_prefix_cons.mp hpart
        exact absurd (by rw [List.prefix_nil.mp hnil]) hne
    · cases hreads with
      | read haside hread hreads =>
        cases hreads
        rcases h.step hs haside hread with ⟨hnot, -⟩ | ⟨-, hended⟩
        · rw [hready] at hnot
          cases hnot
        · exact hended

theorem endsExactly_iff (h : M.Follows record Ended feed Has) (hs : Has s p) :
    M.EndsExactly record Ended s as ↔ ReadyAtLast feed p as := by
  induction as generalizing s p with
  | nil =>
    refine ⟨fun hends => ?_, False.elim⟩
    exact h.changed (hends.2 s (.none s)) rfl
  | cons a as ih =>
    rw [ReadyAtLast]
    by_cases has : as = []
    · subst has
      simp [h.endsExactly_singleton hs]
    · rw [h.endsExactly_cons hs has]
      simp only [has, iff_false, Bool.not_eq_true, ne_eq, not_false_eq_true, true_implies]
      refine and_congr_right fun hready => ⟨fun hrest => ?_, fun hrest t u haside hread => ?_⟩
      · obtain ⟨u, hread⟩ := h.can hs a
        exact (ih (h.more hs hready hread).1).mp (hrest s u (h.refl hs) hread)
      · obtain ⟨ht, -⟩ := h.aside hs haside
        exact (ih (h.more ht hready hread).1).mpr hrest

end Machine.Follows

end Reader
