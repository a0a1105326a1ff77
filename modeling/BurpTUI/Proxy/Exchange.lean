import BurpTUI.Proxy.AsyncOps
import Mathlib.Tactic.Common

namespace BurpTUI

/-- Where the request of a session stands that may still be handed to the upstream. -/
inductive Stage
  /-- there is none -/
  | quiet
  /-- the intercept manager was asked and has not called back -/
  | asked (ref : Ref)
  /-- the callback was called, what it posted has not run -/
  | ruled (ref : Ref) (action : InterceptAction)
  /-- nothing stands in the way any more -/
  | cleared (ref : Ref)
  deriving DecidableEq, Repr

/-- The requests so far. -/
def tookRefs (log : List Effect) : List Ref :=
  log.filterMap fun
    | .took ref _ => some ref
    | _ => none

/-- The request that an effect is about. -/
def Effect.subject : Effect → Option Ref
  | .took ref _ => some ref
  | .tested ref _ => some ref
  | .intercepted item => some item.onDecision
  | .decided ref _ => some ref
  | .handed ref _ => some ref
  | _ => none

/-- The request that an effect gives to the intercept manager. -/
def Effect.asks : Effect → Option Ref
  | .intercepted item => some item.onDecision
  | _ => none

theorem Op.completion_subject (op : Op) (o : Outcome) : ∀ e ∈ op.completion o, e.subject = none := by
  intro e he
  rcases Op.mem_completion he with ⟨data, -, -, rfl⟩ | ⟨-, -, rfl⟩ | ⟨-, -, rfl⟩ <;> rfl

def Effect.hands (ref : Ref) : Effect → Bool
  | .handed r _ => r == ref
  | _ => false

/-- No request is handed over twice, none that interception was on for before its callback was
called with `forward`, and none whose callback was called with `drop`. -/
structure HandsProperly (log : List Effect) : Prop where
  once : ∀ ref, log.countP (Effect.hands ref) ≤ 1
  afterForward : ∀ l₁ l₂ ref data, log = l₁ ++ .handed ref data :: l₂ →
    .tested ref true ∈ log → .decided ref .forward ∈ l₁
  notAfterDrop : ∀ ref data, .decided ref .drop ∈ log → .handed ref data ∉ log

/-- What the log says about the request of the stage. -/
def Stage.Agrees (log : List Effect) : Stage → Prop
  | .quiet => True
  | .asked ref => (∀ a, .decided ref a ∉ log) ∧ ∀ data, .handed ref data ∉ log
  | .ruled ref action => .decided ref action ∈ log ∧
      (∀ a, .decided ref a ∈ log → a = action) ∧ ∀ data, .handed ref data ∉ log
  | .cleared ref => (.tested ref true ∈ log → .decided ref .forward ∈ log) ∧
      .decided ref .drop ∉ log ∧ ∀ data, .handed ref data ∉ log

def Stage.ref : Stage → Option Ref
  | .quiet => none
  | .asked ref => some ref
  | .ruled ref _ => some ref
  | .cleared ref => some ref

structure Proper (log : List Effect) (st : Stage) : Prop where
  hands : HandsProperly log
  agrees : st.Agrees log
  known : ∀ e ∈ log, ∀ ref ∈ e.subject, ref ∈ tookRefs log
  stage : ∀ ref ∈ st.ref, ref ∈ tookRefs log

namespace Proper

variable {log : List Effect} {st : Stage} {ref : Ref}

theorem tookRefs_append (log es : List Effect) :
    tookRefs (log ++ es) = tookRefs log ++ tookRefs es := by
  simp [tookRefs]

theorem nil : Proper [] .quiet := by
  refine ⟨⟨?_, ?_, ?_⟩, trivial, ?_, ?_⟩ <;> simp [Stage.ref]

/-- A request can always be given up. -/
theorem giveUp (h : Proper log st) : Proper log .quiet :=
  ⟨h.hands, trivial, h.known, by simp [Stage.ref]⟩

theorem hands_append {es : List Effect} (h : HandsProperly log)
    (hes : ∀ e ∈ es, ∀ r d, e ≠ .handed r d) (hlate : ∀ r d, .handed r d ∈ log →
      .tested r true ∉ es ∧ .decided r .drop ∉ es) : HandsProperly (log ++ es) where
  once r := by
    have hzero : es.countP (Effect.hands r) = 0 := by
      rw [List.countP_eq_zero]
      intro e he hh
      cases e <;> simp [Effect.hands] at hh
      exact hes _ he _ _ rfl
    rw [List.countP_append, hzero]
    exact h.once r
  afterForward l₁ l₂ r d heq ht := by
    rcases List.append_eq_append_iff.mp heq with ⟨l, rfl, hl⟩ | ⟨l, hl, hes'⟩
    · exact absurd rfl (hes (.handed r d) (by simp [hl]) r d)
    · cases l with
      | nil =>
        rw [List.nil_append] at hes'
        exact absurd rfl (hes (.handed r d) (by simp [← hes']) r d)
      | cons e l =>
        simp only [List.cons_append, List.cons.injEq] at hes'
        have hlog : log = l₁ ++ .handed r d :: l := by rw [hl, ← hes'.1]
        have hin : .handed r d ∈ log := by simp [hlog]
        have htested := (List.mem_append.mp ht).resolve_right (hlate r d hin).1
        exact h.afterForward l₁ l r d hlog htested
  notAfterDrop r d hd hh := by
    have hin : .handed r d ∈ log := by
      rcases List.mem_append.mp hh with hh | hh
      · exact hh
      · exact absurd rfl (hes _ hh r d)
    rcases List.mem_append.mp hd with hd | hd
    · exact h.notAfterDrop r d hd hin
    · exact (hlate r d hin).2 hd

/-- Effects that are not about a request. -/
theorem silent {es : List Effect} (h : Proper log st) (hes : ∀ e ∈ es, e.subject = none) :
    Proper (log ++ es) st := by
  have hno (e : Effect) (hs : e.subject ≠ none) : e ∉ es := fun he => hs (hes e he)
  have hmem (e : Effect) (hs : e.subject ≠ none) : e ∈ log ++ es ↔ e ∈ log := by
    simp [hno e hs]
  refine ⟨hands_append h.hands (fun e he r d heq => ?_) (fun r d _ => ⟨?_, ?_⟩), ?_, ?_, ?_⟩
  · exact hno e (by rw [heq, Effect.subject]; exact Option.some_ne_none r) he
  · exact hno (.tested r true) (by rw [Effect.subject]; exact Option.some_ne_none r)
  · exact hno (.decided r .drop) (by rw [Effect.subject]; exact Option.some_ne_none r)
  · have hagrees := h.agrees
    cases st <;> simp_all [Stage.Agrees, Effect.subject]
  · intro e he r hr
    rw [tookRefs_append]
    rcases List.mem_append.mp he with he | he
    · exact List.mem_append_left _ (h.known e he r hr)
    · rw [hes e he] at hr
      cases hr
  · intro r hr
    rw [tookRefs_append]
    exact List.mem_append_left _ (h.stage r hr)

theorem not_mem_of_fresh (h : Proper log st) (hf : ref ∉ tookRefs log) {e : Effect}
    (he : e.subject = some ref) : e ∉ log := fun hm => hf (h.known e hm ref (by simp [he]))

theorem known_append {es : List Effect} (h : ∀ e ∈ log, ∀ r ∈ e.subject, r ∈ tookRefs log)
    (hes : ∀ e ∈ es, ∀ r ∈ e.subject, r ∈ tookRefs (log ++ es)) :
    ∀ e ∈ log ++ es, ∀ r ∈ e.subject, r ∈ tookRefs (log ++ es) := by
  intro e he r hr
  rcases List.mem_append.mp he with he | he
  · rw [tookRefs_append]
    exact List.mem_append_left _ (h e he r hr)
  · exact hes e he r hr

theorem mem_tookRefs {req : HttpRequest} (h : .took ref req ∈ log) : ref ∈ tookRefs log :=
  List.mem_filterMap.mpr ⟨_, h, rfl⟩

/-- A request is taken. -/
theorem take (h : Proper log .quiet) (ref : Ref) (req : HttpRequest) :
    Proper (log ++ [.took ref req]) .quiet := by
  refine ⟨hands_append h.hands (by simp) (by simp), trivial, known_append h.known ?_,
    by simp [Stage.ref]⟩
  intro e he r hr
  simp only [List.mem_singleton] at he
  simp only [he, Effect.subject, Option.mem_def, Option.some.injEq] at hr
  have hmem : .took r req ∈ log ++ [.took ref req] := by simp [hr]
  exact mem_tookRefs hmem

/-- A new request is taken, and interception is tested for it. -/
theorem test (h : Proper log .quiet) (hf : ref ∉ tookRefs log) (req : HttpRequest) (b : Bool) :
    Proper (log ++ [.took ref req, .tested ref b]) (if b then .asked ref else .cleared ref) := by
  have hnew : ref ∈ tookRefs (log ++ [.took ref req, .tested ref b]) := by
    simp [tookRefs]
  have hnone {e : Effect} (he : e.subject = some ref) : e ∉ log := h.not_mem_of_fresh hf he
  refine ⟨hands_append h.hands (by simp) ?_, ?_, known_append h.known ?_, ?_⟩
  · intro r d hd
    -- nothing in the log is about the new request
    have hne : r ≠ ref := fun he => hnone (he ▸ rfl) hd
    simp [hne]
  · have hdecided (a : InterceptAction) : .decided ref a ∉ log := hnone rfl
    have hhanded (d : Bytes) : .handed ref d ∉ log := hnone rfl
    have htested : .tested ref true ∉ log := hnone rfl
    cases b <;> simp [Stage.Agrees, hdecided, hhanded, htested]
  · intro e he r hr
    simp only [List.mem_cons, List.not_mem_nil, or_false] at he
    rcases he with rfl | rfl
    · simp only [Effect.subject, Option.mem_def, Option.some.injEq] at hr
      exact hr ▸ hnew
    · simp only [Effect.subject, Option.mem_def, Option.some.injEq] at hr
      exact hr ▸ hnew
  · intro r hr
    have hr : r = ref := by
      cases b <;> simp [Stage.ref] at hr <;> exact hr.symm
    exact hr ▸ hnew

/-- The manager is asked. -/
theorem ask (h : Proper log (.asked ref)) {item : InterceptedRequest Ref}
    (hitem : item.onDecision = ref) : Proper (log ++ [.intercepted item]) (.asked ref) := by
  have hknown : ref ∈ tookRefs (log ++ [.intercepted item]) := by
    rw [tookRefs_append]
    exact List.mem_append_left _ (h.stage ref rfl)
  refine ⟨hands_append h.hands (by simp) (by simp), ?_, known_append h.known ?_, ?_⟩
  · simpa [Stage.Agrees] using h.agrees
  · intro e he r hr
    simp only [List.mem_singleton] at he
    simp only [he, Effect.subject, hitem, Option.mem_def, Option.some.injEq] at hr
    exact hr ▸ hknown
  · intro r hr
    simp only [Stage.ref, Option.mem_def, Option.some.injEq] at hr
    exact hr ▸ hknown

/-- The manager calls the callback. -/
theorem decide (h : Proper log (.asked ref)) (a : InterceptAction) :
    Proper (log ++ [.decided ref a]) (.ruled ref a) := by
  have hknown : ref ∈ tookRefs log := h.stage ref rfl
  obtain ⟨hnot, hhanded⟩ := h.agrees
  refine ⟨hands_append h.hands (by simp) ?_, ?_, known_append h.known ?_, ?_⟩
  · intro r d hd
    refine ⟨by simp, fun hmem => ?_⟩
    simp only [List.mem_singleton, Effect.decided.injEq] at hmem
    exact hhanded d (hmem.1 ▸ hd)
  · simp only [Stage.Agrees, List.mem_append, List.mem_singleton]
    refine ⟨Or.inr trivial, fun b hb => ?_, fun d hd => ?_⟩
    · rcases hb with hb | hb
      · exact absurd hb (hnot b)
      · simpa using hb
    · simp [hhanded d] at hd
  · intro e he r hr
    simp only [List.mem_singleton] at he
    simp only [he, Effect.subject, Option.mem_def, Option.some.injEq] at hr
    rw [tookRefs_append, ← hr]
    exact List.mem_append_left _ hknown
  · intro r hr
    simp only [Stage.ref, Option.mem_def, Option.some.injEq] at hr
    rw [tookRefs_append, ← hr]
    exact List.mem_append_left _ hknown

theorem clear (h : Proper log (.ruled ref .forward)) : Proper log (.cleared ref) := by
  obtain ⟨hdecided, honly, hhanded⟩ := h.agrees
  refine ⟨h.hands, ⟨fun _ => hdecided, fun hd => ?_, hhanded⟩, h.known, h.stage⟩
  exact absurd (honly .drop hd) (by simp)

/-- The request is handed over. -/
theorem hand (h : Proper log (.cleared ref)) (data : Bytes) :
    Proper (log ++ [.handed ref data]) .quiet := by
  obtain ⟨htested, hdrop, hhanded⟩ := h.agrees
  refine ⟨⟨?_, ?_, ?_⟩, trivial, known_append h.known ?_, by simp [Stage.ref]⟩
  · intro r
    -- the request of the stage has not been handed over before
    rw [List.countP_append, List.countP_singleton]
    by_cases hr : ref = r
    · have hzero : log.countP (Effect.hands r) = 0 := by
        rw [List.countP_eq_zero]
        intro e he hh
        cases e <;> simp [Effect.hands] at hh
        exact hhanded _ (hr ▸ hh ▸ he)
      rw [hzero]
      split <;> omega
    · have hone := h.hands.once r
      simpa [Effect.hands, hr] using hone
  · intro l₁ l₂ r d heq ht
    rcases List.append_eq_append_iff.mp heq with ⟨l, rfl, hl⟩ | ⟨l, rfl, hl⟩
    · -- the new entry is the one in question
      have hnil : l = [] := by
        have hlen := congrArg List.length hl
        simp only [List.length_nil, List.length_append, List.length_cons] at hlen
        apply List.eq_nil_of_length_eq_zero
        omega
      subst hnil
      simp only [List.nil_append, List.cons.injEq, Effect.handed.injEq] at hl
      rw [List.append_nil]
      rw [← hl.1.1] at ht ⊢
      exact htested (by simpa using ht)
    · cases l with
      | nil =>
        simp only [List.nil_append, List.cons.injEq, Effect.handed.injEq] at hl
        rw [List.append_nil] at htested ht
        rw [hl.1.1] at ht ⊢
        exact htested (by simpa using ht)
      | cons e l =>
        simp only [List.cons_append, List.cons.injEq] at hl
        exact h.hands.afterForward l₁ l r d (by rw [hl.1]) (by simpa using ht)
  · intro r d hd hh
    have hd : .decided r .drop ∈ log := by simpa using hd
    rcases List.mem_append.mp hh with hh | hh
    · exact h.hands.notAfterDrop r d hd hh
    · simp only [List.mem_singleton, Effect.handed.injEq] at hh
      exact hdrop (hh.1 ▸ hd)
  · intro e he r hr
    simp only [List.mem_singleton] at he
    simp only [he, Effect.subject, Option.mem_def, Option.some.injEq] at hr
    rw [tookRefs_append, ← hr]
    exact List.mem_append_left _ (h.stage ref rfl)

end Proper

end BurpTUI
