import BurpTUI.Base.StepSystem
import BurpTUI.Proxy.InterceptManager

namespace BurpTUI.InterceptCustody

open InterceptManager (Taken)

/-- Requests are numbered in the order of arrival, and `onDecision` is that number. `calls` holds,
for each thread that has taken requests, those whose callback it still has to call. `arrived`,
`decided` and `removed` only record the run; a removed request is noted with the id that was
asked for. -/
structure State where
  manager : InterceptManager ℕ := {}
  calls : List (ℕ × List (Taken ℕ)) := []
  arrived : List (InterceptedRequest ℕ) := []
  decided : List (ℕ × InterceptAction) := []
  removed : List (ℕ × ℤ) := []
  deriving DecidableEq, Repr

/-- `t` is the thread. `setInterceptEnabled` is `storeEnabled`, and then `popAll .forward` when the
flag was cleared; what follows holds for any order of the two. -/
inductive Label
  | interceptRequest (id : ℤ) (isHttps : Bool) (host : Bytes) (port : UInt16) (request : Option Ref)
  | popFront (t : ℕ) (action : InterceptAction)
  | popAll (t : ℕ) (action : InterceptAction)
  | removeById (id : ℤ)
  | storeEnabled (enabled : Bool)
  /-- the next callback of a call, or the end of the call -/
  | onDecision (k : ℕ)

def State.busy (s : State) (t : ℕ) : Bool := s.calls.any fun c => c.1 == t

/-- Thread `t` has taken requests out of the queue. -/
def State.take (s : State) (t : ℕ) (taken : List (Taken ℕ)) (manager : InterceptManager ℕ) : State :=
  { s with manager := manager, calls := s.calls ++ [(t, taken)] }

def step (s : State) : Label → Option State
  | .interceptRequest id isHttps host port request =>
    let item : InterceptedRequest ℕ :=
      { id := id, isHttps := isHttps, host := host, port := port, request := request
        onDecision := s.arrived.length }
    some { s with manager := s.manager.interceptRequest item, arrived := s.arrived ++ [item] }
  | .popFront t action =>
    if s.busy t then none
    else some (s.take t (s.manager.popFront action).1.toList (s.manager.popFront action).2)
  | .popAll t action =>
    if s.busy t then none
    else some (s.take t (s.manager.popAll action).1 (s.manager.popAll action).2)
  | .removeById id =>
    some { s with
      manager := s.manager.removeById id
      removed := s.removed ++ (s.manager.queue.filter fun item => item.id = id).map fun item =>
        (item.onDecision, id) }
  | .storeEnabled enabled => some { s with manager := s.manager.storeEnabled enabled }
  | .onDecision k =>
    match s.calls[k]? with
    | some (t, (item, action) :: rest) => some { s with
        calls := s.calls.set k (t, rest)
        decided := s.decided ++ [(item.onDecision, action)] }
    | some (_, []) => some { s with calls := s.calls.eraseIdx k }
    | none => none

def system : StepSystem.System State Label where
  init s := s = {}
  step := step

/-- The numbers below `N` are spread over four lists. -/
def Spread (N : ℕ) (q t d r : List ℕ) : Prop :=
  ∀ n, q.count n + t.count n + d.count n + r.count n = if n < N then 1 else 0

namespace Spread

variable {N : ℕ} {q q' t t' a d r : List ℕ}

theorem nil : Spread 0 [] [] [] [] := by
  intro n
  simp

theorem arrive (h : Spread N q t d r) : Spread (N + 1) (q ++ [N]) t d r := by
  intro n
  have hn := h n
  rw [List.count_append, List.count_singleton]
  by_cases heq : N = n
  · subst heq
    simp only [beq_self_eq_true, if_true, Nat.lt_irrefl, if_false, Nat.lt_succ_self] at hn ⊢
    omega
  · have hlt : n < N + 1 ↔ n < N := by omega
    simp only [beq_iff_eq, heq, if_false, hlt]
    omega

theorem take (h : Spread N (a ++ q) t d r) : Spread N q (t ++ a) d r := by
  intro n
  have hn := h n
  rw [List.count_append] at hn ⊢
  omega

theorem decide {n : ℕ} (h : Spread N q (t ++ n :: t') d r) : Spread N q (t ++ t') (d ++ [n]) r := by
  intro m
  have hm := h m
  rw [List.count_append, List.count_cons] at hm
  rw [List.count_append, List.count_append, List.count_singleton]
  omega

theorem remove (h : Spread N q t d r) (hq : ∀ n, q.count n = q'.count n + a.count n) :
    Spread N q' t d (r ++ a) := by
  intro n
  have hn := h n
  rw [hq] at hn
  rw [List.count_append]
  omega

theorem lt_of_mem (h : Spread N q t d r) {n : ℕ} (hn : n ∈ q ++ t ++ d ++ r) : n < N := by
  by_contra hlt
  have hzero := h n
  rw [if_neg hlt] at hzero
  have hpos := List.count_pos_iff.mpr hn
  simp only [List.count_append] at hpos
  omega

end Spread

namespace State

variable (s : State)

def queuedTags : List ℕ := s.manager.queue.map InterceptedRequest.onDecision

def takenTags : List ℕ := (s.calls.flatMap Prod.snd).map fun item => item.1.onDecision

def decidedTags : List ℕ := s.decided.map Prod.fst

def removedTags : List ℕ := s.removed.map Prod.fst

end State

/-- Every request that arrived is queued, taken, decided or removed: exactly one of them, once. -/
structure Custody (s : State) : Prop where
  once : Spread s.arrived.length s.queuedTags s.takenTags s.decidedTags s.removedTags
  order : s.queuedTags.Pairwise (· < ·)
  items : ∀ item ∈ s.manager.queue, s.arrived[item.onDecision]? = some item
  ids : ∀ r ∈ s.removed, ∃ item, s.arrived[r.1]? = some item ∧ item.id = r.2

/-- All decisions are made by thread `t`. -/
def DecidedBy (t : ℕ) (_ : State) : Label → Prop
  | .popFront t' _ => t' = t
  | .popAll t' _ => t' = t
  | _ => True

variable {s u : State} {t : ℕ}

instance (t : ℕ) (s : State) (a : Label) : Decidable (DecidedBy t s a) := by
  cases a <;> unfold DecidedBy <;> infer_instance

theorem custody_init : Custody {} := ⟨.nil, List.Pairwise.nil, by simp, by simp⟩

namespace Custody

/-- What is known of earlier requests does not change when one more arrives. -/
theorem arrived_append {item : InterceptedRequest ℕ} {n : ℕ} (h : s.arrived[n]? = some item)
    (new : InterceptedRequest ℕ) : (s.arrived ++ [new])[n]? = some item := by
  have hlt := (List.getElem?_eq_some_iff.mp h).1
  rw [List.getElem?_append_left hlt]
  exact h

theorem interceptRequest (h : Custody s) {new : InterceptedRequest ℕ}
    (hnew : new.onDecision = s.arrived.length) :
    Custody { s with manager := s.manager.interceptRequest new, arrived := s.arrived ++ [new] } := by
  have hqueued : (s.manager.queue ++ [new]).map InterceptedRequest.onDecision =
      s.queuedTags ++ [s.arrived.length] := by
    simp [State.queuedTags, hnew]
  have hlength : (s.arrived ++ [new]).length = s.arrived.length + 1 := by simp
  refine ⟨?_, ?_, fun item hitem => ?_, fun r hr => ?_⟩
  · show Spread (s.arrived ++ [new]).length ((s.manager.queue ++ [new]).map _) _ _ _
    rw [hqueued, hlength]
    exact h.once.arrive
  · show ((s.manager.queue ++ [new]).map _).Pairwise _
    rw [hqueued, List.pairwise_append]
    refine ⟨h.order, List.pairwise_singleton _ _, fun a ha b hb => ?_⟩
    rw [List.mem_singleton.mp hb]
    exact h.once.lt_of_mem (by simp [ha])
  · rcases List.mem_append.mp hitem with hitem | hitem
    · exact arrived_append (h.items item hitem) new
    · rw [List.mem_singleton.mp hitem, hnew]
      show (s.arrived ++ [new])[s.arrived.length]? = some new
      simp
  · obtain ⟨item, hitem, hid⟩ := h.ids r hr
    exact ⟨item, arrived_append hitem new, hid⟩

theorem queuedTags_eq {taken : List (Taken ℕ)} {m : InterceptManager ℕ}
    (hqueue : s.manager.queue = taken.map Prod.fst ++ m.queue) : s.queuedTags =
      taken.map (fun item => item.1.onDecision) ++ m.queue.map InterceptedRequest.onDecision := by
  rw [State.queuedTags, hqueue, List.map_append, List.map_map]
  rfl

theorem takenTags_take (s : State) (t : ℕ) (taken : List (Taken ℕ)) (m : InterceptManager ℕ) :
    (s.take t taken m).takenTags = s.takenTags ++ taken.map fun item => item.1.onDecision := by
  simp [State.takenTags, State.take]

/-- A front part of the queue is taken. -/
theorem take (h : Custody s) {taken : List (Taken ℕ)} {m : InterceptManager ℕ}
    (hqueue : s.manager.queue = taken.map Prod.fst ++ m.queue) (t : ℕ) :
    Custody (s.take t taken m) := by
  have hqueued := queuedTags_eq hqueue
  refine ⟨?_, ?_, fun item hitem => h.items item ?_, h.ids⟩
  · have honce := h.once
    rw [hqueued] at honce
    rw [takenTags_take]
    exact honce.take
  · have horder := h.order
    rw [hqueued, List.pairwise_append] at horder
    exact horder.2.1
  · rw [hqueue]
    exact List.mem_append_right _ hitem

theorem removeById (h : Custody s) (id : ℤ) : Custody { s with
    manager := s.manager.removeById id
    removed := s.removed ++ (s.manager.queue.filter fun item => item.id = id).map fun item =>
      (item.onDecision, id) } := by
  have hsub : (s.manager.queue.filter fun item => item.id ≠ id).Sublist s.manager.queue :=
    List.filter_sublist
  refine ⟨?_, h.order.sublist (hsub.map _), fun item hitem => h.items item (hsub.subset hitem),
    fun r hr => ?_⟩
  · have hremoved : State.removedTags { s with
        manager := s.manager.removeById id
        removed := s.removed ++ (s.manager.queue.filter fun item => item.id = id).map fun item =>
          (item.onDecision, id) } = s.removedTags ++
        (s.manager.queue.filter fun item => item.id = id).map InterceptedRequest.onDecision := by
      simp [State.removedTags, Function.comp_def]
    rw [hremoved]
    refine h.once.remove fun n => ?_
    show (s.manager.queue.map _).count n = ((s.manager.queue.filter _).map _).count n + _
    induction s.manager.queue with
    | nil => rfl
    | cons item items ih =>
      -- an item goes into the record or stays in the queue
      by_cases hid : item.id = id
      · simp only [List.map_cons, List.count_cons, List.filter_cons, hid, ne_eq, not_true_eq_false,
          decide_false, decide_true, if_true, Bool.false_eq_true, if_false]
        simp only [ne_eq] at ih
        omega
      · simp only [List.map_cons, List.count_cons, List.filter_cons, hid, ne_eq, not_false_eq_true,
          decide_false, decide_true, if_true, Bool.false_eq_true, if_false]
        simp only [ne_eq] at ih
        omega
  · rcases List.mem_append.mp hr with hr | hr
    · exact h.ids r hr
    · obtain ⟨item, hitem, rfl⟩ := List.mem_map.mp hr
      obtain ⟨hmem, hid⟩ := List.mem_filter.mp hitem
      exact ⟨item, h.items item hmem, by simpa using hid⟩

/-- The taken requests around the next callback of a call. -/
theorem takenTags_split {k : ℕ} {item : InterceptedRequest ℕ} {action : InterceptAction}
    {rest : List (Taken ℕ)} (hk : s.calls[k]? = some (t, (item, action) :: rest)) : ∃ a b,
      s.takenTags = a ++ item.onDecision :: b ∧ ((s.calls.set k (t, rest)).flatMap Prod.snd).map
        (fun item => item.1.onDecision) = a ++ b := by
  obtain ⟨hlt, hget⟩ := List.getElem?_eq_some_iff.mp hk
  have hsplit : s.calls = s.calls.take k ++ (t, (item, action) :: rest) :: s.calls.drop (k + 1) := by
    rw [← hget, List.getElem_cons_drop, List.take_append_drop]
  have hset : s.calls.set k (t, rest) = s.calls.take k ++ (t, rest) :: s.calls.drop (k + 1) := by
    rw [List.set_eq_take_append_cons_drop, if_pos hlt]
  refine ⟨((s.calls.take k).flatMap Prod.snd).map fun item => item.1.onDecision,
    (rest ++ (s.calls.drop (k + 1)).flatMap Prod.snd).map fun item => item.1.onDecision, ?_, ?_⟩
  · rw [State.takenTags]
    conv_lhs => rw [hsplit]
    simp
  · rw [hset]
    simp

/-- The callback of a taken request is called. -/
theorem onDecision (h : Custody s) {k : ℕ} {item : InterceptedRequest ℕ} {action : InterceptAction}
    {rest : List (Taken ℕ)} (hk : s.calls[k]? = some (t, (item, action) :: rest)) :
    Custody { s with
      calls := s.calls.set k (t, rest), decided := s.decided ++ [(item.onDecision, action)] } := by
  obtain ⟨a, b, htaken, hleft⟩ := takenTags_split hk
  have honce := h.once
  rw [htaken] at honce
  refine ⟨?_, h.order, h.items, h.ids⟩
  have hdecided : State.decidedTags { s with
      calls := s.calls.set k (t, rest), decided := s.decided ++ [(item.onDecision, action)] } =
      s.decidedTags ++ [item.onDecision] := by
    simp [State.decidedTags]
  rw [hdecided]
  show Spread _ _ (((s.calls.set k (t, rest)).flatMap Prod.snd).map _) _ _
  rw [hleft]
  exact honce.decide

/-- The call has no callback left. -/
theorem takenTags_eraseIdx {k : ℕ} (hk : s.calls[k]? = some (t, [])) :
    ((s.calls.eraseIdx k).flatMap Prod.snd).map (fun item => item.1.onDecision) = s.takenTags := by
  obtain ⟨hlt, hget⟩ := List.getElem?_eq_some_iff.mp hk
  have hsplit : s.calls = s.calls.take k ++ (t, []) :: s.calls.drop (k + 1) := by
    rw [← hget, List.getElem_cons_drop, List.take_append_drop]
  rw [State.takenTags]
  conv_rhs => rw [hsplit]
  rw [List.eraseIdx_eq_take_drop_succ]
  simp

end Custody

/-- The two ways to take requests take them from the front. -/
theorem popFront_queue_eq (m : InterceptManager ℕ) (action : InterceptAction) :
    m.queue = (m.popFront action).1.toList.map Prod.fst ++ (m.popFront action).2.queue := by
  unfold InterceptManager.popFront
  split <;> simp_all

theorem popAll_queue_eq (m : InterceptManager ℕ) (action : InterceptAction) :
    m.queue = (m.popAll action).1.map Prod.fst ++ (m.popAll action).2.queue := by
  simp [InterceptManager.popAll, Function.comp_def]

theorem custody_step {a : Label} (h : Custody s) (hstep : step s a = some u) : Custody u := by
  cases a with
  | interceptRequest id isHttps host port request => cases hstep; exact h.interceptRequest rfl
  | popFront t action =>
    simp only [step] at hstep
    split at hstep
    · cases hstep
    · cases hstep
      exact h.take (popFront_queue_eq s.manager action) t
  | popAll t action =>
    simp only [step] at hstep
    split at hstep
    · cases hstep
    · cases hstep
      exact h.take (popAll_queue_eq s.manager action) t
  | removeById id => cases hstep; exact h.removeById id
  | storeEnabled enabled => cases hstep; exact ⟨h.once, h.order, h.items, h.ids⟩
  | onDecision k =>
    simp only [step] at hstep
    split at hstep
    · rename_i t item action rest hk
      cases hstep
      exact h.onDecision hk
    · rename_i t hk
      cases hstep
      refine ⟨?_, h.order, h.items, h.ids⟩
      show Spread _ _ (((s.calls.eraseIdx k).flatMap Prod.snd).map _) _ _
      rw [Custody.takenTags_eraseIdx hk]
      exact h.once
    · cases hstep

/-- All requests that were not removed, in the order in which a single thread decides them. -/
structure InLine (t : ℕ) (s : State) : Prop where
  sorted : (s.decidedTags ++ s.takenTags ++ s.queuedTags).Pairwise (· < ·)
  calls : s.calls = [] ∨ ∃ taken, s.calls = [(t, taken)]

theorem inLine_init (t : ℕ) : InLine t {} := ⟨List.Pairwise.nil, Or.inl rfl⟩

theorem InLine.only_call (h : InLine t s) {k : ℕ} {c : ℕ × List (Taken ℕ)} (hk : s.calls[k]? = some c) :
    k = 0 ∧ c.1 = t ∧ s.calls = [c] := by
  have hlt := (List.getElem?_eq_some_iff.mp hk).1
  rcases h.calls with hnone | ⟨taken, hone⟩
  · simp [hnone] at hk
  · simp only [hone, List.length_singleton, Nat.lt_one_iff] at hlt
    subst hlt
    simp only [hone, List.getElem?_cons_zero, Option.some.injEq] at hk
    rw [← hk]
    exact ⟨rfl, rfl, hone⟩

/-- The thread is between two calls. -/
theorem InLine.take (h : InLine t s) (hbusy : s.busy t = false) {taken : List (Taken ℕ)}
    {m : InterceptManager ℕ} (hqueue : s.manager.queue = taken.map Prod.fst ++ m.queue) :
    InLine t (s.take t taken m) := by
  have hnone : s.calls = [] := by
    rcases h.calls with hnone | ⟨taken', hone⟩
    · exact hnone
    · simp [State.busy, hone] at hbusy
  have hsorted := h.sorted
  refine ⟨?_, Or.inr ⟨taken, ?_⟩⟩
  · rw [Custody.takenTags_take]
    rw [Custody.queuedTags_eq hqueue] at hsorted
    simp only [List.append_assoc] at hsorted ⊢
    exact hsorted
  · show s.calls ++ [(t, taken)] = [(t, taken)]
    rw [hnone, List.nil_append]

theorem inLine_step {a : Label} (hs : Custody s) (h : InLine t s) (ha : DecidedBy t s a)
    (hstep : step s a = some u) : InLine t u := by
  cases a with
  | interceptRequest id isHttps host port request =>
    cases hstep
    refine ⟨?_, h.calls⟩
    have hqueued : (s.manager.queue ++ [({ id, isHttps, host, port, request
                                           onDecision := s.arrived.length } : InterceptedRequest ℕ)]).map
        InterceptedRequest.onDecision = s.queuedTags ++ [s.arrived.length] := by
      simp [State.queuedTags]
    show (s.decidedTags ++ s.takenTags ++ (s.manager.queue ++ _).map _).Pairwise _
    rw [hqueued, ← List.append_assoc, List.pairwise_append]
    refine ⟨h.sorted, List.pairwise_singleton _ _, fun n hn m hm => ?_⟩
    rw [List.mem_singleton.mp hm]
    -- what is under way has arrived earlier
    refine hs.once.lt_of_mem ?_
    simp only [List.mem_append] at hn ⊢
    tauto
  | popFront t' action =>
    simp only [step] at hstep
    split at hstep
    · cases hstep
    · rename_i hbusy
      cases hstep
      have hsame : t' = t := ha
      subst hsame
      exact h.take (by simpa using hbusy) (popFront_queue_eq s.manager action)
  | popAll t' action =>
    simp only [step] at hstep
    split at hstep
    · cases hstep
    · rename_i hbusy
      cases hstep
      have hsame : t' = t := ha
      subst hsame
      exact h.take (by simpa using hbusy) (popAll_queue_eq s.manager action)
  | removeById id =>
    cases hstep
    refine ⟨h.sorted.sublist (List.Sublist.append_left ?_ _), h.calls⟩
    exact List.filter_sublist.map _
  | storeEnabled enabled => cases hstep; exact ⟨h.sorted, h.calls⟩
  | onDecision k =>
    simp only [step] at hstep
    split at hstep
    · rename_i t' item action rest hk
      cases hstep
      -- there is only one call, and its first request is the next one in the line
      obtain ⟨rfl, rfl, hone⟩ := h.only_call hk
      refine ⟨?_, Or.inr ⟨rest, by simp [hone]⟩⟩
      have hsorted := h.sorted
      simpa [State.decidedTags, State.takenTags, State.queuedTags, hone] using hsorted
    · rename_i t' hk
      cases hstep
      obtain ⟨rfl, -, hone⟩ := h.only_call hk
      refine ⟨?_, Or.inl (by simp [hone])⟩
      show (s.decidedTags ++ ((s.calls.eraseIdx 0).flatMap Prod.snd).map _ ++ _).Pairwise _
      rw [Custody.takenTags_eraseIdx hk]
      exact h.sorted
    · cases hstep

theorem reached_custody (h : system.Reached s) : Custody s :=
  h.invariant (I := Custody) (fun s h0 => by rw [h0]; exact custody_init)
    fun _ _ _ hs _ hstep => custody_step hs hstep

/-- Every request that was ever passed to `interceptRequest` is at each moment in one of the four
conditions, and a single thread decides in the order of arrival. -/
theorem requests_in_custody : (∀ s, system.Reached s → Custody s) ∧
    ∀ t s, system.ReachedUnder (DecidedBy t) s → s.decidedTags.Pairwise (· < ·) := by
  refine ⟨fun s hs => reached_custody hs, fun t s hs => ?_⟩
  have hline : InLine t s := hs.invariant_of (J := Custody) (I := InLine t)
    (fun r hr => reached_custody hr.reached) (fun r h0 => by rw [h0]; exact inLine_init t)
    fun _ _ _ hr hl ha hstep => inLine_step hr hl ha hstep
  have hsorted := hline.sorted
  rw [List.append_assoc, List.pairwise_append] at hsorted
  exact hsorted.1

/-- Three requests arrive; the second one is removed while the callback of the first is due. -/
def threeRequestsRun : List Label :=
  [.storeEnabled true, .interceptRequest 1 false [] 80 none, .interceptRequest 2 true [] 443 none,
    .interceptRequest 3 false [] 80 none, .popFront 7 .drop, .removeById 2, .onDecision 0,
    .onDecision 0, .storeEnabled false, .popAll 7 .forward, .onDecision 0]

theorem requests_in_custody_threeRequests : ∃ s, system.run {} threeRequestsRun = some s ∧
    Custody s ∧ s.removed = [(1, 2)] ∧ s.decidedTags = [0, 2] ∧
      s.decidedTags.Pairwise (· < ·) := by
  have hrun : (system.runUnder (DecidedBy 7) {} threeRequestsRun).any
      (fun s => s.removed == [(1, 2)] && s.decidedTags == [0, 2]) = true := by decide
  have hsame : system.runUnder (DecidedBy 7) {} threeRequestsRun = system.run {} threeRequestsRun := by
    decide
  obtain ⟨s, hs, hvalues⟩ := (Option.any_eq_true _ _).mp hrun
  rw [Bool.and_eq_true, beq_iff_eq, beq_iff_eq] at hvalues
  have hunder : system.ReachedUnder (DecidedBy 7) s := .runUnder (.init rfl) hs
  exact ⟨s, hsame ▸ hs, requests_in_custody.1 s hunder.reached, hvalues.1, hvalues.2,
    requests_in_custody.2 7 s hunder⟩

end BurpTUI.InterceptCustody
