import BurpTUI.Base.StepSystem
import BurpTUI.Http.RawText
import BurpTUI.Proxy.InterceptManager
import BurpTUI.Tui.HttpFormatter
import BurpTUI.Tui.TextEditor
import Mathlib.Logic.Function.Basic

namespace BurpTUI.ProxyTab

variable {κ : Type}

/-- Where the UI thread stands in a click handler. -/
inductive UiCall (κ : Type)
  | idle
  | enabling
  | disabling
  /-- a Forward click has called `peekCurrent` -/
  | peeked (cur : Option (InterceptedRequest κ))
  /-- and, if `cur` is a request, has overwritten it with the editor text -/
  | overwritten (cur : Option (InterceptedRequest κ))
  deriving DecidableEq

def UiCall.current : UiCall κ → Option (InterceptedRequest κ)
  | .peeked cur => cur
  | .overwritten cur => cur
  | _ => none

/-- What one Forward click did: the request that it overwrote, the request that the editor text
was loaded from, and the request that it released. -/
structure ForwardClick (κ : Type) where
  overwrote : Option (InterceptedRequest κ)
  editorFrom : Option ℤ
  released : Option (InterceptedRequest κ)
  deriving DecidableEq

/-- The last four fields only record the run. -/
structure State (κ : Type) where
  manager : InterceptManager κ := {}
  heap : Ref → HttpRequest := fun _ => {}
  editor : TextEditor := {}
  lastInterceptId : ℤ := -1
  call : UiCall κ := .idle
  loadedFrom : Option ℤ := none
  /-- the front request is not the one that the last render with interception on saw -/
  frontChanged : Bool := false
  /-- the request that the current Forward click peeked at was removed -/
  peekedRemoved : Bool := false
  clicks : List (ForwardClick κ) := []

inductive Label (κ : Type)
  | render
  /-- the keystroke leaves the editor in this state -/
  | key (editor : TextEditor)
  | toggle
  | finishToggle
  | forwardPeek
  | forwardOverwrite
  | forwardPop
  | dropCurrent
  | interceptRequest (item : InterceptedRequest κ) (request : HttpRequest)
  | removeById (id : ℤ)

def State.withManager [DecidableEq κ] (s : State κ) (m : InterceptManager κ) : State κ :=
  { s with
    manager := m
    frontChanged := s.frontChanged || decide (m.peekCurrent ≠ s.manager.peekCurrent) }

/-- The pending request that the tab shows, with the address of its `HttpRequest`. -/
def shownItem (m : InterceptManager κ) : Option (InterceptedRequest κ × Ref) :=
  m.peekCurrent.bind fun item => item.request.map fun ref => (item, ref)

/-- The renderer, as far as it touches the intercept editor. -/
def render (s : State κ) : State κ :=
  if s.manager.interceptEnabled then
    match shownItem s.manager with
    | some (item, ref) =>
      if item.id ≠ s.lastInterceptId then
        { s with
          lastInterceptId := item.id
          editor := s.editor.setText (formatHttpRequestRaw (s.heap ref) item.isHttps item.host)
          loadedFrom := some item.id
          frontChanged := false }
      else { s with frontChanged := false }
    | none => { s with lastInterceptId := -1, frontChanged := false }
  else s

def storeAt (heap : Ref → HttpRequest) (ref : Option Ref) (r : HttpRequest) : Ref → HttpRequest :=
  match ref with
  | some a => Function.update heap a r
  | none => heap

/-- UI steps need the UI thread to be free. The identifiers come from `nextId_`, which starts
at 1. -/
def step [DecidableEq κ] (s : State κ) : Label κ → Option (State κ)
  | .render => if s.call = .idle then some (render s) else none
  | .key editor => if s.call = .idle then some { s with editor := editor } else none
  | .toggle =>
    if s.call = .idle then some { s with
        manager := s.manager.storeEnabled (!s.manager.interceptEnabled)
        call := if s.manager.interceptEnabled then .disabling else .enabling }
    else none
  | .finishToggle =>
    match s.call with
    | .enabling => some { s with call := .idle }
    | .disabling => some { s.withManager s.manager.forwardAll.2 with call := .idle }
    | _ => none
  | .forwardPeek =>
    if s.call = .idle then
      some { s with call := .peeked s.manager.peekCurrent, peekedRemoved := false }
    else none
  | .forwardOverwrite =>
    match s.call with
    | .peeked cur =>
      match cur.bind InterceptedRequest.request with
      | some ref => some { s with
          heap := storeAt s.heap (some ref) (parseRawHttpRequest s.editor.getText)
          call := .overwritten cur }
      | none => some { s with call := .overwritten none }
    | _ => none
  | .forwardPop =>
    match s.call with
    | .overwritten cur => some { s.withManager s.manager.forwardCurrent.2 with
        call := .idle
        clicks := s.clicks ++ [{
          overwrote := cur
          editorFrom := s.loadedFrom
          released := s.manager.forwardCurrent.1.map Prod.fst }] }
    | _ => none
  | .dropCurrent =>
    if s.call = .idle then some (s.withManager s.manager.dropCurrent.2) else none
  | .interceptRequest item request =>
    if 0 < item.id then
      some { s.withManager (s.manager.interceptRequest item) with
        heap := storeAt s.heap item.request request }
    else none
  | .removeById id =>
    some { s.withManager (s.manager.removeById id) with
      peekedRemoved :=
        s.peekedRemoved || s.call.current.any fun item => decide (item.id = id) }

def system [DecidableEq κ] : StepSystem.System (State κ) (Label κ) where
  init s := s = {}
  step := step

/-- A click that overwrites a request and releases one releases the request that it overwrote,
with a text that was loaded from that request. -/
def ForwardClick.Matches (c : ForwardClick κ) : Prop :=
  ∀ item ∈ c.overwrote, ∀ r ∈ c.released, c.editorFrom = some item.id ∧ r = item

/-- A Forward click on a pending request is made only if that request was already the front one
at the last render with interception on; and if the request is removed while the click is under
way, no other request is pending when the click pops. -/
def Settled (s : State κ) : Label κ → Prop
  | .forwardPeek => (shownItem s.manager).isSome → s.frontChanged = false
  | .forwardPop => s.peekedRemoved = true → s.manager.queue = []
  | _ => True

instance (s : State κ) (a : Label κ) : Decidable (Settled s a) := by
  cases a <;> unfold Settled <;> infer_instance

structure Inv (s : State κ) : Prop where
  ids : ∀ item ∈ s.manager.queue, 0 < item.id
  loaded : s.lastInterceptId ≠ -1 → s.loadedFrom = some s.lastInterceptId
  shown : s.frontChanged = false → ∀ p ∈ shownItem s.manager, s.lastInterceptId = p.1.id
  front : s.peekedRemoved = false → ∀ item ∈ s.call.current, s.manager.peekCurrent = some item
  click : ∀ item ∈ s.call.current, item.request.isSome → s.loadedFrom = some item.id
  overwrote : ∀ cur, s.call = .overwritten cur → ∀ item ∈ cur, item.request.isSome
  clicks : ∀ c ∈ s.clicks, c.Matches

theorem inv_init : Inv ({} : State κ) := by
  constructor <;> simp [UiCall.current, shownItem, InterceptManager.peekCurrent]

theorem mem_of_shownItem {m : InterceptManager κ} {p : InterceptedRequest κ × Ref}
    (h : p ∈ shownItem m) : p.1 ∈ m.queue ∧ m.peekCurrent = some p.1 := by
  simp only [shownItem, Option.mem_def, Option.bind_eq_some_iff, Option.map_eq_some_iff] at h
  obtain ⟨item, hpeek, ref, -, rfl⟩ := h
  exact ⟨List.mem_of_mem_head? hpeek, hpeek⟩

theorem shownItem_of_peek {m : InterceptManager κ} {item : InterceptedRequest κ}
    (h : m.peekCurrent = some item) (hr : item.request.isSome) :
    ∃ ref, shownItem m = some (item, ref) := by
  obtain ⟨ref, href⟩ := Option.isSome_iff_exists.mp hr
  exact ⟨ref, by simp [shownItem, h, href]⟩

theorem idle_current {s : State κ} (h : s.call = .idle) : s.call.current = none := by
  rw [h]
  rfl

theorem Inv.render {s : State κ} (hs : Inv s) (hidle : s.call = .idle) : Inv (render s) := by
  have hcur := idle_current hidle
  have hnone : ∀ item, item ∉ s.call.current := by simp [hcur]
  unfold ProxyTab.render
  split
  · split
    · rename_i item ref hshown
      have hitem := mem_of_shownItem (p := (item, ref)) hshown
      split
      · refine { hs with loaded := fun _ => rfl, shown := fun _ p hp => ?_, click := ?_ }
        · rw [Option.mem_def, hshown, Option.some.injEq] at hp
          rw [← hp]
        · exact fun item hi => absurd hi (hnone item)
      · rename_i hsame
        refine { hs with shown := fun _ p hp => ?_ }
        rw [Option.mem_def, hshown, Option.some.injEq] at hp
        rw [← hp]
        exact (not_not.mp hsame).symm
    · rename_i hshown
      refine { hs with loaded := fun h => absurd rfl h, shown := fun _ p hp => ?_ }
      rw [Option.mem_def, hshown] at hp
      cases hp
  · exact hs

/-- The editor shows the request that a settled click peeks at. -/
theorem Inv.peek {s : State κ} (hs : Inv s) (hc : Settled s .forwardPeek) :
    Inv { s with call := .peeked s.manager.peekCurrent, peekedRemoved := false } := by
  refine { hs with front := fun _ item hi => hi, click := fun item hi hr => ?_, overwrote := ?_ }
  · have hpeek : s.manager.peekCurrent = some item := hi
    obtain ⟨ref, hshown⟩ := shownItem_of_peek hpeek hr
    have hid := hs.shown (hc (by simp [hshown])) (item, ref) hshown
    have hpos := hs.ids item (mem_of_shownItem (p := (item, ref)) hshown).1
    have hne : s.lastInterceptId ≠ -1 := by
      simp only at hid
      omega
    rw [← hid]
    exact hs.loaded hne
  · intro cur h
    cases h

theorem Inv.toIdle {s : State κ} (hs : Inv s) : Inv { s with call := .idle } := by
  refine { hs with front := ?_, click := ?_, overwrote := ?_ }
  · intro _ item hi
    cases hi
  · intro item hi
    cases hi
  · intro cur h
    cases h

theorem Inv.ids_popFront {s : State κ} (hs : Inv s) (a : InterceptAction) :
    ∀ item ∈ (s.manager.popFront a).2.queue, 0 < item.id := by
  intro item hi
  rw [InterceptManager.popFront_queue] at hi
  exact hs.ids item (List.mem_of_mem_tail hi)

variable [DecidableEq κ]

/-- What the queue operations have to keep. -/
theorem Inv.withManager {s : State κ} (hs : Inv s) {m : InterceptManager κ}
    (hids : ∀ item ∈ m.queue, 0 < item.id)
    (hfront : s.peekedRemoved = false → ∀ item ∈ s.call.current, m.peekCurrent = some item) :
    Inv (s.withManager m) where
  ids := hids
  loaded := hs.loaded
  shown := by
    intro hchanged p hp
    simp only [State.withManager, Bool.or_eq_false_iff, decide_eq_false_iff_not, not_not]
      at hchanged hp
    refine hs.shown hchanged.1 p ?_
    rwa [shownItem, ← hchanged.2]
  front := hfront
  click := hs.click
  overwrote := hs.overwrote
  clicks := hs.clicks

theorem Inv.overwrite {s t : State κ} (hs : Inv s) (h : step s .forwardOverwrite = some t) :
    Inv t := by
  simp only [step] at h
  split at h
  · rename_i cur hcall
    split at h
    · rename_i ref href
      cases h
      have hcur : s.call.current = cur := by rw [hcall]; rfl
      refine { hs with front := ?_, click := ?_, overwrote := ?_ }
      · exact hcur ▸ hs.front
      · exact hcur ▸ hs.click
      · intro cur' h item hi
        cases h
        obtain ⟨item', hc', hr'⟩ := Option.bind_eq_some_iff.mp href
        rw [Option.mem_def, hc', Option.some.injEq] at hi
        rw [← hi, hr']
        rfl
    · cases h
      refine { hs with front := ?_, click := ?_, overwrote := ?_ }
      · intro _ item hi
        cases hi
      · intro item hi
        cases hi
      · intro cur' h item hi
        cases h
        cases hi
  · cases h

/-- A step that finds the UI thread at the end of a handler. -/
theorem Inv.drain {s : State κ} (hs : Inv s) {m : InterceptManager κ}
    (hids : ∀ item ∈ m.queue, 0 < item.id) : Inv { s.withManager m with call := .idle } :=
  hs.toIdle.withManager hids fun _ item hi => by cases hi

theorem Inv.pop {s t : State κ} (hs : Inv s) (hc : Settled s .forwardPop)
    (h : step s .forwardPop = some t) : Inv t := by
  simp only [step] at h
  split at h
  · rename_i cur hcall
    cases h
    have hcur : s.call.current = cur := by rw [hcall]; rfl
    have hclick : ForwardClick.Matches
        { overwrote := cur, editorFrom := s.loadedFrom,
          released := s.manager.forwardCurrent.1.map Prod.fst } := by
      intro item hi r hr
      have hreq := hs.overwrote cur hcall item hi
      refine ⟨hs.click item (hcur ▸ hi) hreq, ?_⟩
      rw [InterceptManager.popFront_taken, Option.map_map] at hr
      have hpeek : s.manager.peekCurrent = some r := by simpa using hr
      cases hrem : s.peekedRemoved with
      | false =>
        have hfront := hs.front hrem item (hcur ▸ hi)
        rw [hpeek, Option.some.injEq] at hfront
        exact hfront
      | true =>
        have hempty := hc hrem
        simp [InterceptManager.peekCurrent, hempty] at hpeek
    have hbase := hs.drain (hs.ids_popFront .forward)
    refine { hbase with clicks := fun c hc => ?_ }
    rcases List.mem_append.mp hc with hc | hc
    · exact hs.clicks c hc
    · rw [List.mem_singleton.mp hc]
      exact hclick
  · cases h

theorem Inv.finishToggle {s t : State κ} (hs : Inv s) (h : step s .finishToggle = some t) :
    Inv t := by
  simp only [step] at h
  split at h <;> cases h
  · exact hs.toIdle
  · refine hs.drain ?_
    intro item hi
    cases hi

theorem Inv.toggle {s t : State κ} (hs : Inv s) (h : step s .toggle = some t) : Inv t := by
  simp only [step, Option.ite_none_right_eq_some, Option.some.injEq] at h
  obtain ⟨hidle, rfl⟩ := h
  have hcur : ∀ b : Bool, (if b then UiCall.disabling else UiCall.enabling : UiCall κ).current =
      none := by
    intro b
    cases b <;> rfl
  refine { hs with front := ?_, click := ?_, overwrote := ?_ }
  · intro _ item hi
    rw [hcur] at hi
    cases hi
  · intro item hi
    rw [hcur] at hi
    cases hi
  · intro cur h
    split at h <;> cases h

/-- A request that arrives goes behind the front one. -/
theorem Inv.arrive {s t : State κ} {item : InterceptedRequest κ} {r : HttpRequest}
    (hs : Inv s) (h : step s (.interceptRequest item r) = some t) : Inv t := by
  simp only [step, Option.ite_none_right_eq_some, Option.some.injEq] at h
  obtain ⟨hpos, rfl⟩ := h
  have hbase : Inv (s.withManager (s.manager.interceptRequest item)) := by
    apply hs.withManager
    · intro i hi
      rcases List.mem_append.mp hi with hi | hi
      · exact hs.ids i hi
      · rw [List.mem_singleton.mp hi]
        exact hpos
    · intro hrem i hi
      have hfront := hs.front hrem i hi
      simp only [InterceptManager.peekCurrent, InterceptManager.interceptRequest_queue] at hfront ⊢
      rw [List.head?_append, hfront]
      rfl
  exact { hbase with }

/-- A removal moves the front only by taking it away. -/
theorem Inv.remove {s t : State κ} {id : ℤ} (hs : Inv s)
    (h : step s (.removeById id) = some t) : Inv t := by
  simp only [step, Option.some.injEq] at h
  subst h
  have hfront (hrem : (s.peekedRemoved ||
      s.call.current.any fun item => decide (item.id = id)) = false) :
      ∀ item ∈ s.call.current, (s.manager.removeById id).peekCurrent = some item := by
    intro item hi
    simp only [Bool.or_eq_false_iff] at hrem
    have hf := hs.front hrem.1 item hi
    have hne : item.id ≠ id := by
      have hany := hrem.2
      rw [Option.mem_def.mp hi] at hany
      simpa using hany
    simp only [InterceptManager.peekCurrent, InterceptManager.removeById_queue] at hf ⊢
    obtain ⟨rest, hq⟩ := List.head?_eq_some_iff.mp hf
    rw [hq, List.filter_cons_of_pos (by simpa using hne)]
    rfl
  let s' : State κ := { s with
    peekedRemoved := s.peekedRemoved || s.call.current.any fun item => decide (item.id = id) }
  have hs' : Inv s' := by
    refine { hs with front := fun hrem => ?_ }
    simp only [s', Bool.or_eq_false_iff] at hrem
    exact hs.front hrem.1
  have hids : ∀ item ∈ (s.manager.removeById id).queue, 0 < item.id := by
    intro item hi
    exact hs.ids item (List.mem_filter.mp hi).1
  exact hs'.withManager hids hfront

theorem Inv.step {s t : State κ} {a : Label κ} (hs : Inv s) (hc : Settled s a)
    (h : step s a = some t) : Inv t := by
  cases a with
  | render =>
    simp only [ProxyTab.step, Option.ite_none_right_eq_some, Option.some.injEq] at h
    exact h.2 ▸ hs.render h.1
  | key editor =>
    simp only [ProxyTab.step, Option.ite_none_right_eq_some, Option.some.injEq] at h
    exact h.2 ▸ { hs with }
  | toggle => exact hs.toggle h
  | finishToggle => exact hs.finishToggle h
  | forwardPeek =>
    simp only [ProxyTab.step, Option.ite_none_right_eq_some, Option.some.injEq] at h
    exact h.2 ▸ hs.peek hc
  | forwardOverwrite => exact hs.overwrite h
  | forwardPop => exact hs.pop hc h
  | dropCurrent =>
    simp only [ProxyTab.step, Option.ite_none_right_eq_some, Option.some.injEq] at h
    obtain ⟨hidle, rfl⟩ := h
    refine hs.withManager (hs.ids_popFront .drop) fun _ item hi => ?_
    rw [idle_current hidle] at hi
    cases hi
  | interceptRequest item r => exact hs.arrive h
  | removeById id => exact hs.remove h

/-- In runs whose Forward clicks are settled, no edited text is sent in place of another. -/
theorem settled_clicks_match {s : State κ} (h : system.ReachedUnder Settled s) :
    ∀ c ∈ s.clicks, c.Matches := by
  have hinv : Inv s := h.invariant (fun s h0 => h0 ▸ inv_init)
    fun _ _ _ hs hc he => hs.step hc he
  exact hinv.clicks

def pendingItem (id : ℤ) (ref : Ref) : InterceptedRequest ℕ :=
  { id := id, isHttps := false, host := str "a", port := 80, request := some ref, onDecision := 0 }

def pendingRequest (method : String) : HttpRequest :=
  { method := str method, url := str "/", headers := [(str "Host", str "a")] }

/-- Interception is switched on, two requests arrive, the tab is rendered, Forward is clicked. -/
def oneClick : List (Label ℕ) :=
  [.toggle, .finishToggle, .interceptRequest (pendingItem 1 0) (pendingRequest "GET"),
    .interceptRequest (pendingItem 2 1) (pendingRequest "DELETE"), .render,
    .forwardPeek, .forwardOverwrite, .forwardPop]

theorem settled_clicks_match_oneClick : ∃ s, system.runUnder Settled {} oneClick = some s ∧
    s.clicks.length = 1 ∧ ∀ c ∈ s.clicks, c.Matches :=
  ⟨_, rfl, rfl, settled_clicks_match (.runUnder (.init rfl)
    (show system.runUnder Settled {} oneClick = some _ from rfl))⟩

/-- Without a render in between, a second click sends the text of the first request in place of
the second one. -/
theorem second_click_sends_first_text : ¬ ∀ s : State ℕ, system.Reached s →
    ∀ c ∈ s.clicks, c.Matches := by
  intro h
  have hrun : ∃ s, system.run {} (oneClick ++ [.forwardPeek, .forwardOverwrite, .forwardPop]) =
      some s ∧ ⟨some (pendingItem 2 1), some 1, some (pendingItem 2 1)⟩ ∈ s.clicks :=
    ⟨_, rfl, by decide⟩
  obtain ⟨s, hs, hc⟩ := hrun
  have hmatch := h s (.run (.init rfl) hs) _ hc
  exact absurd (hmatch _ rfl _ rfl).1 (by decide)

end BurpTUI.ProxyTab
