import BurpTUI.Tui.HeldRequest
import BurpTUI.Tui.HistoryTab
import BurpTUI.Tui.ProxyTab
import Mathlib.Data.List.Pairwise

namespace BurpTUI

/-- A click on To Repeater with interception on. -/
structure PendingSend (κ : Type) where
  target : Target
  rawRequest : Bytes
  /-- the request that was pending, as it was at the click -/
  item : InterceptedRequest κ
  request : HttpRequest
  /-- the request that the editor text was loaded from, and whether the text has changed since -/
  loadedFrom : Option ℤ
  edited : Bool

/-- A click on To Repeater with interception off. -/
structure LiveSend where
  target : Target
  rawRequest : Bytes
  /-- how many entries there were, and how many at the last render of the live view -/
  listed : ℕ
  seen : ℕ
  shown : Bytes

/-- The Proxy tab with the entries of the History tab, which it shares; the two see the same heap.
The last fields only record the run. -/
structure LiveTab (κ : Type) where
  tab : ProxyTab.State κ := {}
  history : HistoryTab := { heap := fun _ => {} }
  lastDisplayedTxId : ℤ := -1
  liveReqViewer : ScrollableViewer := {}
  liveResViewer : ScrollableViewer := {}
  /-- how many entries there were at the last render with interception off -/
  seen : ℕ := 0
  /-- the editor text has changed since it was loaded -/
  edited : Bool := false
  /-- the requests that were intercepted -/
  asked : List (InterceptedRequest κ) := []
  pendingSends : List (PendingSend κ) := []
  liveSends : List LiveSend := []

namespace LiveTab

variable {κ : Type}

/-- The renderer with interception off. An entry without a request or a response leaves the viewer
as it is. -/
def renderLive (s : LiveTab κ) : LiveTab κ :=
  let s := { s with seen := s.history.entries.length }
  match s.history.entries.getLast? with
  | some latest =>
    if latest.id ≠ s.lastDisplayedTxId then
      { s with
        lastDisplayedTxId := latest.id
        liveReqViewer := match latest.request with
          | some ref => s.liveReqViewer.setContent
              (formatHttpRequestLines (s.history.heap ref) latest.isHttps latest.host)
              (formatHttpRequestRaw (s.history.heap ref) latest.isHttps latest.host)
          | none => s.liveReqViewer
        liveResViewer := match latest.response with
          | some response => s.liveResViewer.setContent
              (formatHttpResponseLines response) (formatHttpResponseRaw response)
          | none => s.liveResViewer }
    else s
  | none => s

/-- What `setRequest` is called with for a pending request. -/
def pendingTarget (item : InterceptedRequest κ) : Target :=
  { host := item.host, port := decimal item.port.toNat, isHttps := item.isHttps }

def toRepeater (s : LiveTab κ) : LiveTab κ :=
  if s.tab.manager.interceptEnabled then
    match ProxyTab.shownItem s.tab.manager with
    | some (item, ref) => { s with
        pendingSends := s.pendingSends ++ [{
          target := pendingTarget item
          rawRequest := s.tab.editor.getText
          item := item
          request := s.history.heap ref
          loadedFrom := s.tab.loadedFrom
          edited := s.edited }] }
    | none => s
  else
    match s.history.entries.getLast? with
    | some latest =>
      match latest.request with
      | some ref => { s with
          liveSends := s.liveSends ++ [{
            target := HistoryTab.targetOf latest
            rawRequest := formatHttpRequestRaw (s.history.heap ref) latest.isHttps latest.host
            listed := s.history.entries.length
            seen := s.seen
            shown := s.liveReqViewer.rawText }] }
      | none => s
    | none => s

inductive Label (κ : Type)
  | tab (a : ProxyTab.Label κ)
  | history (a : HistoryTab.Label)
  | toRepeater
  | liveReqViewer (c : ScrollableViewer.Call)
  | liveResViewer (c : ScrollableViewer.Call)

/-- Whether a render loads the editor. -/
def loadsEditor (s : ProxyTab.State κ) : Bool :=
  s.manager.interceptEnabled && (ProxyTab.shownItem s.manager).any fun p => p.1.id ≠ s.lastInterceptId

def editedAfter (s t : ProxyTab.State κ) (edited : Bool) : ProxyTab.Label κ → Bool
  | .render => edited && !loadsEditor s
  | .key _ => edited || decide (t.editor.getText ≠ s.editor.getText)
  | _ => edited

def intercepted : ProxyTab.Label κ → Option (InterceptedRequest κ)
  | .interceptRequest item _ => some item
  | _ => none

/-- A step of the tab has been made; a render goes on with the live view if interception is off. -/
def afterTab (s : LiveTab κ) (tab : ProxyTab.State κ) (a : ProxyTab.Label κ) : LiveTab κ :=
  let t := { s with
    tab := tab
    history := { s.history with heap := tab.heap }
    edited := editedAfter s.tab tab s.edited a
    asked := s.asked ++ (intercepted a).toList }
  match a with
  | .render => if tab.manager.interceptEnabled then t else t.renderLive
  | _ => t

/-- Only the Proxy tab writes to requests, and only reports come from another thread. -/
def Enabled [DecidableEq κ] (s : LiveTab κ) : HistoryTab.Label → Bool
  | .push _ => true
  | .write _ _ => false
  | _ => s.tab.call = .idle

def step [DecidableEq κ] (s : LiveTab κ) : Label κ → Option (LiveTab κ)
  | .tab a => (ProxyTab.step s.tab a).map fun tab => s.afterTab tab a
  | .history a =>
    if s.Enabled a then (HistoryTab.step s.history a).map fun history => { s with history := history }
    else none
  | .toRepeater => if s.tab.call = .idle then some s.toRepeater else none
  | .liveReqViewer c =>
    if s.tab.call = .idle ∧ HistoryTab.loads c = false then
      (s.liveReqViewer.call c).map fun v => { s with liveReqViewer := v }
    else none
  | .liveResViewer c =>
    if s.tab.call = .idle ∧ HistoryTab.loads c = false then
      (s.liveResViewer.call c).map fun v => { s with liveResViewer := v }
    else none

def system [DecidableEq κ] : StepSystem.System (LiveTab κ) (Label κ) where
  init s := s = {}
  step := step

/-- Two requests that were intercepted have their own identifiers and their own objects. -/
def Apart (a b : InterceptedRequest κ) : Prop := a.id ≠ b.id ∧ ∀ ref ∈ a.request, b.request ≠ some ref

instance (a b : InterceptedRequest κ) : Decidable (Apart a b) := inferInstanceAs (Decidable (_ ∧ _))

/-- The request object that a step of the tab writes to. -/
def written (s : ProxyTab.State κ) : ProxyTab.Label κ → Option Ref
  | .interceptRequest item _ => item.request
  | .forwardOverwrite => s.call.current.bind InterceptedRequest.request
  | _ => none

/-- Clicks are made on a request that was already the front one at the last render, what is intercepted
is new, nobody writes to the request of an entry, and what is reported has a request, a response and an
identifier of its own. -/
def Careful (s : LiveTab κ) : Label κ → Prop
  | .tab a => ProxyTab.Settled s.tab a ∧ (∀ item ∈ intercepted a, ∀ other ∈ s.asked, Apart other item) ∧
      ∀ ref ∈ written s.tab a, ∀ tx ∈ s.history.entries, tx.request ≠ some ref
  | .history (.push tx) => tx.request.isSome ∧ tx.response.isSome ∧ tx.id ≠ -1 ∧
      ∀ other ∈ s.history.pushed, other.id ≠ tx.id
  | .toRepeater => s.tab.manager.interceptEnabled = true →
      (ProxyTab.shownItem s.tab.manager).isSome → s.tab.frontChanged = false
  | _ => True

instance [DecidableEq κ] (s : LiveTab κ) (a : Label κ) : Decidable (Careful s a) :=
  match a with
  | .tab _ => inferInstanceAs (Decidable (_ ∧ _ ∧ _))
  | .history (.push _) => inferInstanceAs (Decidable (_ ∧ _ ∧ _ ∧ _))
  | .toRepeater => inferInstanceAs (Decidable (_ → _))
  | .history (.write _ _) | .history .custom | .history .render | .history .down | .history .up
  | .history (.arrow _) | .history (.menu _) | .history .sendToRepeater | .history (.reqViewer _)
  | .history (.resViewer _) | .liveReqViewer _ | .liveResViewer _ => inferInstanceAs (Decidable True)

/-- The identifier of the request that belongs in the editor. -/
def shownId (m : InterceptManager κ) : ℤ := ((ProxyTab.shownItem m).map fun p => p.1.id).getD (-1)

/-- The editor holds the front request if nobody typed since it was loaded. -/
structure Pending (s : ProxyTab.State κ) (asked : List (InterceptedRequest κ)) (edited : Bool) : Prop where
  tab : ProxyTab.Inv s
  apart : asked.Pairwise Apart
  queue : s.manager.queue.Sublist asked
  current : ∀ item ∈ s.call.current, item ∈ asked
  loaded : s.lastInterceptId = -1 ∨ ∃ item ∈ asked, item.id = s.lastInterceptId
  same : s.frontChanged = false → s.lastInterceptId = shownId s.manager
  moved : s.frontChanged = true → ∀ item ∈ s.manager.queue, item.id ≠ s.lastInterceptId
  text : s.frontChanged = false → edited = false → (∀ cur, s.call ≠ .overwritten (some cur)) →
    ∀ p ∈ ProxyTab.shownItem s.manager,
      s.editor.getText = normalizeCrlf (formatHttpRequestRaw (s.heap p.2) p.1.isHttps p.1.host)

section Editor

variable {s t : ProxyTab.State κ} {asked : List (InterceptedRequest κ)} {edited : Bool}

theorem shownId_congr {m m' : InterceptManager κ} (h : m.peekCurrent = m'.peekCurrent) : shownId m = shownId m' := by
  unfold shownId ProxyTab.shownItem
  rw [h]

theorem shownId_of_some {m : InterceptManager κ} {p : InterceptedRequest κ × Ref}
    (h : ProxyTab.shownItem m = some p) : shownId m = p.1.id := by
  rw [shownId, h]
  rfl

/-- What is in the editor's place is the front request or nothing. -/
theorem shownId_cases (m : InterceptManager κ) :
    shownId m = -1 ∨ ∃ item, m.peekCurrent = some item ∧ shownId m = item.id := by
  cases h : ProxyTab.shownItem m with
  | none => exact .inl (by rw [shownId, h]; rfl)
  | some p => exact .inr ⟨p.1, (ProxyTab.mem_of_shownItem h).2, shownId_of_some h⟩

/-- A step that takes requests out of the queue, and leaves the editor alone. -/
theorem Pending.shrink [DecidableEq κ] (h : Pending s asked edited) (ht : ProxyTab.Inv t)
    (hkept : t.heap = s.heap ∧ t.editor = s.editor ∧ t.lastInterceptId = s.lastInterceptId)
    (hchanged : t.frontChanged =
      (s.frontChanged || decide (t.manager.peekCurrent ≠ s.manager.peekCurrent)))
    (hqueue : t.manager.queue.Sublist s.manager.queue) (hcurrent : ∀ item ∈ t.call.current, item ∈ asked)
    (hover : t.frontChanged = false → (∀ cur, t.call ≠ .overwritten (some cur)) →
      (ProxyTab.shownItem t.manager).isSome → ∀ cur, s.call ≠ .overwritten (some cur)) :
    Pending t asked edited := by
  obtain ⟨hheap, heditor, hlast⟩ := hkept
  have hsame (hfalse : t.frontChanged = false) :
      s.frontChanged = false ∧ t.manager.peekCurrent = s.manager.peekCurrent := by
    rw [hchanged, Bool.or_eq_false_iff, decide_eq_false_iff_not, not_not] at hfalse
    exact hfalse
  refine ⟨ht, h.apart, hqueue.trans h.queue, hcurrent, by rw [hlast]; exact h.loaded, ?_, ?_, ?_⟩
  · intro hfalse
    rw [hlast, shownId_congr (hsame hfalse).2]
    exact h.same (hsame hfalse).1
  · intro htrue item hitem
    rw [hlast]
    cases hs : s.frontChanged with
    | true => exact h.moved hs item (hqueue.subset hitem)
    | false =>
      rw [hchanged, hs, Bool.false_or, decide_eq_true_eq] at htrue
      rw [h.same hs]
      rcases shownId_cases s.manager with hnone | ⟨front, hfront, hid⟩
      · have hpos := h.tab.ids item (hqueue.subset hitem)
        omega
      · -- the front request was taken, and it is in the queue once
        rw [hid]
        obtain ⟨rest, hrest⟩ := List.head?_eq_some_iff.mp hfront
        have hapart := h.apart.sublist h.queue
        rw [hrest] at hqueue hapart
        rcases List.sublist_cons_iff.mp hqueue with hsub | ⟨queue, hq, -⟩
        · exact ((List.pairwise_cons.mp hapart).1 item (hsub.subset hitem)).1.symm
        · exact absurd ((List.head?_eq_some_iff.mpr ⟨queue, hq⟩).trans hfront.symm) htrue
  · intro hfalse hedited hcall p hp
    rw [heditor, hheap]
    have hsome : (ProxyTab.shownItem t.manager).isSome := by rw [hp]; rfl
    refine h.text (hsame hfalse).1 hedited (hover hfalse hcall hsome) p ?_
    unfold ProxyTab.shownItem at hp ⊢
    rwa [← (hsame hfalse).2]

theorem Pending.front_mem (h : Pending s asked edited) {p : InterceptedRequest κ × Ref}
    (hp : p ∈ ProxyTab.shownItem s.manager) : p.1 ∈ asked ∧ p.1.request = some p.2 := by
  refine ⟨h.queue.subset (ProxyTab.mem_of_shownItem hp).1, ?_⟩
  simp only [ProxyTab.shownItem, Option.mem_def, Option.bind_eq_some_iff, Option.map_eq_some_iff] at hp
  obtain ⟨item, -, ref, href, rfl⟩ := hp
  exact href

theorem not_overwritten (hidle : s.call = .idle) (cur : InterceptedRequest κ) :
    s.call ≠ .overwritten (some cur) := by
  rw [hidle]
  nofun

theorem Pending.render (h : Pending s asked edited) (hidle : s.call = .idle) :
    Pending (ProxyTab.render s) asked (edited && !loadsEditor s) := by
  have htab := h.tab.render hidle
  cases henabled : s.manager.interceptEnabled with
  | false =>
    have hload : loadsEditor s = false := by rw [loadsEditor, henabled, Bool.false_and]
    have hsame : ProxyTab.render s = s := if_neg (Bool.eq_false_iff.mp henabled)
    rwa [hload, Bool.not_false, Bool.and_true, hsame]
  | true =>
    cases hshown : ProxyTab.shownItem s.manager with
    | none =>
      have hrender : ProxyTab.render s = { s with lastInterceptId := -1, frontChanged := false } := by
        rw [ProxyTab.render, if_pos henabled, hshown]
      rw [hrender] at htab ⊢
      refine ⟨htab, h.apart, h.queue, h.current, .inl rfl, fun _ => ?_, (nomatch ·), fun _ _ _ p hp => ?_⟩
      · show -1 = shownId s.manager
        rw [shownId, hshown]
        rfl
      · rw [Option.mem_def, hshown] at hp
        cases hp
    | some p =>
      obtain ⟨hmem, href⟩ := h.front_mem hshown
      have hrender : ProxyTab.render s =
          if p.1.id ≠ s.lastInterceptId then
            { s with
              lastInterceptId := p.1.id
              editor := s.editor.setText (formatHttpRequestRaw (s.heap p.2) p.1.isHttps p.1.host)
              loadedFrom := some p.1.id
              frontChanged := false }
          else { s with frontChanged := false } := by
        rw [ProxyTab.render, if_pos henabled, hshown]
      have hload : loadsEditor s = decide (p.1.id ≠ s.lastInterceptId) := by
        rw [loadsEditor, henabled, hshown]
        rfl
      by_cases hid : p.1.id = s.lastInterceptId
      · rw [hrender, if_neg (not_not.mpr hid)] at htab ⊢
        rw [hload, decide_eq_false (not_not.mpr hid), Bool.not_false, Bool.and_true]
        -- a front request that moved up would have another identifier
        have hstill : s.frontChanged = false := by
          rw [← Bool.not_eq_true]
          exact fun htrue => h.moved htrue p.1 (ProxyTab.mem_of_shownItem hshown).1 hid
        exact ⟨htab, h.apart, h.queue, h.current, h.loaded, fun _ => h.same hstill, (nomatch ·),
          fun _ => h.text hstill⟩
      · rw [hrender, if_pos hid] at htab ⊢
        refine ⟨htab, h.apart, h.queue, h.current, .inr ⟨p.1, hmem, rfl⟩, fun _ => ?_, (nomatch ·), ?_⟩
        · exact (shownId_of_some hshown).symm
        · intro _ _ _ q hq
          rw [Option.mem_def, hshown, Option.some.injEq] at hq
          rw [← hq]
          exact getText_setText s.editor _

variable [DecidableEq κ]

/-- A request that arrives is written where no other one is. -/
theorem Pending.arrive (h : Pending s asked edited) {item : InterceptedRequest κ} {r : HttpRequest}
    (hapart : ∀ other ∈ asked, Apart other item)
    (hs : ProxyTab.step s (.interceptRequest item r) = some t) : Pending t (asked ++ [item]) edited := by
  have htab := h.tab.arrive hs
  simp only [ProxyTab.step, Option.ite_none_right_eq_some, Option.some.injEq] at hs
  obtain ⟨hpos, rfl⟩ := hs
  have hpeek : (s.manager.interceptRequest item).peekCurrent = s.manager.peekCurrent.or (some item) := by
    simp only [InterceptManager.peekCurrent, InterceptManager.interceptRequest_queue, List.head?_append,
      List.head?_cons]
  have hstill (hfalse : (s.frontChanged || decide ((s.manager.interceptRequest item).peekCurrent ≠
      s.manager.peekCurrent)) = false) : s.frontChanged = false ∧
        (s.manager.interceptRequest item).peekCurrent = s.manager.peekCurrent := by
    rw [Bool.or_eq_false_iff, decide_eq_false_iff_not, not_not] at hfalse
    exact hfalse
  have hnew : item.id ≠ s.lastInterceptId := by
    rcases h.loaded with hnone | ⟨other, hother, hid⟩
    · omega
    · exact fun heq => (hapart other hother).1 (hid.trans heq.symm)
  refine ⟨htab, ?_, h.queue.append (.refl _), ?_, ?_, ?_, ?_, ?_⟩
  · rw [List.pairwise_append]
    exact ⟨h.apart, List.pairwise_singleton _ _, fun a ha b hb => by
      rw [List.mem_singleton.mp hb]
      exact hapart a ha⟩
  · exact fun other hother => List.mem_append_left _ (h.current other hother)
  · rcases h.loaded with hnone | ⟨other, hother, hid⟩
    · exact .inl hnone
    · exact .inr ⟨other, List.mem_append_left _ hother, hid⟩
  · intro hfalse
    have hpeek := (hstill hfalse).2
    show s.lastInterceptId = shownId (s.manager.interceptRequest item)
    rw [shownId_congr hpeek]
    exact h.same (hstill hfalse).1
  · intro htrue other hother
    rcases List.mem_append.mp hother with hold | hold
    · cases hs : s.frontChanged with
      | true => exact h.moved hs other hold
      | false =>
        -- the front request of a queue that is not empty stays
        simp only [ProxyTab.State.withManager, hs, Bool.false_or, decide_eq_true_eq, hpeek] at htrue
        cases hq : s.manager.queue with
        | nil => rw [hq] at hold; cases hold
        | cons front rest => simp [InterceptManager.peekCurrent, hq] at htrue
    · rw [List.mem_singleton.mp hold]
      exact hnew
  · intro hfalse hedited hcall p hp
    obtain ⟨hchanged, hpeek⟩ := hstill hfalse
    have hshown : p ∈ ProxyTab.shownItem s.manager := by
      unfold ProxyTab.shownItem at hp ⊢
      rwa [← hpeek]
    obtain ⟨hmem, href⟩ := h.front_mem hshown
    have hheap : ProxyTab.storeAt s.heap item.request r p.2 = s.heap p.2 := by
      cases hitem : item.request with
      | none => rfl
      | some ref =>
        have hne : p.2 ≠ ref := fun heq => (hapart p.1 hmem).2 p.2 href (by rw [hitem, heq])
        exact Function.update_of_ne hne _ _
    show s.editor.getText = normalizeCrlf (formatHttpRequestRaw (ProxyTab.storeAt s.heap item.request r p.2) _ _)
    rw [hheap]
    exact h.text hchanged hedited hcall p hshown

/-- The front request is in the queue once, so taking it moves the front. -/
theorem Pending.tail (h : Pending s asked edited) (ht : ProxyTab.Inv t)
    (hkept : t.heap = s.heap ∧ t.editor = s.editor ∧ t.lastInterceptId = s.lastInterceptId)
    (hchanged : t.frontChanged =
      (s.frontChanged || decide (t.manager.peekCurrent ≠ s.manager.peekCurrent)))
    (hqueue : t.manager.queue = s.manager.queue.tail) (hcurrent : ∀ item ∈ t.call.current, item ∈ asked) :
    Pending t asked edited := by
  refine h.shrink ht hkept hchanged (hqueue ▸ List.tail_sublist _) hcurrent fun hfalse _ hsome => ?_
  rw [hchanged, Bool.or_eq_false_iff, decide_eq_false_iff_not, not_not] at hfalse
  obtain ⟨p, hp⟩ := Option.isSome_iff_exists.mp hsome
  have hfront := (ProxyTab.mem_of_shownItem hp).2
  have hold := hfalse.2.symm.trans hfront
  obtain ⟨rest, hrest⟩ := List.head?_eq_some_iff.mp hold
  have hapart := h.apart.sublist h.queue
  have hmem : p.1 ∈ rest := by
    rw [InterceptManager.peekCurrent, hqueue, hrest, List.tail_cons] at hfront
    exact List.mem_of_mem_head? hfront
  rw [hrest] at hapart
  exact absurd rfl ((List.pairwise_cons.mp hapart).1 p.1 hmem).1

theorem Pending.pop (h : Pending s asked edited) (hc : ProxyTab.Settled s .forwardPop)
    (hs : ProxyTab.step s .forwardPop = some t) : Pending t asked edited := by
  have htab := h.tab.pop hc hs
  simp only [ProxyTab.step] at hs
  split at hs
  · obtain rfl := Option.some.inj hs
    exact h.tail htab ⟨rfl, rfl, rfl⟩ rfl (InterceptManager.popFront_queue _ _) fun item hi => by cases hi
  · cases hs

/-- What a step of the tab keeps. -/
theorem Pending.step {a : ProxyTab.Label κ} (h : Pending s asked edited) (hc : ProxyTab.Settled s a)
    (hapart : ∀ item ∈ intercepted a, ∀ other ∈ asked, Apart other item)
    (hs : ProxyTab.step s a = some t) :
    Pending t (asked ++ (intercepted a).toList) (editedAfter s t edited a) := by
  have htab := h.tab.step hc hs
  have hstay {u : ProxyTab.State κ} {e : Bool} (hu : Pending u asked e) : Pending u (asked ++ []) e := by
    rwa [List.append_nil]
  cases a with
  | render =>
    simp only [ProxyTab.step, Option.ite_none_right_eq_some, Option.some.injEq] at hs
    obtain ⟨hidle, rfl⟩ := hs
    exact hstay (h.render hidle)
  | interceptRequest item r => exact h.arrive (hapart item rfl) hs
  | key editor =>
    simp only [ProxyTab.step, Option.ite_none_right_eq_some, Option.some.injEq] at hs
    obtain ⟨-, rfl⟩ := hs
    apply hstay
    refine ⟨htab, h.apart, h.queue, h.current, h.loaded, h.same, h.moved, fun hfalse hedited hcall p hp => ?_⟩
    rw [editedAfter, Bool.or_eq_false_iff, decide_eq_false_iff_not, not_not] at hedited
    rw [hedited.2]
    exact h.text hfalse hedited.1 hcall p hp
  | toggle =>
    simp only [ProxyTab.step, Option.ite_none_right_eq_some, Option.some.injEq] at hs
    obtain ⟨hidle, rfl⟩ := hs
    apply hstay
    refine ⟨htab, h.apart, h.queue, fun item hi => ?_, h.loaded, h.same, h.moved, fun hfalse hedited _ => ?_⟩
    · dsimp only at hi
      split at hi <;> cases hi
    · exact h.text hfalse hedited (not_overwritten hidle)
  | finishToggle =>
    apply hstay
    simp only [ProxyTab.step] at hs
    split at hs
    · rename_i hcall
      obtain rfl := Option.some.inj hs
      refine ⟨htab, h.apart, h.queue, fun item hi => ?_, h.loaded, h.same, h.moved, fun hfalse hedited _ => ?_⟩
      · cases hi
      · refine h.text hfalse hedited fun cur hover => ?_
        rw [hcall] at hover
        cases hover
    · obtain rfl := Option.some.inj hs
      refine h.shrink htab ⟨rfl, rfl, rfl⟩ rfl (List.nil_sublist _) (fun item hi => ?_) fun _ _ hsome => ?_
      · cases hi
      · cases hsome
    · cases hs
  | forwardPeek =>
    simp only [ProxyTab.step, Option.ite_none_right_eq_some, Option.some.injEq] at hs
    obtain ⟨hidle, rfl⟩ := hs
    apply hstay
    refine ⟨htab, h.apart, h.queue, fun item hi => ?_, h.loaded, h.same, h.moved, fun hfalse hedited _ => ?_⟩
    · exact h.queue.subset (List.mem_of_mem_head? hi)
    · exact h.text hfalse hedited (not_overwritten hidle)
  | forwardOverwrite =>
    apply hstay
    simp only [ProxyTab.step] at hs
    split at hs
    · rename_i cur hcall
      have hcurrent : ∀ item ∈ cur, item ∈ asked := fun item hi => h.current item (by rw [hcall]; exact hi)
      split at hs
      · rename_i ref href
        obtain rfl := Option.some.inj hs
        obtain ⟨item, hitem, -⟩ := Option.bind_eq_some_iff.mp href
        -- the text is behind until the request is taken
        exact ⟨htab, h.apart, h.queue, hcurrent, h.loaded, h.same, h.moved, fun _ _ hover =>
          absurd (by rw [hitem]) (hover item)⟩
      · obtain rfl := Option.some.inj hs
        refine ⟨htab, h.apart, h.queue, fun item hi => ?_, h.loaded, h.same, h.moved, fun hfalse hedited _ => ?_⟩
        · cases hi
        · refine h.text hfalse hedited fun cur' hover => ?_
          rw [hcall] at hover
          cases hover
    · cases hs
  | forwardPop =>
    apply hstay
    exact h.pop hc hs
  | dropCurrent =>
    simp only [ProxyTab.step, Option.ite_none_right_eq_some, Option.some.injEq] at hs
    obtain ⟨-, rfl⟩ := hs
    apply hstay
    exact h.tail htab ⟨rfl, rfl, rfl⟩ rfl (InterceptManager.popFront_queue _ _) h.current
  | removeById id =>
    obtain rfl := Option.some.inj hs
    apply hstay
    exact h.shrink htab ⟨rfl, rfl, rfl⟩ rfl List.filter_sublist h.current fun _ hover _ => hover

end Editor

/-- The live view shows the entry that was the last one at its last render. -/
inductive Shows (s : LiveTab κ) : Prop
  | nothing (none : s.seen = 0) (id : s.lastDisplayedTxId = -1)
  | entry {k : ℕ} {latest : HttpTransaction} (seen : s.seen = k + 1)
    (hk : s.history.entries[k]? = some latest) (id : s.lastDisplayedTxId = latest.id)
    (request : HistoryTab.Holds s.liveReqViewer (HistoryTab.requestContent s.history.heap latest))
    (response : HistoryTab.Holds s.liveResViewer (HistoryTab.responseContent latest))

/-- What was sent is the front request, as it was if nobody had typed. -/
structure Right (x : PendingSend κ) : Prop where
  target : x.target = pendingTarget x.item
  loaded : x.loadedFrom = some x.item.id
  text : x.edited = false →
    x.rawRequest = normalizeCrlf (formatHttpRequestRaw x.request x.item.isHttps x.item.host)

/-- What was sent is the entry that was the last one then, as the live view showed it if it had been
rendered since the entry was listed. -/
def SentOf (s : LiveTab κ) (x : LiveSend) : Prop :=
  ∃ k latest ref, x.listed = k + 1 ∧ s.history.entries[k]? = some latest ∧ latest.request = some ref ∧
    x.target = HistoryTab.targetOf latest ∧
    x.rawRequest = formatHttpRequestRaw (s.history.heap ref) latest.isHttps latest.host ∧
    (x.seen = x.listed → x.shown = x.rawRequest)

/-- What the live view asks of the entries. -/
structure Reported (txs : List HttpTransaction) : Prop where
  whole : ∀ tx ∈ txs, tx.request.isSome ∧ tx.response.isSome ∧ tx.id ≠ -1
  ids : txs.Pairwise fun a b => a.id ≠ b.id

structure Inv (s : LiveTab κ) : Prop where
  heap : s.tab.heap = s.history.heap
  pending : Pending s.tab s.asked s.edited
  history : HistoryTab.Inv s.history
  reported : Reported s.history.pushed
  shows : s.Shows
  pendingSends : ∀ x ∈ s.pendingSends, Right x
  liveSends : ∀ x ∈ s.liveSends, s.SentOf x

section Live

variable {s t : LiveTab κ}

theorem inv_init : Inv ({} : LiveTab κ) := by
  refine ⟨rfl, ?_, ?_, ⟨nofun, .nil⟩, .nothing rfl rfl, nofun, nofun⟩
  · refine ⟨ProxyTab.inv_init, .nil, .slnil, nofun, .inl rfl, fun _ => rfl, (nomatch ·), fun _ _ _ _ hp => ?_⟩
    cases hp
  · exact HistoryTab.inv_of_reached (.init ⟨_, [], rfl⟩)

theorem Inv.entries_prefix (h : Inv s) : s.history.entries <+: s.history.pushed :=
  ⟨s.history.queue.q, h.history.listed.order⟩

/-- An entry that was displayed is not displayed again under another entry's number. -/
theorem Inv.unique (h : Inv s) {j k : ℕ} {tx tx' : HttpTransaction} (hj : s.history.entries[j]? = some tx)
    (hk : s.history.entries[k]? = some tx') (hid : tx.id = tx'.id) : j = k := by
  have hids := h.reported.ids.sublist h.entries_prefix.sublist
  obtain ⟨hj', rfl⟩ := List.getElem?_eq_some_iff.mp hj
  obtain ⟨hk', rfl⟩ := List.getElem?_eq_some_iff.mp hk
  rw [List.pairwise_iff_getElem] at hids
  rcases Nat.lt_trichotomy j k with hlt | heq | hlt
  · exact absurd hid (hids j k hj' hk' hlt)
  · exact heq
  · exact absurd hid.symm (hids k j hk' hj' hlt)

theorem listed_of_getLast {entries : List HttpTransaction} {latest : HttpTransaction}
    (h : entries.getLast? = some latest) :
    ∃ k, entries.length = k + 1 ∧ entries[k]? = some latest := by
  obtain ⟨init, rfl⟩ := List.getLast?_eq_some_iff.mp h
  exact ⟨init.length, by rw [List.length_append, List.length_singleton], List.getElem?_concat_length⟩

theorem Inv.renderLive (h : Inv s) : Inv s.renderLive := by
  unfold LiveTab.renderLive
  dsimp only
  split
  · rename_i latest hlatest
    have hmem : latest ∈ s.history.pushed := h.entries_prefix.subset (List.mem_of_getLast? hlatest)
    obtain ⟨hrequest, hresponse, hid⟩ := h.reported.whole latest hmem
    obtain ⟨ref, href⟩ := Option.isSome_iff_exists.mp hrequest
    obtain ⟨response, hres⟩ := Option.isSome_iff_exists.mp hresponse
    obtain ⟨k, hlength, hk⟩ := listed_of_getLast hlatest
    split
    · refine ⟨h.heap, h.pending, h.history, h.reported, ?_, h.pendingSends, h.liveSends⟩
      refine .entry hlength hk rfl ?_ ?_
      · simp only [HistoryTab.requestContent, href]
        exact HistoryTab.holds_setContent s.liveReqViewer (_, _)
      · simp only [HistoryTab.responseContent, hres]
        exact HistoryTab.holds_setContent s.liveResViewer (_, _)
    · -- the last entry is already displayed
      rename_i hsame
      have hsame := not_not.mp hsame
      refine ⟨h.heap, h.pending, h.history, h.reported, ?_, h.pendingSends, h.liveSends⟩
      cases h.shows with
      | nothing none id => exact absurd (hsame.trans id) hid
      | entry seen hk' id request response =>
        obtain rfl := h.unique hk hk' (hsame.trans id)
        obtain rfl := Option.some.inj (hk.symm.trans hk')
        exact .entry hlength hk id request response
  · rename_i hnone
    rw [List.getLast?_eq_none_iff] at hnone
    refine ⟨h.heap, h.pending, h.history, h.reported, ?_, h.pendingSends, h.liveSends⟩
    cases h.shows with
    | nothing none id => exact .nothing (by rw [hnone]; rfl) id
    | entry seen hk =>
      rw [hnone] at hk
      cases hk

theorem still_listed {entries entries' : List HttpTransaction} (h : entries <+: entries') {k : ℕ}
    {latest : HttpTransaction} (hk : entries[k]? = some latest) : entries'[k]? = some latest := by
  obtain ⟨rest, rfl⟩ := h
  exact (List.getElem?_append_left (List.getElem?_eq_some_iff.mp hk).1).trans hk

/-- What is shown stays what it is when entries are added. -/
theorem Shows.keep (h : s.Shows)
    (hview : (t.seen, t.lastDisplayedTxId, t.liveReqViewer, t.liveResViewer) =
      (s.seen, s.lastDisplayedTxId, s.liveReqViewer, s.liveResViewer))
    (hheap : t.history.heap = s.history.heap) (hentries : s.history.entries <+: t.history.entries) : t.Shows := by
  obtain ⟨hseen, hid, hrequest, hresponse⟩ : _ ∧ _ ∧ _ ∧ _ := by simpa using hview
  cases h with
  | nothing none id => exact .nothing (hseen.trans none) (hid.trans id)
  | entry seen hk id request response =>
    rw [← hrequest, ← hheap] at request
    rw [← hresponse] at response
    exact .entry (hseen.trans seen) (still_listed hentries hk) (hid.trans id) request response

theorem SentOf.history {x : LiveSend} (h : s.SentOf x) {history : HistoryTab}
    (hheap : history.heap = s.history.heap) (hentries : s.history.entries <+: history.entries) :
    SentOf { s with history := history } x := by
  obtain ⟨k, latest, ref, hlisted, hk, href, htarget, hraw, hshown⟩ := h
  refine ⟨k, latest, ref, hlisted, still_listed hentries hk, href, htarget, ?_, hshown⟩
  rw [hraw, hheap]

theorem Inv.history_step (h : Inv s) {a : HistoryTab.Label} {history : HistoryTab}
    (hwrite : ∀ ref request, a ≠ .write ref request) (hc : LiveTab.Careful s (.history a))
    (hs : HistoryTab.step s.history a = some history) : Inv { s with history := history } := by
  obtain ⟨hheap, hentries, hpushed⟩ := HistoryTab.extends_of_step hs
  have hheap := hheap hwrite
  have hunwritten : HistoryTab.Unwritten s.history a := by
    cases a with
    | write ref request => exact absurd rfl (hwrite ref request)
    | _ => trivial
  refine ⟨h.heap.trans hheap.symm, h.pending, HistoryTab.inv_step h.history hunwritten hs, ?_,
    h.shows.keep rfl hheap hentries, h.pendingSends, fun x hx => (h.liveSends x hx).history hheap hentries⟩
  rcases hpushed with hpushed | ⟨tx, rfl, hpushed⟩
  · exact hpushed ▸ h.reported
  · obtain ⟨hrequest, hresponse, hid, hnew⟩ := hc
    rw [hpushed]
    refine ⟨fun tx' htx => ?_, ?_⟩
    · rcases List.mem_append.mp htx with hold | hold
      · exact h.reported.whole tx' hold
      · rw [List.mem_singleton.mp hold]
        exact ⟨hrequest, hresponse, hid⟩
    · rw [List.pairwise_append]
      refine ⟨h.reported.ids, List.pairwise_singleton _ _, fun other hother tx' htx => ?_⟩
      rw [List.mem_singleton.mp htx]
      exact hnew other hother

/-- A step of the tab writes to no entry. -/
theorem Inv.heap_step (h : Inv s) {ref : Ref} (request : HttpRequest)
    (hunwritten : ∀ tx ∈ s.history.entries, tx.request ≠ some ref) :
    HistoryTab.Inv { s.history with heap := Function.update s.history.heap ref request } ∧
      Shows { s with history := { s.history with heap := Function.update s.history.heap ref request } } ∧
      ∀ x ∈ s.liveSends,
        SentOf { s with history := { s.history with heap := Function.update s.history.heap ref request } } x := by
  refine ⟨h.history.write hunwritten, ?_, fun x hx => ?_⟩
  · cases h.shows with
    | nothing none id => exact .nothing none id
    | entry seen hk id request response =>
      rw [← HistoryTab.requestContent_write (hunwritten _ (List.mem_of_getElem? hk))] at request
      exact .entry seen hk id request response
  · obtain ⟨k, latest, ref', hlisted, hk, href, htarget, hraw, hshown⟩ := h.liveSends x hx
    have hne : ref' ≠ ref := fun heq => hunwritten latest (List.mem_of_getElem? hk) (by rw [href, heq])
    refine ⟨k, latest, ref', hlisted, hk, href, htarget, ?_, hshown⟩
    rw [hraw]
    simp only [Function.update_of_ne hne]

theorem heap_of_step [DecidableEq κ] {tab t : ProxyTab.State κ} {a : ProxyTab.Label κ}
    (hs : ProxyTab.step tab a = some t) :
    t.heap = tab.heap ∨ ∃ ref ∈ written tab a, ∃ request, t.heap = Function.update tab.heap ref request := by
  cases a with
  | render =>
    simp only [ProxyTab.step, Option.ite_none_right_eq_some, Option.some.injEq] at hs
    obtain ⟨-, rfl⟩ := hs
    refine .inl ?_
    unfold ProxyTab.render
    split
    · split
      · split <;> rfl
      · rfl
    · rfl
  | interceptRequest item request =>
    simp only [ProxyTab.step, Option.ite_none_right_eq_some, Option.some.injEq] at hs
    obtain ⟨-, rfl⟩ := hs
    cases hitem : item.request with
    | none => exact .inl rfl
    | some ref => exact .inr ⟨ref, hitem, request, rfl⟩
  | forwardOverwrite =>
    simp only [ProxyTab.step] at hs
    split at hs
    · rename_i cur hcall
      split at hs
      · rename_i ref href
        obtain rfl := Option.some.inj hs
        refine .inr ⟨ref, ?_, _, rfl⟩
        rw [written, hcall]
        exact href
      · obtain rfl := Option.some.inj hs
        exact .inl rfl
    · cases hs
  | finishToggle | forwardPop =>
    simp only [ProxyTab.step] at hs
    split at hs
    all_goals first
      | (obtain rfl := Option.some.inj hs; exact .inl rfl)
      | cases hs
  | key | toggle | forwardPeek | dropCurrent =>
    simp only [ProxyTab.step, Option.ite_none_right_eq_some, Option.some.injEq] at hs
    obtain ⟨-, rfl⟩ := hs
    exact .inl rfl
  | removeById id =>
    obtain rfl := Option.some.inj hs
    exact .inl rfl

theorem Inv.tab_step [DecidableEq κ] (h : Inv s) {tab : ProxyTab.State κ} {a : ProxyTab.Label κ}
    (hc : LiveTab.Careful s (.tab a)) (hs : ProxyTab.step s.tab a = some tab) : Inv (s.afterTab tab a) := by
  obtain ⟨hsettled, hapart, hunwritten⟩ := hc
  have hpending := h.pending.step hsettled hapart hs
  have hbase : Inv { s with
      tab := tab
      history := { s.history with heap := tab.heap }
      edited := editedAfter s.tab tab s.edited a
      asked := s.asked ++ (intercepted a).toList } := by
    rcases heap_of_step hs with hheap | ⟨ref, href, request, hheap⟩
    · have hsame : { s.history with heap := tab.heap } = s.history := by rw [hheap, h.heap]
      rw [hsame]
      exact ⟨hheap.trans h.heap, hpending, h.history, h.reported, h.shows.keep rfl rfl List.prefix_rfl,
        h.pendingSends, h.liveSends⟩
    · obtain ⟨hhistory, hshows, hsends⟩ := h.heap_step request (hunwritten ref href)
      rw [hheap, h.heap]
      exact ⟨by rw [hheap, h.heap], hpending, hhistory, h.reported, hshows.keep rfl rfl List.prefix_rfl,
        h.pendingSends, hsends⟩
  unfold afterTab
  dsimp only
  split
  · split
    · exact hbase
    · exact hbase.renderLive
  · exact hbase

theorem Inv.toRepeater (h : Inv s) (hidle : s.tab.call = .idle) (hc : LiveTab.Careful s .toRepeater) :
    Inv s.toRepeater := by
  unfold LiveTab.toRepeater
  split
  · rename_i henabled
    split
    · rename_i item ref hshown
      have hstill := hc henabled (by rw [hshown]; rfl)
      refine ⟨h.heap, h.pending, h.history, h.reported, ?_, fun x hx => ?_, h.liveSends⟩
      · exact h.shows.keep rfl rfl List.prefix_rfl
      · rcases List.mem_append.mp hx with hold | hnew
        · exact h.pendingSends x hold
        · rw [List.mem_singleton.mp hnew]
          have hid : s.tab.lastInterceptId = item.id := h.pending.tab.shown hstill (item, ref) hshown
          have hpos := h.pending.tab.ids item (ProxyTab.mem_of_shownItem hshown).1
          refine ⟨rfl, ?_, fun hedited => ?_⟩
          · show s.tab.loadedFrom = some item.id
            rw [h.pending.tab.loaded (by omega), hid]
          · rw [← h.heap]
            exact h.pending.text hstill hedited (not_overwritten hidle) (item, ref) hshown
    · exact h
  · split
    · rename_i latest hlatest
      split
      · rename_i ref href
        obtain ⟨k, hlength, hk⟩ := listed_of_getLast hlatest
        refine ⟨h.heap, h.pending, h.history, h.reported, ?_, h.pendingSends, fun x hx => ?_⟩
        · exact h.shows.keep rfl rfl List.prefix_rfl
        · rcases List.mem_append.mp hx with hold | hnew
          · exact h.liveSends x hold
          · rw [List.mem_singleton.mp hnew]
            refine ⟨k, latest, ref, hlength, hk, href, rfl, rfl, fun hseen => ?_⟩
            have hseen : s.seen = k + 1 := Eq.trans hseen hlength
            cases h.shows with
            | nothing none => omega
            | entry seen hk' id request =>
              obtain rfl := Nat.succ_injective (hseen.symm.trans seen)
              obtain rfl := Option.some.inj (hk.symm.trans hk')
              rw [HistoryTab.requestContent, href] at request
              exact request.2
      · exact h
    · exact h

theorem inv_step [DecidableEq κ] {a : Label κ} (h : Inv s) (hc : LiveTab.Careful s a)
    (hs : step s a = some t) : Inv t := by
  cases a with
  | tab a =>
    obtain ⟨tab, htab, rfl⟩ := Option.map_eq_some_iff.mp hs
    exact h.tab_step hc htab
  | history a =>
    simp only [step, Option.ite_none_right_eq_some] at hs
    obtain ⟨henabled, hs⟩ := hs
    obtain ⟨history, hhistory, rfl⟩ := Option.map_eq_some_iff.mp hs
    refine h.history_step (fun ref request hwrite => ?_) hc hhistory
    rw [hwrite] at henabled
    cases henabled
  | toRepeater =>
    simp only [step, Option.ite_none_right_eq_some, Option.some.injEq] at hs
    obtain ⟨hidle, rfl⟩ := hs
    exact h.toRepeater hidle hc
  | liveReqViewer c =>
    simp only [step, Option.ite_none_right_eq_some] at hs
    obtain ⟨⟨-, hloads⟩, hs⟩ := hs
    obtain ⟨v, hv, rfl⟩ := Option.map_eq_some_iff.mp hs
    refine ⟨h.heap, h.pending, h.history, h.reported, ?_, h.pendingSends, h.liveSends⟩
    cases h.shows with
    | nothing none id => exact .nothing none id
    | entry seen hk id request response => exact .entry seen hk id (request.call hloads hv) response
  | liveResViewer c =>
    simp only [step, Option.ite_none_right_eq_some] at hs
    obtain ⟨⟨-, hloads⟩, hs⟩ := hs
    obtain ⟨v, hv, rfl⟩ := Option.map_eq_some_iff.mp hs
    refine ⟨h.heap, h.pending, h.history, h.reported, ?_, h.pendingSends, h.liveSends⟩
    cases h.shows with
    | nothing none id => exact .nothing none id
    | entry seen hk id request response => exact .entry seen hk id request (response.call hloads hv)

/-- The live view shows the entry that was the last one when it was last rendered, whole; a click on
To Repeater sends one request with its own target: the one that is pending, word for word if nobody typed,
or the last one of the list, as the live view shows it; and the history keeps its list and its details. -/
theorem live_tab_follows [DecidableEq κ] (h : system.ReachedUnder LiveTab.Careful s) :
    s.Shows ∧ (∀ x ∈ s.pendingSends, Right x) ∧ (∀ x ∈ s.liveSends, s.SentOf x) ∧
      s.history.Listed ∧ s.history.Shows := by
  have hinv : Inv s := h.invariant (fun s h0 => h0 ▸ inv_init) fun _ _ _ hs hc he => inv_step hs hc he
  exact ⟨hinv.shows, hinv.pendingSends, hinv.liveSends, hinv.history.listed, hinv.history.shows⟩

end Live

section Examples

/-- A request is sent to the repeater while it is pending, forwarded and reported; interception is switched
off, and it is sent from the live view. -/
def bothSends : List (Label ℕ) :=
  [.tab .toggle, .tab .finishToggle,
    .tab (.interceptRequest (ProxyTab.pendingItem 1 0) (ProxyTab.pendingRequest "GET")), .tab .render,
    .toRepeater, .tab .forwardPeek, .tab .forwardOverwrite, .tab .forwardPop,
    .history (.push { id := 1, host := str "a", port := 80, request := some 0, response := some {} }),
    .tab .toggle, .tab .finishToggle, .history .custom, .tab .render, .toRepeater]

theorem live_tab_follows_bothSends : ∃ s, system.runUnder LiveTab.Careful {} bothSends = some s ∧
    s.seen = 1 ∧ s.pendingSends.map (fun x => x.edited) = [false] ∧ s.liveSends.map (fun x => x.seen) = [1] ∧
    s.Shows ∧ (∀ x ∈ s.pendingSends, Right x) ∧ ∀ x ∈ s.liveSends, s.SentOf x := by
  have hrun : (system.runUnder LiveTab.Careful {} bothSends).any (fun s =>
      s.seen = 1 ∧ s.pendingSends.map (fun x => x.edited) = [false] ∧
        s.liveSends.map (fun x => x.seen) = [1]) = true := by decide
  obtain ⟨s, hs, hlast⟩ := (Option.any_eq_true _ _).mp hrun
  rw [decide_eq_true_eq] at hlast
  obtain ⟨hshows, hpending, hlive, -⟩ := live_tab_follows (.runUnder (.init rfl) hs)
  exact ⟨s, hs, hlast.1, hlast.2.1, hlast.2.2, hshows, hpending, hlive⟩

end Examples

end LiveTab

end BurpTUI
