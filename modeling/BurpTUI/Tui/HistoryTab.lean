import BurpTUI.Proxy.Destination
import BurpTUI.Tui.RepeaterManager
import BurpTUI.Tui.ScrollableViewer
import BurpTUI.Tui.UpdateTrigger
import Mathlib.Logic.Function.Basic

namespace BurpTUI

/-- `std::to_string` of an `int`. -/
def decimalInt (n : ℤ) : Bytes := str (toString n)

/-- A text of more than `limit` bytes, with its end replaced by three dots. -/
def shorten (limit : ℕ) (s : Bytes) : Bytes :=
  if limit < s.length then s.take (limit - 3) ++ str "..." else s

/-- The line of a transaction in the menu. The request is the one at its address. -/
def buildMenuLabel (heap : Ref → HttpRequest) (tx : HttpTransaction) : Bytes :=
  let idStr := (str "#" ++ decimalInt tx.id).rightpad 4 32
  let method := (match tx.request with
    | some ref => (heap ref).method
    | none => str "?").rightpad 7 32
  let statusStr := (match tx.response with
    | some response => decimal response.statusCode
    | none => str "???").rightpad 3 32
  let proto := if tx.isHttps then str "HTTPS" else str "HTTP "
  let host := (shorten 16 tx.host).rightpad 16 32
  let path := shorten 22 (match tx.request with
    | some ref => (heap ref).url
    | none => str "/")
  idStr ++ str " " ++ method ++ str " [" ++ statusStr ++ str "] " ++ proto ++ str " " ++ host ++ str " " ++ path

theorem decimal_injective : Function.Injective decimal := by
  intro m n h
  rw [← (isPort_decimal m).2.2, h]
  exact (isPort_decimal n).2.2

theorem blank_not_mem_decimal (n : ℕ) : 32 ∉ decimal n ∧ 45 ∉ decimal n :=
  ⟨fun h => absurd ((isPort_decimal n).2.1 _ h) (by decide), fun h => absurd ((isPort_decimal n).2.1 _ h) (by decide)⟩

theorem decimalInt_negSucc (n : ℕ) : decimalInt (.negSucc n) = 45 :: decimal (n + 1) := by
  have htext : toString (Int.negSucc n) = "-" ++ toString (n + 1) := rfl
  rw [decimalInt, htext, str, String.toList_append, List.map_append]
  rfl

theorem blank_not_mem_decimalInt (n : ℤ) : 32 ∉ decimalInt n := by
  cases n with
  | ofNat n => exact (blank_not_mem_decimal n).1
  | negSucc n =>
    rw [decimalInt_negSucc, List.mem_cons, not_or]
    exact ⟨by decide, (blank_not_mem_decimal _).1⟩

theorem decimalInt_injective : Function.Injective decimalInt := by
  have hsign (m n : ℕ) : decimal m ≠ decimalInt (.negSucc n) := by
    intro h
    rw [decimalInt_negSucc] at h
    exact (blank_not_mem_decimal m).2 (by rw [h]; exact List.mem_cons_self)
  intro m n h
  cases m with
  | ofNat m =>
    cases n with
    | ofNat n => exact congrArg Int.ofNat (decimal_injective h)
    | negSucc n => exact absurd h (hsign m n)
  | negSucc m =>
    cases n with
    | ofNat n => exact absurd h.symm (hsign n m)
    | negSucc n =>
      rw [decimalInt_negSucc, decimalInt_negSucc, List.cons_inj_right] at h
      have hsucc := decimal_injective h
      rw [Nat.succ_injective hsucc]

/-- The number in front of a label is that of its transaction, however long it is. -/
theorem id_of_buildMenuLabel {heap heap' : Ref → HttpRequest} {tx tx' : HttpTransaction}
    (h : buildMenuLabel heap tx = buildMenuLabel heap' tx') : tx.id = tx'.id := by
  have hlabel (heap : Ref → HttpRequest) (tx : HttpTransaction) :
      ∃ rest, buildMenuLabel heap tx = str "#" ++ decimalInt tx.id ++ 32 :: rest := by
    have hpad (k : ℕ) (rest : Bytes) : ∃ rest', List.replicate k 32 ++ 32 :: rest = 32 :: rest' := by
      cases k with
      | zero => exact ⟨rest, rfl⟩
      | succ k => exact ⟨List.replicate k 32 ++ 32 :: rest, rfl⟩
    unfold buildMenuLabel
    simp only [List.rightpad, List.append_assoc]
    obtain ⟨rest, hrest⟩ := hpad (4 - (str "#" ++ decimalInt tx.id).length) _
    exact ⟨rest, congrArg (fun s => str "#" ++ (decimalInt tx.id ++ s)) hrest⟩
  have hnone (n : ℤ) : 32 ∉ str "#" ++ decimalInt n := by
    rw [List.mem_append, not_or]
    exact ⟨by decide, blank_not_mem_decimalInt n⟩
  obtain ⟨rest, hrest⟩ := hlabel heap tx
  obtain ⟨rest', hrest'⟩ := hlabel heap' tx'
  have hcut := Search.cut_singleton 32 (str "#" ++ decimalInt tx.id) rest (hnone _)
  rw [← hrest, h, hrest', Search.cut_singleton 32 _ _ (hnone _), Option.some.injEq, Prod.mk.injEq,
    List.append_cancel_left_eq] at hcut
  exact (decimalInt_injective hcut.1).symm

/-- What a call of `setRequest` was given, and what the request viewer held then. -/
structure Sent where
  target : Target
  rawRequest : Bytes
  shown : Bytes
  /-- the details were those of the selected entry -/
  current : Bool
  deriving DecidableEq, Repr

/-- The last three fields only record the run. -/
structure HistoryTab where
  heap : Ref → HttpRequest
  queue : TsQueue HttpTransaction := {}
  entries : List HttpTransaction := []
  entryLabels : List Bytes := entries.map (buildMenuLabel heap)
  selectedIndex : ℤ := 0
  lastLoadedIdx : ℤ := -1
  reqViewer : ScrollableViewer := {}
  resViewer : ScrollableViewer := {}
  pushed : List HttpTransaction := entries
  /-- the details were updated, and the menu has not moved its selection by itself since -/
  updated : Bool := false
  sent : List Sent := []

namespace HistoryTab

/-- The rows and the raw text of the request of an entry. -/
def requestContent (heap : Ref → HttpRequest) (active : HttpTransaction) : List Element × Bytes :=
  match active.request with
  | some ref => (formatHttpRequestLines (heap ref) active.isHttps active.host,
      formatHttpRequestRaw (heap ref) active.isHttps active.host)
  | none => ([.row [.plain (str "(No request data)")]], [])

def responseContent (active : HttpTransaction) : List Element × Bytes :=
  match active.response with
  | some response => (formatHttpResponseLines response, formatHttpResponseRaw response)
  | none => ([.row [.plain (str "(Response pending...)")]], [])

/-- An access to the vector, which has no result out of range. -/
def entryAt (entries : List HttpTransaction) (idx : ℤ) : Option HttpTransaction :=
  if 0 ≤ idx then entries[idx.toNat]? else none

def clampIndex (entries : List HttpTransaction) (idx : ℤ) : ℤ :=
  let idx := if idx < 0 then 0 else idx
  if entries.length ≤ idx then entries.length - 1 else idx

def load (s : HistoryTab) (idx : ℤ) (request response : List Element × Bytes) : HistoryTab :=
  { s with
    lastLoadedIdx := idx
    reqViewer := s.reqViewer.setContent request.1 request.2
    resViewer := s.resViewer.setContent response.1 response.2 }

def updateActiveDetails (s : HistoryTab) : Option HistoryTab :=
  let s := { s with updated := true }
  if s.entries = [] then some (s.load (-1) ([], []) ([], []))
  else
    let idx := clampIndex s.entries s.selectedIndex
    if idx ≠ s.lastLoadedIdx then do
      let active ← entryAt s.entries idx
      some (s.load idx (requestContent s.heap active) (responseContent active))
    else some s

/-- What `setRequest` is called with for an entry. -/
def targetOf (tx : HttpTransaction) : Target :=
  { host := tx.host, port := decimalInt tx.port, isHttps := tx.isHttps }

def sendToRepeaterAction (s : HistoryTab) : Option HistoryTab :=
  if s.entries = [] then some s
  else if s.selectedIndex < 0 ∨ s.entries.length ≤ s.selectedIndex then some s
  else do
    let tx ← entryAt s.entries s.selectedIndex
    match tx.request with
    | some ref => some { s with
        sent := s.sent ++ [{
          target := targetOf tx
          rawRequest := formatHttpRequestRaw (s.heap ref) tx.isHttps tx.host
          shown := s.reqViewer.rawText
          current := s.updated }] }
    | none => some s

/-- The transactions that the queue holds go to the end of the list. -/
def popAll (s : HistoryTab) : HistoryTab :=
  let (newItems, queue) := s.queue.tryPopAll
  { s with
    queue := queue
    entryLabels := s.entryLabels ++ newItems.map (buildMenuLabel s.heap)
    entries := s.entries ++ newItems }

inductive Label
  /-- a network thread reports a transaction -/
  | push (tx : HttpTransaction)
  /-- someone writes to a request that he still has the address of -/
  | write (ref : Ref) (request : HttpRequest)
  | custom
  | render
  /-- the keys `j` and `k` with the menu focused -/
  | down
  | up
  /-- the menu takes an arrow key and leaves its selection anywhere -/
  | arrow (selected : ℤ)
  /-- the menu moves its selection on an event that does not come through the tab's own handler -/
  | menu (selected : ℤ)
  | sendToRepeater
  | reqViewer (c : ScrollableViewer.Call)
  | resViewer (c : ScrollableViewer.Call)

/-- Whether a call of the viewer gives it another text. -/
def loads : ScrollableViewer.Call → Bool
  | .setContent _ _ => true
  | .setRawText _ _ => true
  | _ => false

/-- There is no result when an access is out of range, and only the tab loads the viewers. -/
def step (s : HistoryTab) : Label → Option HistoryTab
  | .push tx => some { s with queue := s.queue.push tx, pushed := s.pushed ++ [tx] }
  | .write ref request => some { s with heap := Function.update s.heap ref request }
  | .custom => s.popAll.updateActiveDetails
  | .render => s.updateActiveDetails
  | .down =>
    if s.selectedIndex + 1 < s.entries.length then
      { s with selectedIndex := s.selectedIndex + 1 }.updateActiveDetails
    else some s
  | .up =>
    if 0 < s.selectedIndex then { s with selectedIndex := s.selectedIndex - 1 }.updateActiveDetails
    else some s
  | .arrow selected => { s with selectedIndex := selected }.updateActiveDetails
  | .menu selected => some { s with selectedIndex := selected, updated := false }
  | .sendToRepeater => s.sendToRepeaterAction
  | .reqViewer c => if loads c then none else (s.reqViewer.call c).map fun v => { s with reqViewer := v }
  | .resViewer c => if loads c then none else (s.resViewer.call c).map fun v => { s with resViewer := v }

def system : StepSystem.System HistoryTab Label where
  init s := ∃ heap entries, s = { heap := heap, entries := entries }
  step := step

/-- A viewer has been loaded with these rows and this raw text. -/
def Holds (v : ScrollableViewer) (content : List Element × Bytes) : Prop :=
  v.lines = content.1 ∧ v.rawText = content.2

section Viewer

variable {v v' : ScrollableViewer} {content : List Element × Bytes}

theorem holds_setContent (v : ScrollableViewer) (content : List Element × Bytes) :
    Holds (v.setContent content.1 content.2) content := ⟨rfl, rfl⟩

theorem Holds.onMouse (h : Holds v content) {m : TextEditor.Mouse} {copied : Bool} {r : Bool × ScrollableViewer}
    (hr : v.onMouse m copied = some r) : Holds r.2 content := by
  have hstep := ScrollableViewer.onMouse_step hr
  generalize r.2 = v' at hstep ⊢
  cases hstep <;> exact h

theorem Holds.copyToClipboard (h : Holds v content) (copied : Bool) :
    Holds (v.copyToClipboard copied) content := by
  obtain ⟨status, hstatus⟩ := ScrollableViewer.copyToClipboard_told v copied
  rw [hstatus]
  exact h

theorem Holds.copyKey (h : Holds v content) {copied : Bool} (hv : v.copyKey copied = some v') :
    Holds v' content := by
  unfold ScrollableViewer.copyKey at hv
  split at hv
  · obtain ⟨sel, -, hv⟩ := Option.bind_eq_some_iff.mp hv
    obtain rfl := Option.some.inj hv
    exact h
  · obtain rfl := Option.some.inj hv
    exact h.copyToClipboard copied

theorem Holds.onKey (h : Holds v content) {ev : TextEditor.Event} {copied : Bool}
    {r : Bool × ScrollableViewer} (hr : v.onKey copied ev = some r) : Holds r.2 content := by
  unfold ScrollableViewer.onKey at hr
  repeat' split at hr
  all_goals first
    | (obtain rfl := Option.some.inj hr; exact h)
    | (obtain ⟨v', hv, rfl⟩ := Option.map_eq_some_iff.mp hr; exact h.copyKey hv)

/-- Only a call that loads a viewer changes what it holds. -/
theorem Holds.call (h : Holds v content) {c : ScrollableViewer.Call} (hc : loads c = false)
    (hv : v.call c = some v') : Holds v' content := by
  cases c with
  | setContent => cases hc
  | setRawText => cases hc
  | scrollTo y =>
    obtain rfl := Option.some.inj hv
    exact h
  | scrollBy delta =>
    obtain rfl := Option.some.inj hv
    exact h
  | reflect box =>
    obtain rfl := Option.some.inj hv
    exact h
  | render =>
    obtain ⟨r, hr, rfl⟩ := Option.map_eq_some_iff.mp hv
    obtain ⟨rows, -, hr⟩ := Option.bind_eq_some_iff.mp hr
    obtain rfl := Option.some.inj hr
    exact h
  | onEvent focused copied ev =>
    obtain ⟨r, hr, rfl⟩ := Option.map_eq_some_iff.mp hv
    unfold ScrollableViewer.onEvent at hr
    split at hr
    · exact h.onMouse hr
    · split at hr
      · exact h.onKey hr
      · obtain rfl := Option.some.inj hr
        exact h

end Viewer

/-- The index of the entry that belongs in the details. -/
def shownIndex (s : HistoryTab) : ℤ :=
  if s.entries = [] then -1 else clampIndex s.entries s.selectedIndex

/-- The list follows the queue, with one label for each entry. -/
structure Listed (s : HistoryTab) : Prop where
  order : s.entries ++ s.queue.q = s.pushed
  labels : s.entryLabels = s.entries.map (buildMenuLabel s.heap)

/-- The details are those of the entry that was loaded last. -/
inductive Shows (s : HistoryTab) : Prop
  | nothing (idx : s.lastLoadedIdx = -1) (request : Holds s.reqViewer ([], []))
    (response : Holds s.resViewer ([], []))
  | entry {k : ℕ} {active : HttpTransaction} (idx : s.lastLoadedIdx = k) (hk : s.entries[k]? = some active)
    (request : Holds s.reqViewer (requestContent s.heap active))
    (response : Holds s.resViewer (responseContent active))

/-- What was sent is the request of an entry, and the text that was shown if the details were current. -/
def SentOf (s : HistoryTab) (x : Sent) : Prop :=
  ∃ tx ∈ s.entries, ∃ ref, tx.request = some ref ∧ x.target = targetOf tx ∧
    x.rawRequest = formatHttpRequestRaw (s.heap ref) tx.isHttps tx.host ∧
    (x.current = true → x.shown = x.rawRequest)

/-- Nobody writes to the request of an entry. -/
def Unwritten (s : HistoryTab) : Label → Prop
  | .write ref _ => ∀ tx ∈ s.entries, tx.request ≠ some ref
  | _ => True

instance (s : HistoryTab) (a : Label) : Decidable (Unwritten s a) :=
  match a with
  | .write _ _ => inferInstanceAs (Decidable (∀ _ ∈ _, _))
  | .push _ | .custom | .render | .down | .up | .arrow _ | .menu _ | .sendToRepeater | .reqViewer _
  | .resViewer _ => inferInstanceAs (Decidable True)

structure Inv (s : HistoryTab) : Prop where
  listed : s.Listed
  shows : s.Shows
  current : s.updated = true → s.lastLoadedIdx = s.shownIndex
  sent : ∀ x ∈ s.sent, s.SentOf x

theorem clampIndex_spec {entries : List HttpTransaction} (h : entries ≠ []) (idx : ℤ) :
    ∃ k : ℕ, clampIndex entries idx = k ∧ k < entries.length := by
  have hpos := List.length_pos_of_ne_nil h
  have hrange : 0 ≤ clampIndex entries idx ∧ clampIndex entries idx < entries.length := by
    unfold clampIndex
    dsimp only
    split <;> split <;> omega
  exact ⟨(clampIndex entries idx).toNat, by omega, by omega⟩

theorem clampIndex_of_range {entries : List HttpTransaction} {idx : ℤ}
    (h : ¬ (idx < 0 ∨ entries.length ≤ idx)) : clampIndex entries idx = idx := by
  rw [not_or] at h
  unfold clampIndex
  rw [if_neg h.1]
  exact if_neg h.2

theorem entryAt_natCast (entries : List HttpTransaction) (k : ℕ) : entryAt entries k = entries[k]? := by
  rw [entryAt, if_pos (Int.natCast_nonneg k), Int.toNat_natCast]

section Steps

variable {s t : HistoryTab} {a : Label}

/-- From `s` to `t` only the details are loaded. -/
structure Updates (s t : HistoryTab) : Prop where
  list : (t.heap, t.queue, t.entries, t.entryLabels, t.pushed) =
    (s.heap, s.queue, s.entries, s.entryLabels, s.pushed)
  selected : t.selectedIndex = s.selectedIndex
  sent : t.sent = s.sent
  loaded : t.lastLoadedIdx = t.shownIndex
  shows : s.Shows → t.Shows

theorem updateActiveDetails_updates (h : s.updateActiveDetails = some t) : Updates s t := by
  unfold updateActiveDetails at h
  dsimp only at h
  split at h
  · rename_i hnil
    obtain rfl := Option.some.inj h
    exact ⟨rfl, rfl, rfl, (if_pos hnil).symm, fun _ => .nothing rfl (holds_setContent _ _) (holds_setContent _ _)⟩
  · rename_i hnil
    obtain ⟨k, hk, hlt⟩ := clampIndex_spec hnil s.selectedIndex
    split at h
    · obtain ⟨active, hactive, h⟩ := Option.bind_eq_some_iff.mp h
      obtain rfl := Option.some.inj h
      rw [hk, entryAt_natCast] at hactive
      exact ⟨rfl, rfl, rfl, (if_neg hnil).symm, fun _ =>
        .entry hk hactive (holds_setContent _ _) (holds_setContent _ _)⟩
    · rename_i hsame
      obtain rfl := Option.some.inj h
      refine ⟨rfl, rfl, rfl, ?_, ?_⟩
      · exact (not_not.mp hsame).symm.trans (if_neg hnil).symm
      · intro hshows
        cases hshows with
        | nothing idx request response => exact .nothing idx request response
        | entry idx hk request response => exact .entry idx hk request response

theorem isSome_updateActiveDetails (s : HistoryTab) : s.updateActiveDetails.isSome := by
  unfold updateActiveDetails
  dsimp only
  split
  · rfl
  · rename_i hnil
    obtain ⟨k, hk, hlt⟩ := clampIndex_spec hnil s.selectedIndex
    split
    · rw [hk, entryAt_natCast, List.getElem?_eq_getElem hlt]
      rfl
    · rfl

theorem Updates.inv (h : Updates s t) (hlisted : s.Listed) (hshows : s.Shows) (hsent : ∀ x ∈ s.sent, s.SentOf x) :
    Inv t := by
  obtain ⟨hheap, hqueue, hentries, hlabels, hpushed⟩ : _ ∧ _ ∧ _ ∧ _ ∧ _ := by simpa using h.list
  refine ⟨⟨?_, ?_⟩, h.shows hshows, fun _ => h.loaded, ?_⟩
  · rw [hentries, hqueue, hpushed, hlisted.order]
  · rw [hlabels, hentries, hheap, hlisted.labels]
  · intro x hx
    rw [h.sent] at hx
    unfold SentOf
    rw [hentries, hheap]
    exact hsent x hx

theorem Listed.popAll (h : s.Listed) : s.popAll.Listed := by
  refine ⟨?_, ?_⟩
  · show s.entries ++ s.queue.q ++ [] = s.pushed
    rw [List.append_nil, h.order]
  · show s.entryLabels ++ s.queue.q.map (buildMenuLabel s.heap) =
      (s.entries ++ s.queue.q).map (buildMenuLabel s.heap)
    rw [h.labels, List.map_append]

theorem Shows.popAll (h : s.Shows) : s.popAll.Shows := by
  cases h with
  | nothing idx request response => exact .nothing idx request response
  | entry idx hk request response =>
    have hlt := (List.getElem?_eq_some_iff.mp hk).1
    exact .entry idx ((List.getElem?_append_left hlt).trans hk) request response

theorem SentOf.popAll {x : Sent} (h : s.SentOf x) : s.popAll.SentOf x := by
  obtain ⟨tx, hmem, hx⟩ := h
  exact ⟨tx, List.mem_append_left _ hmem, hx⟩

/-- The details stay what they are when the selection moves. -/
theorem Shows.select (h : s.Shows) {selected : ℤ} {updated : Bool} :
    Shows { s with selectedIndex := selected, updated := updated } := by
  cases h with
  | nothing idx request response => exact .nothing idx request response
  | entry idx hk request response => exact .entry idx hk request response

theorem Inv.select (h : Inv s) {selected : ℤ}
    (hs : { s with selectedIndex := selected }.updateActiveDetails = some t) : Inv t :=
  have hshows : Shows { s with selectedIndex := selected, updated := s.updated } := h.shows.select
  (updateActiveDetails_updates hs).inv ⟨h.listed.order, h.listed.labels⟩ hshows h.sent

section Write

variable {ref : Ref} {request : HttpRequest} {tx : HttpTransaction}

theorem buildMenuLabel_write (h : tx.request ≠ some ref) :
    buildMenuLabel (Function.update s.heap ref request) tx = buildMenuLabel s.heap tx := by
  unfold buildMenuLabel
  cases hr : tx.request with
  | none => rfl
  | some r =>
    have hne : r ≠ ref := fun heq => h (by rw [hr, heq])
    simp only [Function.update_of_ne hne]

theorem requestContent_write (h : tx.request ≠ some ref) :
    requestContent (Function.update s.heap ref request) tx = requestContent s.heap tx := by
  unfold requestContent
  cases hr : tx.request with
  | none => rfl
  | some r =>
    have hne : r ≠ ref := fun heq => h (by rw [hr, heq])
    simp only [Function.update_of_ne hne]

theorem Inv.write (h : Inv s) (hu : ∀ tx ∈ s.entries, tx.request ≠ some ref) :
    Inv { s with heap := Function.update s.heap ref request } := by
  obtain ⟨hlisted, hshows, hcurrent, hsent⟩ := h
  refine ⟨⟨hlisted.order, ?_⟩, ?_, hcurrent, ?_⟩
  · show s.entryLabels = s.entries.map (buildMenuLabel (Function.update s.heap ref request))
    rw [hlisted.labels]
    exact List.map_congr_left fun tx htx => (buildMenuLabel_write (hu tx htx)).symm
  · cases hshows with
    | nothing idx request response => exact .nothing idx request response
    | entry idx hk request response =>
      rw [← requestContent_write (hu _ (List.mem_of_getElem? hk))] at request
      exact .entry idx hk request response
  · intro x hx
    obtain ⟨tx, htx, r, hr, htarget, hraw, hshown⟩ := hsent x hx
    have hne : r ≠ ref := fun heq => hu tx htx (by rw [hr, heq])
    refine ⟨tx, htx, r, hr, htarget, ?_, hshown⟩
    rw [hraw]
    simp only [Function.update_of_ne hne]

end Write

/-- The selected entry is the one in the details if these are current. -/
theorem Inv.sendToRepeater (h : Inv s) (hs : s.sendToRepeaterAction = some t) : Inv t := by
  unfold sendToRepeaterAction at hs
  split at hs
  · obtain rfl := Option.some.inj hs
    exact h
  · rename_i hnil
    split at hs
    · obtain rfl := Option.some.inj hs
      exact h
    · rename_i hrange
      obtain ⟨tx, htx, hs⟩ := Option.bind_eq_some_iff.mp hs
      split at hs
      · rename_i ref hreq
        obtain rfl := Option.some.inj hs
        refine ⟨⟨h.listed.order, h.listed.labels⟩, ?_, h.current, ?_⟩
        · cases h.shows with
          | nothing idx request response => exact .nothing idx request response
          | entry idx hk request response => exact .entry idx hk request response
        · obtain ⟨k, hk, -⟩ := clampIndex_spec hnil s.selectedIndex
          rw [clampIndex_of_range hrange] at hk
          rw [hk, entryAt_natCast] at htx
          intro x hx
          rw [List.mem_append, List.mem_singleton] at hx
          rcases hx with hx | rfl
          · exact h.sent x hx
          · refine ⟨tx, List.mem_of_getElem? htx, ref, hreq, rfl, rfl, fun hupdated => ?_⟩
            have hloaded := h.current hupdated
            rw [shownIndex, if_neg hnil, clampIndex_of_range hrange, hk] at hloaded
            cases h.shows with
            | nothing idx => omega
            | entry idx hk' request =>
              rw [hloaded, Int.natCast_inj] at idx
              subst idx
              obtain rfl := Option.some.inj (htx.symm.trans hk')
              rw [requestContent, hreq] at request
              exact request.2
      · obtain rfl := Option.some.inj hs
        exact h

theorem inv_step (h : Inv s) (hu : Unwritten s a) (hs : step s a = some t) : Inv t := by
  cases a with
  | push tx =>
    obtain rfl := Option.some.inj hs
    refine ⟨⟨?_, h.listed.labels⟩, ?_, h.current, h.sent⟩
    · show s.entries ++ (s.queue.q ++ [tx]) = s.pushed ++ [tx]
      rw [← List.append_assoc, h.listed.order]
    · cases h.shows with
      | nothing idx request response => exact .nothing idx request response
      | entry idx hk request response => exact .entry idx hk request response
  | write ref request =>
    obtain rfl := Option.some.inj hs
    exact h.write hu
  | custom =>
    have hpopped := updateActiveDetails_updates hs
    exact hpopped.inv h.listed.popAll h.shows.popAll fun x hx => (h.sent x hx).popAll
  | render => exact (updateActiveDetails_updates hs).inv h.listed h.shows h.sent
  | down =>
    rw [step] at hs
    split at hs
    · exact h.select hs
    · obtain rfl := Option.some.inj hs
      exact h
  | up =>
    rw [step] at hs
    split at hs
    · exact h.select hs
    · obtain rfl := Option.some.inj hs
      exact h
  | arrow selected => exact h.select hs
  | menu selected =>
    obtain rfl := Option.some.inj hs
    refine ⟨⟨h.listed.order, h.listed.labels⟩, h.shows.select, fun hupdated => ?_, h.sent⟩
    cases hupdated
  | sendToRepeater => exact h.sendToRepeater hs
  | reqViewer c =>
    rw [step] at hs
    split at hs
    · cases hs
    · rename_i hc
      obtain ⟨v, hv, rfl⟩ := Option.map_eq_some_iff.mp hs
      refine ⟨⟨h.listed.order, h.listed.labels⟩, ?_, h.current, h.sent⟩
      cases h.shows with
      | nothing idx request response => exact .nothing idx (request.call (Bool.eq_false_iff.mpr hc) hv) response
      | entry idx hk request response =>
        exact .entry idx hk (request.call (Bool.eq_false_iff.mpr hc) hv) response
  | resViewer c =>
    rw [step] at hs
    split at hs
    · cases hs
    · rename_i hc
      obtain ⟨v, hv, rfl⟩ := Option.map_eq_some_iff.mp hs
      refine ⟨⟨h.listed.order, h.listed.labels⟩, ?_, h.current, h.sent⟩
      cases h.shows with
      | nothing idx request response => exact .nothing idx request (response.call (Bool.eq_false_iff.mpr hc) hv)
      | entry idx hk request response =>
        exact .entry idx hk request (response.call (Bool.eq_false_iff.mpr hc) hv)

/-- Entries are only ever added, and only a report adds to what was reported. -/
structure Extends (s : HistoryTab) (a : Label) (t : HistoryTab) : Prop where
  heap : (∀ ref request, a ≠ .write ref request) → t.heap = s.heap
  entries : s.entries <+: t.entries
  pushed : t.pushed = s.pushed ∨ ∃ tx, a = .push tx ∧ t.pushed = s.pushed ++ [tx]

theorem Updates.extended {u : HistoryTab} (h : Updates u t) (hheap : u.heap = s.heap)
    (hentries : s.entries <+: u.entries) (hpushed : u.pushed = s.pushed) : Extends s a t := by
  obtain ⟨hheap', -, hentries', -, hpushed'⟩ : _ ∧ _ ∧ _ ∧ _ ∧ _ := by simpa using h.list
  exact ⟨fun _ => hheap'.trans hheap, hentries' ▸ hentries, .inl (hpushed'.trans hpushed)⟩

theorem extends_of_step (hs : step s a = some t) : Extends s a t := by
  have hsame {u : HistoryTab} (hheap : u.heap = s.heap) (hentries : u.entries = s.entries)
      (hpushed : u.pushed = s.pushed) : Extends s a u :=
    ⟨fun _ => hheap, hentries ▸ List.prefix_rfl, .inl hpushed⟩
  cases a with
  | push tx =>
    obtain rfl := Option.some.inj hs
    exact ⟨fun _ => rfl, List.prefix_rfl, .inr ⟨tx, rfl, rfl⟩⟩
  | write ref request =>
    obtain rfl := Option.some.inj hs
    exact ⟨fun h => absurd rfl (h ref request), List.prefix_rfl, .inl rfl⟩
  | custom => exact (updateActiveDetails_updates hs).extended rfl (List.prefix_append _ _) rfl
  | render => exact (updateActiveDetails_updates hs).extended rfl List.prefix_rfl rfl
  | down =>
    rw [step] at hs
    split at hs
    · exact (updateActiveDetails_updates hs).extended rfl List.prefix_rfl rfl
    · obtain rfl := Option.some.inj hs
      exact hsame rfl rfl rfl
  | up =>
    rw [step] at hs
    split at hs
    · exact (updateActiveDetails_updates hs).extended rfl List.prefix_rfl rfl
    · obtain rfl := Option.some.inj hs
      exact hsame rfl rfl rfl
  | arrow selected => exact (updateActiveDetails_updates hs).extended rfl List.prefix_rfl rfl
  | menu selected =>
    obtain rfl := Option.some.inj hs
    exact hsame rfl rfl rfl
  | sendToRepeater =>
    rw [step, sendToRepeaterAction] at hs
    split at hs
    · obtain rfl := Option.some.inj hs
      exact hsame rfl rfl rfl
    · split at hs
      · obtain rfl := Option.some.inj hs
        exact hsame rfl rfl rfl
      · obtain ⟨tx, -, hs⟩ := Option.bind_eq_some_iff.mp hs
        split at hs
        all_goals
          obtain rfl := Option.some.inj hs
          exact hsame rfl rfl rfl
  | reqViewer c =>
    rw [step] at hs
    split at hs
    · cases hs
    · obtain ⟨v, -, rfl⟩ := Option.map_eq_some_iff.mp hs
      exact hsame rfl rfl rfl
  | resViewer c =>
    rw [step] at hs
    split at hs
    · cases hs
    · obtain ⟨v, -, rfl⟩ := Option.map_eq_some_iff.mp hs
      exact hsame rfl rfl rfl

/-- Whatever the menu leaves selected, every call has a result. -/
theorem isSome_step (s : HistoryTab) (h : ∀ c, a = .reqViewer c ∨ a = .resViewer c → loads c = false) :
    (step s a).isSome := by
  cases a with
  | custom => exact isSome_updateActiveDetails _
  | render => exact isSome_updateActiveDetails _
  | arrow selected => exact isSome_updateActiveDetails _
  | down =>
    rw [step]
    split
    · exact isSome_updateActiveDetails _
    · rfl
  | up =>
    rw [step]
    split
    · exact isSome_updateActiveDetails _
    · rfl
  | sendToRepeater =>
    rw [step, sendToRepeaterAction]
    split
    · rfl
    · rename_i hnil
      split
      · rfl
      · rename_i hrange
        obtain ⟨k, hk, hlt⟩ := clampIndex_spec hnil s.selectedIndex
        rw [clampIndex_of_range hrange] at hk
        rw [hk, entryAt_natCast, List.getElem?_eq_getElem hlt]
        apply isSome_bind rfl
        intro tx _
        split <;> rfl
  | reqViewer c =>
    rw [step, if_neg (by simp [h c (.inl rfl)]), Option.isSome_map]
    exact s.reqViewer.isSome_call c
  | resViewer c =>
    rw [step, if_neg (by simp [h c (.inr rfl)]), Option.isSome_map]
    exact s.resViewer.isSome_call c
  | push tx => rfl
  | write ref request => rfl
  | menu selected => rfl

end Steps

theorem inv_of_reached {s : HistoryTab} (h : system.ReachedUnder Unwritten s) : Inv s := by
  refine h.invariant ?_ fun s a t hinv hu hstep => inv_step hinv hu hstep
  rintro _ ⟨heap, entries, rfl⟩
  refine ⟨⟨List.append_nil _, rfl⟩, .nothing rfl ⟨rfl, rfl⟩ ⟨rfl, rfl⟩, fun hupdated => ?_, ?_⟩
  · cases hupdated
  · intro x hx
    cases hx

/-- The list is what was reported, in that order and under labels that tell its entries apart; the
details are those of the entry that was loaded last, and after an update that of the selected one; what
goes to the repeater is the request of an entry, as the details then show it; and no access is out of
range, wherever the menu leaves its selection. -/
theorem history_follows {s : HistoryTab} (h : system.ReachedUnder Unwritten s) :
    s.Listed ∧ (∀ tx ∈ s.entries, ∀ tx' ∈ s.entries, tx.id ≠ tx'.id →
      buildMenuLabel s.heap tx ≠ buildMenuLabel s.heap tx') ∧
    s.Shows ∧ (s.updated = true → s.lastLoadedIdx = s.shownIndex) ∧ (∀ x ∈ s.sent, s.SentOf x) ∧
    ∀ a, (∀ c, a = .reqViewer c ∨ a = .resViewer c → loads c = false) → (step s a).isSome := by
  obtain ⟨hlisted, hshows, hcurrent, hsent⟩ := inv_of_reached h
  refine ⟨hlisted, fun tx _ tx' _ hid hlabel => ?_, hshows, hcurrent, hsent, fun a ha => isSome_step s ha⟩
  exact hid (id_of_buildMenuLabel hlabel)

section Examples

def oneRequest : Ref → HttpRequest := fun _ =>
  { method := str "GET", url := str "/a", headers := [(str "Host", str "h")] }

/-- A second transaction is reported while the first is shown and sent. -/
def listedRun : List Label :=
  [.custom, .push { id := 1, host := str "h", port := 80, request := some 7 }, .custom,
    .push { id := 2, host := str "h", port := 443, isHttps := true }, .write 8 {}, .render, .sendToRepeater,
    .custom, .down, .menu 0]

theorem history_follows_listedRun : ∃ s, system.runUnder Unwritten { heap := oneRequest } listedRun = some s ∧
    s.entries.length = 2 ∧ s.lastLoadedIdx = 1 ∧ s.updated = false ∧ s.sent.length = 1 ∧
    s.Listed ∧ s.Shows ∧ ∀ x ∈ s.sent, s.SentOf x := by
  have hrun : (system.runUnder Unwritten { heap := oneRequest } listedRun).any (fun s =>
      s.entries.length = 2 ∧ s.lastLoadedIdx = 1 ∧ s.updated = false ∧ s.sent.length = 1) = true := by decide
  obtain ⟨s, hs, hlast⟩ := (Option.any_eq_true _ _).mp hrun
  rw [decide_eq_true_eq] at hlast
  obtain ⟨hlisted, -, hshows, -, hsent, -⟩ := history_follows (.runUnder (.init ⟨oneRequest, [], rfl⟩) hs)
  obtain ⟨hlength, hidx, hupdated, hone⟩ := hlast
  exact ⟨s, hs, hlength, hidx, hupdated, hone, hlisted, hshows, hsent⟩

end Examples

end HistoryTab

end BurpTUI
