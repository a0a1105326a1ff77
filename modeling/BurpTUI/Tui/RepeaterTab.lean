import BurpTUI.Tui.HistoryTab
import BurpTUI.Tui.RepeaterSends
import BurpTUI.Tui.SetText

namespace BurpTUI

/-- Where the UI thread stands in a click on Send, which is three calls. -/
inductive SendClick
  | idle
  | targetSet
  | requestSet
  /-- `executeRequest` has copied out what send `k` is given -/
  | copied (k : ℕ)
  deriving DecidableEq, Repr

/-- The last four fields only record the run. -/
structure RepeaterTab where
  repeater : RepeaterSends.State := {}
  fields : Target := repeater.manager.target
  lastLoadedReq : Bytes := repeater.manager.rawRequest
  lastLoadedRes : Bytes := repeater.rawResponse
  reqEditor : TextEditor := ({} : TextEditor).setText lastLoadedReq
  resViewer : ScrollableViewer := ({} : ScrollableViewer).setRawText lastLoadedRes []
  call : SendClick := .idle
  /-- the fields and the text of the editor when Send was clicked last -/
  clicked : Target × Bytes := (fields, reqEditor.getText)
  /-- what was shown at the clicks that started a send -/
  clicks : List (Target × Bytes) := []
  replies : List RepeaterSends.Reply := []
  /-- what was loaded last, if nothing was edited or sent since -/
  fresh : Option (Target × Bytes) := none

namespace RepeaterTab

open RepeaterSends (Send responseOf)

def syncWithManager (s : RepeaterTab) : RepeaterTab :=
  let curReq := s.repeater.manager.rawRequest
  let curRes := s.repeater.rawResponse
  let s := if curReq ≠ s.lastLoadedReq then
      { s with
        lastLoadedReq := curReq
        reqEditor := s.reqEditor.setText curReq
        fields := s.repeater.manager.target }
    else s
  if curRes ≠ s.lastLoadedRes then
    { s with lastLoadedRes := curRes, resViewer := s.resViewer.setRawText curRes [] }
  else s

inductive Label
  /-- the inputs and the checkbox -/
  | field (target : Target)
  /-- the editor is in this state after an event -/
  | edit (editor : TextEditor)
  | resViewer (c : ScrollableViewer.Call)
  /-- a frame is drawn, or a Custom event arrives -/
  | sync
  /-- another tab calls `setRequest` -/
  | load (target : Target) (rawRequest : Bytes)
  /-- the three calls of a click on Send, the last one in two parts -/
  | setTarget
  | setRawRequest
  | executeRequest
  | writeBack
  | finish (k : ℕ) (reply : RepeaterSends.Reply)

/-- A call of the manager. -/
def calls (s : RepeaterTab) (a : RepeaterSends.Label) : Option RepeaterTab :=
  (RepeaterSends.step s.repeater a).map fun repeater => { s with repeater := repeater }

/-- Everything but the end of a send is done by the UI thread, one call at a time. -/
def step (s : RepeaterTab) : Label → Option RepeaterTab
  | .field target => if s.call = .idle then some { s with fields := target, fresh := none } else none
  | .edit editor => if s.call = .idle then some { s with reqEditor := editor, fresh := none } else none
  | .resViewer c =>
    if s.call = .idle ∧ HistoryTab.loads c = false then
      (s.resViewer.call c).map fun v => { s with resViewer := v }
    else none
  | .sync => if s.call = .idle then some s.syncWithManager else none
  | .load target raw =>
    if s.call = .idle then { s with fresh := some (target, raw) }.calls (.setRequest target raw) else none
  | .setTarget =>
    if s.call = .idle then
      { s with call := .targetSet, clicked := (s.fields, s.reqEditor.getText), fresh := none }.calls
        (.setTarget s.fields)
    else none
  | .setRawRequest =>
    if s.call = .targetSet then { s with call := .requestSet }.calls (.setRawRequest s.reqEditor.getText)
    else none
  | .executeRequest =>
    if s.call = .requestSet then
      if s.repeater.manager.isSending then { s with call := .idle }.calls .executeRequest
      else { s with
        call := .copied s.repeater.sends.length
        clicks := s.clicks ++ [s.clicked] }.calls .executeRequest
    else none
  | .writeBack =>
    match s.call with
    | .copied k => { s with call := .idle }.calls (.writeBack k)
    | _ => none
  | .finish k reply => { s with replies := s.replies ++ [reply] }.calls (.finish k reply)

def system : StepSystem.System RepeaterTab Label where
  init s := s = {}
  step := step

/-- The response to each send that has finished, made for the target that was shown at its click. -/
def responses (s : RepeaterTab) : List Bytes :=
  List.zipWith (fun click reply => responseOf (deriveTarget click.1) reply) s.clicks s.replies

/-- The viewer holds the response text that was loaded last. -/
def ShowsResponse (s : RepeaterTab) : Prop :=
  HistoryTab.Holds s.resViewer (formatBodyLines s.lastLoadedRes [], s.lastLoadedRes)

/-- Each send was started with what a click showed, and the responses come in the order of the clicks. -/
structure Recorded (s : RepeaterTab) : Prop where
  sends : s.repeater.sends.map (fun d => (d.target, d.rawRequest)) = s.clicks
  replies : s.replies.length + (if s.repeater.manager.isSending then 1 else 0) = s.clicks.length
  response : s.repeater.rawResponse = s.responses.getLastD (str "(Send request to see real response here)")

/-- What the manager has of a click that is under way. -/
structure Clicking (s : RepeaterTab) : Prop where
  shown : s.call ≠ .idle → s.clicked = (s.fields, s.reqEditor.getText)
  target : s.call = .targetSet ∨ s.call = .requestSet → s.repeater.manager.target = s.fields
  rawRequest : s.call = .requestSet → s.repeater.manager.rawRequest = s.reqEditor.getText

structure Inv (s : RepeaterTab) : Prop where
  reached : RepeaterSends.system.Reached s.repeater
  clicking : s.Clicking
  recorded : s.Recorded
  viewer : s.ShowsResponse

section Steps

variable {s t : RepeaterTab} {a : Label} {b : RepeaterSends.Label}

theorem Clicking.idle (h : s.call = .idle) : s.Clicking := by
  refine ⟨fun hcall => absurd h hcall, ?_, ?_⟩
  · rw [h]
    rintro (hcall | hcall) <;> cases hcall
  · rw [h]
    intro hcall
    cases hcall

theorem calls_spec (h : s.calls b = some t) :
    ∃ u, RepeaterSends.step s.repeater b = some u ∧ t = { s with repeater := u } := by
  obtain ⟨u, hu, rfl⟩ := Option.map_eq_some_iff.mp h
  exact ⟨u, hu, rfl⟩

theorem reached_calls {u : RepeaterSends.State} (h : RepeaterSends.system.Reached s.repeater)
    (hu : RepeaterSends.step s.repeater b = some u) : RepeaterSends.system.Reached u :=
  .step h trivial hu

/-- A call that is not part of a send. -/
theorem Recorded.quiet (h : s.Recorded) (hsends : t.repeater.sends = s.repeater.sends)
    (hflag : t.repeater.manager.isSending = s.repeater.manager.isSending)
    (hresponse : t.repeater.rawResponse = s.repeater.rawResponse)
    (hrun : (t.clicks, t.replies) = (s.clicks, s.replies)) : t.Recorded := by
  obtain ⟨hclicks, hreplies⟩ := Prod.mk.inj hrun
  refine ⟨?_, ?_, ?_⟩
  · rw [hsends, hclicks, h.sends]
  · rw [hflag, hclicks, hreplies, h.replies]
  · rw [hresponse, responses, hclicks, hreplies]
    exact h.response

theorem Inv.sync (h : Inv s) (hidle : s.call = .idle) : Inv s.syncWithManager := by
  have hkept : s.syncWithManager.repeater = s.repeater ∧ s.syncWithManager.call = s.call ∧
      (s.syncWithManager.clicks, s.syncWithManager.replies) = (s.clicks, s.replies) := by
    unfold syncWithManager
    dsimp only
    split <;> split <;> exact ⟨rfl, rfl, rfl⟩
  obtain ⟨hrepeater, hcall, hrun⟩ := hkept
  refine ⟨?_, .idle (hcall.trans hidle), h.recorded.quiet ?_ ?_ ?_ hrun, ?_⟩
  · rw [hrepeater]
    exact h.reached
  · rw [hrepeater]
  · rw [hrepeater]
  · rw [hrepeater]
  · have hviewer := h.viewer
    unfold ShowsResponse at hviewer ⊢
    unfold syncWithManager
    dsimp only
    split <;> split <;> first | exact hviewer | exact ⟨rfl, rfl⟩

/-- `executeRequest` copies out what the click has set. -/
theorem Recorded.started (h : s.Recorded) (hc : s.Clicking) (hcall : s.call = .requestSet)
    (hidle : s.repeater.manager.isSending = false) {call : SendClick} :
    Recorded { s with
      repeater := RepeaterSends.start s.repeater
      call := call
      clicks := s.clicks ++ [s.clicked] } := by
  have hreplies := h.replies
  rw [hidle, if_neg Bool.false_ne_true, Nat.add_zero] at hreplies
  refine ⟨?_, ?_, ?_⟩
  · show (s.repeater.sends ++ [_]).map _ = s.clicks ++ [s.clicked]
    rw [List.map_append, h.sends, List.map_singleton, hc.shown (by simp [hcall]), hc.target (.inr hcall),
      hc.rawRequest hcall]
  · show s.replies.length + 1 = (s.clicks ++ [s.clicked]).length
    rw [List.length_append, hreplies]
    rfl
  · have hzip : List.zipWith (fun click reply => responseOf (deriveTarget click.1) reply)
        (s.clicks ++ [s.clicked]) (s.replies ++ []) = s.responses := by
      rw [List.zipWith_append hreplies.symm, List.zipWith_nil_right, List.append_nil, responses]
    rw [List.append_nil] at hzip
    rw [responses, hzip]
    exact h.response

theorem map_set_phase {k : ℕ} {d : Send} (hk : s.repeater.sends[k]? = some d) (phase : RepeaterSends.Phase) :
    (s.repeater.sends.set k { d with phase := phase }).map (fun d => (d.target, d.rawRequest)) =
      s.repeater.sends.map fun d => (d.target, d.rawRequest) := by
  obtain ⟨hlt, rfl⟩ := List.getElem?_eq_some_iff.mp hk
  rw [List.map_set]
  have hlt' : k < (s.repeater.sends.map fun d => (d.target, d.rawRequest)).length := by rwa [List.length_map]
  have hsame := List.set_getElem_self hlt'
  rwa [List.getElem_map] at hsame

/-- The send that finishes is the one of the last click. -/
theorem Recorded.finished (h : s.Recorded) (hinv : RepeaterSends.Inv s.repeater) {k : ℕ} {d : Send}
    (hk : s.repeater.sends[k]? = some d) (hphase : d.phase = .sending) (reply : RepeaterSends.Reply) :
    Recorded { s with
      repeater := RepeaterSends.finish s.repeater k d reply
      replies := s.replies ++ [reply] } := by
  obtain ⟨hflag, l, hsends, rfl, -⟩ := hinv.open_last hk (hphase.trans_ne (by decide))
  have hclicks := h.sends
  rw [hsends, List.map_append, List.map_singleton] at hclicks
  have hreplies := h.replies
  rw [hflag, if_pos rfl, ← hclicks, List.length_append, List.length_map, List.length_singleton,
    Nat.add_right_cancel_iff] at hreplies
  refine ⟨?_, ?_, ?_⟩
  · exact (map_set_phase hk .finished).trans h.sends
  · show (s.replies ++ [reply]).length + 0 = s.clicks.length
    rw [← hclicks, List.length_append, List.length_append, List.length_map, hreplies]
    rfl
  · show responseOf (deriveTarget d.target) reply =
      (List.zipWith _ s.clicks (s.replies ++ [reply])).getLastD _
    rw [← hclicks, List.zipWith_append (by rw [List.length_map, hreplies]), List.zipWith_cons_cons,
      List.zipWith_nil_left]
    exact (List.getLastD_concat ..).symm

theorem inv_step (h : Inv s) (hs : step s a = some t) : Inv t := by
  obtain ⟨hreached, hclicking, hrecorded, hviewer⟩ := h
  cases a with
  | field target =>
    simp only [step, Option.ite_none_right_eq_some, Option.some.injEq] at hs
    obtain ⟨hidle, rfl⟩ := hs
    exact ⟨hreached, .idle hidle, hrecorded.quiet rfl rfl rfl rfl, hviewer⟩
  | edit editor =>
    simp only [step, Option.ite_none_right_eq_some, Option.some.injEq] at hs
    obtain ⟨hidle, rfl⟩ := hs
    exact ⟨hreached, .idle hidle, hrecorded.quiet rfl rfl rfl rfl, hviewer⟩
  | resViewer c =>
    simp only [step, Option.ite_none_right_eq_some, Option.map_eq_some_iff] at hs
    obtain ⟨⟨hidle, hc⟩, v, hv, rfl⟩ := hs
    exact ⟨hreached, .idle hidle, hrecorded.quiet rfl rfl rfl rfl, HistoryTab.Holds.call hviewer hc hv⟩
  | sync =>
    simp only [step, Option.ite_none_right_eq_some, Option.some.injEq] at hs
    obtain ⟨hidle, rfl⟩ := hs
    exact Inv.sync ⟨hreached, hclicking, hrecorded, hviewer⟩ hidle
  | load target raw =>
    rw [step, Option.ite_none_right_eq_some] at hs
    obtain ⟨hidle, hs⟩ := hs
    obtain ⟨u, hu, rfl⟩ := calls_spec hs
    obtain rfl := Option.some.inj hu
    exact ⟨reached_calls hreached hu, .idle hidle, hrecorded.quiet rfl rfl rfl rfl, hviewer⟩
  | setTarget =>
    rw [step, Option.ite_none_right_eq_some] at hs
    obtain ⟨-, hs⟩ := hs
    obtain ⟨u, hu, rfl⟩ := calls_spec hs
    obtain rfl := Option.some.inj hu
    refine ⟨reached_calls hreached hu, ⟨fun _ => rfl, fun _ => rfl, fun hcall => ?_⟩,
      hrecorded.quiet rfl rfl rfl rfl, hviewer⟩
    cases hcall
  | setRawRequest =>
    rw [step, Option.ite_none_right_eq_some] at hs
    obtain ⟨hcall, hs⟩ := hs
    obtain ⟨u, hu, rfl⟩ := calls_spec hs
    obtain rfl := Option.some.inj hu
    exact ⟨reached_calls hreached hu, ⟨fun _ => hclicking.shown (by simp [hcall]),
      fun _ => hclicking.target (.inl hcall), fun _ => rfl⟩, hrecorded.quiet rfl rfl rfl rfl, hviewer⟩
  | executeRequest =>
    rw [step, Option.ite_none_right_eq_some] at hs
    obtain ⟨hcall, hs⟩ := hs
    split at hs
    · rename_i hsending
      obtain ⟨u, hu, rfl⟩ := calls_spec hs
      have hsame := hu
      rw [RepeaterSends.step, if_pos hsending] at hsame
      obtain rfl := Option.some.inj hsame
      exact ⟨hreached, .idle rfl, hrecorded.quiet rfl rfl rfl rfl, hviewer⟩
    · rename_i hsending
      obtain ⟨u, hu, rfl⟩ := calls_spec hs
      have hstart := hu
      rw [RepeaterSends.step, if_neg hsending] at hstart
      obtain rfl := Option.some.inj hstart
      refine ⟨reached_calls hreached hu, ⟨fun _ => hclicking.shown (by simp [hcall]), ?_, ?_⟩,
        hrecorded.started hclicking hcall (Bool.eq_false_iff.mpr hsending), hviewer⟩
      · rintro (hcopied | hcopied) <;> cases hcopied
      · intro hcopied
        cases hcopied
  | writeBack =>
    rw [step] at hs
    split at hs
    · obtain ⟨u, hu, rfl⟩ := calls_spec hs
      have hwrite := hu
      simp only [RepeaterSends.step, Option.bind_eq_some_iff, Option.ite_none_right_eq_some,
        Option.some.injEq] at hwrite
      obtain ⟨d, hk, -, rfl⟩ := hwrite
      refine ⟨reached_calls hreached hu, .idle rfl, ⟨?_, hrecorded.replies, hrecorded.response⟩, hviewer⟩
      exact (map_set_phase hk .sending).trans hrecorded.sends
    · cases hs
  | finish k reply =>
    obtain ⟨u, hu, rfl⟩ := calls_spec hs
    have hfinish := hu
    simp only [RepeaterSends.step, Option.bind_eq_some_iff, Option.ite_none_right_eq_some,
      Option.some.injEq] at hfinish
    obtain ⟨d, hk, hphase, rfl⟩ := hfinish
    exact ⟨reached_calls hreached hu, ⟨hclicking.shown, hclicking.target, hclicking.rawRequest⟩,
      hrecorded.finished (RepeaterSends.inv_of_reached hreached) hk hphase reply, hviewer⟩

end Steps

theorem inv_of_reached {s : RepeaterTab} (h : system.Reached s) : Inv s := by
  refine h.invariant ?_ ?_
  · rintro _ rfl
    exact ⟨.init rfl, .idle rfl, ⟨rfl, rfl, rfl⟩, ⟨rfl, rfl⟩⟩
  · intro s a t hinv _ hstep
    exact inv_step hinv hstep

/-- What the sending thread is given for a click. -/
def jobOf (click : Target × Bytes) : RepeaterManager.Sending :=
  { target := deriveTarget click.1, req := prepareRequest (deriveTarget click.1).host click.2 }

/-- The response to the last send that has finished. -/
def lastResponse (s : RepeaterTab) : Bytes :=
  s.responses.getLastD (str "(Send request to see real response here)")

theorem syncWithManager_lastLoadedRes (s : RepeaterTab) :
    s.syncWithManager.lastLoadedRes = s.repeater.rawResponse := by
  unfold syncWithManager
  dsimp only
  split <;> split <;> first | rfl | (rename_i hsame; exact (not_not.mp hsame).symm)

theorem Recorded.jobs {s : RepeaterTab} (h : s.Recorded) : s.repeater.sends.map Send.job = s.clicks.map jobOf := by
  rw [← h.sends, List.map_map]
  rfl

/-- Every send is given what the tab showed when it was clicked; they are answered one at a time and in
that order; and a frame shows the last answer, with no other text in the viewer. -/
theorem repeater_sends_shown {s : RepeaterTab} (h : system.Reached s) :
    s.repeater.sends.map Send.job = s.clicks.map jobOf ∧
    s.replies.length + (if s.repeater.manager.isSending then 1 else 0) = s.clicks.length ∧
    ∀ t, step s .sync = some t → HistoryTab.Holds t.resViewer (formatBodyLines s.lastResponse [], s.lastResponse) := by
  obtain ⟨-, -, hrecorded, -⟩ := inv_of_reached h
  refine ⟨hrecorded.jobs, hrecorded.replies, fun t ht => ?_⟩
  have hviewer := (inv_step (inv_of_reached h) ht).viewer
  simp only [step, Option.ite_none_right_eq_some, Option.some.injEq] at ht
  obtain ⟨-, rfl⟩ := ht
  rw [ShowsResponse, syncWithManager_lastLoadedRes, hrecorded.response] at hviewer
  exact hviewer

/-! What another tab loads. -/

def Showing (s : RepeaterTab) (target : Target) (raw : Bytes) : Prop :=
  s.fields = target ∧ s.reqEditor.lines = TextEditor.splitText raw

instance (s : RepeaterTab) (target : Target) (raw : Bytes) : Decidable (s.Showing target raw) :=
  inferInstanceAs (Decidable (_ ∧ _))

/-- The text is not the one that was loaded last, or the tab shows all of it anyway. -/
def LoadsAfresh (s : RepeaterTab) : Label → Prop
  | .load target raw => raw ≠ s.lastLoadedReq ∨ s.Showing target raw
  | _ => True

instance (s : RepeaterTab) (a : Label) : Decidable (LoadsAfresh s a) :=
  match a with
  | .load _ _ => inferInstanceAs (Decidable (_ ∨ _))
  | .field _ | .edit _ | .resViewer _ | .sync | .setTarget | .setRawRequest | .executeRequest | .writeBack
  | .finish _ _ => inferInstanceAs (Decidable True)

/-- What was loaded last is what the manager has, and the next frame shows it. -/
def Loaded (s : RepeaterTab) : Prop :=
  ∀ target raw, s.fresh = some (target, raw) → s.call = .idle ∧ s.repeater.manager.target = target ∧
    s.repeater.manager.rawRequest = raw ∧ (raw ≠ s.lastLoadedReq ∨ s.Showing target raw)

theorem lines_setText (e : TextEditor) (raw : Bytes) : (e.setText raw).lines = TextEditor.splitText raw :=
  (TextEditor.splitText_eq raw).symm

theorem getText_of_splitText {e : TextEditor} {raw : Bytes} (h : e.lines = TextEditor.splitText raw) :
    e.getText = normalizeCrlf raw := by
  rw [← getText_setText e raw, TextEditor.getText, TextEditor.getText, h, lines_setText]

section Loads

variable {s t : RepeaterTab} {a : Label} {target : Target} {raw : Bytes}

theorem syncWithManager_request (h : s.repeater.manager.rawRequest ≠ s.lastLoadedReq) :
    s.syncWithManager.Showing s.repeater.manager.target s.repeater.manager.rawRequest := by
  have hlines := lines_setText s.reqEditor s.repeater.manager.rawRequest
  unfold syncWithManager
  dsimp only
  rw [if_pos h]
  split <;> exact ⟨rfl, hlines⟩

theorem syncWithManager_same (h : s.repeater.manager.rawRequest = s.lastLoadedReq) :
    (s.syncWithManager.fields, s.syncWithManager.reqEditor) = (s.fields, s.reqEditor) := by
  unfold syncWithManager
  dsimp only
  rw [if_neg (not_not.mpr h)]
  split <;> rfl

theorem syncWithManager_loaded (h : s.Loaded) (hfresh : s.fresh = some (target, raw)) :
    s.syncWithManager.Showing target raw := by
  obtain ⟨-, rfl, rfl, hor⟩ := h target raw hfresh
  by_cases hsame : s.repeater.manager.rawRequest = s.lastLoadedReq
  · obtain ⟨hfields, heditor⟩ := Prod.mk.inj (syncWithManager_same hsame)
    rw [Showing, hfields, heditor]
    exact hor.resolve_left (not_not.mpr hsame)
  · exact syncWithManager_request hsame

theorem loaded_step (h : s.Loaded) (hc : LoadsAfresh s a) (hs : step s a = some t) : t.Loaded := by
  have hnone (hcall : s.call ≠ .idle) : s.fresh = none := by
    cases hfresh : s.fresh with
    | none => rfl
    | some p => exact absurd (h p.1 p.2 hfresh).1 hcall
  cases a with
  | field target =>
    simp only [step, Option.ite_none_right_eq_some, Option.some.injEq] at hs
    obtain ⟨-, rfl⟩ := hs
    intro _ _ hfresh
    cases hfresh
  | edit editor =>
    simp only [step, Option.ite_none_right_eq_some, Option.some.injEq] at hs
    obtain ⟨-, rfl⟩ := hs
    intro _ _ hfresh
    cases hfresh
  | resViewer c =>
    simp only [step, Option.ite_none_right_eq_some, Option.map_eq_some_iff] at hs
    obtain ⟨-, v, -, rfl⟩ := hs
    exact h
  | sync =>
    simp only [step, Option.ite_none_right_eq_some, Option.some.injEq] at hs
    obtain ⟨hidle, rfl⟩ := hs
    intro target raw hfresh
    have hkept : s.syncWithManager.repeater = s.repeater ∧ s.syncWithManager.call = s.call ∧
        s.syncWithManager.fresh = s.fresh := by
      unfold syncWithManager
      dsimp only
      split <;> split <;> exact ⟨rfl, rfl, rfl⟩
    obtain ⟨hrepeater, hcall, hsame⟩ := hkept
    rw [hsame] at hfresh
    obtain ⟨-, htarget, hraw, -⟩ := h target raw hfresh
    rw [hrepeater, hcall]
    exact ⟨hidle, htarget, hraw, .inr (syncWithManager_loaded h hfresh)⟩
  | load target raw =>
    rw [step, Option.ite_none_right_eq_some] at hs
    obtain ⟨hidle, hs⟩ := hs
    obtain ⟨u, hu, rfl⟩ := calls_spec hs
    obtain rfl := Option.some.inj hu
    intro target' raw' hfresh
    obtain ⟨rfl, rfl⟩ := Prod.mk.inj (Option.some.inj hfresh)
    exact ⟨hidle, rfl, rfl, hc⟩
  | setTarget =>
    rw [step, Option.ite_none_right_eq_some] at hs
    obtain ⟨-, hs⟩ := hs
    obtain ⟨u, -, rfl⟩ := calls_spec hs
    intro _ _ hfresh
    cases hfresh
  | setRawRequest =>
    rw [step, Option.ite_none_right_eq_some] at hs
    obtain ⟨hcall, hs⟩ := hs
    obtain ⟨u, -, rfl⟩ := calls_spec hs
    intro target raw hfresh
    rw [show s.fresh = none from hnone (by simp [hcall])] at hfresh
    cases hfresh
  | executeRequest =>
    rw [step, Option.ite_none_right_eq_some] at hs
    obtain ⟨hcall, hs⟩ := hs
    have hfresh := hnone (by simp [hcall])
    intro target raw hsome
    split at hs
    · obtain ⟨u, -, rfl⟩ := calls_spec hs
      rw [hfresh] at hsome
      cases hsome
    · obtain ⟨u, -, rfl⟩ := calls_spec hs
      rw [hfresh] at hsome
      cases hsome
  | writeBack =>
    rw [step] at hs
    split at hs
    · rename_i k hcall
      obtain ⟨u, -, rfl⟩ := calls_spec hs
      intro target raw hfresh
      rw [show s.fresh = none from hnone (by simp [hcall])] at hfresh
      cases hfresh
    · cases hs
  | finish k reply =>
    obtain ⟨u, hu, rfl⟩ := calls_spec hs
    simp only [RepeaterSends.step, Option.bind_eq_some_iff, Option.ite_none_right_eq_some,
      Option.some.injEq] at hu
    obtain ⟨d, -, -, rfl⟩ := hu
    exact h

/-- A frame after a load shows it exactly if the text differs from the one loaded before it, or all of it
is there already: with the same text another target is not taken over. -/
theorem load_shown_iff (h : s.call = .idle) (target : Target) (raw : Bytes) :
    ∃ t u, step s (.load target raw) = some t ∧ step t .sync = some u ∧
      (u.Showing target raw ↔ LoadsAfresh s (.load target raw)) := by
  let t : RepeaterTab := { s with
    repeater := { s.repeater with manager := s.repeater.manager.setRequest target raw }
    fresh := some (target, raw) }
  refine ⟨t, t.syncWithManager, if_pos h, if_pos h, ?_⟩
  constructor
  · intro hshowing
    by_cases hsame : raw = s.lastLoadedReq
    · obtain ⟨hfields, heditor⟩ := Prod.mk.inj (syncWithManager_same (s := t) hsame)
      rw [Showing, hfields, heditor] at hshowing
      exact .inr hshowing
    · exact .inl hsame
  · intro hafresh
    refine syncWithManager_loaded (fun target' raw' hfresh => ?_) rfl
    obtain ⟨rfl, rfl⟩ := Prod.mk.inj (Option.some.inj hfresh)
    exact ⟨h, rfl, rfl, hafresh⟩

end Loads

theorem loaded_of_reached {s : RepeaterTab} (h : system.ReachedUnder LoadsAfresh s) : s.Loaded := by
  refine h.invariant ?_ ?_
  · rintro _ rfl target raw hfresh
    cases hfresh
  · intro s a t hloaded hc hstep
    exact loaded_step hloaded hc hstep

section Click

/-- A frame and a click on Send, with nothing in between. -/
def sendRun : List Label := [.sync, .setTarget, .setRawRequest, .executeRequest, .writeBack]

/-- The state after that. -/
def sent (s : RepeaterTab) : RepeaterTab :=
  let click := (s.fields, s.reqEditor.getText)
  let d : Send := { target := click.1, rawRequest := click.2 }
  let manager := (s.repeater.manager.setTarget click.1).setRawRequest click.2
  { s with
    repeater := { s.repeater with
      manager := { manager with
        target := d.job.target
        statusText := RepeaterSends.connecting d.job.target
        isSending := true }
      sends := s.repeater.sends ++ [{ d with phase := .sending }] }
    clicked := click
    clicks := s.clicks ++ [click]
    fresh := none }

theorem run_sendRun {s : RepeaterTab} (hcall : s.call = .idle) (hidle : s.repeater.manager.isSending = false) :
    system.run s sendRun = some s.syncWithManager.sent := by
  have hkept : s.syncWithManager.repeater = s.repeater ∧ s.syncWithManager.call = s.call := by
    unfold syncWithManager
    dsimp only
    split <;> split <;> exact ⟨rfl, rfl⟩
  obtain ⟨hrepeater, hcall'⟩ := hkept
  rw [hcall] at hcall'
  have hsync : step s .sync = some s.syncWithManager := if_pos hcall
  rw [sendRun, StepSystem.System.run, show system.step s .sync = _ from hsync]
  dsimp only
  rw [← hrepeater] at hidle
  generalize s.syncWithManager = u at hcall' hidle
  simp [StepSystem.System.run, system, step, calls, RepeaterSends.step, hcall', hidle, sent, RepeaterSends.start,
    RepeaterSends.writeBack, RepeaterManager.setTarget, RepeaterManager.setRawRequest, Send.job]

/-- What another tab has loaded is shown and sent as it is, if each load brings another text or the tab
shows it already. -/
theorem loaded_is_sent {s : RepeaterTab} (h : system.ReachedUnder LoadsAfresh s) {target : Target} {raw : Bytes}
    (hfresh : s.fresh = some (target, raw)) :
    s.syncWithManager.Showing target raw ∧ (s.repeater.manager.isSending = false →
      ∃ t, system.run s sendRun = some t ∧ t.clicks = s.clicks ++ [(target, normalizeCrlf raw)] ∧
        t.repeater.sends.map Send.job = s.clicks.map jobOf ++ [jobOf (target, normalizeCrlf raw)]) := by
  have hloaded := loaded_of_reached h
  have hshowing := syncWithManager_loaded hloaded hfresh
  refine ⟨hshowing, fun hidle => ?_⟩
  have hrun := run_sendRun (hloaded target raw hfresh).1 hidle
  have hjobs := (inv_of_reached (.run h.reached hrun)).recorded.jobs
  have hclicks : s.syncWithManager.sent.clicks = s.clicks ++ [(target, normalizeCrlf raw)] := by
    have hsame : s.syncWithManager.clicks = s.clicks := by
      unfold syncWithManager
      dsimp only
      split <;> split <;> rfl
    rw [sent, hsame, hshowing.1, getText_of_splitText hshowing.2]
  rw [hclicks, List.map_append] at hjobs
  exact ⟨_, hrun, hclicks, hjobs⟩

end Click

section Examples

/-- The user edits the host and the request, sends it and gets an answer. -/
def answeredRun : List Label :=
  [.field ⟨str "a", [], false⟩, .edit (({} : TextEditor).setText (str "GET / HTTP/1.1")), .setTarget,
    .setRawRequest, .executeRequest, .writeBack, .sync, .finish 0 { response := str "OK" }]

theorem repeater_sends_shown_answeredRun : ∃ s t, system.run {} answeredRun = some s ∧ s.clicks.length = 1 ∧
    s.repeater.sends.map Send.job = s.clicks.map jobOf ∧ step s .sync = some t ∧
    t.resViewer.rawText = str "OK" ∧
    HistoryTab.Holds t.resViewer (formatBodyLines s.lastResponse [], s.lastResponse) := by
  have hrun : (system.run {} answeredRun).any (fun s => s.clicks.length = 1 ∧
      (step s .sync).any fun t => t.resViewer.rawText = str "OK") = true := by decide
  obtain ⟨s, hs, hlast⟩ := (Option.any_eq_true _ _).mp hrun
  rw [decide_eq_true_eq] at hlast
  obtain ⟨hclicks, hlast⟩ := hlast
  obtain ⟨t, ht, htext⟩ := (Option.any_eq_true _ _).mp hlast
  obtain ⟨hjobs, -, hshown⟩ := repeater_sends_shown (.run (.init rfl) hs)
  exact ⟨s, t, hs, hclicks, hjobs, ht, of_decide_eq_true htext, hshown t ht⟩

/-- Two requests for different ports of one host have the same text. -/
def otherPort : Target := ⟨str "a", str "8080", false⟩

/-- The second one is loaded after the first, and the first port stays in its field. -/
theorem other_port_not_shown : ∃ s t u, system.run {} [.load ⟨str "a", str "80", false⟩ (str "GET / HTTP/1.1"),
      .sync] = some s ∧ step s (.load otherPort (str "GET / HTTP/1.1")) = some t ∧ step t .sync = some u ∧
    ¬ u.Showing otherPort (str "GET / HTTP/1.1") := by
  have hrun : (system.run {} [.load ⟨str "a", str "80", false⟩ (str "GET / HTTP/1.1"), .sync]).any (fun s =>
      s.call = .idle ∧ ¬ LoadsAfresh s (.load otherPort (str "GET / HTTP/1.1"))) = true := by decide
  obtain ⟨s, hs, hlast⟩ := (Option.any_eq_true _ _).mp hrun
  rw [decide_eq_true_eq] at hlast
  obtain ⟨t, u, ht, hu, hiff⟩ := load_shown_iff hlast.1 otherPort (str "GET / HTTP/1.1")
  exact ⟨s, t, u, hs, ht, hu, hiff.not.mpr hlast.2⟩

end Examples

end RepeaterTab

end BurpTUI
