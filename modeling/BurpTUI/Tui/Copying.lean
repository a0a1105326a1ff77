import BurpTUI.Util.Clipboard
import BurpTUI.Tui.EditorSteps
import BurpTUI.Tui.ScrollableViewer

namespace BurpTUI

open TextEditor (Mouse Event Editor)

/-! What the two components give to `Clipboard::copy`, if they call it. -/

namespace Copying

/-- A click copies no empty selection. -/
def selectionGiven (e : Editor) : Option Bytes := e.getSelectedText.filter (· ≠ [])

def entireGiven (text : Bytes) : Option Bytes := if text = [] then none else some text

def leftGiven (e : Editor) (selecting : Bool) (row col : ℤ) : Option Bytes :=
  if selecting then
    let e := { e with selEndRow := row, selEndCol := col }
    if e.selStartRow = e.selEndRow ∧ (e.selStartCol - e.selEndCol).natAbs ≤ 1 then none
    else selectionGiven e
  else none

def rightGiven (e : Editor) (entire : Bytes) (row col : ℕ) : Option Bytes :=
  if e.hasSelection then selectionGiven e
  else (e.getWordAt row col).bind fun word => if word = [] then entireGiven entire else some word

/-- The branches of a mouse event in the box, from the first one that is not about the wheel. -/
def clickGiven (e : Editor) (entire : Bytes) (selecting : Bool) (m : Mouse) (row col : ℤ) : Option Bytes :=
  if m.button = .left ∧ m.motion = .pressed then none
  else if selecting ∧ m.button = .left then none
  else if m.button = .left ∧ m.motion = .released then leftGiven e selecting row col
  else if m.button = .right ∧ m.motion = .pressed then rightGiven e entire row.toNat col.toNat
  else none

end Copying

open Copying

namespace TextEditor.Editor

/-- The keys of the editor copy nothing. -/
def given (e : Editor) : Event → Option Bytes
  | .mouse m =>
    if e.box.contain m.x m.y then (e.lines[e.pointedRow m]?).bind fun line =>
      clickGiven e e.getText e.selecting m (e.pointedRow m) (e.pointedCol line m)
    else none
  | _ => none

end TextEditor.Editor

namespace ScrollableViewer

/-- The keys `y`, `c` and `C` also copy an empty selection. -/
def given (v : ScrollableViewer) (focused : Bool) : Event → Option Bytes
  | .mouse m =>
    if v.box.contain m.x m.y then
      clickGiven v.rawEditor v.rawText v.selecting m (v.scrollY + (m.y - v.box.yMin)) (max 0 (m.x - v.box.xMin))
    else none
  | event =>
    if focused ∧ (event = .character (str "y") ∨ event = .character (str "c") ∨
        event = .character (str "C")) then
      if v.hasSelection then v.getSelectedText else entireGiven v.rawText
    else none

end ScrollableViewer

namespace Copying

/-- The status line tells that this text was copied. -/
inductive Tells : Bytes → Bytes → Prop
  | entire (text : Bytes) : Tells (str "Copied entire text (" ++ decimal text.length ++ str " B)") text
  | selection (text : Bytes) : Tells (str "Copied selection (" ++ decimal text.length ++ str " B)") text
  | word (text : Bytes) : Tells (str "Copied word: " ++ text) text

/-- What a call makes of the status line: with nothing copied it stays, and else it tells the text. -/
def Told (before : Bytes) : Option Bytes → Bytes → Prop
  | none, after => after = before
  | some text, after => Tells after text

end Copying

/-- Only the right button copies: a release in the box while a selection is being made is taken for a drag. -/
theorem clickGiven_eq_none (e : Editor) (entire : Bytes) {selecting : Bool} {m : Mouse} (row col : ℤ)
    (hright : ¬ (m.button = .right ∧ m.motion = .pressed)) :
    clickGiven e entire selecting m row col = none := by
  unfold clickGiven
  split
  · rfl
  · split
    · rfl
    · rename_i hdrag
      split
      · rename_i hreleased
        have hnot : selecting = false := Bool.eq_false_iff.mpr fun hs => hdrag ⟨hs, hreleased.1⟩
        rw [hnot]
        rfl
      · rfl

theorem clickGiven_right (e : Editor) (entire : Bytes) (selecting : Bool) {m : Mouse} (row col : ℤ)
    (hright : m.button = .right ∧ m.motion = .pressed) :
    clickGiven e entire selecting m row col = rightGiven e entire row.toNat col.toNat := by
  simp [clickGiven, hright.1, hright.2]

namespace TextEditor.Editor

variable {e e' : Editor}

theorem copySelection_tells {label : Bytes}
    (hlabel : ∀ text : Bytes, Tells (label ++ decimal text.length ++ str " B)") text)
    (h : e.copySelection label = some e') : Told e.statusMsg (selectionGiven e) e'.statusMsg := by
  obtain ⟨sel, hsel, h⟩ := Option.bind_eq_some_iff.mp h
  rw [selectionGiven, hsel]
  split at h
  · rename_i hempty
    obtain rfl := Option.some.inj h
    rw [Option.filter_some, if_neg (by simpa using hempty)]
    rfl
  · rename_i hsome
    obtain rfl := Option.some.inj h
    rw [Option.filter_some, if_pos (by simpa using hsome)]
    exact hlabel sel

theorem copyToClipboard_tells (e : Editor) :
    Told e.statusMsg (entireGiven e.getText) (e.copyToClipboard (Clipboard.copy e.getText).1).statusMsg := by
  unfold copyToClipboard entireGiven Clipboard.copy
  dsimp only
  split
  · rfl
  · exact .entire e.getText

theorem rightPressed_tells {row col : ℕ} (h : e.rightPressed row col (Clipboard.copy e.getText).1 = some e') :
    Told e.statusMsg (rightGiven e e.getText row col) e'.statusMsg := by
  unfold rightPressed at h
  unfold rightGiven
  split at h
  · rename_i hsel
    rw [if_pos hsel]
    exact copySelection_tells .selection h
  · rename_i hsel
    rw [if_neg hsel]
    obtain ⟨word, hword, h⟩ := Option.bind_eq_some_iff.mp h
    rw [hword, Option.bind_some]
    split at h
    · rename_i hempty
      obtain rfl := Option.some.inj h
      rw [if_pos hempty]
      exact copyToClipboard_tells e
    · rename_i hsome
      obtain rfl := Option.some.inj h
      rw [if_neg hsome]
      exact .word word

theorem onMouse_tells {m : Mouse} {r : Bool × Editor}
    (h : e.onMouse m (Clipboard.copy e.getText).1 = some r) :
    Told e.statusMsg (e.given (.mouse m)) r.2.statusMsg := by
  by_cases hright : e.box.contain m.x m.y ∧ m.button = .right ∧ m.motion = .pressed
  · obtain ⟨hin, hright⟩ := hright
    unfold onMouse at h
    rw [if_pos hin] at h
    obtain ⟨line, hline, h⟩ := Option.bind_eq_some_iff.mp h
    have hpressed : (e.rightPressed (e.pointedRow m) (e.pointedCol line m) (Clipboard.copy e.getText).1).map
        (fun e => (true, e)) = some r := by
      simpa [pointedRow, pointedCol, hright.1, hright.2] using h
    obtain ⟨e', he', rfl⟩ := Option.map_eq_some_iff.mp hpressed
    have hline : e.lines[e.pointedRow m]? = some line := hline
    rw [given, if_pos hin, hline, Option.bind_some, clickGiven_right _ _ _ _ _ hright, Int.toNat_natCast,
      Int.toNat_natCast]
    exact rightPressed_tells he'
  · have hnone : e.given (.mouse m) = none := by
      rw [given]
      split
      · rename_i hin
        cases e.lines[e.pointedRow m]? with
        | none => rfl
        | some line => exact clickGiven_eq_none _ _ _ _ fun hr => hright ⟨hin, hr⟩
      · rfl
    rw [hnone]
    have hstep := onMouse_step h
    generalize r.2 = e' at hstep
    cases hstep with
    | told status hin hr hp => exact absurd ⟨hin, hr, hp⟩ hright
    | _ => rfl

/-! The keys leave the status line alone. -/

@[simp] theorem status_visible (e : Editor) (n : ℕ) : (e.ensureCursorVisible n).statusMsg = e.statusMsg := by
  unfold ensureCursorVisible
  split
  · rfl
  · rfl

theorem insertString_status {text : Bytes} (h : e.insertString text = some e') :
    e'.statusMsg = e.statusMsg := by
  unfold insertString at h
  induction text generalizing e with
  | nil =>
    obtain rfl := Option.some.inj h
    rfl
  | cons c text ih =>
    rw [List.foldlM_cons] at h
    obtain ⟨m, hm, hrest⟩ := Option.bind_eq_some_iff.mp h
    refine (ih hrest).trans ?_
    unfold insertChar at hm
    split at hm
    · obtain rfl := Option.some.inj hm
      rfl
    · split at hm
      · simp only [splitLine, Option.bind_eq_bind, Option.bind_eq_some_iff, Option.some.injEq] at hm
        obtain ⟨-, -, -, -, -, -, -, -, -, -, rfl⟩ := hm
        rfl
      · simp only [insertInLine, Option.bind_eq_bind, Option.bind_eq_some_iff, Option.some.injEq] at hm
        obtain ⟨-, -, -, -, -, -, rfl⟩ := hm
        rfl

theorem toRow_status {row : ℕ} (h : e.toRow row = some e') : e'.statusMsg = e.statusMsg := by
  obtain ⟨line, -, hline⟩ := Option.bind_eq_some_iff.mp h
  obtain rfl := Option.some.inj hline
  exact status_visible _ _

theorem arrow_status (h : e.arrowUp = some e' ∨ e.arrowDown = some e' ∨ e.arrowLeft = some e' ∨
    e.arrowRight = some e') : e'.statusMsg = e.statusMsg := by
  rcases h with h | h | h | h
  · unfold arrowUp at h
    split at h
    · exact toRow_status h
    · obtain rfl := Option.some.inj h
      rfl
  · unfold arrowDown at h
    split at h
    · exact toRow_status h
    · obtain rfl := Option.some.inj h
      rfl
  · unfold arrowLeft at h
    split at h
    · obtain rfl := Option.some.inj h
      rfl
    · split at h
      · obtain ⟨line, -, h⟩ := Option.bind_eq_some_iff.mp h
        obtain rfl := Option.some.inj h
        exact status_visible _ _
      · obtain rfl := Option.some.inj h
        rfl
  · obtain ⟨line, -, h⟩ := Option.bind_eq_some_iff.mp h
    split at h
    · obtain rfl := Option.some.inj h
      rfl
    · split at h
      · obtain rfl := Option.some.inj h
        exact status_visible _ _
      · obtain rfl := Option.some.inj h
        rfl

theorem erase_status (h : e.backspace = some e' ∨ e.delete = some e') : e'.statusMsg = e.statusMsg := by
  rcases h with h | h
  · unfold backspace at h
    split at h
    · simp only [Option.bind_eq_bind, Option.bind_eq_some_iff, Option.some.injEq] at h
      obtain ⟨-, -, -, -, -, -, rfl⟩ := h
      rfl
    · split at h
      · simp only [Option.bind_eq_bind, Option.bind_eq_some_iff, Option.some.injEq] at h
        obtain ⟨-, -, -, -, -, -, -, -, rfl⟩ := h
        exact status_visible _ _
      · obtain rfl := Option.some.inj h
        rfl
  · obtain ⟨line, -, h⟩ := Option.bind_eq_some_iff.mp h
    split at h
    · simp only [Option.bind_eq_bind, Option.bind_eq_some_iff, Option.some.injEq] at h
      obtain ⟨-, -, -, -, rfl⟩ := h
      rfl
    · split at h
      · simp only [Option.bind_eq_bind, Option.bind_eq_some_iff, Option.some.injEq] at h
        obtain ⟨-, -, -, -, -, -, rfl⟩ := h
        exact status_visible _ _
      · obtain rfl := Option.some.inj h
        rfl

theorem onKey_status {ev : Event} (h : e.onKey ev = some (some e')) : e'.statusMsg = e.statusMsg := by
  cases ev with
  | mouse m => cases h
  | other => cases h
  | arrowUp => exact arrow_status (.inl (Option.some.inj h))
  | arrowDown => exact arrow_status (.inr (.inl (Option.some.inj h)))
  | arrowLeft => exact arrow_status (.inr (.inr (.inl (Option.some.inj h))))
  | arrowRight => exact arrow_status (.inr (.inr (.inr (Option.some.inj h))))
  | homeKey =>
    obtain rfl := Option.some.inj (Option.some.inj h)
    rfl
  | endKey =>
    obtain ⟨line, -, hline⟩ := Option.bind_eq_some_iff.mp (Option.some.inj h)
    obtain rfl := Option.some.inj hline
    rfl
  | pageUp => exact toRow_status (Option.some.inj h)
  | pageDown => exact toRow_status (Option.some.inj h)
  | returnKey =>
    obtain ⟨m, hm, rfl⟩ := Option.map_eq_some_iff.mp (Option.some.inj h)
    simp only [splitLine, Option.bind_eq_bind, Option.bind_eq_some_iff, Option.some.injEq] at hm
    obtain ⟨-, -, -, -, -, -, -, -, -, -, rfl⟩ := hm
    exact status_visible _ _
  | backspace => exact erase_status (.inl (Option.some.inj h))
  | delete => exact erase_status (.inr (Option.some.inj h))
  | tab =>
    have htab : e.insertInLine (str "    ") = some e' := Option.some.inj h
    simp only [insertInLine, Option.bind_eq_bind, Option.bind_eq_some_iff, Option.some.injEq] at htab
    obtain ⟨-, -, -, -, -, -, rfl⟩ := htab
    rfl
  | character text =>
    obtain ⟨m, hm, rfl⟩ := Option.map_eq_some_iff.mp (Option.some.inj h)
    exact (status_visible _ _).trans (insertString_status hm)

theorem onEvent_tells {focused : Bool} {ev : Event} {r : Bool × Editor}
    (h : e.onEvent focused (Clipboard.copy e.getText).1 ev = some r) :
    Told e.statusMsg (e.given ev) r.2.statusMsg := by
  by_cases hmouse : ∃ m, ev = .mouse m
  · obtain ⟨m, rfl⟩ := hmouse
    exact onMouse_tells h
  · have hnone : e.given ev = none := by
      cases ev with
      | mouse m => exact absurd ⟨m, rfl⟩ hmouse
      | _ => rfl
    rw [hnone]
    rcases onEvent_key (fun m hm => hmouse ⟨m, hm⟩) h with hsame | ⟨e', hkey, hdrop⟩
    · rw [hsame]
      rfl
    · have hstatus := onKey_status hkey
      rw [hdrop]
      exact hstatus

end TextEditor.Editor

namespace ScrollableViewer

variable {v v' : ScrollableViewer}

theorem copySelection_tells {label : Bytes}
    (hlabel : ∀ text : Bytes, Tells (label ++ decimal text.length ++ str " B)") text)
    (h : v.copySelection label = some v') : Told v.statusMsg (selectionGiven v.rawEditor) v'.statusMsg := by
  obtain ⟨sel, hsel, h⟩ := Option.bind_eq_some_iff.mp h
  have hsel : v.rawEditor.getSelectedText = some sel := hsel
  rw [selectionGiven, hsel]
  split at h
  · rename_i hempty
    obtain rfl := Option.some.inj h
    rw [Option.filter_some, if_neg (by simpa using hempty)]
    rfl
  · rename_i hsome
    obtain rfl := Option.some.inj h
    rw [Option.filter_some, if_pos (by simpa using hsome)]
    exact hlabel sel

theorem copyToClipboard_tells (v : ScrollableViewer) :
    Told v.statusMsg (entireGiven v.rawText) (v.copyToClipboard (Clipboard.copy v.rawText).1).statusMsg := by
  unfold copyToClipboard entireGiven Clipboard.copy
  split
  · rfl
  · exact .entire v.rawText

theorem rightPressed_tells {row col : ℤ} (h : v.rightPressed row col (Clipboard.copy v.rawText).1 = some v') :
    Told v.statusMsg (rightGiven v.rawEditor v.rawText row.toNat col.toNat) v'.statusMsg := by
  unfold rightPressed at h
  unfold rightGiven
  split at h
  · rename_i hsel
    have hsel : v.rawEditor.hasSelection = true := hsel
    rw [if_pos hsel]
    exact copySelection_tells .selection h
  · rename_i hsel
    have hsel : ¬ v.rawEditor.hasSelection = true := hsel
    rw [if_neg hsel]
    obtain ⟨word, hword, h⟩ := Option.bind_eq_some_iff.mp h
    have hword : v.rawEditor.getWordAt row.toNat col.toNat = some word := hword
    rw [hword, Option.bind_some]
    split at h
    · rename_i hempty
      obtain rfl := Option.some.inj h
      rw [if_pos hempty]
      exact copyToClipboard_tells v
    · rename_i hsome
      obtain rfl := Option.some.inj h
      rw [if_neg hsome]
      exact .word word

theorem onMouse_tells {focused : Bool} {m : Mouse} {r : Bool × ScrollableViewer}
    (h : v.onMouse m (Clipboard.copy v.rawText).1 = some r) :
    Told v.statusMsg (v.given focused (.mouse m)) r.2.statusMsg := by
  by_cases hright : v.box.contain m.x m.y ∧ m.button = .right ∧ m.motion = .pressed
  · obtain ⟨hin, hright⟩ := hright
    unfold onMouse at h
    rw [if_pos hin] at h
    have hpressed : (v.rightPressed (v.scrollY + (m.y - v.box.yMin)) (max 0 (m.x - v.box.xMin))
        (Clipboard.copy v.rawText).1).map (fun v => (true, v)) = some r := by
      simpa [hright.1, hright.2] using h
    obtain ⟨v', hv', rfl⟩ := Option.map_eq_some_iff.mp hpressed
    rw [given, if_pos hin, clickGiven_right _ _ _ _ _ hright]
    exact rightPressed_tells hv'
  · have hnone : v.given focused (.mouse m) = none := by
      rw [given]
      split
      · rename_i hin
        exact clickGiven_eq_none _ _ _ _ fun hr => hright ⟨hin, hr⟩
      · rfl
    rw [hnone]
    have hstep := onMouse_step h
    generalize r.2 = v' at hstep
    cases hstep with
    | told status hin hr hp => exact absurd ⟨hin, hr, hp⟩ hright
    | _ => rfl

theorem copyKey_tells (h : v.copyKey (Clipboard.copy v.rawText).1 = some v') :
    Told v.statusMsg (if v.hasSelection then v.getSelectedText else entireGiven v.rawText) v'.statusMsg := by
  unfold copyKey at h
  split at h
  · rename_i hsel
    obtain ⟨sel, hgiven, h⟩ := Option.bind_eq_some_iff.mp h
    obtain rfl := Option.some.inj h
    rw [if_pos hsel, hgiven]
    exact .selection sel
  · rename_i hsel
    obtain rfl := Option.some.inj h
    rw [if_neg hsel]
    exact copyToClipboard_tells v

theorem given_key {focused : Bool} {ev : Event} (hev : ∀ m, ev ≠ .mouse m) :
    v.given focused ev =
      if focused ∧ (ev = .character (str "y") ∨ ev = .character (str "c") ∨ ev = .character (str "C")) then
        if v.hasSelection then v.getSelectedText else entireGiven v.rawText
      else none := by
  cases ev with
  | mouse m => exact absurd rfl (hev m)
  | _ => rfl

theorem onKey_tells {ev : Event} {r : Bool × ScrollableViewer} (hev : ∀ m, ev ≠ .mouse m)
    (h : v.onKey (Clipboard.copy v.rawText).1 ev = some r) :
    Told v.statusMsg (v.given true ev) r.2.statusMsg := by
  by_cases hcopy : ev = .character (str "y") ∨ ev = .character (str "c") ∨ ev = .character (str "C")
  · have hkey : (v.copyKey (Clipboard.copy v.rawText).1).map (fun v => (true, v)) = some r := by
      rcases hcopy with rfl | rfl | rfl <;> exact h
    obtain ⟨v', hv', rfl⟩ := Option.map_eq_some_iff.mp hkey
    rw [given_key hev, if_pos ⟨rfl, hcopy⟩]
    exact copyKey_tells hv'
  · rw [given_key hev, if_neg fun hc => hcopy hc.2]
    unfold onKey at h
    rw [if_neg hcopy] at h
    repeat' split at h
    all_goals
      obtain rfl := Option.some.inj h
      rfl

theorem onEvent_tells {focused : Bool} {ev : Event} {r : Bool × ScrollableViewer}
    (h : v.onEvent focused (Clipboard.copy v.rawText).1 ev = some r) :
    Told v.statusMsg (v.given focused ev) r.2.statusMsg := by
  by_cases hmouse : ∃ m, ev = .mouse m
  · obtain ⟨m, rfl⟩ := hmouse
    exact onMouse_tells h
  · have hev (m : Mouse) : ev ≠ .mouse m := fun hm => hmouse ⟨m, hm⟩
    have hkey : (if focused then v.onKey (Clipboard.copy v.rawText).1 ev else some (false, v)) = some r := by
      cases ev with
      | mouse m => exact absurd rfl (hev m)
      | _ => exact h
    cases focused with
    | true => exact onKey_tells hev hkey
    | false =>
      obtain rfl := Option.some.inj hkey
      rw [given_key hev, if_neg fun hc => Bool.false_ne_true hc.1]
      rfl

end ScrollableViewer

namespace Copying

/-! Several components write to one terminal. -/

inductive Pane
  | viewer (v : ScrollableViewer)
  | editor (e : Editor)

def Pane.status : Pane → Bytes
  | .viewer v => v.statusMsg
  | .editor e => e.statusMsg

/-- The calls of a component. `copyToClipboard` is what the buttons and keys of the tabs call. -/
inductive PaneCall
  | viewer (c : ScrollableViewer.Call)
  | editor (c : Editor.Call)
  | copyToClipboard

/-- The call with what `Clipboard::copy` returns in it. -/
def viewerCall (v : ScrollableViewer) : ScrollableViewer.Call → Option ScrollableViewer
  | .onEvent focused _ ev => v.call (.onEvent focused (Clipboard.copy v.rawText).1 ev)
  | c => v.call c

def editorCall (e : Editor) : Editor.Call → Option Editor
  | .onEvent focused _ ev => e.call (.onEvent focused (Clipboard.copy e.getText).1 ev)
  | c => e.call c

def Pane.call : Pane → PaneCall → Option Pane
  | .viewer v, .viewer c => (viewerCall v c).map .viewer
  | .editor e, .editor c => (editorCall e c).map .editor
  | .viewer v, .copyToClipboard => some (.viewer (v.copyToClipboard (Clipboard.copy v.rawText).1))
  | .editor e, .copyToClipboard => some (.editor (e.copyToClipboard (Clipboard.copy e.getText).1))
  | _, _ => none

def Pane.given : Pane → PaneCall → Option Bytes
  | .viewer v, .viewer (.onEvent focused _ ev) => v.given focused ev
  | .editor e, .editor (.onEvent _ _ ev) => e.given ev
  | .viewer v, .copyToClipboard => entireGiven v.rawText
  | .editor e, .copyToClipboard => entireGiven e.getText
  | _, _ => none

/-- The two other texts that a status line starts with. -/
def Untold (status : Bytes) : Prop := status = [] ∨ status = str "Cleared"

theorem viewerCall_tells {v v' : ScrollableViewer} {c : ScrollableViewer.Call} (h : viewerCall v c = some v') :
    Told v.statusMsg ((Pane.viewer v).given (.viewer c)) v'.statusMsg ∨
      (Pane.viewer v).given (.viewer c) = none ∧ Untold v'.statusMsg := by
  cases c with
  | setContent lines rawText =>
    obtain rfl := Option.some.inj h
    exact .inr ⟨rfl, .inl rfl⟩
  | setRawText rawText contentType =>
    obtain rfl := Option.some.inj h
    exact .inr ⟨rfl, .inl rfl⟩
  | scrollTo y =>
    obtain rfl := Option.some.inj h
    exact .inl rfl
  | scrollBy delta =>
    obtain rfl := Option.some.inj h
    exact .inl rfl
  | render =>
    obtain ⟨r, hr, rfl⟩ := Option.map_eq_some_iff.mp h
    obtain ⟨rows, -, hrows⟩ := Option.bind_eq_some_iff.mp hr
    obtain rfl := Option.some.inj hrows
    exact .inl rfl
  | onEvent focused copied ev =>
    obtain ⟨r, hr, rfl⟩ := Option.map_eq_some_iff.mp h
    exact .inl (ScrollableViewer.onEvent_tells hr)
  | reflect box =>
    obtain rfl := Option.some.inj h
    exact .inl rfl

theorem editorCall_tells {e e' : Editor} {c : Editor.Call} (h : editorCall e c = some e') :
    Told e.statusMsg ((Pane.editor e).given (.editor c)) e'.statusMsg ∨
      (Pane.editor e).given (.editor c) = none ∧ Untold e'.statusMsg := by
  cases c with
  | setText text =>
    obtain rfl := Option.some.inj h
    exact .inr ⟨rfl, .inl rfl⟩
  | clear =>
    obtain rfl := Option.some.inj h
    exact .inr ⟨rfl, .inr rfl⟩
  | render focused =>
    obtain ⟨r, hr, rfl⟩ := Option.map_eq_some_iff.mp h
    obtain ⟨rows, -, hrows⟩ := Option.bind_eq_some_iff.mp hr
    obtain rfl := Option.some.inj hrows
    exact .inl (Editor.status_visible _ _)
  | onEvent focused copied ev =>
    obtain ⟨r, hr, rfl⟩ := Option.map_eq_some_iff.mp h
    exact .inl (Editor.onEvent_tells hr)
  | reflect box =>
    obtain rfl := Option.some.inj h
    exact .inl rfl

theorem Pane.call_tells {p p' : Pane} {c : PaneCall} (h : p.call c = some p') :
    Told p.status (p.given c) p'.status ∨ p.given c = none ∧ Untold p'.status := by
  cases p with
  | viewer v =>
    cases c with
    | viewer c =>
      obtain ⟨v', hv', rfl⟩ := Option.map_eq_some_iff.mp h
      exact viewerCall_tells hv'
    | editor c => cases h
    | copyToClipboard =>
      obtain rfl := Option.some.inj h
      exact .inl v.copyToClipboard_tells
  | editor e =>
    cases c with
    | viewer c => cases h
    | editor c =>
      obtain ⟨e', he', rfl⟩ := Option.map_eq_some_iff.mp h
      exact editorCall_tells he'
    | copyToClipboard =>
      obtain rfl := Option.some.inj h
      exact .inl e.copyToClipboard_tells

/-- The components, what has been written to the terminal, and the texts that were copied, with the component
that copied each. -/
structure State (ι : Type*) where
  panes : ι → Pane
  stdout : Bytes := []
  copies : List (ι × Bytes) := []

inductive Label (ι : Type*)
  | call (i : ι) (c : PaneCall)
  | screen (bytes : Bytes)

variable {ι : Type*} [DecidableEq ι]

def step (s : State ι) : Label ι → Option (State ι)
  | .call i c => ((s.panes i).call c).map fun p =>
    let text := ((s.panes i).given c).getD []
    { panes := Function.update s.panes i p
      stdout := s.stdout ++ (Clipboard.copy text).2
      copies := s.copies ++ if text = [] then [] else [(i, text)] }
  | .screen bytes => some { s with stdout := s.stdout ++ bytes }

/-- The text that a component copied last. -/
def State.lastCopy (s : State ι) (i : ι) : Option Bytes :=
  ((s.copies.filter fun copy => copy.1 = i).getLast?).map Prod.snd

structure Initial (s : State ι) : Prop where
  panes : ∀ i, s.panes i = .viewer {} ∨ s.panes i = .editor {}
  stdout : s.stdout = []
  copies : s.copies = []

def system (ι : Type*) [DecidableEq ι] : StepSystem.System (State ι) (Label ι) where
  init := Initial
  step := step

/-- The screen is drawn with whole escape sequences, and drawing sets no clipboard. -/
def Drawn (_ : State ι) : Label ι → Prop
  | .screen bytes => Osc.Quiet bytes
  | _ => True

instance (s : State ι) : DecidablePred (Drawn s)
  | .screen bytes => inferInstanceAs (Decidable (Osc.Quiet bytes))
  | .call _ _ => .isTrue trivial

/-- What a status line says of the text that was copied last: it tells that text, or that there was none to
copy, or nothing at all. -/
inductive Truthful (last : Option Bytes) (status : Bytes) : Prop
  | untold (untold : Untold status)
  | nothing (tells : Tells status [])
  | last (text : Bytes) (last : last = some text) (tells : Tells status text)

theorem lastCopy_append (s : State ι) (i j : ι) (text : Bytes) (panes : ι → Pane) (stdout : Bytes) :
    State.lastCopy ⟨panes, stdout, s.copies ++ [(i, text)]⟩ j =
      if i = j then some text else s.lastCopy j := by
  by_cases hij : i = j
  · simp [State.lastCopy, List.filter_append, hij]
  · simp [State.lastCopy, List.filter_append, hij]

theorem call_truthful {s : State ι} {i : ι} {c : PaneCall} {p : Pane}
    (h : ∀ j, Truthful (s.lastCopy j) (s.panes j).status) (hp : (s.panes i).call c = some p) :
    let text := ((s.panes i).given c).getD []
    let t : State ι := ⟨Function.update s.panes i p, s.stdout ++ (Clipboard.copy text).2,
      s.copies ++ if text = [] then [] else [(i, text)]⟩
    ∀ j, Truthful (t.lastCopy j) (t.panes j).status := by
  intro text t j
  have hlast : t.lastCopy j = if text ≠ [] ∧ i = j then some text else s.lastCopy j := by
    by_cases htext : text = []
    · simp [t, State.lastCopy, htext]
    · simp only [t, if_neg htext]
      rw [lastCopy_append]
      simp [htext]
  rw [hlast]
  by_cases hij : i = j
  · subst hij
    have hpane : t.panes i = p := Function.update_self ..
    rw [hpane]
    cases hgiven : (s.panes i).given c with
    | none =>
      have htext : text = [] := by simp [text, hgiven]
      rw [if_neg fun hne => hne.1 htext]
      have htold := Pane.call_tells hp
      rw [hgiven] at htold
      rcases htold with hsame | ⟨-, huntold⟩
      · have hsame : p.status = (s.panes i).status := hsame
        rw [hsame]
        exact h i
      · exact .untold huntold
    | some sel =>
      have htext : text = sel := by simp [text, hgiven]
      have htold := Pane.call_tells hp
      rw [hgiven] at htold
      have htells : Tells p.status sel := htold.resolve_right fun hnone => nomatch hnone.1
      by_cases hempty : sel = []
      · exact .nothing (hempty ▸ htells)
      · rw [if_pos ⟨htext ▸ hempty, rfl⟩, htext]
        exact .last sel rfl htells
  · have hpane : t.panes j = s.panes j := Function.update_of_ne (Ne.symm hij) ..
    rw [hpane, if_neg fun hc => hij hc.2]
    exact h j

/-- Whatever the components copy, in any order and with any screens in between, comes to the clipboard of the
terminal, each text once, in order and byte for byte; and a status line that tells of a copy tells the text
that its component has put there last. -/
theorem copies_delivered {s : State ι} (h : (system ι).ReachedUnder Drawn s) :
    Clipboard.Delivered s.stdout (s.copies.map Prod.snd) ∧
      ∀ i, Truthful (s.lastCopy i) (s.panes i).status := by
  refine h.invariant (I := fun s => Clipboard.Delivered s.stdout (s.copies.map Prod.snd) ∧
    ∀ i, Truthful (s.lastCopy i) (s.panes i).status) ?_ ?_
  · intro s h0
    refine ⟨?_, fun i => .untold ?_⟩
    · rw [h0.stdout, h0.copies]
      exact .nil
    · rcases h0.panes i with hpane | hpane
      · rw [hpane]
        exact .inl rfl
      · rw [hpane]
        exact .inl rfl
  · rintro s a t ⟨hdelivered, htruthful⟩ hdrawn hstep
    cases a with
    | screen bytes =>
      obtain rfl := Option.some.inj hstep
      exact ⟨hdelivered.quiet hdrawn, htruthful⟩
    | call i c =>
      obtain ⟨p, hp, rfl⟩ := Option.map_eq_some_iff.mp hstep
      refine ⟨?_, call_truthful htruthful hp⟩
      have hcopy := hdelivered.copy (((s.panes i).given c).getD [])
      dsimp only
      split at hcopy
      · rename_i hempty
        rw [if_pos hempty, List.append_nil, ← List.append_nil (s.copies.map Prod.snd)]
        exact hcopy
      · rename_i hsome
        rw [if_neg hsome, List.map_append]
        exact hcopy

section Examples

/-- A viewer and an editor. -/
def freshPanes : State Bool where
  panes i := if i then .viewer {} else .editor {}

/-- A word is copied from the viewer, the screen is cleared, and then all of the editor is copied. -/
def twoCopies : List (Label Bool) :=
  [.call true (.viewer (.setContent [] (str "GET /a"))),
    .call true (.viewer (.reflect { xMax := 20, yMax := 5 })),
    .call true (.viewer (.onEvent true true (.mouse { x := 1, y := 0, button := .right, motion := .pressed }))),
    .screen (Osc.ESC :: str "[2J"),
    .call false (.editor (.setText (str "Host: h"))), .call false .copyToClipboard]

theorem copies_delivered_twoCopies : ∃ s : State Bool,
    s.copies = [(true, str "GET"), (false, str "Host: h")] ∧
      Clipboard.Delivered s.stdout [str "GET", str "Host: h"] ∧
      ∀ i, Truthful (s.lastCopy i) (s.panes i).status := by
  have hrun : ((system Bool).runUnder Drawn freshPanes twoCopies).any
      (fun s => s.copies = [(true, str "GET"), (false, str "Host: h")]) = true := by decide
  obtain ⟨s, hs, hcopies⟩ := (Option.any_eq_true _ _).mp hrun
  have hcopies : s.copies = [(true, str "GET"), (false, str "Host: h")] := of_decide_eq_true hcopies
  have hinit : (system Bool).init freshPanes := ⟨fun i => by cases i <;> simp [freshPanes], rfl, rfl⟩
  obtain ⟨hdelivered, htruthful⟩ := copies_delivered (.runUnder (.init hinit) hs)
  rw [hcopies] at hdelivered
  exact ⟨s, hcopies, hdelivered, htruthful⟩

end Examples

end Copying

end BurpTUI
