import BurpTUI.Tui.EditorSteps
import BurpTUI.Tui.ScrollableViewer

namespace BurpTUI

open TextEditor (Box Mouse Event Editor)

/-- The press in its box that a widget has had last, if no release has followed, and whether a release
has come since. -/
structure Gesture where
  pressed : Option Mouse := none
  released : Bool := false
  deriving DecidableEq, Repr

def Gesture.next (g : Gesture) (box : Box) (m : Mouse) : Gesture :=
  if m.button = .left ∧ m.motion = .pressed ∧ box.contain m.x m.y then ⟨some m, false⟩
  else if m.button = .left ∧ m.motion = .released then ⟨none, true⟩
  else g

/-- What a mouse event sees of a widget. The marks are the cursor and the selection. -/
structure Widget (σ κ μ : Type) where
  init : σ
  call : σ → κ → Option σ
  mouse : κ → Option Mouse
  box : σ → Box
  selecting : σ → Bool
  hasSelection : σ → Bool
  marks : σ → μ

namespace Widget

variable {σ κ μ : Type} {W : Widget σ κ μ} {s t : σ} {g : Gesture} {c : κ} {m : Mouse}

/-- The widget with the gesture so far. -/
def system (W : Widget σ κ μ) : StepSystem.System (σ × Gesture) κ where
  init p := p = (W.init, {})
  step p c := (W.call p.1 c).map fun t =>
    (t, match W.mouse c with
      | some m => p.2.next (W.box p.1) m
      | none => p.2)

/-- The release ends a click: it is on the row of the press and at most one column away. -/
def Near (g : Gesture) (m : Mouse) : Prop := ∃ p ∈ g.pressed, p.y = m.y ∧ (p.x - m.x).natAbs ≤ 1

/-- What a mouse event has to do: a release ends the drag, a click leaves no selection, and between a
release and the next press the left button changes nothing. -/
structure EndsDrag (W : Widget σ κ μ) (s : σ) (g : Gesture) (m : Mouse) (t : σ) : Prop where
  ended : m.button = .left → m.motion = .released → W.selecting t = false
  click : m.button = .left → m.motion = .released → Near g m → W.hasSelection t = false
  still : g.released = true → m.button = .left → m.motion ≠ .pressed → W.marks t = W.marks s

/-- No release comes into the box while a selection is being made, and none that ends a click while
there is a selection. -/
def Quiet (W : Widget σ κ μ) (p : σ × Gesture) (c : κ) : Prop :=
  ∀ m ∈ W.mouse c, m.button = .left → m.motion = .released →
    ((W.box p.1).contain m.x m.y → W.selecting p.1 = false) ∧ (Near p.2 m → W.hasSelection p.1 = false)

theorem quiet_of_motion {p : σ × Gesture} (h : ∀ m ∈ W.mouse c, m.motion ≠ .released) : W.Quiet p c :=
  fun m hm _ hreleased => absurd hreleased (h m hm)

/-- How the calls of a widget treat the left button. -/
structure Handles (W : Widget σ κ μ) : Prop where
  init : W.selecting W.init = false
  starts {s t : σ} {c : κ} : W.call s c = some t → W.selecting t → W.selecting s ∨
    ∃ m, W.mouse c = some m ∧ m.button = .left ∧ m.motion = .pressed ∧ (W.box s).contain m.x m.y
  /-- A release in the box does not end a selection, and one outside does not drop it. -/
  release {s t : σ} {c : κ} {m : Mouse} : W.call s c = some t → W.mouse c = some m → m.button = .left →
    m.motion = .released → (W.selecting t = ((W.box s).contain m.x m.y && W.selecting s)) ∧
      W.hasSelection t = W.hasSelection s
  still {s t : σ} {c : κ} {m : Mouse} : W.call s c = some t → W.mouse c = some m → m.button = .left →
    m.motion ≠ .pressed → W.selecting s = false → W.marks t = W.marks s

theorem Handles.ended_iff (h : W.Handles) (hcall : W.call s c = some t) (hmouse : W.mouse c = some m)
    (hleft : m.button = .left) (hreleased : m.motion = .released) :
    W.selecting t = false ↔ ((W.box s).contain m.x m.y → W.selecting s = false) := by
  rw [(h.release hcall hmouse hleft hreleased).1, Bool.and_eq_false_imp]

/-- After a release the widget is not selecting, if each release has met the condition. -/
theorem Handles.settled (h : W.Handles) {p : σ × Gesture} (hp : W.system.ReachedUnder W.Quiet p) :
    p.2.released = true → W.selecting p.1 = false := by
  refine hp.invariant (I := fun p => p.2.released = true → W.selecting p.1 = false) ?_ ?_
  · rintro _ rfl hreleased
    cases hreleased
  · rintro ⟨s, g⟩ c p hsettled hquiet hstep
    obtain ⟨t, hcall, rfl⟩ := Option.map_eq_some_iff.mp hstep
    dsimp only at hsettled hcall ⊢
    intro hreleased
    by_contra hselecting
    rw [Bool.not_eq_false] at hselecting
    rcases h.starts hcall hselecting with hs | ⟨m, hmouse, hleft, hpress, hin⟩
    · cases hmouse : W.mouse c with
      | none =>
        rw [hmouse] at hreleased
        exact absurd (hsettled hreleased) (by simp [hs])
      | some m =>
        rw [hmouse] at hreleased
        by_cases hend : m.button = .left ∧ m.motion = .released
        · have hnot := (h.ended_iff hcall hmouse hend.1 hend.2).mpr (hquiet m hmouse hend.1 hend.2).1
          simp [hnot] at hselecting
        · -- the release was an earlier one
          have hearlier : g.released = true := by
            dsimp only [Gesture.next] at hreleased
            split at hreleased
            · cases hreleased
            · exact hreleased
          exact absurd (hsettled hearlier) (by simp [hs])
    · rw [hmouse] at hreleased
      dsimp only [Gesture.next] at hreleased
      rw [if_pos ⟨hleft, hpress, hin⟩] at hreleased
      cases hreleased

theorem Handles.endsDrag_iff_quiet (h : W.Handles) {p : σ × Gesture} (hp : W.system.ReachedUnder W.Quiet p)
    (hcall : W.call p.1 c = some t) (hmouse : W.mouse c = some m) :
    W.EndsDrag p.1 p.2 m t ↔ W.Quiet p c := by
  constructor
  · intro hends m' hm' hleft hreleased
    obtain rfl := Option.some.inj (hmouse.symm.trans hm')
    refine ⟨(h.ended_iff hcall hmouse hleft hreleased).mp (hends.ended hleft hreleased), fun hnear => ?_⟩
    rw [← (h.release hcall hmouse hleft hreleased).2]
    exact hends.click hleft hreleased hnear
  · intro hquiet
    refine ⟨fun hleft hreleased => ?_, fun hleft hreleased hnear => ?_, fun hrel hleft hmotion => ?_⟩
    · exact (h.ended_iff hcall hmouse hleft hreleased).mpr (hquiet m hmouse hleft hreleased).1
    · rw [(h.release hcall hmouse hleft hreleased).2]
      exact (hquiet m hmouse hleft hreleased).2 hnear
    · exact h.still hcall hmouse hleft hmotion (h.settled hp hrel)

end Widget

namespace TextEditor.Editor

/-- The cursor and the selection. -/
def marks (e : Editor) : (ℕ × ℕ) × Bool × (ℤ × ℤ) × ℤ × ℤ :=
  ((e.cursorRow, e.cursorCol), e.hasSelection, (e.selStartRow, e.selStartCol), e.selEndRow, e.selEndCol)

def Call.mouse : Call → Option Mouse
  | .onEvent _ _ (.mouse m) => some m
  | _ => none

def widget : Widget Editor Call ((ℕ × ℕ) × Bool × (ℤ × ℤ) × ℤ × ℤ) where
  init := {}
  call := call
  mouse := Call.mouse
  box := Editor.box
  selecting e := e.selecting
  hasSelection e := e.hasSelection
  marks := marks

theorem mouseStep_of_call {e e' : Editor} {c : Call} {m : Mouse} (h : e.call c = some e')
    (hm : c.mouse = some m) : MouseStep e m e' := by
  cases c with
  | onEvent focused copied ev =>
    cases ev with
    | mouse m' =>
      obtain rfl := Option.some.inj hm
      obtain ⟨r, hr, rfl⟩ := Option.map_eq_some_iff.mp h
      exact onMouse_step hr
    | _ => cases hm
  | _ => cases hm

/-- Only the mouse starts a selection. -/
theorem selecting_of_call {e e' : Editor} {c : Call} (h : e.call c = some e') (hm : c.mouse = none)
    (hs : e'.selecting) : e.selecting := by
  cases c with
  | setText text =>
    obtain rfl := Option.some.inj h
    cases hs
  | clear =>
    obtain rfl := Option.some.inj h
    cases hs
  | render focused =>
    obtain ⟨r, hr, rfl⟩ := Option.map_eq_some_iff.mp h
    obtain ⟨rows, -, hrows⟩ := Option.bind_eq_some_iff.mp hr
    obtain rfl := Option.some.inj hrows
    exact ((Frame.refl e).visible _).selecting ▸ hs
  | onEvent focused copied ev =>
    obtain ⟨r, hr, rfl⟩ := Option.map_eq_some_iff.mp h
    have hkey (m : Mouse) : ev ≠ .mouse m := by
      rintro rfl
      cases hm
    rcases onEvent_key hkey hr with he | ⟨m, hm, he⟩
    · exact he ▸ hs
    · rw [he] at hs
      exact (onKey_frame hm).selecting ▸ hs
  | reflect box =>
    obtain rfl := Option.some.inj h
    exact hs

theorem widget_handles : widget.Handles where
  init := rfl
  starts {e e' c} h hs := by
    cases hm : c.mouse with
    | none => exact .inl (selecting_of_call h hm hs)
    | some m =>
      have hstep := mouseStep_of_call h hm
      cases hstep with
      | press line hin hleft hpress hline => exact .inr ⟨m, hm, hleft, hpress, hin⟩
      | leave hout hsel hreleased => cases hs
      | _ => exact .inl hs
  release {e e' c m} h hm hleft hreleased := by
    cases mouseStep_of_call h hm with
    | wheelUp hin hup => rw [hleft] at hup; cases hup
    | wheelDown hin hdown => rw [hleft] at hdown; cases hdown
    | press line hin hleft hpress hline => rw [hreleased] at hpress; cases hpress
    | drag line hin hsel => exact ⟨by simp [widget, hin], rfl⟩
    | told status hin hright => rw [hleft] at hright; cases hright
    | idle hin hup hdown hidle => exact ⟨by simp [widget, hin], rfl⟩
    | leave hout hsel => exact ⟨by simp [widget, hout], rfl⟩
    | outside hout hstay =>
      have hsel : e.selecting = false := Bool.eq_false_iff.mpr fun hsel => hstay ⟨hsel, hreleased⟩
      exact ⟨by simp [widget, hsel], rfl⟩
  still {e e' c m} h hm hleft hmotion hs := by
    cases mouseStep_of_call h hm with
    | press line hin hleft hpress hline => exact absurd hpress hmotion
    | drag line hin hsel =>
      have hs : e.selecting = false := hs
      rw [hs] at hsel
      cases hsel
    | _ => rfl

end TextEditor.Editor

namespace ScrollableViewer

/-- The selection; there is no cursor. -/
def marks (v : ScrollableViewer) : Bool × (ℤ × ℤ) × ℤ × ℤ :=
  (v.hasSelection, (v.selStartRow, v.selStartCol), v.selEndRow, v.selEndCol)

def Call.mouse : Call → Option Mouse
  | .onEvent _ _ (.mouse m) => some m
  | _ => none

def widget : Widget ScrollableViewer Call (Bool × (ℤ × ℤ) × ℤ × ℤ) where
  init := {}
  call := call
  mouse := Call.mouse
  box := ScrollableViewer.box
  selecting := ScrollableViewer.selecting
  hasSelection := ScrollableViewer.hasSelection
  marks := marks

theorem mouseStep_of_call {v v' : ScrollableViewer} {c : Call} {m : Mouse} (h : v.call c = some v')
    (hm : c.mouse = some m) : MouseStep v m v' := by
  cases c with
  | onEvent focused copied ev =>
    cases ev with
    | mouse m' =>
      obtain rfl := Option.some.inj hm
      obtain ⟨r, hr, rfl⟩ := Option.map_eq_some_iff.mp h
      exact onMouse_step hr
    | _ => cases hm
  | _ => cases hm

theorem selecting_of_call {v v' : ScrollableViewer} {c : Call} (h : v.call c = some v')
    (hm : c.mouse = none) (hs : v'.selecting) : v.selecting := by
  cases c with
  | setContent lines rawText =>
    obtain rfl := Option.some.inj h
    cases hs
  | setRawText rawText contentType =>
    obtain rfl := Option.some.inj h
    cases hs
  | render =>
    obtain ⟨r, hr, rfl⟩ := Option.map_eq_some_iff.mp h
    obtain ⟨rows, -, hrows⟩ := Option.bind_eq_some_iff.mp hr
    obtain rfl := Option.some.inj hrows
    exact hs
  | onEvent focused copied ev =>
    obtain ⟨r, hr, rfl⟩ := Option.map_eq_some_iff.mp h
    have hkey : (if focused then v.onKey copied ev else some (false, v)) = some r := by
      cases ev with
      | mouse m => cases hm
      | _ => exact hr
    split at hkey
    · exact onKey_selecting hkey ▸ hs
    · obtain rfl := Option.some.inj hkey
      exact hs
  | scrollTo y | scrollBy delta | reflect box =>
    obtain rfl := Option.some.inj h
    exact hs

theorem widget_handles : widget.Handles where
  init := rfl
  starts {v v' c} h hs := by
    cases hm : c.mouse with
    | none => exact .inl (selecting_of_call h hm hs)
    | some m =>
      have hstep := mouseStep_of_call h hm
      cases hstep with
      | press hin hleft hpress => exact .inr ⟨m, hm, hleft, hpress, hin⟩
      | leave hout hsel hreleased => cases hs
      | _ => exact .inl hs
  release {v v' c m} h hm hleft hreleased := by
    cases mouseStep_of_call h hm with
    | wheel delta hin hwheel => exact absurd hleft hwheel
    | press hin hleft hpress => rw [hreleased] at hpress; cases hpress
    | drag hin hsel => exact ⟨by simp [widget, hin], rfl⟩
    | told status hin hright => rw [hleft] at hright; cases hright
    | idle hin hidle => exact ⟨by simp [widget, hin], rfl⟩
    | leave hout hsel => exact ⟨by simp [widget, hout], rfl⟩
    | outside hout hstay =>
      have hsel : v.selecting = false := Bool.eq_false_iff.mpr fun hsel => hstay ⟨hsel, hreleased⟩
      exact ⟨by simp [widget, hsel], rfl⟩
  still {v v' c m} h hm hleft hmotion hs := by
    cases mouseStep_of_call h hm with
    | press hin hleft hpress => exact absurd hpress hmotion
    | drag hin hsel =>
      have hs : v.selecting = false := hs
      rw [hs] at hsel
      cases hsel
    | _ => rfl

end ScrollableViewer

open TextEditor in
/-- Runs in which no release is taken for a drag and none outside leaves the selection of a click: there
every mouse event does what it has to, and the next one does if it is of that kind. -/
theorem endsDrag_iff (m : Mouse) :
    (∀ p, Editor.widget.system.ReachedUnder Editor.widget.Quiet p → ∀ c e, p.1.call c = some e →
      c.mouse = some m → (Editor.widget.EndsDrag p.1 p.2 m e ↔ Editor.widget.Quiet p c)) ∧
    ∀ p, ScrollableViewer.widget.system.ReachedUnder ScrollableViewer.widget.Quiet p → ∀ c v,
      p.1.call c = some v → c.mouse = some m →
        (ScrollableViewer.widget.EndsDrag p.1 p.2 m v ↔ ScrollableViewer.widget.Quiet p c) := by
  constructor
  · intro p hp c e hcall hmouse
    exact Editor.widget_handles.endsDrag_iff_quiet hp hcall hmouse
  · intro p hp c v hcall hmouse
    exact ScrollableViewer.widget_handles.endsDrag_iff_quiet hp hcall hmouse

namespace TextEditor.Editor

def mouseCall (x y : ℤ) (button : Button) (motion : Motion) : Call :=
  .onEvent true true (.mouse ⟨x, y, button, motion⟩)

/-- A press in the box, and a release beside it. -/
def leavingCalls : List Call :=
  [.reflect ⟨0, 20, 0, 9⟩, mouseCall 6 1 .left .pressed, mouseCall 30 1 .left .released]

theorem leavingCalls_quiet :
    ∃ p, widget.system.run ({}, {}) leavingCalls = some p ∧ widget.system.ReachedUnder widget.Quiet p := by
  refine ⟨_, rfl, .step (a := mouseCall 30 1 .left .released) (.step (a := mouseCall 6 1 .left .pressed)
    (.step (a := .reflect ⟨0, 20, 0, 9⟩) (.init rfl) ?_ rfl) ?_ rfl) ?_ rfl⟩
  · exact Widget.quiet_of_motion fun m hm => by cases hm
  · apply Widget.quiet_of_motion
    intro m hm
    obtain rfl := Option.some.inj hm
    decide
  · intro m hm _ _
    obtain rfl := Option.some.inj hm
    refine ⟨fun hin => absurd hin (by decide), ?_⟩
    rintro ⟨p, hp, -, hnear⟩
    obtain rfl := Option.some.inj hp
    exact absurd hnear (by decide)

theorem endsDrag_iff_leavingCalls : ∃ p e, widget.system.run ({}, {}) leavingCalls = some p ∧
    p.1.call (mouseCall 7 1 .left .moved) = some e ∧
    (widget.EndsDrag p.1 p.2 ⟨7, 1, .left, .moved⟩ e ↔ widget.Quiet p (mouseCall 7 1 .left .moved)) := by
  obtain ⟨p, hp, hreached⟩ := leavingCalls_quiet
  have hcall : ∃ e, p.1.call (mouseCall 7 1 .left .moved) = some e := by
    obtain rfl := Option.some.inj hp
    exact ⟨_, rfl⟩
  obtain ⟨e, he⟩ := hcall
  exact ⟨p, e, hp, he, (endsDrag_iff _).1 p hreached _ e he rfl⟩

/-- A click. -/
def clickCalls : List Call :=
  [.setText (str "abc"), .reflect ⟨0, 20, 0, 9⟩, mouseCall 6 1 .left .pressed, mouseCall 6 1 .left .released]

end TextEditor.Editor

namespace ScrollableViewer

def mouseCall (x y : ℤ) (button : TextEditor.Button) (motion : TextEditor.Motion) : Call :=
  .onEvent true true (.mouse ⟨x, y, button, motion⟩)

def clickCalls : List Call :=
  [.setRawText (str "abc") [], .reflect ⟨0, 20, 0, 9⟩, mouseCall 0 0 .left .pressed,
    mouseCall 0 0 .left .released]

end ScrollableViewer

open TextEditor in
/-- After the release both are still selecting, and the next move selects more. -/
theorem release_taken_for_drag :
    (∃ e e', Editor.system.run {} Editor.clickCalls = some e ∧ e.selecting = true ∧ e.hasSelection = true ∧
      e.call (Editor.mouseCall 8 1 .left .moved) = some e' ∧ e'.cursorCol ≠ e.cursorCol ∧
      e.getSelectedText = some [] ∧ e'.getSelectedText = some (str "ab")) ∧
    ∃ v v', ScrollableViewer.system.run {} ScrollableViewer.clickCalls = some v ∧ v.selecting = true ∧
      v.hasSelection = true ∧ v.call (ScrollableViewer.mouseCall 2 0 .left .moved) = some v' ∧
      v.getSelectedText = some [] ∧ v'.getSelectedText = some (str "ab") :=
  ⟨⟨_, _, rfl, by decide, by decide, rfl, by decide, by decide, by decide⟩,
    _, _, rfl, by decide, by decide, rfl, by decide, by decide⟩

end BurpTUI
