import BurpTUI.Tui.EditorSteps

namespace BurpTUI

namespace TextEditor.Editor

variable {e e' e1 : Editor} {focused copied : Bool} {rows : List (Bytes × Bytes × Bytes)}

/-- The visible height as `Render` computes it. That of `OnEvent` can be one row less. -/
def renderHeight (box : Box) : ℕ := (max 2 (box.yMax - box.yMin + 1 - 2)).toNat

theorem two_le_renderHeight (box : Box) : 2 ≤ renderHeight box := by
  unfold renderHeight
  omega

theorem visibleHeight_le (e : Editor) : e.visibleHeight ≤ renderHeight e.box := by
  unfold visibleHeight renderHeight
  omega

/-- What is rendered begins with the row that the scroll position says after it was adjusted. -/
theorem render_eq (h : e.render focused = some (rows, e')) :
    e' = e.ensureCursorVisible (renderHeight e.box) := by
  obtain ⟨rows', -, hpair⟩ := Option.bind_eq_some_iff.mp h
  exact (Prod.mk.inj (Option.some.inj hpair)).2.symm

/-- The row is among those shown from the scroll position on. -/
def InView (h scroll row : ℕ) : Prop := scroll ≤ row ∧ row < scroll + h

/-- The first row shown after a wheel event, if the rows shown move by three. -/
def wheelTarget (e : Editor) (m : Mouse) : Option ℕ :=
  if m.button = .wheelUp then some (min (e.lines.length - renderHeight e.box) (e.scrollY - 3))
  else if m.button = .wheelDown then some (min (e.lines.length - renderHeight e.box) (e.scrollY + 3))
  else none

/-- What an event does to the rows shown, from the view before it to the one rendered after it. -/
structure Scrolls (e : Editor) (ev : Event) (e' : Editor) : Prop where
  range : e'.scrollY ≤ e'.lines.length - renderHeight e'.box
  cursor : (∀ m, ev ≠ .mouse m) → InView (renderHeight e'.box) e'.scrollY e'.cursorRow
  wheel : ∀ m t, ev = .mouse m → e.box.contain m.x m.y → e.wheelTarget m = some t → e'.scrollY = t

/-- The cursor stays in view. -/
def WheelKeepsCursor (e : Editor) (ev : Event) : Prop :=
  ∀ m t, ev = .mouse m → e.box.contain m.x m.y → e.wheelTarget m = some t →
    InView (renderHeight e.box) t e.cursorRow

theorem visible_scroll {n : ℕ} (hn : 0 < n) (hrow : e.cursorRow < e.lines.length) :
    (e.ensureCursorVisible n).scrollY ≤ e.lines.length - n ∧
      InView n (e.ensureCursorVisible n).scrollY e.cursorRow := by
  unfold ensureCursorVisible InView
  rw [if_neg (by omega)]
  dsimp only
  split
  · omega
  · split <;> omega

/-- A scroll position is kept, but for the range, if the cursor is in view from there on. -/
theorem visible_scroll_eq {n t : ℕ} (hn : 0 < n) (hrow : e.cursorRow < e.lines.length)
    (ht : t = min (e.lines.length - n) e.scrollY) (hview : InView n t e.cursorRow) :
    (e.ensureCursorVisible n).scrollY = t := by
  unfold InView at hview
  unfold ensureCursorVisible
  rw [if_neg (by omega)]
  dsimp only
  split
  · omega
  · split <;> omega

theorem visible_frame (e : Editor) (n : ℕ) : (e.ensureCursorVisible n).lines = e.lines ∧
    (e.ensureCursorVisible n).cursorRow = e.cursorRow ∧ (e.ensureCursorVisible n).box = e.box := by
  unfold ensureCursorVisible
  split
  · exact ⟨rfl, rfl, rfl⟩
  · exact ⟨rfl, rfl, rfl⟩

theorem onEvent_box {ev : Event} {r : Bool × Editor} (h : e.onEvent focused copied ev = some r) :
    r.2.box = e.box := by
  by_cases hev : ∃ m, ev = .mouse m
  · obtain ⟨m, rfl⟩ := hev
    exact (onMouse_step h).box
  · have hkey (m : Mouse) : ev ≠ .mouse m := fun h => hev ⟨m, h⟩
    rcases onEvent_key hkey h with he | ⟨m, hm, he⟩
    · rw [he]
    · rw [he]
      exact (onKey_frame hm).box

/-- The wheel moves the scroll position to its target, up to the range that `Render` keeps to. -/
theorem onMouse_wheel {m : Mouse} {t : ℕ} {r : Bool × Editor} (h : e.onMouse m copied = some r)
    (hin : e.box.contain m.x m.y) (ht : e.wheelTarget m = some t) :
    t = min (e.lines.length - renderHeight e.box) r.2.scrollY ∧ r.2.lines = e.lines ∧
      r.2.cursorRow = e.cursorRow := by
  have hheight := visibleHeight_le e
  have hstep := onMouse_step h
  unfold wheelTarget at ht
  generalize r.2 = e2 at hstep ⊢
  cases hstep with
  | wheelUp hin hup =>
    rw [if_pos hup] at ht
    exact ⟨(Option.some.inj ht).symm, rfl, rfl⟩
  | wheelDown hin hdown =>
    rw [hdown, if_neg (by decide), if_pos rfl] at ht
    have ht := Option.some.inj ht
    refine ⟨?_, rfl, rfl⟩
    dsimp only
    omega
  | press line hin hleft => rw [hleft] at ht; cases ht
  | drag line hin hsel hleft => rw [hleft] at ht; cases ht
  | told status hin hright => rw [hright] at ht; cases ht
  | idle hin hup hdown => rw [if_neg hup, if_neg hdown] at ht; cases ht
  | leave hout => exact absurd hin hout
  | outside hout => exact absurd hin hout

theorem scrolls_iff_of_sound {ev : Event} {r : Bool × Editor} (hsound : e.Sound)
    (hev : e.onEvent focused copied ev = some r) (he' : e' = r.2.ensureCursorVisible (renderHeight e.box)) :
    Scrolls e ev e' ↔ WheelKeepsCursor e ev := by
  have hpos : 0 < renderHeight e.box := Nat.lt_of_lt_of_le Nat.two_pos (two_le_renderHeight e.box)
  have hbox := onEvent_box hev
  have hrow : r.2.cursorRow < r.2.lines.length := by
    obtain ⟨r', hr', hsound'⟩ := onEvent_sound hsound focused copied ev
    obtain rfl := Option.some.inj (hev.symm.trans hr')
    exact hsound'.inRange.row_lt
  obtain ⟨hlines, hcursor, hbox'⟩ := visible_frame r.2 (renderHeight e.box)
  obtain ⟨hrange, hview⟩ := visible_scroll hpos hrow
  rw [← he'] at hlines hcursor hbox' hrange hview
  rw [hbox] at hbox'
  constructor
  · rintro hscrolls m t rfl hin ht
    have hsame := (onMouse_wheel hev hin ht).2.2
    rw [← hscrolls.wheel m t rfl hin ht, ← hsame]
    exact hview
  · intro hkeeps
    refine ⟨?_, fun _ => ?_, ?_⟩
    · rw [hbox', hlines]
      exact hrange
    · rw [hbox', hcursor]
      exact hview
    · rintro m t rfl hin ht
      obtain ⟨htarget, hsame, hkept⟩ := onMouse_wheel hev hin ht
      rw [he']
      apply visible_scroll_eq hpos hrow
      · rw [htarget, hsame]
      · rw [hkept]
        exact hkeeps m t rfl hin ht

/-- An event after the view was rendered and laid out, and the view rendered after it: the rows shown
are right unless the wheel moves the cursor out of them. -/
theorem scrolls_iff {s e1 : Editor} {focused₀ focused₁ : Bool} {rows₀ : List (Bytes × Bytes × Bytes)} {box : Box}
    {ev : Event} {r : Bool × Editor} (hs : system.Reached s) (hbefore : s.render focused₀ = some (rows₀, e1))
    (hev : ({ e1 with box := box } : Editor).onEvent focused copied ev = some r)
    (hafter : r.2.render focused₁ = some (rows, e')) :
    Scrolls { e1 with box := box } ev e' ↔ WheelKeepsCursor { e1 with box := box } ev := by
  have hsound : e1.Sound := (sound_of_reached hs).render hbefore
  have he' := render_eq hafter
  rw [onEvent_box hev] at he'
  exact scrolls_iff_of_sound (hsound.of_same rfl rfl rfl hsound.scroll) hev he'

/-- Ten lines, of which three are shown. -/
def tenLines : List Call := [.setText (str "0\n1\n2\n3\n4\n5\n6\n7\n8\n9"), .reflect ⟨0, 20, 0, 4⟩]

/-- Eight of them are shown, and the cursor is on the fourth. -/
def fourthLine : List Call := [.setText (str "0\n1\n2\n3\n4\n5\n6\n7\n8\n9"), .reflect ⟨0, 20, 0, 9⟩,
  .onEvent true true .arrowDown, .onEvent true true .arrowDown, .onEvent true true .arrowDown]

/-- The wheel moves them to the end of the text, below which the cursor stays in view. -/
theorem scrolls_iff_fourthLine : ∃ s rows e1 r rows' e', system.run {} fourthLine = some s ∧
    s.render true = some (rows, e1) ∧
    e1.onEvent true true (.mouse ⟨1, 1, .wheelDown, .pressed⟩) = some r ∧
    r.2.render true = some (rows', e') ∧ e1.scrollY = 0 ∧ e'.scrollY = 2 ∧
    Scrolls e1 (.mouse ⟨1, 1, .wheelDown, .pressed⟩) e' := by
  have hrun : (system.run {} fourthLine).any (fun s => (s.render true).any fun p =>
      p.2.scrollY = 0 ∧ p.2.cursorRow = 3 ∧ renderHeight p.2.box = 8 ∧
      p.2.wheelTarget ⟨1, 1, .wheelDown, .pressed⟩ = some 2 ∧
      (p.2.onEvent true true (.mouse ⟨1, 1, .wheelDown, .pressed⟩)).any fun r =>
        (r.2.render true).any fun q => q.2.scrollY = 2) = true := by decide
  obtain ⟨s, hs, hlast⟩ := (Option.any_eq_true _ _).mp hrun
  obtain ⟨⟨rows, e1⟩, he1, hlast⟩ := (Option.any_eq_true _ _).mp hlast
  obtain ⟨hzero, hcursor, hheight, htarget, hlast⟩ := of_decide_eq_true hlast
  obtain ⟨r, hr, hlast⟩ := (Option.any_eq_true _ _).mp hlast
  obtain ⟨⟨rows', e'⟩, he', htwo⟩ := (Option.any_eq_true _ _).mp hlast
  have hlaid : ({ e1 with box := e1.box } : Editor).onEvent true true
      (.mouse ⟨1, 1, .wheelDown, .pressed⟩) = some r := hr
  refine ⟨s, rows, e1, r, rows', e', hs, he1, hr, he', hzero, of_decide_eq_true htwo, ?_⟩
  refine (scrolls_iff (.run (.init rfl) hs) he1 hlaid he').mpr fun m t hm _ ht => ?_
  cases hm
  rw [← Option.some.inj (htarget.symm.trans ht), hheight, hcursor]
  exact ⟨by decide, by decide⟩

/-- With the cursor on the first line the wheel does nothing. -/
theorem wheel_undone : ∃ s rows e1 r rows' e', system.run {} tenLines = some s ∧
    s.render true = some (rows, e1) ∧
    e1.onEvent true true (.mouse ⟨1, 1, .wheelDown, .pressed⟩) = some r ∧
    r.2.render true = some (rows', e') ∧ e1.scrollY = 0 ∧ e1.lines.length = 10 ∧
    renderHeight e1.box = 3 ∧ e'.scrollY = 0 ∧ ¬ Scrolls e1 (.mouse ⟨1, 1, .wheelDown, .pressed⟩) e' := by
  refine ⟨_, _, _, _, _, _, rfl, rfl, rfl, rfl, rfl, by decide, by decide, by decide, fun h => ?_⟩
  have hwheel := h.wheel ⟨1, 1, .wheelDown, .pressed⟩ 3 rfl (by decide) (by decide)
  exact absurd hwheel (by decide)

end TextEditor.Editor

end BurpTUI
