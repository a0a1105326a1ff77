import BurpTUI.Base.Search
import BurpTUI.Base.StepSystem
import BurpTUI.Tui.FlatBuffer

namespace BurpTUI

theorem isSome_mapM {α β : Type*} {f : α → Option β} {l : List α} (h : ∀ x ∈ l, (f x).isSome) :
    (l.mapM f).isSome := by
  induction l with
  | nil => rfl
  | cons x l ih =>
    rw [List.forall_mem_cons] at h
    obtain ⟨y, hy⟩ := Option.isSome_iff_exists.mp h.1
    obtain ⟨ys, hys⟩ := Option.isSome_iff_exists.mp (ih h.2)
    rw [List.mapM_cons, hy, hys]
    rfl

theorem isSome_bind {α β : Type} {x : Option α} {f : α → Option β} (hx : x.isSome)
    (hf : ∀ a, x = some a → (f a).isSome) : (x >>= f).isSome := by
  obtain ⟨a, ha⟩ := Option.isSome_iff_exists.mp hx
  rw [ha]
  exact hf a ha

namespace TextEditor.Editor

variable {e e' : Editor}

/-- What holds of the component between any two calls. -/
structure Sound (e : Editor) : Prop where
  inRange : e.InRange
  clean : AllBytes (fun c => c ≠ CR ∧ c ≠ LF) e.lines
  scroll : e.scrollY < e.lines.length

theorem Sound.initial : Sound ({} : Editor) := by
  refine ⟨⟨[], rfl, Nat.le_refl _⟩, ?_, by decide⟩
  simp [AllBytes]

theorem Sound.setText (e : Editor) (text : Bytes) : (e.setText text).Sound := by
  have hlines : (e.setText text).lines = (text.filter (· ≠ CR)).splitOn LF := rfl
  obtain ⟨l, ls, hl⟩ := List.exists_cons_of_ne_nil (List.splitOn_ne_nil LF (text.filter (· ≠ CR)))
  refine ⟨⟨l, ?_, Nat.zero_le _⟩, ?_, ?_⟩
  · rw [hlines, hl]
    rfl
  · rw [hlines]
    intro l' hl' c hc
    obtain ⟨hmem, hlf⟩ := Search.mem_splitOn l' hl' c hc
    exact ⟨by simpa using (List.mem_filter.mp hmem).2, hlf⟩
  · rw [hlines, hl]
    exact Nat.succ_pos _

theorem Sound.clear (e : Editor) : e.clear.Sound := by
  refine ⟨⟨[], rfl, Nat.le_refl _⟩, ?_, Nat.one_pos⟩
  simp [AllBytes, Editor.clear]

/-- Only the lines, the cursor and the scroll position matter. -/
theorem Sound.of_same (h : e.Sound) (hlines : e'.lines = e.lines) (hrow : e'.cursorRow = e.cursorRow)
    (hcol : e'.cursorCol = e.cursorCol) (hscroll : e'.scrollY < e.lines.length) : e'.Sound := by
  obtain ⟨line, hline, hle⟩ := h.inRange
  refine ⟨⟨line, ?_, ?_⟩, ?_, ?_⟩
  · rw [hlines, hrow, hline]
  · rw [hcol]
    exact hle
  · rw [hlines]
    exact h.clean
  · rw [hlines]
    exact hscroll

/-! The reads: all of them are in range. -/

theorem clamp_le (bound : ℕ) (i : ℤ) : clamp bound i ≤ bound := Nat.min_le_left _ _

theorem isSome_substr {s : Bytes} {pos n : ℕ} (h : pos ≤ s.length) : (substr s pos n).isSome := by
  simp [substr, h]

theorem isSome_part {line : Bytes} {start stop : ℕ} (h : stop ≤ line.length) :
    (part line start stop).isSome := by
  unfold part
  split
  · exact isSome_substr (by omega)
  · rfl

theorem isSome_restOf (line : Bytes) (pos : ℕ) : (restOf line pos).isSome := by
  unfold restOf
  split
  · rename_i hlt
    simp [substrFrom, Nat.le_of_lt hlt]
  · rfl

/-- The end of a selection in one line. -/
theorem stop_le {p : Prop} [Decidable p] (line : Bytes) (c : ℤ) :
    (if p then clamp line.length c else line.length) ≤ line.length := by
  split
  · exact clamp_le _ _
  · exact Nat.le_refl _

theorem isSome_selectedRow (r1 c1 r2 c2 : ℤ) {r : ℕ} (h : r < e.lines.length) :
    (e.selectedRow r1 c1 r2 c2 r).isSome := by
  apply isSome_bind
  · rw [List.getElem?_eq_getElem h]
    rfl
  · intro line _
    apply isSome_bind
    · exact isSome_part (stop_le line c2)
    · intro selected _
      rfl

theorem isSome_getSelectedText (e : Editor) : e.getSelectedText.isSome := by
  unfold getSelectedText
  split
  · rfl
  · rename_i hcase
    have hpos : 0 < e.lines.length := by
      apply List.length_pos_of_ne_nil
      intro hnil
      exact hcase (Or.inr hnil)
    rcases e.orderedSelection with ⟨r1, c1, r2, c2⟩
    have hlast := clamp_le (e.lines.length - 1) r2
    rw [Option.isSome_map]
    apply isSome_mapM
    intro r hr
    rw [List.mem_range'_1] at hr
    apply isSome_selectedRow
    omega

theorem wordStart_spec {text : Bytes} (start : ℕ) (h : start ≤ text.length) :
    ∃ k, wordStart text start = some k ∧ k ≤ start := by
  induction start with
  | zero => exact ⟨0, rfl, Nat.le_refl _⟩
  | succ start ih =>
    obtain ⟨k, hk, hle⟩ := ih (by omega)
    rw [wordStart, List.getElem?_eq_getElem (by omega)]
    by_cases hword : isWordChar text[start] = true
    · exact ⟨k, by simpa [hword] using hk, by omega⟩
    · exact ⟨start + 1, by simp [hword], Nat.le_refl _⟩

theorem isSome_getWordAt (e : Editor) (row col : ℕ) : (e.getWordAt row col).isSome := by
  unfold getWordAt
  split
  · rfl
  · rename_i hrow
    apply isSome_bind
    · rw [List.getElem?_eq_getElem (by omega)]
      rfl
    · intro line _
      split
      · rfl
      · rename_i hcol
        apply isSome_bind
        · rw [List.getElem?_eq_getElem (by omega)]
          rfl
        · intro c _
          split
          · have hle : col ≤ line.length := by omega
            obtain ⟨k, hk, hle⟩ := wordStart_spec col hle
            rw [hk]
            exact isSome_substr (by omega)
          · rfl

theorem isSome_renderRow (e : Editor) (focused : Bool) {i : ℕ} (h : i < e.lines.length) :
    (e.renderRow focused i).isSome := by
  apply isSome_bind
  · rw [List.getElem?_eq_getElem h]
    rfl
  · intro line _
    rcases e.orderedSelection with ⟨r1, c1, r2, c2⟩
    dsimp only
    split
    · -- a part of the row is selected
      apply isSome_bind
      · exact isSome_substr (Nat.zero_le _)
      · intro before _
        apply isSome_bind
        · exact isSome_part (stop_le line c2)
        · intro selected _
          apply isSome_bind
          · exact isSome_restOf line _
          · intro after _
            rfl
    · split
      · apply isSome_bind
        · split
          · exact isSome_substr (Nat.zero_le _)
          · rfl
        · intro before _
          apply isSome_bind
          · split
            · rw [List.getElem?_eq_getElem (by assumption)]
              rfl
            · rfl
          · intro cursorCh _
            apply isSome_bind
            · exact isSome_restOf line _
            · intro after _
              rfl
      · rfl

/-! The calls. -/

theorem Sound.visible (h : e.Sound) {n : ℕ} (hn : 0 < n) : (e.ensureCursorVisible n).Sound := by
  have hscroll := scrollY_visible hn h.inRange.lines_pos
  have hlines : (e.ensureCursorVisible n).lines = e.lines := by
    unfold ensureCursorVisible
    split <;> rfl
  rw [hlines] at hscroll
  apply h.of_same hlines _ _ hscroll
  · unfold ensureCursorVisible
    split <;> rfl
  · unfold ensureCursorVisible
    split <;> rfl

theorem isSome_render (e : Editor) (focused : Bool) : (e.render focused).isSome := by
  unfold Editor.render
  apply isSome_bind
  · apply isSome_mapM
    intro i hi
    rw [List.mem_range'_1] at hi
    apply isSome_renderRow
    omega
  · intro rows _
    rfl

theorem Sound.render (h : e.Sound) {focused : Bool} {r : List (Bytes × Bytes × Bytes) × Editor}
    (hr : e.render focused = some r) : r.2.Sound := by
  obtain ⟨rows, -, hrows⟩ := Option.bind_eq_some_iff.mp hr
  obtain rfl := Option.some.inj hrows
  exact h.visible (by omega)

theorem copySelection_sound (h : e.Sound) (label : Bytes) :
    ∃ e', e.copySelection label = some e' ∧ e'.Sound := by
  obtain ⟨sel, hsel⟩ := Option.isSome_iff_exists.mp e.isSome_getSelectedText
  simp only [copySelection, hsel, Option.bind_eq_bind, Option.bind_some]
  split
  · exact ⟨e, rfl, h⟩
  · exact ⟨_, rfl, h.of_same rfl rfl rfl h.scroll⟩

theorem leftReleased_sound (h : e.Sound) (targetRow targetCol : ℕ) :
    ∃ e', e.leftReleased targetRow targetCol = some e' ∧ e'.Sound := by
  unfold leftReleased
  split
  · dsimp only
    split
    · exact ⟨_, rfl, h.of_same rfl rfl rfl h.scroll⟩
    · apply copySelection_sound
      exact h.of_same rfl rfl rfl h.scroll
  · exact ⟨e, rfl, h⟩

theorem rightPressed_sound (h : e.Sound) (targetRow targetCol : ℕ) (copied : Bool) :
    ∃ e', e.rightPressed targetRow targetCol copied = some e' ∧ e'.Sound := by
  unfold rightPressed
  split
  · exact copySelection_sound h _
  · obtain ⟨word, hword⟩ := Option.isSome_iff_exists.mp (e.isSome_getWordAt targetRow targetCol)
    simp only [hword, Option.bind_eq_bind, Option.bind_some]
    split
    · refine ⟨_, rfl, ?_⟩
      unfold copyToClipboard
      dsimp only
      split
      · exact h
      · split <;> exact h.of_same rfl rfl rfl h.scroll
    · exact ⟨_, rfl, h.of_same rfl rfl rfl h.scroll⟩

/-- A click puts the cursor on a position of the text. -/
theorem Sound.clicked (h : e.Sound) {row col : ℕ} {line : Bytes} (hline : e.lines[row]? = some line)
    (hcol : col ≤ line.length) (hlines : e'.lines = e.lines) (hrow : e'.cursorRow = row)
    (hcol' : e'.cursorCol = col) (hscroll : e'.scrollY = e.scrollY) : e'.Sound := by
  refine ⟨⟨line, ?_, ?_⟩, ?_, ?_⟩
  · rw [hlines, hrow, hline]
  · rw [hcol']
    exact hcol
  · rw [hlines]
    exact h.clean
  · rw [hlines, hscroll]
    exact h.scroll

theorem onMouse_sound (h : e.Sound) (m : Mouse) (copied : Bool) :
    ∃ r, e.onMouse m copied = some r ∧ r.2.Sound := by
  have hpos := h.inRange.lines_pos
  have hscroll := h.scroll
  have hheight := two_le_visibleHeight e
  unfold onMouse
  split
  · -- The target is on a line of the text, whatever the box and the pointer are.
    have hrow := clamp_le (e.lines.length - 1) (e.scrollY + max 0 (m.y - e.box.yMin - 1))
    have hline := List.getElem?_eq_getElem (l := e.lines)
      (i := clamp (e.lines.length - 1) (e.scrollY + max 0 (m.y - e.box.yMin - 1))) (by omega)
    simp only [hline, Option.bind_eq_bind, Option.bind_some]
    split
    · exact ⟨_, rfl, h.of_same rfl rfl rfl (by show e.scrollY - 3 < _; omega)⟩
    · split
      · refine ⟨_, rfl, h.of_same rfl rfl rfl ?_⟩
        show min (e.lines.length - e.visibleHeight) (e.scrollY + 3) < _
        omega
      · split
        · exact ⟨_, rfl, h.clicked hline (clamp_le _ _) rfl rfl rfl rfl⟩
        · split
          · exact ⟨_, rfl, h.clicked hline (clamp_le _ _) rfl rfl rfl rfl⟩
          · split
            · obtain ⟨e', he', hsound⟩ := leftReleased_sound h _ _
              rw [he']
              exact ⟨_, rfl, hsound⟩
            · split
              · obtain ⟨e', he', hsound⟩ := rightPressed_sound h _ _ copied
                rw [he']
                exact ⟨_, rfl, hsound⟩
              · exact ⟨_, rfl, h⟩
  · split
    · exact ⟨_, rfl, h.of_same rfl rfl rfl h.scroll⟩
    · exact ⟨_, rfl, h⟩

theorem onEvent_sound (h : e.Sound) (focused copied : Bool) (ev : Event) :
    ∃ r, e.onEvent focused copied ev = some r ∧ r.2.Sound := by
  by_cases hkey : isKey ev = true
  · cases focused with
    | false =>
      refine ⟨(false, e), ?_, h⟩
      cases ev <;> first | rfl | cases hkey
    | true =>
      obtain ⟨e', he', hstep⟩ := onEvent_step h.inRange copied hkey
      obtain ⟨r, hr, rfl⟩ := Option.map_eq_some_iff.mp he'
      exact ⟨r, hr, hstep.inRange, hstep.bytes _ (fun c hcr hlf => ⟨hcr, hlf⟩) h.clean,
        hstep.scroll h.scroll⟩
  · cases ev with
    | mouse m => exact onMouse_sound h m copied
    | _ => exact absurd rfl hkey

/-- The calls of the component. `reflect` is the layout, which gives it any box. -/
inductive Call
  | setText (text : Bytes)
  | clear
  | render (focused : Bool)
  | onEvent (focused copied : Bool) (ev : Event)
  | reflect (box : Box)

/-- There is no result when an access is out of range. -/
def call (e : Editor) : Call → Option Editor
  | .setText text => some (e.setText text)
  | .clear => some e.clear
  | .render focused => (e.render focused).map Prod.snd
  | .onEvent focused copied ev => (e.onEvent focused copied ev).map Prod.snd
  | .reflect box => some { e with box := box }

def system : StepSystem.System Editor Call where
  init e := e = {}
  step := call

theorem call_sound (h : e.Sound) (c : Call) : ∃ e', e.call c = some e' ∧ e'.Sound := by
  cases c with
  | setText text => exact ⟨_, rfl, .setText e text⟩
  | clear => exact ⟨_, rfl, .clear e⟩
  | render focused =>
    obtain ⟨r, hr⟩ := Option.isSome_iff_exists.mp (e.isSome_render focused)
    exact ⟨r.2, by rw [call, hr]; rfl, h.render hr⟩
  | onEvent focused copied ev =>
    obtain ⟨r, hr, hsound⟩ := onEvent_sound h focused copied ev
    exact ⟨r.2, by rw [call, hr]; rfl, hsound⟩
  | reflect box => exact ⟨_, rfl, h.of_same rfl rfl rfl h.scroll⟩

theorem sound_of_reached {e : Editor} (h : system.Reached e) : e.Sound := by
  refine h.invariant (I := Sound) ?_ ?_
  · rintro _ rfl
    exact .initial
  · intro e c e' he _ hstep
    obtain ⟨e'', he'', hsound⟩ := call_sound he c
    obtain rfl := Option.some.inj (hstep.symm.trans he'')
    exact hsound

/-- In every reachable state lines, cursor and scroll position fit together, and no call and no
`GetSelectedText` accesses anything out of range. -/
theorem editor_sound {e : Editor} (h : system.Reached e) :
    e.lines ≠ [] ∧ (∀ l ∈ e.lines, CR ∉ l ∧ LF ∉ l) ∧ e.cursorRow < e.lines.length ∧
      (∃ line, e.lines[e.cursorRow]? = some line ∧ e.cursorCol ≤ line.length) ∧
      e.scrollY < e.lines.length ∧ (∀ c, (e.call c).isSome) ∧ e.getSelectedText.isSome := by
  have hsound := sound_of_reached h
  obtain ⟨line, hline, hcol⟩ := hsound.inRange
  refine ⟨List.ne_nil_of_length_pos hsound.inRange.lines_pos, ?_,
    (List.getElem?_eq_some_iff.mp hline).1, ⟨line, hline, hcol⟩, hsound.scroll, ?_,
    e.isSome_getSelectedText⟩
  · intro l hl
    exact ⟨fun hmem => (hsound.clean l hl CR hmem).1 rfl, fun hmem => (hsound.clean l hl LF hmem).2 rfl⟩
  · intro c
    obtain ⟨e', he', -⟩ := call_sound hsound c
    rw [he']
    rfl

/-- A selection is dragged over three lines, which are joined again while it stands. -/
def selectingCalls : List Call :=
  [.setText (str "a\nbc\nd"), .reflect ⟨0, 20, 0, 9⟩, .render true,
    .onEvent true true (.mouse ⟨6, 1, .left, .pressed⟩), .onEvent true true (.mouse ⟨9, 3, .left, .moved⟩),
    .onEvent true true .homeKey, .onEvent true true .backspace, .reflect ⟨0, 1, 0, 1⟩, .render true]

theorem editor_sound_selectingCalls : ∃ e, system.run {} selectingCalls = some e ∧
    e.lines = [str "a", str "bcd"] ∧ e.scrollY < e.lines.length := by
  have hrun : (system.run {} selectingCalls).any (fun e => e.lines = [str "a", str "bcd"]) = true := by
    decide +kernel
  obtain ⟨e, he, hlines⟩ := (Option.any_eq_true _ _).mp hrun
  have hreached : system.Reached e := .run (.init rfl) he
  exact ⟨e, he, of_decide_eq_true hlines, (editor_sound hreached).2.2.2.2.1⟩

end TextEditor.Editor

end BurpTUI
