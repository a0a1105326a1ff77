import BurpTUI.Tui.EditorSteps
import BurpTUI.Tui.SelectedText

namespace BurpTUI

theorem getElem?_mapM {α β : Type*} {f : α → Option β} {l : List α} {bs : List β} (h : l.mapM f = some bs)
    (k : ℕ) : bs[k]? = l[k]?.bind f := by
  induction l generalizing bs k with
  | nil =>
    obtain rfl := Option.some.inj h
    rfl
  | cons a l ih =>
    rw [List.mapM_cons] at h
    obtain ⟨b, hb, hrest⟩ := Option.bind_eq_some_iff.mp h
    obtain ⟨bs, hbs, hcons⟩ := Option.bind_eq_some_iff.mp hrest
    obtain rfl := Option.some.inj hcons
    cases k with
    | zero => simp [hb]
    | succ k => simpa using ih hbs k

namespace TextEditor.Editor

variable {e e1 : Editor} {focused : Bool} {rows : List (Bytes × Bytes × Bytes)}

/-- The cells of the gutter of a line: its number under `std::setw(4)`, and a bar between two blanks. -/
def gutterCells (i : ℕ) : ℕ := max 4 (decimal (i + 1)).length + 3

/-- The text of a row behind the gutter. -/
def rowText (row : Bytes × Bytes × Bytes) : Bytes := row.1 ++ row.2.1 ++ row.2.2

/-- The cells of a text, with as many for a byte as `cells` says. -/
def cellsOf (cells : UInt8 → ℕ) (s : Bytes) : ℕ := (s.map cells).sum

/-- The cell of the screen at `x` and `y` is one of the byte `c` of line `i`. The rows stand one below
the other from the top of the box, each from its left side. -/
structure Draws (cells : UInt8 → ℕ) (rows : List (Bytes × Bytes × Bytes)) (e : Editor) (i c : ℕ) (x y : ℤ) :
    Prop where
  line : ∃ line, e.lines[i]? = some line ∧ c < line.length
  cell : ∃ k row b, rows[k]? = some row ∧ i = e.scrollY + k ∧ (rowText row)[c]? = some b ∧
    y = e.box.yMin + k ∧ e.box.xMin + gutterCells i + cellsOf cells ((rowText row).take c) ≤ x ∧
    x < e.box.xMin + gutterCells i + cellsOf cells ((rowText row).take c) + cells b
  inBox : e.box.contain x y

/-! A row shows its line, with a blank behind it if the cursor stands there. -/

/-- In one line a selection does not end before it starts. -/
theorem orderedSelection_le {r1 c1 r2 c2 : ℤ} (h : e.orderedSelection = (r1, c1, r2, c2)) :
    r1 = r2 → c1 ≤ c2 := by
  unfold orderedSelection at h
  split at h
  · rename_i hswap
    simp only [Prod.mk.injEq] at h
    omega
  · rename_i hkeep
    simp only [Prod.mk.injEq] at h
    omega

theorem restOf_eq (line : Bytes) (pos : ℕ) : restOf line pos = some (line.drop pos) := by
  unfold restOf
  split
  · rename_i hlt
    rw [substrFrom, if_pos (Nat.le_of_lt hlt)]
  · rename_i hle
    rw [List.drop_eq_nil_of_le (by omega)]

theorem substr_zero (line : Bytes) (n : ℕ) : substr line 0 n = some (line.take n) := by
  rw [substr, if_pos (Nat.zero_le _), List.drop_zero]

theorem rowText_parts (line : Bytes) {start stop : ℕ} (h : start ≤ stop) :
    line.take start ++ (line.take stop).drop start ++ line.drop stop = line := by
  have htake : line.take start = (line.take stop).take start := by
    rw [List.take_take, Nat.min_eq_left h]
  rw [htake, List.take_append_drop, List.take_append_drop]

theorem clamp_mono (bound : ℕ) {a b : ℤ} (h : a ≤ b) : clamp bound a ≤ clamp bound b := by
  unfold clamp
  omega

theorem renderRow_text {i : ℕ} {row : Bytes × Bytes × Bytes} (h : e.renderRow focused i = some row) :
    ∃ line, e.lines[i]? = some line ∧ line <+: rowText row := by
  obtain ⟨line, hline, h⟩ := Option.bind_eq_some_iff.mp h
  refine ⟨line, hline, ?_⟩
  obtain ⟨r1, c1, r2, c2, hordered⟩ : ∃ r1 c1 r2 c2, e.orderedSelection = (r1, c1, r2, c2) := ⟨_, _, _, _, rfl⟩
  rw [hordered] at h
  dsimp only at h
  split at h
  · -- a part of the row is selected
    have hle : (if (i : ℤ) = r1 then clamp line.length c1 else 0) ≤
        if (i : ℤ) = r2 then clamp line.length c2 else line.length := by
      split
      · rename_i hfirst
        split
        · rename_i hlast
          exact clamp_mono _ (orderedSelection_le hordered (hfirst.symm.trans hlast))
        · exact clamp_le _ _
      · exact Nat.zero_le _
    rw [substr_zero, part_eq _ (stop_le line c2), restOf_eq] at h
    obtain rfl := Option.some.inj h
    rw [rowText, rowText_parts line hle]
  · split at h
    · rw [restOf_eq] at h
      by_cases hcol : e.cursorCol < line.length
      · rw [if_pos (Nat.le_of_lt hcol), if_pos hcol, substr_zero, List.getElem?_eq_getElem hcol] at h
        obtain rfl := Option.some.inj h
        exact ⟨[], by rw [rowText, List.append_nil, List.take_append_getElem, List.take_append_drop]⟩
      · have hbefore : (if e.cursorCol ≤ line.length then substr line 0 e.cursorCol else some line) =
            some line := by
          split
          · rw [substr_zero, List.take_of_length_le (by omega)]
          · rfl
        rw [hbefore, if_neg hcol] at h
        obtain rfl := Option.some.inj h
        exact ⟨str " " ++ line.drop (e.cursorCol + 1), by rw [rowText, List.append_assoc]⟩
    · obtain rfl := Option.some.inj h
      simp [rowText]

/-- Row `k` of the view is that of line `scrollY + k`. -/
theorem renderRow_of_render (hr : e.render focused = some (rows, e1)) {k : ℕ}
    {row : Bytes × Bytes × Bytes} (hk : rows[k]? = some row) :
    e1.renderRow focused (e1.scrollY + k) = some row := by
  obtain ⟨rows', hrows, hpair⟩ := Option.bind_eq_some_iff.mp hr
  obtain ⟨rfl, rfl⟩ := Prod.mk.inj (Option.some.inj hpair)
  rw [getElem?_mapM hrows] at hk
  obtain ⟨i, hi, hrow⟩ := Option.bind_eq_some_iff.mp hk
  obtain ⟨hlt, rfl⟩ := List.getElem?_eq_some_iff.mp hi
  rwa [List.getElem_range', Nat.one_mul] at hrow

/-- A press in the box puts the cursor where the pointer is taken to be. -/
theorem onEvent_press {m : Mouse} {line : Bytes} (focused copied : Bool) (hin : e.box.contain m.x m.y)
    (hleft : m.button = .left) (hpress : m.motion = .pressed) (hline : e.lines[e.pointedRow m]? = some line) :
    ∃ e2, e.onEvent focused copied (.mouse m) = some (true, e2) ∧ e2.cursorRow = e.pointedRow m ∧
      e2.cursorCol = e.pointedCol line m := by
  have hrow : e.lines[clamp (e.lines.length - 1) (e.scrollY + max 0 (m.y - e.box.yMin - 1))]? = some line :=
    hline
  have hevent : e.onEvent focused copied (.mouse m) = some (true, { e with
      cursorRow := e.pointedRow m
      cursorCol := e.pointedCol line m
      selStartRow := e.pointedRow m
      selStartCol := e.pointedCol line m
      selEndRow := e.pointedRow m
      selEndCol := e.pointedCol line m
      selecting := true
      hasSelection := true }) := by
    rw [onEvent, onMouse, if_pos hin]
    simp only [hrow, Option.bind_eq_bind, Option.bind_some, hleft, hpress]
    rfl
  exact ⟨_, hevent, rfl, rfl⟩

/-- The gutter is wider than `gutterWidth`. -/
theorem gutterWidth_lt (i : ℕ) : gutterWidth < gutterCells i := by
  unfold gutterWidth gutterCells
  omega

/-- The cell of a byte is taken for that byte only in the first row that is shown, and there only if the
gutter and the bytes before it take six cells and one for each of these bytes. -/
theorem Draws.pointed_iff {cells : UInt8 → ℕ} {i c : ℕ} {m : Mouse} {line : Bytes}
    (hd : Draws cells rows e i c m.x m.y) (hline : e.lines[e.pointedRow m]? = some line) :
    (e.pointedRow m = i ∧ e.pointedCol line m = c) ↔
      i = e.scrollY ∧ m.x = e.box.xMin + gutterWidth + c := by
  obtain ⟨⟨line', hline', hc⟩, ⟨k, row, b, -, rfl, -, hy, hx, -⟩, -⟩ := hd
  have hlt := (List.getElem?_eq_some_iff.mp hline').1
  have hgutter := gutterWidth_lt (e.scrollY + k)
  have hrow : e.pointedRow m = e.scrollY + k ↔ k = 0 := by
    simp only [pointedRow, clamp]
    omega
  -- in the first row the pointer is taken to be on the line of the byte
  have hsame (hzero : k = 0) : line = line' := by
    rw [hrow.mpr hzero, hline'] at hline
    exact (Option.some.inj hline).symm
  rw [hrow]
  constructor
  · rintro ⟨hzero, hcol⟩
    obtain rfl := hsame hzero
    subst hzero
    refine ⟨Nat.add_zero _, ?_⟩
    simp only [pointedCol, clamp, gutterWidth] at hcol hgutter ⊢
    omega
  · rintro ⟨hfirst, hcell⟩
    have hzero : k = 0 := by omega
    obtain rfl := hsame hzero
    subst hzero
    refine ⟨rfl, ?_⟩
    simp only [pointedCol, clamp, gutterWidth] at hcell hgutter ⊢
    omega

/-- Where each byte takes one cell, the gutter alone is too wide. -/
theorem Draws.past_gutter {cells : UInt8 → ℕ} {box : Box} {i c : ℕ} {x y : ℤ}
    (hr : e.render focused = some (rows, e1)) (hd : Draws cells rows { e1 with box := box } i c x y)
    (hcells : ∀ line, e1.lines[i]? = some line → ∀ b ∈ line.take c, cells b = 1) :
    box.xMin + gutterWidth + c < x := by
  obtain ⟨⟨line, hline, hc⟩, ⟨k, row, b, hrow, rfl, -, -, hx, -⟩, -⟩ := hd
  dsimp only at hline hx
  obtain ⟨line', hline', rest, htext⟩ := renderRow_text (renderRow_of_render hr hrow)
  obtain rfl := Option.some.inj (hline.symm.trans hline')
  have htake : (rowText row).take c = line.take c := by
    rw [← htext, List.take_append_of_le_length (Nat.le_of_lt hc)]
  have hone : (line.take c).map cells = List.replicate c 1 := by
    rw [List.map_congr_left (hcells line hline), List.map_const', List.length_take,
      Nat.min_eq_left (Nat.le_of_lt hc)]
  have hsum : cellsOf cells (line.take c) = c := by
    rw [cellsOf, hone, List.sum_replicate_nat, Nat.mul_one]
  have hgutter := gutterWidth_lt (e1.scrollY + k)
  rw [htake, hsum] at hx
  omega

/-- A press on a cell of a byte, in the view that was rendered last and laid out in `box`. -/
theorem press_iff {cells : UInt8 → ℕ} {box : Box} {i c : ℕ} {m : Mouse} (focused' copied : Bool)
    (hr : e.render focused = some (rows, e1)) (hd : Draws cells rows { e1 with box := box } i c m.x m.y)
    (hleft : m.button = .left) (hpress : m.motion = .pressed) :
    ∃ e2, ({ e1 with box := box } : Editor).onEvent focused' copied (.mouse m) = some (true, e2) ∧
      ((e2.cursorRow = i ∧ e2.cursorCol = c) ↔
        i = e1.scrollY ∧ m.x = box.xMin + gutterWidth + c) ∧
      ((∀ line, e1.lines[i]? = some line → ∀ b ∈ line.take c, cells b = 1) →
        ¬ (e2.cursorRow = i ∧ e2.cursorCol = c)) := by
  obtain ⟨e', he'⟩ : ∃ e' : Editor, e' = { e1 with box := box } := ⟨_, rfl⟩
  have hpointed : ∃ line, e'.lines[e'.pointedRow m]? = some line := by
    obtain ⟨⟨line, hline, -⟩, -, -⟩ := he' ▸ hd
    have hlt := (List.getElem?_eq_some_iff.mp hline).1
    have hle := clamp_le (e'.lines.length - 1) (e'.scrollY + max 0 (m.y - e'.box.yMin - 1))
    exact ⟨_, List.getElem?_eq_getElem (by rw [pointedRow]; omega)⟩
  obtain ⟨line, hline⟩ := hpointed
  have hin : e'.box.contain m.x m.y := (he' ▸ hd).inBox
  obtain ⟨e2, hevent, hrow, hcol⟩ := onEvent_press focused' copied hin hleft hpress hline
  have hiff := (he' ▸ hd : Draws cells rows e' i c m.x m.y).pointed_iff hline
  rw [← hrow, ← hcol] at hiff
  subst he'
  refine ⟨e2, hevent, hiff, fun hcells hat => ?_⟩
  have hpast := hd.past_gutter hr hcells
  have hcell := (hiff.mp hat).2
  dsimp only at hcell
  omega

def twoLines : Editor := { lines := [str "ab", str "cd"], box := ⟨0, 20, 0, 9⟩ }

/-- The first byte of the second line. -/
theorem twoLines_draws : ∃ rows, twoLines.render true = some (rows, twoLines) ∧
    Draws (fun _ => 1) rows twoLines 1 0 7 1 :=
  ⟨_, rfl, ⟨str "cd", rfl, by decide⟩, ⟨1, _, 99, rfl, rfl, rfl, rfl, by decide, by decide⟩, by decide⟩

theorem press_iff_twoLines : ∃ e2,
    twoLines.onEvent true true (.mouse ⟨7, 1, .left, .pressed⟩) = some (true, e2) ∧
    ((e2.cursorRow = 1 ∧ e2.cursorCol = 0) ↔ 1 = twoLines.scrollY ∧ (7 : ℤ) = 0 + gutterWidth + 0) := by
  obtain ⟨rows, hr, hd⟩ := twoLines_draws
  have hlaid : Draws (fun _ => 1) rows { twoLines with box := twoLines.box } 1 0 7 1 := hd
  obtain ⟨e2, hevent, hiff, -⟩ := press_iff (m := ⟨7, 1, .left, .pressed⟩) true true hr hlaid rfl rfl
  exact ⟨e2, hevent, hiff⟩

/-- The press goes to the second byte of the first line. -/
theorem click_beside : ∃ rows e2, twoLines.render true = some (rows, twoLines) ∧
    Draws (fun _ => 1) rows twoLines 1 0 7 1 ∧
    twoLines.onEvent true true (.mouse ⟨7, 1, .left, .pressed⟩) = some (true, e2) ∧
    e2.cursorRow = 0 ∧ e2.cursorCol = 1 := by
  obtain ⟨rows, hr, hd⟩ := twoLines_draws
  exact ⟨rows, _, hr, hd, rfl, rfl, rfl⟩

end TextEditor.Editor

end BurpTUI
