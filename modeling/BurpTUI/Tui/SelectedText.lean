import BurpTUI.Tui.EditorSafety

namespace BurpTUI

theorem mapM_eq_some {α β : Type*} {f : α → Option β} {g : α → β} {l : List α}
    (h : ∀ x ∈ l, f x = some (g x)) : l.mapM f = some (l.map g) := by
  induction l with
  | nil => rfl
  | cons x l ih =>
    rw [List.forall_mem_cons] at h
    rw [List.mapM_cons, h.1, ih h.2]
    rfl

/-- A separator behind each line, and none behind the last. -/
theorem intercalate_at (sep : Bytes) (pre post : List Bytes) (l : Bytes) :
    sep.intercalate (pre ++ l :: post) =
      (pre.flatMap fun l => l ++ sep) ++ (l ++ post.flatMap fun l => sep ++ l) := by
  induction pre with
  | nil =>
    induction post generalizing l with
    | nil => simp
    | cons l' post ih =>
      have hpost := ih l'
      rw [List.nil_append, List.flatMap_nil, List.nil_append] at hpost
      rw [List.nil_append, List.intercalate_cons_cons, hpost]
      simp
  | cons p pre ih =>
    cases hpre : pre ++ l :: post with
    | nil => simp at hpre
    | cons q rest =>
      rw [hpre] at ih
      rw [List.cons_append, hpre, List.intercalate_cons_cons, ih]
      simp

namespace TextEditor.Editor

variable {e : Editor} {a b c : ℕ × ℕ}

/-- A row and a column of the text, the end of a line included. -/
def InText (ls : List Bytes) (p : ℕ × ℕ) : Prop := ∃ line, ls[p.1]? = some line ∧ p.2 ≤ line.length

/-- The bytes of `GetText` before a position. -/
def crlfOffset (ls : List Bytes) (p : ℕ × ℕ) : ℕ := ((ls.take p.1).map fun l => l.length + 2).sum + p.2

/-- The text before a position. -/
def textBefore (ls : List Bytes) (p : ℕ × ℕ) : Bytes :=
  ((ls.take p.1).flatMap fun l => l ++ CRLF) ++ (ls.getD p.1 []).take p.2

def NotAfter (a b : ℕ × ℕ) : Prop := a.1 < b.1 ∨ a.1 = b.1 ∧ a.2 ≤ b.2

/-- `a` and `b` are stored as the ends of the selection. -/
def select (e : Editor) (a b : ℕ × ℕ) : Editor :=
  { e with
    hasSelection := true
    selStartRow := a.1
    selStartCol := a.2
    selEndRow := b.1
    selEndCol := b.2 }

theorem getD_of_line {ls : List Bytes} {r : ℕ} {line : Bytes} (h : ls[r]? = some line) :
    ls.getD r [] = line := by
  rw [List.getD_eq_getElem?_getD, h, Option.getD_some]

theorem length_textBefore {ls : List Bytes} (h : InText ls a) :
    (textBefore ls a).length = crlfOffset ls a := by
  obtain ⟨line, hline, hcol⟩ := h
  rw [textBefore, crlfOffset, getD_of_line hline, List.length_append, List.length_take, Nat.min_eq_left hcol,
    List.length_flatMap]
  simp [CRLF]

theorem textBefore_prefix (h : InText e.lines a) : textBefore e.lines a <+: e.getText := by
  obtain ⟨line, hline, -⟩ := h
  obtain ⟨hlt, hget⟩ := List.getElem?_eq_some_iff.mp hline
  have hlines : e.lines = e.lines.take a.1 ++ line :: e.lines.drop (a.1 + 1) := by
    rw [← hget, List.getElem_cons_drop, List.take_append_drop]
  have htext : e.getText = ((e.lines.take a.1).flatMap fun l => l ++ CRLF) ++
      (line ++ (e.lines.drop (a.1 + 1)).flatMap fun l => CRLF ++ l) :=
    (congrArg CRLF.intercalate hlines).trans (intercalate_at CRLF _ _ line)
  rw [htext, textBefore, getD_of_line hline, List.prefix_append_right_inj]
  exact (List.take_prefix _ _).trans (List.prefix_append _ _)

/-- What the loop takes of a row, from a column to a column. -/
def rowPart (ls : List Bytes) (a b : ℕ × ℕ) (r : ℕ) : Bytes :=
  (((ls.getD r []).take (if r = b.1 then b.2 else (ls.getD r []).length)).drop (if r = a.1 then a.2 else 0)) ++
    if r < b.1 then CRLF else []

theorem part_eq (line : Bytes) {start stop : ℕ} (h : stop ≤ line.length) :
    part line start stop = some ((line.take stop).drop start) := by
  unfold part
  split
  · rw [substr, if_pos (by omega), List.drop_take]
  · rename_i hle
    rw [List.drop_eq_nil_of_le]
    rw [List.length_take]
    omega

theorem clamp_cast {n k : ℕ} (h : k ≤ n) : clamp n (k : ℤ) = k := by
  simp [clamp, h]

/-- In range the column is not clamped. -/
theorem column_eq {ls : List Bytes} (ha : InText ls a) {r : ℕ} {line : Bytes} (hline : ls[r]? = some line)
    (d : ℕ) : (if (r : ℤ) = a.1 then clamp line.length a.2 else d) = if r = a.1 then a.2 else d := by
  by_cases h : r = a.1
  · obtain ⟨line', ha, hcol⟩ := ha
    rw [← h, hline] at ha
    obtain rfl := Option.some.inj ha
    rw [if_pos h, if_pos (congrArg Nat.cast h), clamp_cast hcol]
  · rw [if_neg h, if_neg (by omega)]

theorem selectedRow_eq (ha : InText e.lines a) (hb : InText e.lines b) {r : ℕ} (hr : r < e.lines.length) :
    e.selectedRow (a.1 : ℤ) a.2 (b.1 : ℤ) b.2 r = some (rowPart e.lines a b r) := by
  have hline : e.lines[r]? = some (e.lines.getD r []) := by
    rw [getD_of_line (List.getElem?_eq_getElem hr), List.getElem?_eq_getElem hr]
  have hle := stop_le (p := (r : ℤ) = b.1) (e.lines.getD r []) b.2
  simp only [selectedRow, hline, Option.bind_eq_bind, Option.bind_some]
  rw [part_eq _ hle, column_eq ha hline, column_eq hb hline, Option.bind_some, rowPart]
  simp

/-! The loop goes from position to position: each row takes the text up to the next. -/

/-- Where the row `r` of a selection from `a` on begins. -/
def rowStart (a : ℕ × ℕ) (r : ℕ) : ℕ × ℕ := (r, if r = a.1 then a.2 else 0)

theorem textBefore_row {ls : List Bytes} {r : ℕ} (hr : r < ls.length) (hlt : r < b.1) :
    textBefore ls (rowStart a r) ++ rowPart ls a b r = textBefore ls (r + 1, 0) := by
  have hline : ls.getD r [] = ls[r] := getD_of_line (List.getElem?_eq_getElem hr)
  have htake : ls.take (r + 1) = ls.take r ++ [ls[r]] := List.take_succ_eq_append_getElem hr
  simp only [textBefore, rowStart, rowPart, hline, htake]
  rw [if_neg (Nat.ne_of_lt hlt), if_pos hlt, List.take_length, List.append_assoc,
    ← List.append_assoc (List.take _ _), List.take_append_drop, List.flatMap_append, List.flatMap_singleton,
    List.take_zero, List.append_nil]

theorem textBefore_last (ls : List Bytes) (h : NotAfter a b) :
    textBefore ls (rowStart a b.1) ++ rowPart ls a b b.1 = textBefore ls b := by
  have hle : (if b.1 = a.1 then a.2 else 0) ≤ b.2 := by
    split
    · rcases h with h | h
      · omega
      · exact h.2
    · exact Nat.zero_le _
  simp only [textBefore, rowStart, rowPart, if_true, if_neg (Nat.lt_irrefl _), List.append_nil]
  generalize (if b.1 = a.1 then a.2 else 0) = col at hle ⊢
  have htake : (ls.getD b.1 []).take col = ((ls.getD b.1 []).take b.2).take col := by
    rw [List.take_take, Nat.min_eq_left hle]
  rw [List.append_assoc, htake, List.take_append_drop]

/-- The rows before the last one. -/
theorem textBefore_rows {ls : List Bytes} (hb : InText ls b) {r n : ℕ} (hr : a.1 ≤ r)
    (hn : r + n ≤ b.1) : textBefore ls (rowStart a r) ++ (List.range' r n).flatMap (rowPart ls a b) =
      textBefore ls (rowStart a (r + n)) := by
  induction n generalizing r with
  | zero => simp
  | succ n ih =>
    obtain ⟨line, hline, -⟩ := hb
    have hlt := (List.getElem?_eq_some_iff.mp hline).1
    have hnext : rowStart a (r + 1) = (r + 1, 0) := by rw [rowStart, if_neg (by omega)]
    have hrest := ih (r := r + 1) (by omega) (by omega)
    rw [hnext, Nat.add_right_comm] at hrest
    rw [List.range'_succ, List.flatMap_cons, ← List.append_assoc, textBefore_row (by omega) (by omega),
      hrest]
    rfl

theorem orderedSelection_select (h : NotAfter a b) :
    (e.select a b).orderedSelection = ((a.1 : ℤ), (a.2 : ℤ), (b.1 : ℤ), (b.2 : ℤ)) := by
  unfold orderedSelection
  apply if_neg
  rintro (hlt | hlt)
  · have hlt : (b.1 : ℤ) < a.1 := hlt
    rcases h with h | h <;> omega
  · have hrow : (a.1 : ℤ) = b.1 := hlt.1
    have hcol : (b.2 : ℤ) < a.2 := hlt.2
    rcases h with h | h <;> omega

theorem orderedSelection_swap (h : NotAfter a b) :
    (e.select b a).orderedSelection = (e.select a b).orderedSelection := by
  by_cases heq : a = b
  · rw [heq]
  · rw [orderedSelection_select h]
    unfold orderedSelection
    apply if_pos
    show (a.1 : ℤ) < b.1 ∨ ((b.1 : ℤ) = a.1 ∧ (a.2 : ℤ) < b.2)
    have hne : ¬ (a.1 = b.1 ∧ a.2 = b.2) := fun h => heq (Prod.ext h.1 h.2)
    rcases h with h | h <;> omega

theorem getSelectedText_ordered {e : Editor} (hsel : e.hasSelection = true) (ha : InText e.lines a)
    (hb : InText e.lines b) (h : NotAfter a b)
    (ho : e.orderedSelection = ((a.1 : ℤ), (a.2 : ℤ), (b.1 : ℤ), (b.2 : ℤ))) :
    ∃ sel, e.getSelectedText = some sel ∧ textBefore e.lines a ++ sel = textBefore e.lines b := by
  obtain ⟨line, hline, hcol⟩ := hb
  have hlt := (List.getElem?_eq_some_iff.mp hline).1
  have hle : a.1 ≤ b.1 := by rcases h with h | h <;> omega
  have hne : ¬ (e.hasSelection = false ∨ e.lines = []) := by
    rintro (hoff | hnil)
    · rw [hsel] at hoff
      cases hoff
    · simp [hnil] at hlt
  have hrange : List.range' a.1 (b.1 + 1 - a.1) = List.range' a.1 (b.1 - a.1) ++ [b.1] := by
    have hcount : b.1 + 1 - a.1 = (b.1 - a.1) + 1 := by omega
    have hend : a.1 + 1 * (b.1 - a.1) = b.1 := by omega
    rw [hcount, List.range'_concat, hend]
  refine ⟨(List.range' a.1 (b.1 + 1 - a.1)).flatMap (rowPart e.lines a b), ?_, ?_⟩
  · rw [getSelectedText, if_neg hne, ho]
    dsimp only
    rw [clamp_cast (by omega), clamp_cast (by omega), mapM_eq_some (g := rowPart e.lines a b)]
    · rw [Option.map_some, List.flatMap]
    · intro r hr
      rw [List.mem_range'_1] at hr
      exact selectedRow_eq ha ⟨line, hline, hcol⟩ (by omega)
  · have hfirst : rowStart a a.1 = a := by rw [rowStart, if_pos rfl]
    have hrows := textBefore_rows (a := a) ⟨line, hline, hcol⟩ (Nat.le_refl _)
      (n := b.1 - a.1) (by omega)
    rw [hfirst, Nat.add_sub_cancel' hle] at hrows
    rw [hrange, List.flatMap_append, ← List.append_assoc, hrows, List.flatMap_singleton]
    exact textBefore_last e.lines h

theorem notAfter_total (a b : ℕ × ℕ) : NotAfter a b ∨ NotAfter b a := by
  unfold NotAfter
  omega

theorem NotAfter.trans (h : NotAfter a b) (h' : NotAfter b c) : NotAfter a c := by
  unfold NotAfter at h h' ⊢
  omega

theorem select_ordered (ha : InText e.lines a) (hb : InText e.lines b) (h : NotAfter a b) :
    ∃ sel, (e.select a b).getSelectedText = some sel ∧
      textBefore e.lines a ++ sel = textBefore e.lines b :=
  getSelectedText_ordered (e := e.select a b) rfl ha hb h (orderedSelection_select h)

/-- Only the ends in order matter. -/
theorem getSelectedText_swap (a b : ℕ × ℕ) :
    (e.select b a).getSelectedText = (e.select a b).getSelectedText := by
  have hordered : (e.select b a).orderedSelection = (e.select a b).orderedSelection := by
    rcases notAfter_total a b with h | h
    · exact orderedSelection_swap h
    · exact (orderedSelection_swap h).symm
  unfold getSelectedText
  rw [hordered]
  rfl

/-- The part of a text between two offsets. -/
def slice (s : Bytes) (i j : ℕ) : Bytes := (s.drop (min i j)).take (max i j - min i j)

theorem crlfOffset_le (ha : InText e.lines a) (hb : InText e.lines b) (h : NotAfter a b) :
    crlfOffset e.lines a ≤ crlfOffset e.lines b := by
  obtain ⟨sel, -, htext⟩ := select_ordered ha hb h
  rw [← length_textBefore ha, ← length_textBefore hb, ← htext, List.length_append]
  exact Nat.le_add_right _ _

theorem getSelectedText_slice (ha : InText e.lines a) (hb : InText e.lines b) (h : NotAfter a b) :
    (e.select a b).getSelectedText =
      some (slice e.getText (crlfOffset e.lines a) (crlfOffset e.lines b)) := by
  obtain ⟨sel, hsel, htext⟩ := select_ordered ha hb h
  obtain ⟨rest, hrest⟩ := textBefore_prefix hb
  have hle := crlfOffset_le ha hb h
  rw [hsel, slice, Nat.min_eq_left hle, Nat.max_eq_right hle, ← length_textBefore ha, ← length_textBefore hb,
    ← hrest, ← htext, List.append_assoc, List.drop_left, List.length_append, Nat.add_sub_cancel_left,
    List.take_left]

/-- A selection is a slice of the text, whichever of its ends comes first, and adjacent selections add
up. -/
theorem selected_is_slice (ha : InText e.lines a) (hb : InText e.lines b) :
    (e.select a b).getSelectedText =
        some (slice e.getText (crlfOffset e.lines a) (crlfOffset e.lines b)) ∧
      (e.select b a).getSelectedText = (e.select a b).getSelectedText ∧
      ∀ c, InText e.lines c → NotAfter a b → NotAfter b c →
        ∃ ab bc, (e.select a b).getSelectedText = some ab ∧ (e.select b c).getSelectedText = some bc ∧
          (e.select a c).getSelectedText = some (ab ++ bc) := by
  refine ⟨?_, getSelectedText_swap a b, ?_⟩
  · rcases notAfter_total a b with h | h
    · exact getSelectedText_slice ha hb h
    · rw [getSelectedText_swap, getSelectedText_slice hb ha h, slice, slice, Nat.min_comm, Nat.max_comm]
  · intro c hc hab hbc
    obtain ⟨ab, hselab, hab'⟩ := select_ordered ha hb hab
    obtain ⟨bc, hselbc, hbc'⟩ := select_ordered hb hc hbc
    obtain ⟨ac, hselac, hac⟩ := select_ordered ha hc (hab.trans hbc)
    refine ⟨ab, bc, hselab, hselbc, ?_⟩
    rw [← hbc', ← hab', List.append_assoc, List.append_cancel_left_eq] at hac
    rw [hselac, hac]

/-- From inside the first line to the end of the third, over an empty one. -/
def threeLines : Editor := { lines := [str "abc", [], str "de"] }

theorem selected_is_slice_threeLines :
    (threeLines.select (2, 1) (0, 1)).getSelectedText =
        some (slice threeLines.getText (crlfOffset threeLines.lines (2, 1))
          (crlfOffset threeLines.lines (0, 1))) ∧
      (threeLines.select (0, 1) (2, 1)).getSelectedText = (threeLines.select (2, 1) (0, 1)).getSelectedText ∧
      (threeLines.select (2, 1) (0, 1)).getSelectedText = some (str "bc" ++ CRLF ++ CRLF ++ str "d") := by
  have h := selected_is_slice (e := threeLines) (a := (2, 1)) (b := (0, 1)) ⟨str "de", rfl, by decide⟩
    ⟨str "abc", rfl, by decide⟩
  exact ⟨h.1, h.2.1, by decide⟩

end TextEditor.Editor

end BurpTUI
