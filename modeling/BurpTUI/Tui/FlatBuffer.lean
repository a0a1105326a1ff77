import BurpTUI.Base.TextBuffer
import BurpTUI.Tui.TextEditor

namespace BurpTUI

open TextBuffer

section Access

variable (pre post : List Bytes) (a b x : Bytes)

theorem substr_left : substr (a ++ b) 0 a.length = some a := by
  simp [substr]

theorem substrFrom_append : substrFrom (a ++ b) a.length = some b := by
  simp [substrFrom]

theorem insertAt_append : insertAt (a ++ b) a.length x = some (a ++ x ++ b) := by
  simp [insertAt]

theorem eraseAt_append (c : UInt8) : eraseAt (a ++ c :: b) a.length = some (a ++ b) := by
  simp [eraseAt, List.eraseIdx_append_of_length_le]

theorem setLine_split : setLine (pre ++ a :: post) pre.length x = some (pre ++ x :: post) := by
  simp [setLine]

theorem insertIdx_split : (pre ++ post).insertIdx pre.length x = pre ++ x :: post := by
  induction pre with
  | nil => simp
  | cons p pre ih => simp [ih]

theorem insertLine_split :
    insertLine (pre ++ a :: post) (pre.length + 1) x = some (pre ++ a :: x :: post) := by
  have h := insertIdx_split (pre ++ [a]) post x
  rw [List.length_append, List.length_singleton, List.append_assoc, List.append_assoc] at h
  rw [insertLine, if_pos (by simp)]
  exact congrArg some h

theorem eraseLine_split : eraseLine (pre ++ a :: post) pre.length = some (pre ++ post) := by
  simp [eraseLine, List.eraseIdx_append_of_length_le]

theorem line_split : (pre ++ a :: post)[pre.length]? = some a := by
  simp

end Access

namespace TextEditor.Editor

variable {e e' : Editor} {pre post : List Bytes} {a b : Bytes}

/-- The lines as one text, with the position of the cursor in it. -/
def buffer (e : Editor) : Buffer UInt8 :=
  ⟨[LF].intercalate e.lines, offset e.lines e.cursorRow e.cursorCol⟩

/-- What an event does to a text. Only the moves between lines look at the lines `ls` of the text. -/
def onBuffer (ls : List Bytes) (b : Buffer UInt8) : Event → Buffer UInt8
  | .arrowUp => b.moveTo ls ((locate ls b.off).1 - 1) (locate ls b.off).2
  | .arrowDown => b.moveTo ls (min ((locate ls b.off).1 + 1) (ls.length - 1)) (locate ls b.off).2
  | .arrowLeft => b.left
  | .arrowRight => b.right
  | .homeKey => { b with off := offset ls (locate ls b.off).1 0 }
  | .endKey =>
    { b with off := offset ls (locate ls b.off).1 (ls.getD (locate ls b.off).1 []).length }
  | .pageUp => b.moveTo ls ((locate ls b.off).1 - 10) (locate ls b.off).2
  | .pageDown => b.moveTo ls (min ((locate ls b.off).1 + 10) (ls.length - 1)) (locate ls b.off).2
  | .returnKey => b.insert [LF]
  | .backspace => b.backspace
  | .delete => b.delete
  | .tab => b.insert (str "    ")
  | .character text => b.insert (text.filter (· ≠ CR))
  | .mouse _ | .other => b

def InRange (e : Editor) : Prop := ∃ line, e.lines[e.cursorRow]? = some line ∧ e.cursorCol ≤ line.length

/-- The cursor stands between `a` and `b` in its line. -/
structure At (e : Editor) (pre : List Bytes) (a b : Bytes) (post : List Bytes) : Prop where
  lines : e.lines = pre ++ (a ++ b) :: post
  row : e.cursorRow = pre.length
  col : e.cursorCol = a.length

theorem At.inRange (h : e.At pre a b post) : e.InRange := by
  refine ⟨a ++ b, ?_, ?_⟩
  · rw [h.lines, h.row, line_split]
  · rw [h.col, List.length_append]
    omega

theorem InRange.at (h : e.InRange) : ∃ pre a b post, e.At pre a b post := by
  obtain ⟨line, hline, hcol⟩ := h
  have hlt := (List.getElem?_eq_some_iff.mp hline).1
  refine ⟨e.lines.take e.cursorRow, line.take e.cursorCol, line.drop e.cursorCol,
    e.lines.drop (e.cursorRow + 1), ⟨?_, ?_, ?_⟩⟩
  · have hget := (List.getElem?_eq_some_iff.mp hline).2
    rw [List.take_append_drop, ← hget, List.getElem_cons_drop, List.take_append_drop]
  · rw [List.length_take]
    omega
  · rw [List.length_take]
    omega

theorem At.buffer (h : e.At pre a b post) :
    e.buffer = Buffer.between (before LF pre ++ a) (b ++ after LF post) := by
  rw [Editor.buffer, h.lines, h.row, h.col, between_of_lines]

/-- Everything but the scroll position. -/
theorem At.visible (h : e.At pre a b post) (n : ℕ) : (e.ensureCursorVisible n).At pre a b post := by
  unfold ensureCursorVisible
  split
  · exact h
  · exact ⟨h.lines, h.row, h.col⟩

/-- Bytes that may stand in a line: all but the two line ends, and perhaps these. -/
def AllBytes (p : UInt8 → Prop) (ls : List Bytes) : Prop := ∀ l ∈ ls, ∀ c ∈ l, p c

/-- What a key leaves behind, where `b` is the text that it is to leave. -/
structure KeyStep (e e' : Editor) (b : Buffer UInt8) : Prop where
  inRange : e'.InRange
  buffer : e'.buffer = b
  bytes : ∀ p : UInt8 → Prop, (∀ c, c ≠ CR → c ≠ LF → p c) → AllBytes p e.lines → AllBytes p e'.lines
  scroll : e.scrollY < e.lines.length → e'.scrollY < e'.lines.length

theorem KeyStep.same (h : e.InRange) : KeyStep e e e.buffer := ⟨h, rfl, fun _ _ h => h, id⟩

theorem two_le_visibleHeight (e : Editor) : 2 ≤ e.visibleHeight := by
  unfold visibleHeight
  omega

/-- After the clamp the scroll position is on a line. -/
theorem scrollY_visible {n : ℕ} (hn : 0 < n) (h : 0 < e.lines.length) :
    (e.ensureCursorVisible n).scrollY < (e.ensureCursorVisible n).lines.length := by
  unfold ensureCursorVisible
  rw [if_neg (by omega)]
  show min (e.lines.length - n) _ < e.lines.length
  omega

theorem InRange.row_lt (h : e.InRange) : e.cursorRow < e.lines.length := by
  obtain ⟨line, hline, -⟩ := h
  exact (List.getElem?_eq_some_iff.mp hline).1

theorem InRange.lines_pos (h : e.InRange) : 0 < e.lines.length := Nat.zero_lt_of_lt h.row_lt

/-- A key that ends with the cursor made visible. -/
theorem KeyStep.visible {m : Editor} {bt : Buffer UInt8} (h : m.InRange) (hb : m.buffer = bt)
    (hbytes : ∀ p : UInt8 → Prop, (∀ c, c ≠ CR → c ≠ LF → p c) → AllBytes p e.lines →
      AllBytes p m.lines) : KeyStep e (m.ensureCursorVisible e.visibleHeight) bt := by
  have hheight := two_le_visibleHeight e
  have hlines : (m.ensureCursorVisible e.visibleHeight).lines = m.lines := by
    unfold ensureCursorVisible
    split <;> rfl
  obtain ⟨pre, a, b, post, hat⟩ := h.at
  have hat' := hat.visible e.visibleHeight
  refine ⟨hat'.inRange, ?_, ?_, ?_⟩
  · rw [hat'.buffer, ← hb, hat.buffer]
  · intro p hp hall
    rw [hlines]
    exact hbytes p hp hall
  · intro _
    exact scrollY_visible (by omega) h.lines_pos

/-! Keys that move in the lines. -/

/-- The position of a row and a column that are in the text. -/
theorem locate_buffer (h : e.InRange) : locate e.lines e.buffer.off = (e.cursorRow, e.cursorCol) := by
  obtain ⟨line, hline, hcol⟩ := h
  exact locate_offset hline hcol

theorem toRow_step {row : ℕ} (hrow : row < e.lines.length) :
    ∃ e', e.toRow row = some e' ∧ KeyStep e e' (e.buffer.moveTo e.lines row e.cursorCol) := by
  have hline : e.lines[row]? = some e.lines[row] := List.getElem?_eq_getElem hrow
  refine ⟨_, by rw [toRow, hline]; rfl, ?_⟩
  apply KeyStep.visible
  · exact ⟨e.lines[row], hline, Nat.min_le_right _ _⟩
  · rw [Buffer.moveTo, List.getD_eq_getElem?_getD, hline]
    rfl
  · intro p _ hall
    exact hall

/-- Where the cursor is already, nothing moves. -/
theorem moveTo_row (h : e.InRange) :
    e.buffer.moveTo e.lines e.cursorRow e.cursorCol = e.buffer := by
  obtain ⟨line, hline, hcol⟩ := h
  rw [Buffer.moveTo, List.getD_eq_getElem?_getD, hline, Option.getD_some, Nat.min_eq_left hcol]
  rfl

theorem arrowUp_step (h : e.InRange) :
    ∃ e', e.arrowUp = some e' ∧ KeyStep e e' (onBuffer e.lines e.buffer .arrowUp) := by
  have hrow := h.row_lt
  simp only [onBuffer, locate_buffer h, arrowUp]
  split
  · exact toRow_step (by omega)
  · have hzero : e.cursorRow - 1 = e.cursorRow := by omega
    rw [hzero, moveTo_row h]
    exact ⟨e, rfl, .same h⟩

theorem arrowDown_step (h : e.InRange) :
    ∃ e', e.arrowDown = some e' ∧ KeyStep e e' (onBuffer e.lines e.buffer .arrowDown) := by
  have hrow := h.row_lt
  simp only [onBuffer, locate_buffer h, arrowDown]
  split
  · have hmin : min (e.cursorRow + 1) (e.lines.length - 1) = e.cursorRow + 1 := by omega
    rw [hmin]
    exact toRow_step (by omega)
  · have hlast : min (e.cursorRow + 1) (e.lines.length - 1) = e.cursorRow := by omega
    rw [hlast, moveTo_row h]
    exact ⟨e, rfl, .same h⟩

theorem pageUp_step (h : e.InRange) :
    ∃ e', e.pageUp = some e' ∧ KeyStep e e' (onBuffer e.lines e.buffer .pageUp) := by
  have hrow := h.row_lt
  simp only [onBuffer, locate_buffer h, pageUp]
  exact toRow_step (by omega)

theorem pageDown_step (h : e.InRange) :
    ∃ e', e.pageDown = some e' ∧ KeyStep e e' (onBuffer e.lines e.buffer .pageDown) := by
  have hpos := h.lines_pos
  simp only [onBuffer, locate_buffer h, pageDown]
  rw [Nat.min_comm (e.lines.length - 1)]
  exact toRow_step (by omega)

theorem homeKey_step (h : e.InRange) :
    ∃ e', e.homeKey = some e' ∧ KeyStep e e' (onBuffer e.lines e.buffer .homeKey) := by
  simp only [onBuffer, locate_buffer h]
  obtain ⟨line, hline, -⟩ := h
  exact ⟨_, rfl, ⟨line, hline, Nat.zero_le _⟩, rfl, fun _ _ hall => hall, id⟩

theorem endKey_step (h : e.InRange) :
    ∃ e', e.endKey = some e' ∧ KeyStep e e' (onBuffer e.lines e.buffer .endKey) := by
  simp only [onBuffer, locate_buffer h]
  obtain ⟨line, hline, -⟩ := h
  refine ⟨{ e with cursorCol := line.length }, by rw [endKey, hline]; rfl,
    ⟨line, hline, Nat.le_refl _⟩, ?_, fun _ _ hall => hall, id⟩
  rw [List.getD_eq_getElem?_getD, hline]
  rfl

/-! Keys that work at the position of the cursor. -/

theorem AllBytes.append {p : UInt8 → Prop} {ls ls' : List Bytes} :
    AllBytes p (ls ++ ls') ↔ AllBytes p ls ∧ AllBytes p ls' := by
  simp only [AllBytes, List.forall_mem_append]

theorem AllBytes.cons {p : UInt8 → Prop} {l : Bytes} {ls : List Bytes} :
    AllBytes p (l :: ls) ↔ (∀ c ∈ l, p c) ∧ AllBytes p ls := by
  simp only [AllBytes, List.forall_mem_cons]

theorem arrowLeft_step (h : e.InRange) :
    ∃ e', e.arrowLeft = some e' ∧ KeyStep e e' (onBuffer e.lines e.buffer .arrowLeft) := by
  obtain ⟨pre, a, b, post, hat⟩ := h.at
  simp only [onBuffer, arrowLeft]
  rcases List.eq_nil_or_concat a with rfl | ⟨a, c, rfl⟩
  · rw [if_neg (by rw [hat.col]; simp)]
    rcases List.eq_nil_or_concat pre with rfl | ⟨pre, l, rfl⟩
    · rw [if_neg (by rw [hat.row]; simp), hat.buffer]
      refine ⟨e, rfl, ?_⟩
      have hsame := KeyStep.same h
      rwa [hat.buffer] at hsame
    · have hrow : e.cursorRow - 1 = pre.length := by
        rw [hat.row]
        simp
      have hlines : e.lines = pre ++ l :: b :: post := by
        rw [hat.lines]
        simp
      have hline : e.lines[e.cursorRow - 1]? = some l := by rw [hlines, hrow, line_split]
      rw [if_pos (by rw [hat.row]; simp), hline]
      refine ⟨_, rfl, ?_⟩
      have hm : At { e with cursorRow := e.cursorRow - 1, cursorCol := l.length } pre l [] (b :: post) :=
        ⟨by rw [List.append_nil]; exact hlines, hrow, rfl⟩
      refine KeyStep.visible hm.inRange ?_ fun p _ hall => hall
      rw [hm.buffer, hat.buffer, List.concat_eq_append, List.append_nil, before_snoc,
        Buffer.left_between]
      simp
  · rw [if_pos (by rw [hat.col]; simp)]
    have hm : At { e with cursorCol := e.cursorCol - 1 } pre a (c :: b) post :=
      ⟨by simpa using hat.lines, hat.row, by simp [hat.col]⟩
    refine ⟨_, rfl, hm.inRange, ?_, fun p _ hall => hall, id⟩
    rw [hm.buffer, hat.buffer]
    simp [← List.append_assoc]

theorem arrowRight_step (h : e.InRange) :
    ∃ e', e.arrowRight = some e' ∧ KeyStep e e' (onBuffer e.lines e.buffer .arrowRight) := by
  obtain ⟨pre, a, b, post, hat⟩ := h.at
  have hline : e.lines[e.cursorRow]? = some (a ++ b) := by rw [hat.lines, hat.row, line_split]
  have hlen : e.lines.length = pre.length + 1 + post.length := by
    rw [hat.lines]
    simp
    omega
  simp only [onBuffer, arrowRight, hline, Option.bind_eq_bind, Option.bind_some, hat.col,
    List.length_append]
  cases b with
  | nil =>
    -- at the end of the line the cursor goes on to the next one
    rw [if_neg (by simp)]
    cases post with
    | nil =>
      rw [if_neg (by rw [hlen, hat.row]; simp), hat.buffer]
      refine ⟨e, rfl, ?_⟩
      have hsame := KeyStep.same h
      rw [hat.buffer] at hsame
      simpa using hsame
    | cons l post =>
      rw [if_pos (by rw [hlen, hat.row]; simp)]
      refine ⟨_, rfl, ?_⟩
      have hm : At { e with cursorRow := e.cursorRow + 1, cursorCol := 0 } (pre ++ [a]) [] l post :=
        ⟨by simpa using hat.lines, by simp [hat.row], rfl⟩
      refine KeyStep.visible hm.inRange ?_ fun p _ hall => hall
      rw [hm.buffer, hat.buffer, List.nil_append, after_cons, List.cons_append, Buffer.right_between]
      simp
  | cons c b =>
    rw [if_pos (by simp)]
    have hm : At { e with cursorCol := a.length + 1 } pre (a ++ [c]) b post :=
      ⟨by simpa using hat.lines, hat.row, by simp⟩
    refine ⟨_, rfl, hm.inRange, ?_, fun p _ hall => hall, id⟩
    rw [hm.buffer, hat.buffer, List.cons_append, Buffer.right_between]
    simp

/-- Text that is put into the line of the cursor. -/
theorem insertInLine_at (h : e.At pre a b post) (text : Bytes) :
    ∃ e', e.insertInLine text = some e' ∧ e'.At pre (a ++ text) b post ∧ e'.scrollY = e.scrollY ∧
      e'.box = e.box := by
  have hline : e.lines[e.cursorRow]? = some (a ++ b) := by rw [h.lines, h.row, line_split]
  have hset : setLine e.lines e.cursorRow (a ++ text ++ b) =
      some (pre ++ (a ++ text ++ b) :: post) := by
    rw [h.lines, h.row, setLine_split]
  refine ⟨{ e with
    lines := pre ++ (a ++ text ++ b) :: post
    cursorCol := e.cursorCol + text.length }, ?_, ⟨rfl, h.row, by simp [h.col]⟩, rfl, rfl⟩
  rw [insertInLine, hline]
  simp only [Option.bind_eq_bind, Option.bind_some, h.col, insertAt_append, hset]

/-- The line of the cursor is broken at the cursor. -/
theorem splitLine_at (h : e.At pre a b post) :
    ∃ e', e.splitLine = some e' ∧ e'.At (pre ++ [a]) [] b post ∧ e'.scrollY = e.scrollY ∧
      e'.box = e.box := by
  have hline : e.lines[e.cursorRow]? = some (a ++ b) := by rw [h.lines, h.row, line_split]
  have hset : setLine e.lines e.cursorRow a = some (pre ++ a :: post) := by
    rw [h.lines, h.row, setLine_split]
  refine ⟨{ e with
    lines := pre ++ a :: b :: post
    cursorRow := e.cursorRow + 1
    cursorCol := 0 }, ?_, ⟨by simp, by simp [h.row], rfl⟩, rfl, rfl⟩
  rw [splitLine, hline]
  simp only [Option.bind_eq_bind, Option.bind_some, h.col, substr_left, substrFrom_append, hset]
  rw [h.row, insertLine_split]
  rfl

theorem insertChar_at (h : e.At pre a b post) (c : UInt8) :
    ∃ e' pre' a', e.insertChar c = some e' ∧ e'.At pre' a' b post ∧ e'.scrollY = e.scrollY ∧
      e'.box = e.box ∧ before LF pre' ++ a' = before LF pre ++ a ++ [c].filter (· ≠ CR) ∧
      ∀ p : UInt8 → Prop, (∀ c, c ≠ CR → c ≠ LF → p c) →
        AllBytes p (pre ++ [a]) → AllBytes p (pre' ++ [a']) := by
  by_cases hcr : c = CR
  · exact ⟨e, pre, a, by rw [insertChar, if_pos hcr], h, rfl, rfl, by simp [hcr],
      fun p _ hall => hall⟩
  · by_cases hlf : c = LF
    · obtain ⟨e', he', hat, hscroll, hbox⟩ := splitLine_at h
      refine ⟨e', pre ++ [a], [], by rw [insertChar, if_neg hcr, if_pos hlf, he'], hat, hscroll, hbox,
        ?_, ?_⟩
      · have hne : LF ≠ CR := by decide
        simp [hlf, hne]
      · intro p _ hall
        rw [AllBytes.append]
        exact ⟨hall, by simp [AllBytes]⟩
    · obtain ⟨e', he', hat, hscroll, hbox⟩ := insertInLine_at h [c]
      refine ⟨e', pre, a ++ [c], by rw [insertChar, if_neg hcr, if_neg hlf, he'], hat, hscroll, hbox,
        by simp [hcr], ?_⟩
      intro p hp hall
      rw [AllBytes.append] at hall ⊢
      refine ⟨hall.1, ?_⟩
      simpa [AllBytes, or_imp, forall_and, hp c hcr hlf] using hall.2

theorem insertString_at (text : Bytes) (h : e.At pre a b post) :
    ∃ e' pre' a', e.insertString text = some e' ∧ e'.At pre' a' b post ∧ e'.scrollY = e.scrollY ∧
      e'.box = e.box ∧ before LF pre' ++ a' = before LF pre ++ a ++ text.filter (· ≠ CR) ∧
      ∀ p : UInt8 → Prop, (∀ c, c ≠ CR → c ≠ LF → p c) →
        AllBytes p (pre ++ [a]) → AllBytes p (pre' ++ [a']) := by
  induction text generalizing e pre a with
  | nil => exact ⟨e, pre, a, rfl, h, rfl, rfl, by simp, fun p _ hall => hall⟩
  | cons c text ih =>
    obtain ⟨m, pre₁, a₁, hm, hat, hscroll, hbox, hbefore, hbytes⟩ := insertChar_at h c
    obtain ⟨e', pre₂, a₂, he', hat', hscroll', hbox', hbefore', hbytes'⟩ := ih hat
    refine ⟨e', pre₂, a₂, ?_, hat', hscroll'.trans hscroll, hbox'.trans hbox, ?_,
      fun p hp hall => hbytes' p hp (hbytes p hp hall)⟩
    · rw [insertString, List.foldlM_cons, hm]
      exact he'
    · rw [hbefore', hbefore]
      by_cases hcr : c = CR
      · simp [hcr]
      · simp [hcr]

/-- The bytes of lines in which the part before the cursor and the part after it are known. -/
theorem At.allBytes (h : e.At pre a b post) {p : UInt8 → Prop} :
    AllBytes p e.lines ↔ AllBytes p (pre ++ [a]) ∧ (∀ c ∈ b, p c) ∧ AllBytes p post := by
  rw [h.lines, AllBytes.append, AllBytes.append, AllBytes.cons, AllBytes.cons,
    List.forall_mem_append]
  simp only [AllBytes, List.not_mem_nil, false_implies, implies_true, and_true, and_assoc]

theorem At.length (h : e.At pre a b post) : e.lines.length = pre.length + 1 + post.length := by
  rw [h.lines]
  simp
  omega

theorem character_step (h : e.InRange) (text : Bytes) :
    ∃ e', e.character text = some e' ∧ KeyStep e e' (onBuffer e.lines e.buffer (.character text)) := by
  obtain ⟨pre, a, b, post, hat⟩ := h.at
  obtain ⟨m, pre', a', hm, hat', -, -, hbefore, hbytes⟩ := insertString_at text hat
  refine ⟨_, by rw [character, hm]; rfl, KeyStep.visible hat'.inRange ?_ ?_⟩
  · rw [hat'.buffer, hbefore, hat.buffer, onBuffer, Buffer.insert_between]
  · intro p hp hall
    rw [hat.allBytes] at hall
    exact hat'.allBytes.mpr ⟨hbytes p hp hall.1, hall.2⟩

theorem returnKey_step (h : e.InRange) :
    ∃ e', e.returnKey = some e' ∧ KeyStep e e' (onBuffer e.lines e.buffer .returnKey) := by
  obtain ⟨pre, a, b, post, hat⟩ := h.at
  obtain ⟨m, hm, hat', -, -⟩ := splitLine_at hat
  refine ⟨_, by rw [returnKey, hm]; rfl, KeyStep.visible hat'.inRange ?_ ?_⟩
  · rw [hat'.buffer, hat.buffer, onBuffer, Buffer.insert_between]
    simp
  · intro p _ hall
    rw [hat.allBytes] at hall
    rw [hat'.allBytes, AllBytes.append]
    exact ⟨⟨hall.1, by simp [AllBytes]⟩, hall.2⟩

theorem tab_step (h : e.InRange) :
    ∃ e', e.tab = some e' ∧ KeyStep e e' (onBuffer e.lines e.buffer .tab) := by
  obtain ⟨pre, a, b, post, hat⟩ := h.at
  obtain ⟨e', he', hat', hscroll, -⟩ := insertInLine_at hat (str "    ")
  refine ⟨e', he', hat'.inRange, ?_, ?_, ?_⟩
  · rw [hat'.buffer, hat.buffer, onBuffer, Buffer.insert_between, List.append_assoc]
  · intro p hp hall
    have hspaces : ∀ c ∈ str "    ", p c := by
      intro c hc
      have hne : ∀ c ∈ str "    ", c ≠ CR ∧ c ≠ LF := by decide
      exact hp c (hne c hc).1 (hne c hc).2
    rw [hat.allBytes, AllBytes.append] at hall
    rw [hat'.allBytes, AllBytes.append]
    refine ⟨⟨hall.1.1, ?_⟩, hall.2⟩
    have ha := hall.1.2
    simp only [AllBytes, List.forall_mem_singleton] at ha ⊢
    exact List.forall_mem_append.mpr ⟨ha, hspaces⟩
  · intro hlt
    rw [hscroll, hat'.length, ← hat.length]
    exact hlt

theorem backspace_step (h : e.InRange) :
    ∃ e', e.backspace = some e' ∧ KeyStep e e' (onBuffer e.lines e.buffer .backspace) := by
  obtain ⟨pre, a, b, post, hat⟩ := h.at
  simp only [onBuffer, backspace]
  rcases List.eq_nil_or_concat a with rfl | ⟨a, c, rfl⟩
  · rw [if_neg (by rw [hat.col]; simp)]
    rcases List.eq_nil_or_concat pre with rfl | ⟨pre, l, rfl⟩
    · rw [if_neg (by rw [hat.row]; simp), hat.buffer]
      refine ⟨e, rfl, ?_⟩
      have hsame := KeyStep.same h
      rwa [hat.buffer] at hsame
    · -- The line is joined to the one before it.
      have hrow : e.cursorRow - 1 = pre.length := by
        rw [hat.row]
        simp
      have hrow' : e.cursorRow = pre.length + 1 := by
        rw [hat.row]
        simp
      have hlines : e.lines = pre ++ l :: b :: post := by
        rw [hat.lines]
        simp
      have hprev : e.lines[e.cursorRow - 1]? = some l := by rw [hlines, hrow, line_split]
      have hcur : e.lines[e.cursorRow]? = some b := by
        rw [hlines, hrow']
        simp
      have hset : setLine e.lines (e.cursorRow - 1) (l ++ b) = some (pre ++ (l ++ b) :: b :: post) := by
        rw [hlines, hrow, setLine_split]
      have herase : eraseLine (pre ++ (l ++ b) :: b :: post) e.cursorRow =
          some (pre ++ (l ++ b) :: post) := by
        have hsplit := eraseLine_split (pre ++ [l ++ b]) post b
        rw [List.length_append, List.length_singleton, List.append_assoc, List.append_assoc] at hsplit
        rw [hrow']
        exact hsplit
      have hm : At { e with
          lines := pre ++ (l ++ b) :: post
          cursorRow := e.cursorRow - 1
          cursorCol := l.length } pre l b post := ⟨rfl, hrow, rfl⟩
      rw [if_pos (by omega), hprev, hcur]
      simp only [Option.bind_eq_bind, Option.bind_some, hset, herase]
      refine ⟨_, rfl, KeyStep.visible hm.inRange ?_ ?_⟩
      · rw [hm.buffer, hat.buffer, List.concat_eq_append, List.append_nil, before_snoc,
          Buffer.backspace_between]
      · intro p _ hall
        rw [hlines, AllBytes.append, AllBytes.cons, AllBytes.cons] at hall
        rw [hm.allBytes, AllBytes.append, AllBytes.cons]
        exact ⟨⟨hall.1, hall.2.1, by simp [AllBytes]⟩, hall.2.2⟩
  · -- a byte of the line itself is erased
    have hcol : e.cursorCol - 1 = a.length := by
      rw [hat.col]
      simp
    have hline : e.lines[e.cursorRow]? = some (a ++ c :: b) := by
      rw [hat.lines, hat.row, line_split]
      simp
    have hset : setLine e.lines e.cursorRow (a ++ b) = some (pre ++ (a ++ b) :: post) := by
      rw [hat.lines, hat.row, setLine_split]
    have hm : At { e with lines := pre ++ (a ++ b) :: post, cursorCol := e.cursorCol - 1 } pre a b post :=
      ⟨rfl, hat.row, hcol⟩
    rw [if_pos (by rw [hat.col]; simp), hline]
    simp only [Option.bind_eq_bind, Option.bind_some, hcol, eraseAt_append, hset]
    rw [hcol] at hm
    refine ⟨_, rfl, hm.inRange, ?_, ?_, ?_⟩
    · rw [hm.buffer, hat.buffer, List.concat_eq_append, ← List.append_assoc, Buffer.backspace_between]
    · intro p _ hall
      rw [hat.allBytes, List.concat_eq_append, AllBytes.append, AllBytes.cons,
        List.forall_mem_append] at hall
      rw [hm.allBytes, AllBytes.append, AllBytes.cons]
      exact ⟨⟨hall.1.1, hall.1.2.1.1, hall.1.2.2⟩, hall.2⟩
    · intro hlt
      rw [hm.length, ← hat.length]
      exact hlt

theorem delete_step (h : e.InRange) :
    ∃ e', e.delete = some e' ∧ KeyStep e e' (onBuffer e.lines e.buffer .delete) := by
  obtain ⟨pre, a, b, post, hat⟩ := h.at
  have hline : e.lines[e.cursorRow]? = some (a ++ b) := by rw [hat.lines, hat.row, line_split]
  simp only [onBuffer, delete, hline, Option.bind_eq_bind, Option.bind_some, hat.col,
    List.length_append]
  cases b with
  | nil =>
    rw [if_neg (by simp)]
    cases post with
    | nil =>
      rw [if_neg (by rw [hat.length, hat.row]; simp), hat.buffer]
      refine ⟨e, rfl, ?_⟩
      have hsame := KeyStep.same h
      rw [hat.buffer] at hsame
      simpa using hsame
    | cons l post =>
      -- The next line is joined to this one.
      have hnext : e.lines[e.cursorRow + 1]? = some l := by
        rw [hat.lines, hat.row]
        simp
      have hset : setLine e.lines e.cursorRow (a ++ [] ++ l) = some (pre ++ (a ++ l) :: l :: post) := by
        rw [hat.lines, hat.row, setLine_split, List.append_nil]
      have herase : eraseLine (pre ++ (a ++ l) :: l :: post) (e.cursorRow + 1) =
          some (pre ++ (a ++ l) :: post) := by
        have hsplit := eraseLine_split (pre ++ [a ++ l]) post l
        rw [List.length_append, List.length_singleton, List.append_assoc, List.append_assoc] at hsplit
        rw [hat.row]
        exact hsplit
      have hm : At { e with lines := pre ++ (a ++ l) :: post } pre a l post := ⟨rfl, hat.row, hat.col⟩
      rw [if_pos (by rw [hat.length, hat.row]; simp), hnext]
      simp only [Option.bind_some, hset, herase]
      rw [hat.col] at hm
      refine ⟨_, rfl, KeyStep.visible hm.inRange ?_ ?_⟩
      · rw [hm.buffer, hat.buffer, List.nil_append, after_cons, List.cons_append,
          Buffer.delete_between]
      · intro p _ hall
        rw [hat.allBytes, AllBytes.cons] at hall
        exact hm.allBytes.mpr ⟨hall.1, hall.2.2⟩
  | cons c b =>
    have hset : setLine e.lines e.cursorRow (a ++ b) = some (pre ++ (a ++ b) :: post) := by
      rw [hat.lines, hat.row, setLine_split]
    have hm : At { e with lines := pre ++ (a ++ b) :: post } pre a b post := ⟨rfl, hat.row, hat.col⟩
    rw [if_pos (by simp), eraseAt_append]
    simp only [Option.bind_some, hset]
    rw [hat.col] at hm
    refine ⟨_, rfl, hm.inRange, ?_, ?_, ?_⟩
    · rw [hm.buffer, hat.buffer, List.cons_append, Buffer.delete_between]
    · intro p _ hall
      rw [hat.allBytes, List.forall_mem_cons] at hall
      exact hm.allBytes.mpr ⟨hall.1, hall.2.1.2, hall.2.2⟩
    · intro hlt
      rw [hm.length, ← hat.length]
      exact hlt

/-- One lemma for all keys. -/
theorem onKey_step (h : e.InRange) {ev : Event} {r : Option Editor} (hkey : e.onKey ev = some r) :
    ∃ e', r = some e' ∧ KeyStep e e' (onBuffer e.lines e.buffer ev) := by
  cases ev with
  | mouse m => cases hkey
  | other => cases hkey
  | arrowUp => obtain rfl := Option.some.inj hkey; exact arrowUp_step h
  | arrowDown => obtain rfl := Option.some.inj hkey; exact arrowDown_step h
  | arrowLeft => obtain rfl := Option.some.inj hkey; exact arrowLeft_step h
  | arrowRight => obtain rfl := Option.some.inj hkey; exact arrowRight_step h
  | homeKey => obtain rfl := Option.some.inj hkey; exact homeKey_step h
  | endKey => obtain rfl := Option.some.inj hkey; exact endKey_step h
  | pageUp => obtain rfl := Option.some.inj hkey; exact pageUp_step h
  | pageDown => obtain rfl := Option.some.inj hkey; exact pageDown_step h
  | returnKey => obtain rfl := Option.some.inj hkey; exact returnKey_step h
  | backspace => obtain rfl := Option.some.inj hkey; exact backspace_step h
  | delete => obtain rfl := Option.some.inj hkey; exact delete_step h
  | tab => obtain rfl := Option.some.inj hkey; exact tab_step h
  | character text => obtain rfl := Option.some.inj hkey; exact character_step h text

/-- The events of the keyboard. -/
def isKey : Event → Bool
  | .mouse _ => false
  | _ => true

def isNavigation : Event → Bool
  | .arrowUp | .arrowDown | .arrowLeft | .arrowRight => true
  | .homeKey | .endKey | .pageUp | .pageDown => true
  | _ => false

theorem onBuffer_text (ls : List Bytes) (bt : Buffer UInt8) {ev : Event} (h : isNavigation ev = true) :
    (onBuffer ls bt ev).text = bt.text := by
  cases ev <;> first | rfl | cases h

theorem onEvent_unfocused {ev : Event} (hev : ∀ m, ev ≠ .mouse m) (copied : Bool) :
    e.onEvent false copied ev = some (false, e) := by
  cases ev with
  | mouse m => exact absurd rfl (hev m)
  | _ => rfl

theorem onEvent_unhandled {ev : Event} (hev : ∀ m, ev ≠ .mouse m) (h : e.onKey ev = none)
    (focused copied : Bool) : e.onEvent focused copied ev = some (false, e) := by
  cases ev with
  | mouse m => exact absurd rfl (hev m)
  | _ => cases focused <;> simp [onEvent, h]

theorem onEvent_handled {ev : Event} {result : Option Editor} (hev : ∀ m, ev ≠ .mouse m)
    (h : e.onKey ev = some result) (copied : Bool) :
    e.onEvent true copied ev = result.map fun e => (true, { e with hasSelection := false }) := by
  cases ev with
  | mouse m => exact absurd rfl (hev m)
  | _ => simp [onEvent, h]

/-- A keyboard event that is delivered while the editor has the focus. -/
theorem onEvent_step (h : e.InRange) (copied : Bool) {ev : Event} (hkey : isKey ev = true) :
    ∃ e', (e.onEvent true copied ev).map Prod.snd = some e' ∧
      KeyStep e e' (onBuffer e.lines e.buffer ev) := by
  have hev (m : Mouse) : ev ≠ .mouse m := by
    rintro rfl
    cases hkey
  cases hr : e.onKey ev with
  | none =>
    have hother : onBuffer e.lines e.buffer ev = e.buffer := by
      cases ev <;> first | rfl | cases hr
    rw [onEvent_unhandled hev hr, hother]
    exact ⟨e, rfl, .same h⟩
  | some r =>
    obtain ⟨e', rfl, hstep⟩ := onKey_step h hr
    rw [onEvent_handled hev hr]
    exact ⟨{ e' with hasSelection := false }, rfl, hstep.inRange, hstep.buffer, hstep.bytes,
      hstep.scroll⟩

/-- A sequence of events that are delivered while the editor has the focus. -/
def onEvents (e : Editor) (copied : Bool) (evs : List Event) : Option Editor :=
  evs.foldlM (fun e ev => (e.onEvent true copied ev).map Prod.snd) e

/-- Lines without line ends are the lines of their text. -/
theorem lines_eq_splitOn (h : e.InRange) (hlf : ∀ l ∈ e.lines, LF ∉ l) :
    e.lines = e.buffer.text.splitOn LF := by
  have hne : e.lines ≠ [] := List.ne_nil_of_length_pos h.lines_pos
  exact (List.splitOn_intercalate LF hlf hne).symm

theorem onEvents_step (h : e.InRange) (copied : Bool) (evs : List Event)
    (hkeys : ∀ ev ∈ evs, isKey ev = true) :
    ∃ e', e.onEvents copied evs = some e' ∧ e'.InRange ∧ ((∀ l ∈ e.lines, LF ∉ l) →
      (∀ l ∈ e'.lines, LF ∉ l) ∧
        e'.buffer = evs.foldl (fun b ev => onBuffer (b.text.splitOn LF) b ev) e.buffer) := by
  induction evs generalizing e with
  | nil => exact ⟨e, rfl, h, fun hlf => ⟨hlf, rfl⟩⟩
  | cons ev evs ih =>
    obtain ⟨hkey, hkeys⟩ := List.forall_mem_cons.mp hkeys
    obtain ⟨m, hm, hstep⟩ := onEvent_step h copied hkey
    obtain ⟨e', he', hrange, hflat⟩ := ih hstep.inRange hkeys
    refine ⟨e', ?_, hrange, ?_⟩
    · rw [onEvents, List.foldlM_cons, hm]
      exact he'
    · intro hlf
      have hbytes := hstep.bytes (fun c => c ≠ LF) (fun c _ hc => hc)
      have hm' : ∀ l ∈ m.lines, LF ∉ l := by
        intro l hl hmem
        refine hbytes ?_ l hl LF hmem rfl
        rintro l' hl' c hc rfl
        exact hlf l' hl' hc
      obtain ⟨hlf', hbuffer⟩ := hflat hm'
      refine ⟨hlf', ?_⟩
      rw [hbuffer, List.foldl_cons, hstep.buffer, ← lines_eq_splitOn h hlf]

/-- The editor is a flat text with a position. From every cursor in range, any keys are handled
without an access out of range, and each next key does to the text what the flat view says; if the
lines have no line ends in them, a whole sequence of keys is a run of the flat view. -/
theorem editor_refines_buffer (e : Editor) (h : e.InRange) (copied : Bool) (evs : List Event)
    (hkeys : ∀ ev ∈ evs, isKey ev = true) :
    ∃ e', e.onEvents copied evs = some e' ∧ e'.InRange ∧
      (∀ ev, isKey ev = true → ∃ e'', (e'.onEvent true copied ev).map Prod.snd = some e'' ∧
        e''.buffer = onBuffer e'.lines e'.buffer ev ∧
        (isNavigation ev = true → e''.buffer.text = e'.buffer.text)) ∧
      ((∀ l ∈ e.lines, LF ∉ l) → e'.lines = e'.buffer.text.splitOn LF ∧
        e'.buffer = evs.foldl (fun b ev => onBuffer (b.text.splitOn LF) b ev) e.buffer) := by
  obtain ⟨e', he', hrange, hflat⟩ := onEvents_step h copied evs hkeys
  refine ⟨e', he', hrange, ?_, ?_⟩
  · intro ev hkey
    obtain ⟨e'', he'', hstep⟩ := onEvent_step hrange copied hkey
    refine ⟨e'', he'', hstep.buffer, ?_⟩
    intro hnav
    rw [hstep.buffer, onBuffer_text _ _ hnav]
  · intro hlf
    obtain ⟨hlf', hbuffer⟩ := hflat hlf
    exact ⟨lines_eq_splitOn hrange hlf', hbuffer⟩

/-- A line is broken after its second byte, joined again and left with a tab in it. -/
def editedKeys : List Event :=
  [.arrowRight, .arrowRight, .returnKey, .backspace, .tab, .endKey, .character (str "!\r\n"), .arrowUp]

theorem editor_refines_buffer_editedKeys : ∃ e',
    (({} : Editor).setText (str "Hello")).onEvents false editedKeys = some e' ∧
      e'.lines = [str "He    llo!", []] ∧
      e'.buffer = editedKeys.foldl (fun b ev => onBuffer (b.text.splitOn LF) b ev)
        (({} : Editor).setText (str "Hello")).buffer := by
  obtain ⟨e', he', -, -, hflat⟩ := editor_refines_buffer (({} : Editor).setText (str "Hello"))
    ⟨str "Hello", by decide, by decide⟩ false editedKeys (by decide)
  have hlines : ((({} : Editor).setText (str "Hello")).onEvents false editedKeys).map
      (fun e => e.lines) = some [str "He    llo!", []] := by decide
  rw [he', Option.map_some, Option.some.injEq] at hlines
  exact ⟨e', he', hlines, (hflat (by decide)).2⟩

end TextEditor.Editor

end BurpTUI
