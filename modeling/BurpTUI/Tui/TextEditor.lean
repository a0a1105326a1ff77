import BurpTUI.Http.Message

namespace BurpTUI

structure TextEditor where
  lines : List Bytes := [[]]
  cursorRow : ℕ := 0
  cursorCol : ℕ := 0
  scrollY : ℕ := 0
  statusMsg : Bytes := []
  selecting : Bool := false
  hasSelection : Bool := false
  deriving DecidableEq, Repr

namespace TextEditor

def setText (e : TextEditor) (text : Bytes) : TextEditor :=
  { e with
    lines := (text.filter (· ≠ CR)).splitOn LF
    cursorRow := 0
    cursorCol := 0
    scrollY := 0
    statusMsg := []
    hasSelection := false
    selecting := false }

def getText (e : TextEditor) : Bytes := CRLF.intercalate e.lines

end TextEditor

/-! `std::string` and `std::vector` accesses, with no result when the index is out of range. -/

def substr (s : Bytes) (pos n : ℕ) : Option Bytes :=
  if pos ≤ s.length then some ((s.drop pos).take n) else none

def substrFrom (s : Bytes) (pos : ℕ) : Option Bytes :=
  if pos ≤ s.length then some (s.drop pos) else none

def insertAt (s : Bytes) (pos : ℕ) (t : Bytes) : Option Bytes :=
  if pos ≤ s.length then some (s.take pos ++ t ++ s.drop pos) else none

/-- `erase(pos, 1)`. -/
def eraseAt (s : Bytes) (pos : ℕ) : Option Bytes :=
  if pos ≤ s.length then some (s.eraseIdx pos) else none

def insertLine (lines : List Bytes) (i : ℕ) (line : Bytes) : Option (List Bytes) :=
  if i ≤ lines.length then some (lines.insertIdx i line) else none

def setLine (lines : List Bytes) (i : ℕ) (line : Bytes) : Option (List Bytes) :=
  if i < lines.length then some (lines.set i line) else none

def eraseLine (lines : List Bytes) (i : ℕ) : Option (List Bytes) :=
  if i < lines.length then some (lines.eraseIdx i) else none

namespace TextEditor

structure Box where
  xMin : ℤ := 0
  xMax : ℤ := 0
  yMin : ℤ := 0
  yMax : ℤ := 0
  deriving DecidableEq, Repr

def Box.contain (b : Box) (x y : ℤ) : Bool := b.xMin ≤ x && x ≤ b.xMax && b.yMin ≤ y && y ≤ b.yMax

inductive Button
  | left
  | middle
  | right
  | none
  | wheelUp
  | wheelDown
  deriving DecidableEq, Repr

inductive Motion
  | released
  | pressed
  | moved
  deriving DecidableEq, Repr

structure Mouse where
  x : ℤ
  y : ℤ
  button : Button
  motion : Motion
  deriving DecidableEq, Repr

/-- The events that `OnEvent` tells apart. A paste arrives as a character event. -/
inductive Event
  | mouse (m : Mouse)
  | arrowUp
  | arrowDown
  | arrowLeft
  | arrowRight
  | homeKey
  | endKey
  | pageUp
  | pageDown
  | returnKey
  | backspace
  | delete
  | tab
  | character (str : Bytes)
  | other
  deriving DecidableEq, Repr

/-- The whole component. Cursor and scroll position are natural numbers: the source subtracts from
them behind a guard or under `std::max(0, ..)` only. -/
structure Editor extends TextEditor where
  box : Box := {}
  selStartRow : ℤ := -1
  selStartCol : ℤ := -1
  selEndRow : ℤ := -1
  selEndCol : ℤ := -1
  deriving DecidableEq, Repr

namespace Editor

def setText (e : Editor) (text : Bytes) : Editor := { e with toTextEditor := e.toTextEditor.setText text }

def clear (e : Editor) : Editor :=
  { e with
    lines := [[]]
    cursorRow := 0
    cursorCol := 0
    scrollY := 0
    statusMsg := str "Cleared"
    hasSelection := false
    selecting := false }

/-- `copied` is what `Clipboard::copy` returns. -/
def copyToClipboard (e : Editor) (copied : Bool) : Editor :=
  let text := e.getText
  if text = [] then e
  else if copied then
    { e with statusMsg := str "Copied entire text (" ++ decimal text.length ++ str " B)" }
  else { e with statusMsg := str "Failed to copy" }

/-- The selection with its ends in order: first row, first column, last row, last column. -/
def orderedSelection (e : Editor) : ℤ × ℤ × ℤ × ℤ :=
  if e.selEndRow < e.selStartRow ∨ (e.selStartRow = e.selEndRow ∧ e.selEndCol < e.selStartCol) then
    (e.selEndRow, e.selEndCol, e.selStartRow, e.selStartCol)
  else (e.selStartRow, e.selStartCol, e.selEndRow, e.selEndCol)

/-- `std::max(0, std::min(bound, i))`. -/
def clamp (bound : ℕ) (i : ℤ) : ℕ := min bound i.toNat

/-- The part of a line from `start` to `stop`, or nothing. -/
def part (line : Bytes) (start stop : ℕ) : Option Bytes :=
  if start < stop then substr line start (stop - start) else some []

def selectedRow (e : Editor) (r1 c1 r2 c2 : ℤ) (r : ℕ) : Option Bytes := do
  let line ← e.lines[r]?
  let start := if r = r1 then clamp line.length c1 else 0
  let stop := if r = r2 then clamp line.length c2 else line.length
  let selected ← part line start stop
  some (selected ++ if r < r2 then CRLF else [])

def getSelectedText (e : Editor) : Option Bytes :=
  if e.hasSelection = false ∨ e.lines = [] then some []
  else
    let (r1, c1, r2, c2) := e.orderedSelection
    let r1 := clamp (e.lines.length - 1) r1
    let r2 := clamp (e.lines.length - 1) r2
    ((List.range' r1 (r2 + 1 - r1)).mapM (e.selectedRow r1 c1 r2 c2)).map List.flatten

def isAlnum (c : UInt8) : Bool := isDigit c || (65 ≤ c && c ≤ 90) || (97 ≤ c && c ≤ 122)

def isWordChar (c : UInt8) : Bool := isAlnum c || (str "_-./:=&?").contains c

/-- `while (start > 0 && isWordChar(line[start - 1])) start--`. -/
def wordStart (text : Bytes) : ℕ → Option ℕ
  | 0 => some 0
  | start + 1 => do
    let c ← text[start]?
    if isWordChar c then wordStart text start else some (start + 1)

def getWordAt (e : Editor) (row col : ℕ) : Option Bytes :=
  if e.lines.length ≤ row then some []
  else do
    let text ← e.lines[row]?
    if text.length ≤ col then some []
    else
      let c ← text[col]?
      if isWordChar c then
        let start ← wordStart text col
        let stop := col + ((text.drop col).takeWhile isWordChar).length
        substr text start (stop - start)
      else some []

def ensureCursorVisible (e : Editor) (visibleHeight : ℕ) : Editor :=
  if visibleHeight = 0 then e
  else
    let scroll :=
      if e.cursorRow < e.scrollY then e.cursorRow
      else if e.scrollY + visibleHeight ≤ e.cursorRow then e.cursorRow - visibleHeight + 1
      else e.scrollY
    { e with scrollY := min (e.lines.length - visibleHeight) scroll }

/-- The line break of Return and of `insertString`. -/
def splitLine (e : Editor) : Option Editor := do
  let cur ← e.lines[e.cursorRow]?
  let left ← substr cur 0 e.cursorCol
  let right ← substrFrom cur e.cursorCol
  let lines ← setLine e.lines e.cursorRow left
  let lines ← insertLine lines (e.cursorRow + 1) right
  some { e with lines := lines, cursorRow := e.cursorRow + 1, cursorCol := 0 }

/-- Text inside the line of the cursor. -/
def insertInLine (e : Editor) (text : Bytes) : Option Editor := do
  let line ← e.lines[e.cursorRow]?
  let line ← insertAt line e.cursorCol text
  let lines ← setLine e.lines e.cursorRow line
  some { e with lines := lines, cursorCol := e.cursorCol + text.length }

def insertChar (e : Editor) (c : UInt8) : Option Editor :=
  if c = CR then some e
  else if c = LF then e.splitLine
  else e.insertInLine [c]

def insertString (e : Editor) (text : Bytes) : Option Editor := text.foldlM insertChar e

/-- The visible height as `OnEvent` computes it. -/
def visibleHeight (e : Editor) : ℕ := (max 2 (e.box.yMax - e.box.yMin - 2)).toNat

/-- The cursor moves to a row, at the old column if the row is long enough. -/
def toRow (e : Editor) (row : ℕ) : Option Editor := do
  let line ← e.lines[row]?
  some ({ e with cursorRow := row, cursorCol := min e.cursorCol line.length }.ensureCursorVisible
    e.visibleHeight)

def arrowUp (e : Editor) : Option Editor :=
  if 0 < e.cursorRow then e.toRow (e.cursorRow - 1) else some e

def arrowDown (e : Editor) : Option Editor :=
  if e.cursorRow + 1 < e.lines.length then e.toRow (e.cursorRow + 1) else some e

def arrowLeft (e : Editor) : Option Editor :=
  if 0 < e.cursorCol then some { e with cursorCol := e.cursorCol - 1 }
  else if 0 < e.cursorRow then do
    let line ← e.lines[e.cursorRow - 1]?
    some ({ e with cursorRow := e.cursorRow - 1, cursorCol := line.length }.ensureCursorVisible
      e.visibleHeight)
  else some e

def arrowRight (e : Editor) : Option Editor := do
  let line ← e.lines[e.cursorRow]?
  if e.cursorCol < line.length then some { e with cursorCol := e.cursorCol + 1 }
  else if e.cursorRow + 1 < e.lines.length then
    some ({ e with cursorRow := e.cursorRow + 1, cursorCol := 0 }.ensureCursorVisible
      e.visibleHeight)
  else some e

def homeKey (e : Editor) : Option Editor := some { e with cursorCol := 0 }

def endKey (e : Editor) : Option Editor := do
  let line ← e.lines[e.cursorRow]?
  some { e with cursorCol := line.length }

def pageUp (e : Editor) : Option Editor := e.toRow (e.cursorRow - 10)

def pageDown (e : Editor) : Option Editor := e.toRow (min (e.lines.length - 1) (e.cursorRow + 10))

def returnKey (e : Editor) : Option Editor :=
  e.splitLine.map fun e' => e'.ensureCursorVisible e.visibleHeight

def backspace (e : Editor) : Option Editor :=
  if 0 < e.cursorCol then do
    let line ← e.lines[e.cursorRow]?
    let line ← eraseAt line (e.cursorCol - 1)
    let lines ← setLine e.lines e.cursorRow line
    some { e with lines := lines, cursorCol := e.cursorCol - 1 }
  else if 0 < e.cursorRow then do
    let prev ← e.lines[e.cursorRow - 1]?
    let cur ← e.lines[e.cursorRow]?
    let lines ← setLine e.lines (e.cursorRow - 1) (prev ++ cur)
    let lines ← eraseLine lines e.cursorRow
    some ({ e with lines := lines, cursorRow := e.cursorRow - 1, cursorCol := prev.length
      }.ensureCursorVisible e.visibleHeight)
  else some e

def delete (e : Editor) : Option Editor := do
  let line ← e.lines[e.cursorRow]?
  if e.cursorCol < line.length then
    let line ← eraseAt line e.cursorCol
    let lines ← setLine e.lines e.cursorRow line
    some { e with lines := lines }
  else if e.cursorRow + 1 < e.lines.length then
    let next ← e.lines[e.cursorRow + 1]?
    let lines ← setLine e.lines e.cursorRow (line ++ next)
    let lines ← eraseLine lines (e.cursorRow + 1)
    some ({ e with lines := lines }.ensureCursorVisible e.visibleHeight)
  else some e

def tab (e : Editor) : Option Editor := e.insertInLine (str "    ")

def character (e : Editor) (text : Bytes) : Option Editor :=
  (e.insertString text).map fun e' => e'.ensureCursorVisible e.visibleHeight

/-- What a key does before the selection is dropped; there is no key for the other events. -/
def onKey (e : Editor) : Event → Option (Option Editor)
  | .arrowUp => some e.arrowUp
  | .arrowDown => some e.arrowDown
  | .arrowLeft => some e.arrowLeft
  | .arrowRight => some e.arrowRight
  | .homeKey => some e.homeKey
  | .endKey => some e.endKey
  | .pageUp => some e.pageUp
  | .pageDown => some e.pageDown
  | .returnKey => some e.returnKey
  | .backspace => some e.backspace
  | .delete => some e.delete
  | .tab => some e.tab
  | .character text => some (e.character text)
  | .mouse _ | .other => none

def gutterWidth : ℤ := 6

/-- The selection is copied if it is not empty. -/
def copySelection (e : Editor) (label : Bytes) : Option Editor := do
  let sel ← e.getSelectedText
  if sel = [] then some e
  else some { e with statusMsg := label ++ decimal sel.length ++ str " B)" }

def leftReleased (e : Editor) (targetRow targetCol : ℕ) : Option Editor :=
  if e.selecting then
    let e := { e with selecting := false, selEndRow := targetRow, selEndCol := targetCol }
    if e.selStartRow = e.selEndRow ∧ (e.selStartCol - e.selEndCol).natAbs ≤ 1 then
      some { e with hasSelection := false }
    else e.copySelection (str "Copied (")
  else some e

def rightPressed (e : Editor) (targetRow targetCol : ℕ) (copied : Bool) : Option Editor :=
  if e.hasSelection then e.copySelection (str "Copied selection (")
  else do
    let word ← e.getWordAt targetRow targetCol
    if word = [] then some (e.copyToClipboard copied)
    else some { e with statusMsg := str "Copied word: " ++ word }

def onMouse (e : Editor) (m : Mouse) (copied : Bool) : Option (Bool × Editor) :=
  if e.box.contain m.x m.y then do
    let relY := m.y - e.box.yMin - 1
    let relX := m.x - e.box.xMin - gutterWidth
    let targetRow := clamp (e.lines.length - 1) (e.scrollY + max 0 relY)
    let line ← e.lines[targetRow]?
    let targetCol := clamp line.length (max 0 relX)
    if m.button = .wheelUp then some (true, { e with scrollY := e.scrollY - 3 })
    else if m.button = .wheelDown then
      let maxScroll := e.lines.length - e.visibleHeight
      some (true, { e with scrollY := min maxScroll (e.scrollY + 3) })
    else if m.button = .left ∧ m.motion = .pressed then
      some (true, { e with
        cursorRow := targetRow
        cursorCol := targetCol
        selStartRow := targetRow
        selStartCol := targetCol
        selEndRow := targetRow
        selEndCol := targetCol
        selecting := true
        hasSelection := true })
    else if e.selecting ∧ m.button = .left then
      some (true, { e with
        cursorRow := targetRow
        cursorCol := targetCol
        selEndRow := targetRow
        selEndCol := targetCol })
    else if m.button = .left ∧ m.motion = .released then
      (e.leftReleased targetRow targetCol).map fun e => (true, e)
    else if m.button = .right ∧ m.motion = .pressed then
      (e.rightPressed targetRow targetCol copied).map fun e => (true, e)
    else some (false, e)
  else if e.selecting ∧ m.motion = .released then some (true, { e with selecting := false })
  else some (false, e)

/-- `focused` is what `Focused()` returns. There is no result when an access is out of range. -/
def onEvent (e : Editor) (focused copied : Bool) : Event → Option (Bool × Editor)
  | .mouse m => e.onMouse m copied
  | event =>
    if focused then
      match e.onKey event with
      | none => some (false, e)
      | some result => result.map fun e => (true, { e with hasSelection := false })
    else some (false, e)

def restOf (line : Bytes) (pos : ℕ) : Option Bytes :=
  if pos < line.length then substrFrom line pos else some []

/-- One row of the view: what stands before, in and after the marked part. -/
def renderRow (e : Editor) (focused : Bool) (i : ℕ) : Option (Bytes × Bytes × Bytes) := do
  let text ← e.lines[i]?
  let (r1, c1, r2, c2) := e.orderedSelection
  if e.hasSelection ∧ r1 ≤ i ∧ i ≤ r2 then
    let start := if i = r1 then clamp text.length c1 else 0
    let stop := if i = r2 then clamp text.length c2 else text.length
    let before ← substr text 0 start
    let selected ← part text start stop
    let after ← restOf text stop
    some (before, selected, after)
  else if focused ∧ i = e.cursorRow then
    let before ← (if e.cursorCol ≤ text.length then substr text 0 e.cursorCol else some text)
    let cursorCh ← (if e.cursorCol < text.length then (text[e.cursorCol]?).map fun c => [c]
      else some (str " "))
    let after ← restOf text (e.cursorCol + 1)
    some (before, cursorCh, after)
  else some (text, [], [])

def render (e : Editor) (focused : Bool) : Option (List (Bytes × Bytes × Bytes) × Editor) := do
  let h := e.box.yMax - e.box.yMin + 1
  let visibleHeight := (max 2 (h - 2)).toNat
  let e := e.ensureCursorVisible visibleHeight
  let rows ← (List.range' e.scrollY
    (min e.lines.length (e.scrollY + visibleHeight) - e.scrollY)).mapM (e.renderRow focused)
  some (rows, e)

end Editor

end TextEditor

end BurpTUI
