import BurpTUI.Tui.EditorSafety
import BurpTUI.Tui.HttpFormatter

namespace BurpTUI

open TextEditor (Box Mouse Event Editor)
open TextEditor.Editor (clamp part restOf)

/-- The component. The scroll position and its bound are natural numbers: the source takes the maximum
with 0 at each assignment. -/
structure ScrollableViewer where
  rawText : Bytes := []
  lines : List Element := []
  rawLines : List Bytes := []
  scrollY : ℕ := 0
  maxScroll : ℕ := 0
  box : Box := {}
  statusMsg : Bytes := []
  selecting : Bool := false
  hasSelection : Bool := false
  selStartRow : ℤ := -1
  selStartCol : ℤ := -1
  selEndRow : ℤ := -1
  selEndCol : ℤ := -1
  deriving DecidableEq, Repr

namespace ScrollableViewer

def updateRawLines (rawText : Bytes) : List Bytes :=
  let rawLines := getlines (rawText.filter (· ≠ CR))
  if rawLines = [] then [[]] else rawLines

def setContent (v : ScrollableViewer) (lines : List Element) (rawText : Bytes) : ScrollableViewer :=
  { v with
    lines := lines
    rawText := rawText
    rawLines := updateRawLines rawText
    scrollY := 0
    statusMsg := []
    hasSelection := false
    selecting := false }

def setRawText (v : ScrollableViewer) (rawText contentType : Bytes) : ScrollableViewer :=
  v.setContent (formatBodyLines rawText contentType) rawText

def scrollTo (v : ScrollableViewer) (y : ℤ) : ScrollableViewer :=
  { v with scrollY := clamp v.maxScroll y }

def scrollBy (v : ScrollableViewer) (delta : ℤ) : ScrollableViewer := v.scrollTo (v.scrollY + delta)

/-- `copied` is what `Clipboard::copy` returns. -/
def copyToClipboard (v : ScrollableViewer) (copied : Bool) : ScrollableViewer :=
  if v.rawText = [] then v
  else if copied then
    { v with statusMsg := str "Copied entire text (" ++ decimal v.rawText.length ++ str " B)" }
  else { v with statusMsg := str "Failed to copy" }

/-- An editor with the raw lines and the selection. The two components select with the same code. -/
def rawEditor (v : ScrollableViewer) : Editor where
  lines := v.rawLines
  hasSelection := v.hasSelection
  selStartRow := v.selStartRow
  selStartCol := v.selStartCol
  selEndRow := v.selEndRow
  selEndCol := v.selEndCol

def getSelectedText (v : ScrollableViewer) : Option Bytes := v.rawEditor.getSelectedText

def getWordAt (v : ScrollableViewer) (row col : ℕ) : Option Bytes := v.rawEditor.getWordAt row col

def copySelection (v : ScrollableViewer) (label : Bytes) : Option ScrollableViewer := do
  let sel ← v.getSelectedText
  if sel = [] then some v
  else some { v with statusMsg := label ++ decimal sel.length ++ str " B)" }

def leftReleased (v : ScrollableViewer) (targetRow targetCol : ℤ) : Option ScrollableViewer :=
  if v.selecting then
    let v := { v with selecting := false, selEndRow := targetRow, selEndCol := targetCol }
    if v.selStartRow = v.selEndRow ∧ (v.selStartCol - v.selEndCol).natAbs ≤ 1 then
      some { v with hasSelection := false }
    else v.copySelection (str "Copied (")
  else some v

def rightPressed (v : ScrollableViewer) (targetRow targetCol : ℤ) (copied : Bool) :
    Option ScrollableViewer :=
  if v.hasSelection then v.copySelection (str "Copied selection (")
  else do
    let word ← v.getWordAt targetRow.toNat targetCol.toNat
    if word = [] then some (v.copyToClipboard copied)
    else some { v with statusMsg := str "Copied word: " ++ word }

def onMouse (v : ScrollableViewer) (m : Mouse) (copied : Bool) : Option (Bool × ScrollableViewer) :=
  if v.box.contain m.x m.y then
    let relY := m.y - v.box.yMin
    let relX := m.x - v.box.xMin
    let targetRow := v.scrollY + relY
    let targetCol := max 0 relX
    if m.button = .wheelUp then some (true, v.scrollBy (-3))
    else if m.button = .wheelDown then some (true, v.scrollBy 3)
    else if m.button = .left ∧ m.motion = .pressed then
      some (true, { v with
        selStartRow := targetRow
        selStartCol := targetCol
        selEndRow := targetRow
        selEndCol := targetCol
        selecting := true
        hasSelection := true })
    else if v.selecting ∧ m.button = .left then
      some (true, { v with selEndRow := targetRow, selEndCol := targetCol })
    else if m.button = .left ∧ m.motion = .released then
      (v.leftReleased targetRow targetCol).map fun v => (true, v)
    else if m.button = .right ∧ m.motion = .pressed then
      (v.rightPressed targetRow targetCol copied).map fun v => (true, v)
    else some (false, v)
  else if v.selecting ∧ m.motion = .released then some (true, { v with selecting := false })
  else some (false, v)

/-- The keys `y`, `c` and `C`. Unlike a click they also tell of an empty selection. -/
def copyKey (v : ScrollableViewer) (copied : Bool) : Option ScrollableViewer :=
  if v.hasSelection then do
    let sel ← v.getSelectedText
    some { v with statusMsg := str "Copied selection (" ++ decimal sel.length ++ str " B)" }
  else some (v.copyToClipboard copied)

def onKey (v : ScrollableViewer) (copied : Bool) (event : Event) : Option (Bool × ScrollableViewer) :=
  if event = .arrowUp ∨ event = .character (str "k") then some (true, v.scrollBy (-1))
  else if event = .arrowDown ∨ event = .character (str "j") then some (true, v.scrollBy 1)
  else if event = .pageUp then some (true, v.scrollBy (-12))
  else if event = .pageDown then some (true, v.scrollBy 12)
  else if event = .homeKey then some (true, v.scrollTo 0)
  else if event = .endKey then some (true, v.scrollTo v.maxScroll)
  else if event = .character (str "y") ∨ event = .character (str "c") ∨ event = .character (str "C") then
    (v.copyKey copied).map fun v => (true, v)
  else some (false, v)

def onEvent (v : ScrollableViewer) (focused copied : Bool) : Event → Option (Bool × ScrollableViewer)
  | .mouse m => v.onMouse m copied
  | event => if focused then v.onKey copied event else some (false, v)

/-- A row of the view: an element as it was given, or a raw line with its selected part marked. -/
inductive ViewRow
  | element (e : Element)
  | marked (before selected after : Bytes)
  deriving DecidableEq, Repr

def renderRow (v : ScrollableViewer) (i : ℕ) : Option ViewRow := do
  let (r1, c1, r2, c2) := v.rawEditor.orderedSelection
  if v.hasSelection ∧ r1 ≤ i ∧ i ≤ r2 ∧ i < v.rawLines.length then
    let raw ← v.rawLines[i]?
    let start := if i = r1 then clamp raw.length c1 else 0
    let stop := if i = r2 then clamp raw.length c2 else raw.length
    let before ← substr raw 0 start
    let selected ← part raw start stop
    let after ← restOf raw stop
    some (.marked before selected after)
  else (v.lines[i]?).map .element

def render (v : ScrollableViewer) : Option (List ViewRow × ScrollableViewer) := do
  let h := v.box.yMax - v.box.yMin + 1
  let visibleHeight := (max 2 (h - 2)).toNat
  let v := { v with maxScroll := v.lines.length - visibleHeight }
  let v := { v with scrollY := min v.maxScroll v.scrollY }
  let rows ← (List.range' v.scrollY
    (min v.lines.length (v.scrollY + visibleHeight) - v.scrollY)).mapM v.renderRow
  some (rows, v)

/-- The calls of the component. `reflect` is the layout, which gives it any box. -/
inductive Call
  | setContent (lines : List Element) (rawText : Bytes)
  | setRawText (rawText contentType : Bytes)
  | scrollTo (y : ℤ)
  | scrollBy (delta : ℤ)
  | render
  | onEvent (focused copied : Bool) (ev : Event)
  | reflect (box : Box)

/-- There is no result when an access is out of range. -/
def call (v : ScrollableViewer) : Call → Option ScrollableViewer
  | .setContent lines rawText => some (v.setContent lines rawText)
  | .setRawText rawText contentType => some (v.setRawText rawText contentType)
  | .scrollTo y => some (v.scrollTo y)
  | .scrollBy delta => some (v.scrollBy delta)
  | .render => v.render.map Prod.snd
  | .onEvent focused copied ev => (v.onEvent focused copied ev).map Prod.snd
  | .reflect box => some { v with box := box }

def system : StepSystem.System ScrollableViewer Call where
  init v := v = {}
  step := call

/-! No access is out of range. -/

variable (v : ScrollableViewer)

theorem isSome_getSelectedText : v.getSelectedText.isSome := v.rawEditor.isSome_getSelectedText

theorem isSome_copySelection (label : Bytes) : (v.copySelection label).isSome := by
  apply isSome_bind v.isSome_getSelectedText
  intro sel _
  split <;> rfl

theorem isSome_onMouse (m : Mouse) (copied : Bool) : (v.onMouse m copied).isSome := by
  have hreleased (row col : ℤ) : (v.leftReleased row col).isSome := by
    unfold leftReleased
    split
    · dsimp only
      split
      · rfl
      · apply isSome_copySelection
    · rfl
  have hright (row col : ℤ) : (v.rightPressed row col copied).isSome := by
    unfold rightPressed
    split
    · apply isSome_copySelection
    · apply isSome_bind (v.rawEditor.isSome_getWordAt _ _)
      intro word _
      split <;> rfl
  unfold onMouse
  split
  · dsimp only
    repeat' split
    all_goals first | rfl | (rw [Option.isSome_map]; first | exact hreleased _ _ | exact hright _ _)
  · split <;> rfl

theorem isSome_onEvent (focused copied : Bool) (ev : Event) : (v.onEvent focused copied ev).isSome := by
  have hcopy : (v.copyKey copied).isSome := by
    unfold copyKey
    split
    · apply isSome_bind v.isSome_getSelectedText
      intro sel _
      rfl
    · rfl
  have hkey : (v.onKey copied ev).isSome := by
    unfold onKey
    repeat' split
    all_goals first | rfl | (rw [Option.isSome_map]; exact hcopy)
  unfold onEvent
  split
  · apply isSome_onMouse
  · split
    · exact hkey
    · rfl

theorem isSome_renderRow {i : ℕ} (hi : i < v.lines.length) : (v.renderRow i).isSome := by
  unfold renderRow
  rcases v.rawEditor.orderedSelection with ⟨r1, c1, r2, c2⟩
  dsimp only
  split
  · rename_i hmarked
    apply isSome_bind
    · rw [List.getElem?_eq_getElem hmarked.2.2.2]
      rfl
    · intro raw _
      apply isSome_bind (TextEditor.Editor.isSome_substr (Nat.zero_le _))
      intro before _
      apply isSome_bind (TextEditor.Editor.isSome_part (TextEditor.Editor.stop_le raw c2))
      intro selected _
      apply isSome_bind (TextEditor.Editor.isSome_restOf raw _)
      intro after _
      rfl
  · rw [Option.isSome_map, List.getElem?_eq_getElem hi]
    rfl

theorem isSome_call (c : Call) : (v.call c).isSome := by
  cases c with
  | render =>
    rw [call, Option.isSome_map]
    apply isSome_bind
    · apply isSome_mapM
      intro i hi
      rw [List.mem_range'_1] at hi
      apply isSome_renderRow
      dsimp only at hi ⊢
      omega
    · intro rows _
      rfl
  | onEvent focused copied ev =>
    rw [call, Option.isSome_map]
    apply isSome_onEvent
  | _ => rfl

/-! What the mouse does. -/

variable {v} {v' : ScrollableViewer}

/-- One case for each branch of the source, with what the branches before it have ruled out. -/
inductive MouseStep (v : ScrollableViewer) (m : Mouse) : ScrollableViewer → Prop
  | wheel (delta : ℤ) : v.box.contain m.x m.y → m.button ≠ .left → MouseStep v m (v.scrollBy delta)
  | press : v.box.contain m.x m.y → m.button = .left → m.motion = .pressed →
      MouseStep v m { v with
        selStartRow := v.scrollY + (m.y - v.box.yMin)
        selStartCol := max 0 (m.x - v.box.xMin)
        selEndRow := v.scrollY + (m.y - v.box.yMin)
        selEndCol := max 0 (m.x - v.box.xMin)
        selecting := true
        hasSelection := true }
  | drag : v.box.contain m.x m.y → v.selecting → m.button = .left → m.motion ≠ .pressed →
      MouseStep v m { v with
        selEndRow := v.scrollY + (m.y - v.box.yMin)
        selEndCol := max 0 (m.x - v.box.xMin) }
  | told (status : Bytes) : v.box.contain m.x m.y → m.button = .right → m.motion = .pressed →
      MouseStep v m { v with statusMsg := status }
  | idle : v.box.contain m.x m.y → (m.button = .left → m.motion ≠ .pressed ∧ v.selecting = false) →
      MouseStep v m v
  | leave : ¬ v.box.contain m.x m.y → v.selecting → m.motion = .released →
      MouseStep v m { v with selecting := false }
  | outside : ¬ v.box.contain m.x m.y → ¬ (v.selecting ∧ m.motion = .released) → MouseStep v m v

theorem copyToClipboard_told (v : ScrollableViewer) (copied : Bool) :
    ∃ status, v.copyToClipboard copied = { v with statusMsg := status } := by
  unfold copyToClipboard
  split
  · exact ⟨v.statusMsg, rfl⟩
  · split
    · exact ⟨_, rfl⟩
    · exact ⟨_, rfl⟩

theorem rightPressed_told {row col : ℤ} {copied : Bool} (h : v.rightPressed row col copied = some v') :
    ∃ status, v' = { v with statusMsg := status } := by
  unfold rightPressed at h
  split at h
  · obtain ⟨sel, -, h⟩ := Option.bind_eq_some_iff.mp h
    split at h
    · exact ⟨v.statusMsg, (Option.some.inj h).symm⟩
    · exact ⟨_, (Option.some.inj h).symm⟩
  · obtain ⟨word, -, h⟩ := Option.bind_eq_some_iff.mp h
    split at h
    · obtain rfl := Option.some.inj h
      exact copyToClipboard_told v copied
    · exact ⟨_, (Option.some.inj h).symm⟩

theorem onMouse_step {m : Mouse} {copied : Bool} {r : Bool × ScrollableViewer}
    (h : v.onMouse m copied = some r) : MouseStep v m r.2 := by
  unfold onMouse at h
  split at h
  · rename_i hin
    dsimp only at h
    split at h
    · rename_i hup
      obtain rfl := Option.some.inj h
      exact .wheel _ hin (by rw [hup]; decide)
    · split at h
      · rename_i hdown
        obtain rfl := Option.some.inj h
        exact .wheel _ hin (by rw [hdown]; decide)
      · split at h
        · rename_i hpress
          obtain rfl := Option.some.inj h
          exact .press hin hpress.1 hpress.2
        · rename_i hpress
          have hmotion (hleft : m.button = .left) : m.motion ≠ .pressed := fun hp => hpress ⟨hleft, hp⟩
          split at h
          · rename_i hdrag
            obtain rfl := Option.some.inj h
            exact .drag hin hdrag.1 hdrag.2 (hmotion hdrag.2)
          · rename_i hdrag
            have hidle (hleft : m.button = .left) : m.motion ≠ .pressed ∧ v.selecting = false :=
              ⟨hmotion hleft, Bool.eq_false_iff.mpr fun hs => hdrag ⟨hs, hleft⟩⟩
            split at h
            · rename_i hreleased
              obtain ⟨v', hv', rfl⟩ := Option.map_eq_some_iff.mp h
              rw [leftReleased, (hidle hreleased.1).2, if_neg Bool.false_ne_true] at hv'
              obtain rfl := Option.some.inj hv'
              exact .idle hin hidle
            · split at h
              · rename_i hright
                obtain ⟨v', hv', rfl⟩ := Option.map_eq_some_iff.mp h
                obtain ⟨status, rfl⟩ := rightPressed_told hv'
                exact .told status hin hright.1 hright.2
              · obtain rfl := Option.some.inj h
                exact .idle hin hidle
  · rename_i hout
    split at h
    · rename_i hleave
      obtain rfl := Option.some.inj h
      exact .leave hout hleave.1 hleave.2
    · rename_i hstay
      obtain rfl := Option.some.inj h
      exact .outside hout hstay

/-- The keys scroll and tell. -/
theorem onKey_selecting {copied : Bool} {ev : Event} {r : Bool × ScrollableViewer}
    (h : v.onKey copied ev = some r) : r.2.selecting = v.selecting := by
  have hcopy {v' : ScrollableViewer} (h : v.copyKey copied = some v') : v'.selecting = v.selecting := by
    unfold copyKey at h
    split at h
    · obtain ⟨sel, -, h⟩ := Option.bind_eq_some_iff.mp h
      obtain rfl := Option.some.inj h
      rfl
    · obtain rfl := Option.some.inj h
      obtain ⟨status, hstatus⟩ := copyToClipboard_told v copied
      rw [hstatus]
  unfold onKey at h
  repeat' split at h
  all_goals first
    | (obtain rfl := Option.some.inj h; rfl)
    | (obtain ⟨v', hv', rfl⟩ := Option.map_eq_some_iff.mp h; exact hcopy hv')

end ScrollableViewer

end BurpTUI
