import BurpTUI.Tui.BodyLines
import BurpTUI.Tui.ScrollableViewer
import BurpTUI.Tui.SelectedText

namespace BurpTUI

open TextEditor (Editor)
open TextEditor.Editor (clamp)

section Getlines

end Getlines

/-- The text without `SanitizeText` and its limit. -/
def Segment.source : Segment → Bytes
  | .plain s => s
  | .sanitized s _ => s

/-- The line that a separator draws over a number of cells. -/
def rule (width : ℕ) : Bytes := (List.replicate width [0xE2, 0x94, 0x80]).flatten

/-- What a row shows up to `SanitizeText`, which drops carriage returns. -/
def Element.source (width : ℕ) : Element → Bytes
  | .row texts => (texts.flatMap Segment.source).filter (· ≠ CR)
  | .separator => rule width

namespace ScrollableViewer

/-- A selection from the start of a row to a column of another. -/
def selectRows (v : ScrollableViewer) (r1 r2 c : ℕ) : ScrollableViewer :=
  { v with
    hasSelection := true
    selStartRow := r1
    selStartCol := 0
    selEndRow := r2
    selEndCol := c }

/-- With this content, in rows of this many cells, a selection of rows to the end of the last gives the
text shown in them. -/
def SelectsShown (v : ScrollableViewer) (width : ℕ) (lines : List Element) (raw : Bytes) : Prop :=
  ∀ r1 r2 c, r1 ≤ r2 → r2 < lines.length → (∀ l ∈ updateRawLines raw, l.length ≤ c) →
    ((v.setContent lines raw).selectRows r1 r2 c).getSelectedText =
      some (CRLF.intercalate (((lines.drop r1).take (r2 + 1 - r1)).map (Element.source width)))

theorem updateRawLines_ne_nil (raw : Bytes) : updateRawLines raw ≠ [] := by
  unfold updateRawLines
  dsimp only
  split
  · simp
  · assumption

/-- The raw line that a row of the view stands for. -/
def rawRow (raw : Bytes) (r : ℕ) : Bytes :=
  (updateRawLines raw).getD (min ((updateRawLines raw).length - 1) r) []

theorem getElem?_rawRow (raw : Bytes) (r : ℕ) :
    (updateRawLines raw)[min ((updateRawLines raw).length - 1) r]? = some (rawRow raw r) := by
  have hpos := List.length_pos_of_ne_nil (updateRawLines_ne_nil raw)
  have hline := List.getElem?_eq_getElem (l := updateRawLines raw)
    (i := min ((updateRawLines raw).length - 1) r) (by omega)
  rw [rawRow, Editor.getD_of_line hline, hline]

theorem rawRow_mem (raw : Bytes) (r : ℕ) : rawRow raw r ∈ updateRawLines raw :=
  List.mem_of_getElem? (getElem?_rawRow raw r)

variable {v : ScrollableViewer} {width : ℕ} {lines : List Element} {raw : Bytes}

theorem selectRows_single (v : ScrollableViewer) (lines : List Element) (raw : Bytes) (r : ℕ) {c : ℕ}
    (hc : ∀ l ∈ updateRawLines raw, l.length ≤ c) :
    ((v.setContent lines raw).selectRows r r c).getSelectedText = some (rawRow raw r) := by
  have hordered : ((v.setContent lines raw).selectRows r r c).rawEditor.orderedSelection =
      ((r : ℤ), (0 : ℤ), (r : ℤ), (c : ℤ)) := by
    apply if_neg
    rintro (hlt | hlt)
    · exact Int.lt_irrefl r hlt
    · have hneg : (c : ℤ) < 0 := hlt.2
      omega
  have hlines : ((v.setContent lines raw).selectRows r r c).rawEditor.lines = updateRawLines raw := rfl
  have hrow : clamp ((updateRawLines raw).length - 1) (r : ℤ) = min ((updateRawLines raw).length - 1) r := rfl
  have hline := getElem?_rawRow raw r
  have hstop : clamp (rawRow raw r).length (c : ℤ) = (rawRow raw r).length :=
    Nat.min_eq_left (hc _ (rawRow_mem raw r))
  rw [getSelectedText, Editor.getSelectedText, if_neg, hordered]
  · dsimp only
    rw [hlines, hrow, Nat.add_sub_cancel_left, List.range'_one, List.mapM_cons, List.mapM_nil]
    simp only [Editor.selectedRow, hlines, hline, Option.bind_eq_bind, Option.bind_some, if_true, hstop,
      Int.lt_irrefl]
    have hstart : clamp (rawRow raw r).length 0 = 0 := by simp [clamp]
    rw [hstart, Editor.part_eq _ (Nat.le_refl _), List.take_length]
    simp
  · rintro (hoff | hnil)
    · cases hoff
    · exact updateRawLines_ne_nil raw hnil

/-- Row by row, what is shown is what is kept. -/
theorem SelectsShown.row (h : v.SelectsShown width lines raw) {r : ℕ} {el : Element}
    (hr : lines[r]? = some el) : el.source width = rawRow raw r := by
  have hlt := (List.getElem?_eq_some_iff.mp hr).1
  have hc (l : Bytes) (hl : l ∈ updateRawLines raw) :
      l.length ≤ (updateRawLines raw).flatten.length := (List.sublist_flatten_of_mem hl).length_le
  have hsel := h r r _ (Nat.le_refl r) hlt hc
  have hone : (lines.drop r).take (r + 1 - r) = [el] := by
    rw [Nat.add_sub_cancel_left, List.drop_eq_getElem_cons hlt, List.take_one]
    simpa using hr
  rw [selectRows_single v lines raw r hc, hone] at hsel
  simpa using (Option.some.inj hsel).symm

end ScrollableViewer

end BurpTUI
