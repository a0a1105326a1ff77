import BurpTUI.Http.RawParse
import BurpTUI.Tui.EditorSafety
import BurpTUI.Tui.HeldRequest

namespace BurpTUI

/-- `std::string::find` of one character from `pos` on. -/
def findFrom (s : Bytes) (c : UInt8) (pos : ℕ) : Option ℕ :=
  (Search.cut [c] (s.drop pos)).map fun p => pos + p.1.length

theorem findFrom_eq_none_iff {s : Bytes} {c : UInt8} {pos : ℕ} :
    findFrom s c pos = none ↔ c ∉ s.drop pos := by
  rw [findFrom, Option.map_eq_none_iff, Search.cut_singleton_eq_none_iff]

namespace TextEditor

/-- The loop of `SetText` from `start` on, with the lines that it has pushed before. -/
def splitLoop (clean : Bytes) (lines : List Bytes) (start : ℕ) : List Bytes :=
  if _hstart : start < clean.length then
    match _hstop : findFrom clean LF start with
    | none => lines ++ [clean.drop start]
    | some stop =>
      let lines := lines ++ [(clean.drop start).take (stop - start)]
      -- a line end at the end of the text is followed by an empty line
      if stop + 1 = clean.length then lines ++ [[]] else splitLoop clean lines (stop + 1)
  else lines
termination_by clean.length - start
decreasing_by
  obtain ⟨p, -, rfl⟩ := Option.map_eq_some_iff.mp _hstop
  omega

/-- The lines of `SetText`. -/
def splitText (text : Bytes) : List Bytes :=
  let lines := splitLoop (text.filter (· ≠ CR)) [] 0
  if lines = [] then [[]] else lines

theorem splitLoop_last {clean : Bytes} (lines : List Bytes) {start : ℕ} (h : start < clean.length)
    (hnone : LF ∉ clean.drop start) : splitLoop clean lines start = lines ++ [clean.drop start] := by
  rw [splitLoop, dif_pos h]
  split
  · rfl
  · rename_i hstop
    rw [findFrom_eq_none_iff.mpr hnone] at hstop
    cases hstop

theorem splitLoop_line {clean a b : Bytes} (lines : List Bytes) {start : ℕ} (ha : LF ∉ a)
    (hrest : clean.drop start = a ++ LF :: b) : splitLoop clean lines start =
      if b = [] then lines ++ [a] ++ [[]] else splitLoop clean (lines ++ [a]) (start + a.length + 1) := by
  have hlen := congrArg List.length hrest
  simp only [List.length_drop, List.length_append, List.length_cons] at hlen
  rw [splitLoop, dif_pos (by omega)]
  split
  · rename_i hnone
    rw [findFrom_eq_none_iff, hrest] at hnone
    exact absurd (List.mem_append_right a List.mem_cons_self) hnone
  · rename_i stop hstop
    have hfind : findFrom clean LF start = some (start + a.length) := by
      rw [findFrom, hrest, Search.cut_singleton LF a b ha]
      rfl
    obtain rfl := Option.some.inj (hstop.symm.trans hfind)
    have hline : (clean.drop start).take (start + a.length - start) = a := by
      rw [hrest, Nat.add_sub_cancel_left, List.take_left]
    have hend : start + a.length + 1 = clean.length ↔ b = [] := by
      rw [← List.length_eq_zero_iff]
      omega
    simp only [hline, hend]

/-- The exits of the loop together give the parts between the line ends. -/
theorem splitLoop_eq (clean : Bytes) (lines : List Bytes) (start : ℕ) (h : start < clean.length) :
    splitLoop clean lines start = lines ++ (clean.drop start).splitOn LF := by
  induction hn : clean.length - start using Nat.strong_induction_on generalizing lines start with
  | h n ih =>
    by_cases hmem : LF ∈ clean.drop start
    · obtain ⟨a, b, hrest, ha⟩ := List.eq_append_cons_of_mem hmem
      rw [splitLoop_line lines ha hrest, hrest, List.splitOn_append_cons_self_of_not_mem ha]
      have hdrop : clean.drop (start + a.length + 1) = b := by
        rw [Nat.add_assoc, ← List.drop_drop, hrest]
        simp
      have hlen := congrArg List.length hrest
      simp only [List.length_drop, List.length_append, List.length_cons] at hlen
      split
      · rename_i hb
        rw [hb, List.splitOn_nil]
        simp
      · rename_i hb
        have hpos := List.length_pos_of_ne_nil hb
        rw [ih (clean.length - (start + a.length + 1)) (by omega) _ _ (by omega) rfl, hdrop]
        simp
    · rw [splitLoop_last lines h hmem, List.splitOn_eq_singleton hmem]

theorem splitText_eq (text : Bytes) : splitText text = (text.filter (· ≠ CR)).splitOn LF := by
  unfold splitText
  dsimp only
  by_cases hnil : text.filter (· ≠ CR) = []
  · rw [hnil]
    have hloop : splitLoop [] [] 0 = [] := by
      rw [splitLoop, dif_neg (by simp)]
    rw [hloop]
    rfl
  · rw [splitLoop_eq _ _ _ (List.length_pos_of_ne_nil hnil), List.nil_append, List.drop_zero,
      if_neg (List.splitOn_ne_nil LF _)]

theorem length_splitOn (c : UInt8) (s : Bytes) : (s.splitOn c).length = s.count c + 1 := by
  induction s with
  | nil => rfl
  | cons x s ih =>
    rw [List.splitOn_cons_eq_if_modifyHead, List.count_cons]
    split
    · rw [List.length_cons, ih]
    · rw [List.length_modifyHead, ih]

/-- The loop of `SetText` loses and adds no line: the text comes back with CRLF for every LF and without
any other CR. -/
theorem getText_of_setText (e : TextEditor) (t : Bytes) :
    (e.setText t).lines = splitText t ∧
      (e.setText t).getText = ((t.filter (· ≠ CR)).flatMap fun c => if c = LF then CRLF else [c]) ∧
      (CrlfText t → (e.setText t).getText = t) ∧
      (e.setText t).lines.length = t.count LF + 1 := by
  refine ⟨(splitText_eq t).symm, ?_, ?_, ?_⟩
  · rw [getText_setText, normalizeCrlf]
    induction t with
    | nil => rfl
    | cons c t ih =>
      by_cases hc : c = CR
      · simp [hc, ih]
      · simp [hc, ih]
  · intro h
    rw [getText_setText, h.normalize]
  · show ((t.filter (· ≠ CR)).splitOn LF).length = _
    have hlf : LF ≠ CR := by decide
    rw [length_splitOn, List.count_filter (by simpa using hlf)]

end TextEditor

namespace TextEditor.Editor

theorem crlfText_getText {e : Editor} (h : system.Reached e) : CrlfText e.getText := by
  apply crlfText_intercalate
  intro l hl
  have hclean := (sound_of_reached h).clean l hl
  exact ⟨fun hmem => (hclean CR hmem).1 rfl, fun hmem => (hclean LF hmem).2 rfl⟩

end TextEditor.Editor

/-- `q` says of the bytes `w` what they are: the body is what follows the first blank line, and the
headers are the lines with a colon between the first line and it. -/
def Records (q : HttpRequest) (w : Bytes) : Prop :=
  ∃ first fields, Search.cut (CRLF ++ CRLF) w = some (CRLF.intercalate (first :: fields), q.body) ∧
    (∀ l ∈ first :: fields, Plain l) ∧
    List.Forall₂ FieldOf (fields.filter fun l => 58 ∈ l) q.headers

/-- What is recorded of a text in CRLF lines is what is sent. -/
theorem records_of_crlfText {t : Bytes} (h : CrlfText t) :
    Records (parseRawHttpRequest t) (parseRawHttpRequest t).serialize := by
  have herased : CrlfText (eraseMarkers t) := h.eraseMarkers
  have hsent : (parseRawHttpRequest t).serialize = endHeaders (eraseMarkers t) := by
    rw [parseRawHttpRequest_serialize, herased.normalize]
  obtain ⟨m, hm⟩ := RawMessage.exists_text herased.endHeaders (blankLine_endHeaders _)
  have hbody : CrlfText m.body := by
    rw [← m.crlfText_text_iff, hm]
    exact herased.endHeaders
  have hend : m.body ≠ [] → (eraseMarkers t).getLast? = m.body.getLast? := by
    intro hne
    by_cases hblank : CRLF ++ CRLF <:+: eraseMarkers t
    · rw [← m.getLast?_text hne, hm, endHeaders_of_blankLine hblank]
    · exact absurd (m.body_of_endHeaders hblank hbody hm.symm) hne
  have hraw : endHeaders (normalizeCrlf (eraseMarkers t)) = m.text := by
    rw [herased.normalize, hm]
  have hparse := m.parse_text hraw hend
  rw [hsent, ← hm, hparse]
  refine ⟨m.first, m.fields, m.cut_text, ?_, filterMap_fields m.fields⟩
  rw [List.forall_mem_cons]
  exact ⟨m.first_plain, fun l hl => (m.fields_plain l hl).1⟩

/-- The history shows what the forward button sends of the editor's text. -/
theorem edited_request_recorded {e : TextEditor.Editor} (h : TextEditor.Editor.system.Reached e) :
    Records (parseRawHttpRequest e.getText) (parseRawHttpRequest e.getText).serialize :=
  records_of_crlfText (TextEditor.Editor.crlfText_getText h)

/-- A text that starts with blank lines. -/
theorem edited_request_recorded_blank :
    let e : TextEditor.Editor := ({} : TextEditor.Editor).setText (str "\n\nA: b")
    Records (parseRawHttpRequest e.getText) (parseRawHttpRequest e.getText).serialize :=
  edited_request_recorded
    (.step (.init rfl) (a := TextEditor.Editor.Call.setText (str "\n\nA: b")) trivial rfl)

end BurpTUI
