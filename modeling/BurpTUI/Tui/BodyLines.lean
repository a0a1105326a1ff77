import BurpTUI.Http.RawParse
import BurpTUI.Tui.HttpFormatter

namespace BurpTUI

section Sanitize

/-- What is behind the end of the output does not matter, nor do the carriage returns. -/
theorem sanitizeLoop_eq (maxLen : ℕ) (s : Bytes) (count : ℕ) :
    sanitizeLoop maxLen s count = ((s.filter (· ≠ CR)).take (maxLen - count)).map sanitizeByte := by
  induction s generalizing count with
  | nil => simp [sanitizeLoop]
  | cons c s ih =>
    rw [sanitizeLoop]
    by_cases hfull : maxLen ≤ count
    · simp [hfull, Nat.sub_eq_zero_of_le hfull]
    · rw [if_neg hfull]
      by_cases hc : c = CR
      · simp [hc, ih]
      · have hleft : maxLen - count = maxLen - (count + 1) + 1 := by omega
        rw [if_neg hc, ih, List.filter_cons_of_pos (by simpa using hc), hleft, List.take_succ_cons,
          List.map_cons]

theorem sanitizeText_eq (s : Bytes) (maxLen : ℕ) :
    sanitizeText s maxLen = ((s.filter (· ≠ CR)).take maxLen).map sanitizeByte := by
  rw [sanitizeText, sanitizeLoop_eq, Nat.sub_zero]

theorem length_sanitizeText_le (s : Bytes) (maxLen : ℕ) : (sanitizeText s maxLen).length ≤ maxLen := by
  rw [sanitizeText_eq, List.length_map, List.length_take]
  omega

theorem filter_stripCr (l : Bytes) : (stripCr l).filter (· ≠ CR) = l.filter (· ≠ CR) := by
  unfold stripCr
  split
  · rename_i hlast
    obtain ⟨l, rfl⟩ := List.getLast?_eq_some_iff.mp hlast
    simp
  · rfl

/-- The carriage return at the end of a line would not be shown anyway. -/
theorem sanitizeText_stripCr (l : Bytes) (maxLen : ℕ) :
    sanitizeText (stripCr l) maxLen = sanitizeText l maxLen := by
  rw [sanitizeText_eq, sanitizeText_eq, filter_stripCr]

end Sanitize

section BodyLoop

theorem getlines_single {s : Bytes} (hs : s ≠ []) (h : LF ∉ s) : getlines s = [s] := by
  induction s with
  | nil => exact absurd rfl hs
  | cons c s ih =>
    simp only [List.mem_cons, not_or] at h
    rw [getlines, if_neg (Ne.symm h.1)]
    by_cases hnil : s = []
    · rw [hnil]
      rfl
    · rw [ih hnil h.2]

theorem getlines_eq_nil {s : Bytes} : getlines s = [] ↔ s = [] := by
  cases s with
  | nil => simp [getlines]
  | cons c s =>
    rw [getlines]
    constructor
    · intro h
      split at h
      · cases h
      · split at h <;> cases h
    · intro h
      cases h

def lineRow (line : Bytes) : Element := .row [.sanitized (stripCr line) 512]

theorem getline_nil : ({ rest := [] } : IStream).getline = (none, { rest := [], eof := true, fail := true }) :=
  rfl

theorem getline_line {l : Bytes} (h : LF ∉ l) (rest : Bytes) :
    ({ rest := l ++ LF :: rest } : IStream).getline = (some l, { rest := rest }) := by
  simp [IStream.getline, IStream.good, Search.cut_singleton LF l rest h]

theorem getline_last {s : Bytes} (hs : s ≠ []) (h : LF ∉ s) :
    ({ rest := s } : IStream).getline = (some s, { rest := [], eof := true }) := by
  simp [IStream.getline, IStream.good, hs, Search.cut_singleton_eq_none_iff.mpr h]

/-- Of the lines left, the first is ended by LF or is the end of the input, or there is none. -/
theorem lines_cases (s : Bytes) :
    s = [] ∨ (s ≠ [] ∧ LF ∉ s) ∨ ∃ l rest, s = l ++ LF :: rest ∧ LF ∉ l := by
  by_cases hnil : s = []
  · exact .inl hnil
  · by_cases hlf : LF ∈ s
    · obtain ⟨l, rest, hs, hl⟩ := List.eq_append_cons_of_mem hlf
      exact .inr (.inr ⟨l, rest, hs, hl⟩)
    · exact .inr (.inl ⟨hnil, hlf⟩)

theorem getLast?_line (l rest : Bytes) : (l ++ LF :: rest).getLast? = some LF ↔
    rest = [] ∨ rest.getLast? = some LF := by
  cases rest with
  | nil => simp
  | cons c rest => simp [List.getLast?_append, List.getLast?_cons]

theorem bodyLoop_eof (left : ℕ) : bodyLoop left { rest := [], eof := true } =
    ([], { rest := [], eof := true, fail := true }) := by
  cases left with
  | zero => rfl
  | succ left => rfl

/-- The stream is good after the loop unless a line that the loop does not keep ends the input. -/
theorem bodyLoop_spec (left : ℕ) (s : Bytes) :
    (bodyLoop left { rest := s }).1 = ((getlines s).take left).map lineRow ∧
      ((bodyLoop left { rest := s }).2.good = true ↔ left < (getlines s).length ∧
        ¬ ((getlines s).length = left + 1 ∧ s.getLast? ≠ some LF)) := by
  induction left generalizing s with
  | zero =>
    rcases lines_cases s with rfl | ⟨hne, hlf⟩ | ⟨l, rest, rfl, hl⟩
    · simp [bodyLoop, getline_nil, getlines, IStream.good]
    · have hlast : s.getLast? ≠ some LF := fun h => hlf (List.mem_of_getLast? h)
      simp [bodyLoop, getline_last hne hlf, getlines_single hne hlf, IStream.good, hlast]
    · have hlast : (getlines rest).length = 0 → (l ++ LF :: rest).getLast? = some LF := by
        rw [List.length_eq_zero_iff, getlines_eq_nil, getLast?_line]
        exact .inl
      simpa [bodyLoop, getline_line hl, getlines_line hl, IStream.good] using hlast
  | succ left ih =>
    rcases lines_cases s with rfl | ⟨hne, hlf⟩ | ⟨l, rest, rfl, hl⟩
    · simp [bodyLoop, getline_nil, getlines, IStream.good]
    · simp [bodyLoop, getline_last hne hlf, getlines_single hne hlf, IStream.good, bodyLoop_eof, lineRow]
    · obtain ⟨hrows, hgood⟩ := ih rest
      have hloop : bodyLoop (left + 1) { rest := l ++ LF :: rest } =
          (lineRow l :: (bodyLoop left { rest := rest }).1, (bodyLoop left { rest := rest }).2) := by
        rw [bodyLoop, getline_line hl]
        rfl
      rw [hloop, getlines_line hl]
      refine ⟨?_, ?_⟩
      · rw [hrows, List.take_succ_cons, List.map_cons]
      · rw [hgood, ne_eq, ne_eq, getLast?_line, List.length_cons, Nat.succ_lt_succ_iff, Nat.succ_inj]
        -- without a line left there is none to cut off
        by_cases hrest : rest = []
        · simp [hrest, getlines]
        · simp [hrest]

end BodyLoop

/-- What is read on the screen in the place of a text. -/
def Segment.shown : Segment → Bytes
  | .plain s => s
  | .sanitized s maxLen => sanitizeText s maxLen

/-- The text of a row, or nothing for a separator. -/
def Element.shown : Element → Option Bytes
  | .row texts => some (texts.flatMap Segment.shown)
  | .separator => none

/-- The rows of a text body: its first lines, and a notice if that is not all of them. -/
def ShownLines (body contentType : Bytes) : Prop :=
  (formatBodyLines body contentType).map Element.shown =
    ((getlines body).take 1000).map (fun line => some (sanitizeText line 512)) ++
      if 1000 < (getlines body).length then [some truncationNotice] else []

theorem shown_lineRow (line : Bytes) : (lineRow line).shown = some (sanitizeText line 512) := by
  simp [lineRow, Element.shown, Segment.shown, sanitizeText_stripCr]

theorem shown_formatBodyLines {body contentType : Bytes} (hne : body ≠ [])
    (htext : isBinaryData body contentType = false) :
    (formatBodyLines body contentType).map Element.shown =
      ((getlines body).take 1000).map (fun line => some (sanitizeText line 512)) ++
        if 1000 < (getlines body).length ∧ ¬ ((getlines body).length = 1001 ∧ body.getLast? ≠ some LF)
        then [some truncationNotice] else [] := by
  have hrows := (bodyLoop_spec maxLines body).1
  have hgood : (bodyLoop maxLines { rest := body }).2.good = true ↔ 1000 < (getlines body).length ∧
      ¬ ((getlines body).length = 1001 ∧ body.getLast? ≠ some LF) := (bodyLoop_spec maxLines body).2
  rw [formatBodyLines, if_neg hne, htext, if_neg Bool.false_ne_true]
  simp only [hrows, List.map_append, List.map_map]
  congr 1
  · apply List.map_congr_left
    intro line _
    exact shown_lineRow line
  · by_cases h : (bodyLoop maxLines { rest := body }).2.good = true
    · rw [if_pos h, if_pos (hgood.mp h)]
      rfl
    · rw [if_neg h, if_neg (hgood.not.mp h)]
      rfl

theorem getlines_replicate (n : ℕ) (s : Bytes) :
    getlines (List.replicate n LF ++ s) = List.replicate n [] ++ getlines s := by
  induction n with
  | zero => rfl
  | succ n ih =>
    rw [List.replicate_succ, List.replicate_succ, List.cons_append, List.cons_append, getlines, if_pos rfl,
      ih]

/-- All that can be wrong is that the notice is missing, when the one line that is not shown ends the
body without a line end of its own. -/
theorem shownLines_iff {body contentType : Bytes} (hne : body ≠ [])
    (htext : isBinaryData body contentType = false) : ShownLines body contentType ↔
      ¬ ((getlines body).length = 1001 ∧ body.getLast? ≠ some LF) := by
  rw [ShownLines, shown_formatBodyLines hne htext, List.append_cancel_left_eq]
  by_cases hmany : 1000 < (getlines body).length
  · simp only [hmany, true_and, if_true]
    split
    · rename_i hnotice
      exact iff_of_true rfl hnotice
    · rename_i hnone
      exact iff_of_false (by simp) hnone
  · have hfew : ¬ (getlines body).length = 1001 := by omega
    simp [hmany, hfew]

/-- A thousand and one empty lines and an `a`: the last two lines are announced. -/
theorem shownLines_iff_announced : ∃ body, (getlines body).length = 1002 ∧
    (formatBodyLines body []).length = 1001 ∧ ShownLines body [] := by
  have hlines : getlines (List.replicate 1001 LF ++ str "a") = List.replicate 1001 [] ++ [str "a"] :=
    getlines_replicate 1001 (str "a")
  have hlen : (getlines (List.replicate 1001 LF ++ str "a")).length = 1002 := by
    rw [hlines, List.length_append, List.length_replicate]
    rfl
  have htext : isBinaryData (List.replicate 1001 LF ++ str "a") [] = false := by decide +kernel
  have hne : List.replicate 1001 LF ++ str "a" ≠ [] := List.append_ne_nil_of_right_ne_nil _ (by decide)
  have hshown := (shownLines_iff hne htext).mpr fun h => by
    rw [hlen] at h
    exact absurd h.1 (by decide)
  refine ⟨_, hlen, ?_, hshown⟩
  have hrows := congrArg List.length hshown
  simp only [List.length_append, List.length_map, List.length_take, hlen] at hrows
  exact hrows

/-- A thousand empty lines and an `a`, which nothing shows or announces. -/
theorem unannounced_line : ∃ body, body ≠ [] ∧ isBinaryData body [] = false ∧
    (getlines body).length = 1001 ∧ (formatBodyLines body []).length = 1000 ∧ ¬ ShownLines body [] := by
  have hlines : getlines (List.replicate 1000 LF ++ str "a") = List.replicate 1000 [] ++ [str "a"] :=
    getlines_replicate 1000 (str "a")
  have hlen : (getlines (List.replicate 1000 LF ++ str "a")).length = 1001 := by
    rw [hlines, List.length_append, List.length_replicate]
    rfl
  have htext : isBinaryData (List.replicate 1000 LF ++ str "a") [] = false := by decide +kernel
  have hne : List.replicate 1000 LF ++ str "a" ≠ [] := List.append_ne_nil_of_right_ne_nil _ (by decide)
  have hlast : (List.replicate 1000 LF ++ str "a").getLast? ≠ some LF := by
    rw [List.getLast?_append]
    decide
  have hshown := congrArg List.length (shown_formatBodyLines hne htext)
  rw [if_neg fun h => h.2 ⟨hlen, hlast⟩] at hshown
  simp only [List.length_append, List.length_map, List.length_take, hlen] at hshown
  refine ⟨_, hne, htext, hlen, hshown, fun h => ?_⟩
  have hrows := congrArg List.length h
  simp only [List.length_append, List.length_map, List.length_take, hlen] at hrows
  rw [hshown] at hrows
  exact absurd hrows (by decide)

end BurpTUI
