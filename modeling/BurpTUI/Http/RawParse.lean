import BurpTUI.Http.Markers

namespace BurpTUI

section Getlines

theorem getlines_line {l : Bytes} (h : LF ∉ l) (rest : Bytes) :
    getlines (l ++ LF :: rest) = l :: getlines rest := by
  induction l with
  | nil => simp [getlines]
  | cons c l ih =>
    simp only [List.mem_cons, not_or] at h
    rw [List.cons_append, getlines, if_neg (Ne.symm h.1), ih h.2]

/-- The lines with their ends are the text, but the last line gets one too. -/
theorem flatMap_getlines (s : Bytes) : ((getlines s).flatMap fun l => l ++ [LF]) =
    if s = [] ∨ s.getLast? = some LF then s else s ++ [LF] := by
  induction s with
  | nil => rfl
  | cons c s ih =>
    by_cases hs : s = []
    · subst hs
      by_cases hc : c = LF
      · simp [getlines, hc]
      · simp [getlines, hc]
    · have hlast : (c :: s).getLast? = s.getLast? := List.getLast?_cons_of_ne_nil hs
      have hcons : ((getlines (c :: s)).flatMap fun l => l ++ [LF]) =
          c :: (getlines s).flatMap fun l => l ++ [LF] := by
        by_cases hc : c = LF
        · simp [getlines, hc]
        · cases hg : getlines s with
          | nil =>
            rw [hg] at ih
            simp only [List.flatMap_nil, hs, false_or] at ih
            split at ih
            · exact absurd ih.symm hs
            · simp at ih
          | cons l ls => simp [getlines, hc, hg]
      rw [hcons, ih, hlast]
      simp only [hs, false_or, List.cons_ne_nil]
      split <;> rfl

end Getlines

/-- A line of the header section and the field that it gives: name and value stand around the first
colon, without the blanks and tabs in front of the value. -/
structure FieldOf (line : Bytes) (h : Header) : Prop where
  line : ∃ blanks, line = h.1 ++ 58 :: (blanks ++ h.2) ∧ ∀ c ∈ blanks, c = 32 ∨ c = 9
  name : 58 ∉ h.1
  value : ∀ c ∈ h.2.head?, c ≠ 32 ∧ c ≠ 9

theorem parseHeaderLine_of_field {line : Bytes} {h : Header} (hf : FieldOf line h) :
    parseHeaderLine line = some h := by
  obtain ⟨blanks, rfl, hblanks⟩ := hf.line
  have hcut := Search.cut_singleton 58 h.1 (blanks ++ h.2) hf.name
  have hdrop : (blanks ++ h.2).dropWhile (fun c => c == 32 || c == 9) = h.2 := by
    rw [List.dropWhile_append_of_pos fun c hc => by simpa using hblanks c hc]
    cases hv : h.2 with
    | nil => rfl
    | cons c v =>
      have hc := hf.value c (by simp [hv])
      simp [hc]
  rw [parseHeaderLine, show str ":" = [58] from rfl, hcut, Option.map_some, hdrop]

theorem parseHeaderLine_eq_none {line : Bytes} : parseHeaderLine line = none ↔ 58 ∉ line := by
  rw [parseHeaderLine, Option.map_eq_none_iff]
  exact Search.cut_singleton_eq_none_iff

theorem field_of_parseHeaderLine {line : Bytes} {h : Header} (hp : parseHeaderLine line = some h) :
    FieldOf line h := by
  obtain ⟨⟨name, rest⟩, hcut, rfl⟩ := Option.map_eq_some_iff.mp hp
  have hs := Search.cut_spec hcut
  refine ⟨⟨rest.takeWhile fun c => c == 32 || c == 9, ?_, ?_⟩, Search.cut_singleton_not_mem hcut, ?_⟩
  · rw [List.takeWhile_append_dropWhile]
    simpa [str] using hs
  · intro c hc
    simpa using List.all_eq_true.mp List.all_takeWhile c hc
  · intro c hc
    have hn := List.head?_dropWhile_not (fun c => c == 32 || c == 9) rest
    rw [hc] at hn
    simpa using hn

/-- The lines with a colon give one field each, in order. -/
theorem filterMap_fields (ls : List Bytes) :
    List.Forall₂ FieldOf (ls.filter fun l => 58 ∈ l) (ls.filterMap parseHeaderLine) := by
  induction ls with
  | nil => exact .nil
  | cons l ls ih =>
    cases hp : parseHeaderLine l with
    | none =>
      have hcolon := parseHeaderLine_eq_none.mp hp
      simpa [hp, hcolon] using ih
    | some h =>
      have hfield := field_of_parseHeaderLine hp
      have hcolon : 58 ∈ l := by
        by_contra hn
        rw [parseHeaderLine_eq_none.mpr hn] at hp
        cases hp
      simpa [hp, hcolon] using ⟨hfield, ih⟩

/-- A text in CRLF lines, taken apart at its first blank line. -/
structure RawMessage where
  first : Bytes
  fields : List Bytes
  body : Bytes
  first_plain : Plain first
  fields_plain : ∀ l ∈ fields, Plain l ∧ l ≠ []

namespace RawMessage

def text (m : RawMessage) : Bytes :=
  m.first ++ CR :: LF :: ((m.fields.flatMap fun l => l ++ CRLF) ++ CR :: LF :: m.body)

/-- The blank line begins at the end of this line or lies behind it. -/
theorem cut_blankLine {l : Bytes} (h : CR ∉ l) (rest : Bytes) :
    Search.cut (CRLF ++ CRLF) (l ++ CR :: LF :: rest) =
      if CRLF <+: rest then some (l, rest.drop 2)
      else (Search.cut (CRLF ++ CRLF) rest).map fun p => (l ++ CR :: LF :: p.1, p.2) := by
  have hskip := Search.cut_skip (p := [LF, CR, LF]) (s := CR :: LF :: rest) h
  have hpattern : CRLF ++ CRLF = [CR, LF, CR, LF] := rfl
  rw [hpattern, hskip, Search.cut]
  by_cases hp : CRLF <+: rest
  · obtain ⟨body, rfl⟩ := hp
    simp [CRLF]
  · have hno : ([CR, LF, CR, LF] : Bytes).isPrefixOf (CR :: LF :: rest) = false := by
      rw [Bool.eq_false_iff, ne_eq, List.isPrefixOf_iff_prefix, List.cons_prefix_cons,
        List.cons_prefix_cons]
      exact fun hall => hp hall.2.2
    have hlf : Search.cut [CR, LF, CR, LF] (LF :: rest) =
        (Search.cut [CR, LF, CR, LF] rest).map fun p => (LF :: p.1, p.2) := by
      rw [Search.cut, if_neg (by simp [CR, LF])]
    rw [hno, if_neg hp, hlf]
    simp only [Bool.false_eq_true, if_false, Option.map_map]
    rfl

/-- The parts are those around the first blank line. -/
theorem cut_text (m : RawMessage) :
    Search.cut (CRLF ++ CRLF) m.text = some (CRLF.intercalate (m.first :: m.fields), m.body) := by
  obtain ⟨first, fields, body, hfirst, hfields⟩ := m
  simp only [text]
  induction fields generalizing first with
  | nil =>
    rw [cut_blankLine hfirst.1, if_pos ⟨body, rfl⟩]
    simp
  | cons l fields ih =>
    rw [List.forall_mem_cons] at hfields
    obtain ⟨⟨hl, hne⟩, hfields⟩ := hfields
    have hstart : ¬ CRLF <+: ((l :: fields).flatMap fun l => l ++ CRLF) ++ CR :: LF :: body := by
      obtain ⟨c, l, rfl⟩ := List.exists_cons_of_ne_nil hne
      intro hp
      have hc : CR = c := (List.cons_prefix_cons.mp hp).1
      exact hl.1 (by simp [hc])
    have hrest : ((l :: fields).flatMap fun l => l ++ CRLF) ++ CR :: LF :: body =
        l ++ CR :: LF :: ((fields.flatMap fun l => l ++ CRLF) ++ CR :: LF :: body) := by
      simp [CRLF]
    rw [cut_blankLine hfirst.1, if_neg hstart, hrest, ih l hl hfields]
    simp [List.intercalate_cons_cons, CRLF]

/-- Every text in CRLF lines with a blank line has such parts. -/
theorem exists_text {w : Bytes} (h : CrlfText w) (hblank : CRLF ++ CRLF <:+: w) : ∃ m, text m = w := by
  rw [← Search.contains_iff] at hblank
  unfold Search.contains at hblank
  induction h with
  | last h =>
    rw [Search.cut_eq_none_iff.mpr] at hblank
    · cases hblank
    · intro hin
      exact h.1 (hin.subset (by decide))
  | @line l rest h hr ih =>
    rw [cut_blankLine h.1] at hblank
    split at hblank
    · rename_i hp
      obtain ⟨body, rfl⟩ := hp
      exact ⟨⟨l, [], body, h, by simp⟩, rfl⟩
    · rename_i hp
      rw [Option.isSome_map] at hblank
      obtain ⟨m, rfl⟩ := ih hblank
      -- an empty line here would have been the blank one
      have hne : m.first ≠ [] := by
        intro hnil
        rw [text, hnil] at hp
        exact hp ⟨_, rfl⟩
      refine ⟨⟨l, m.first :: m.fields, m.body, h, ?_⟩, ?_⟩
      · rw [List.forall_mem_cons]
        exact ⟨⟨m.first_plain, hne⟩, m.fields_plain⟩
      · simp [text, CRLF]

theorem text_eq (m : RawMessage) :
    m.text = CRLF.intercalate (m.first :: m.fields) ++ (CRLF ++ CRLF) ++ m.body :=
  Search.cut_spec m.cut_text

theorem crlfText_text_iff (m : RawMessage) : CrlfText m.text ↔ CrlfText m.body := by
  have hlines : CrlfText (CRLF.intercalate (m.first :: m.fields)) := by
    apply crlfText_intercalate
    rw [List.forall_mem_cons]
    exact ⟨m.first_plain, fun l hl => (m.fields_plain l hl).1⟩
  have hhead := hlines.append (CrlfText.crlf.append .crlf)
  rw [text_eq]
  exact ⟨fun h => hhead.of_append h, fun h => hhead.append h⟩

theorem getLast?_text (m : RawMessage) (h : m.body ≠ []) : m.text.getLast? = m.body.getLast? := by
  rw [text_eq, List.getLast?_append, List.getLast?_eq_some_getLast h, Option.some_or]

/-- Nothing follows a blank line that `endHeaders` has appended. -/
theorem body_of_endHeaders (m : RawMessage) {s : Bytes} (hs : ¬ CRLF ++ CRLF <:+: s)
    (h : CrlfText m.body) (htext : endHeaders s = m.text) : m.body = [] := by
  by_contra hne
  obtain ⟨x, hx, hend⟩ : ∃ x, endHeaders s = s ++ x ∧
      (x = [CR, LF] ∨ x = [CR, LF, CR, LF] ∧ ¬ CRLF <:+ s) := by
    unfold endHeaders
    rw [if_neg (Search.contains_iff.not.mpr hs)]
    split
    · exact ⟨CRLF, rfl, .inl rfl⟩
    · rename_i hno
      rw [List.isSuffixOf_iff_suffix] at hno
      exact ⟨CRLF ++ CRLF, List.append_assoc _ _ _, .inr ⟨rfl, hno⟩⟩
  rw [hx, text_eq] at htext
  rcases List.append_eq_append_iff.mp htext with ⟨y, hhead, hy⟩ | ⟨y, hy, -⟩
  · -- the body begins inside of what was appended
    have hnil : y ≠ [] := by
      rintro rfl
      rw [List.append_nil] at hhead
      exact hs ⟨_, [], by rw [List.append_nil]; exact hhead⟩
    have hlf (b : Bytes) : m.body ≠ LF :: b := fun hb => not_crlfText_lf b (hb ▸ h)
    have hbody : m.body = x.drop y.length := by rw [hy, List.drop_left]
    -- the body is what is left of the appended line ends, and does not begin with a bare LF
    rcases hend with rfl | ⟨rfl, hno⟩
    · match hlen : y.length with
      | 0 => exact hnil (List.length_eq_zero_iff.mp hlen)
      | 1 => exact hlf [] (by rw [hbody, hlen]; rfl)
      | k + 2 => exact hne (by rw [hbody, hlen, List.drop_eq_nil_of_le (by simp)])
    · match hlen : y.length with
      | 0 => exact hnil (List.length_eq_zero_iff.mp hlen)
      | 1 => exact hlf [CR, LF] (by rw [hbody, hlen]; rfl)
      | 2 =>
        have hcrlf : y = CRLF := by
          have htake := congrArg (List.take y.length) hy
          rw [List.take_left, hlen] at htake
          exact htake.symm
        rw [hcrlf, ← List.append_assoc, List.append_cancel_right_eq] at hhead
        exact hno ⟨_, hhead⟩
      | 3 => exact hlf [] (by rw [hbody, hlen]; rfl)
      | k + 4 => exact hne (by rw [hbody, hlen, List.drop_eq_nil_of_le (by simp)])
  · exact hs ⟨_, y, hy.symm⟩

theorem stripCr_line (l : Bytes) : stripCr (l ++ [CR]) = l := by
  simp [stripCr]

/-- The loop collects the fields of the lines before the blank line, and the lines behind it. -/
theorem parseLines_text {fields : List Bytes} (h : ∀ l ∈ fields, Plain l ∧ l ≠ []) (body : Bytes) :
    parseLines (getlines ((fields.flatMap fun l => l ++ CRLF) ++ CR :: LF :: body)) =
      (fields.filterMap parseHeaderLine, (getlines body).flatMap fun l => l ++ [LF]) := by
  induction fields with
  | nil =>
    have hlines : getlines (CR :: LF :: body) = [CR] :: getlines body :=
      getlines_line (l := [CR]) (by decide) body
    rw [List.flatMap_nil, List.nil_append, hlines, parseLines, if_pos (by decide)]
    rfl
  | cons l fields ih =>
    rw [List.forall_mem_cons] at h
    obtain ⟨⟨hl, hne⟩, hfields⟩ := h
    have hrest : ((l :: fields).flatMap fun l => l ++ CRLF) ++ CR :: LF :: body =
        (l ++ [CR]) ++ LF :: ((fields.flatMap fun l => l ++ CRLF) ++ CR :: LF :: body) := by
      simp [CRLF]
    have hlf : LF ∉ l ++ [CR] := by
      rw [List.mem_append, not_or]
      exact ⟨hl.2, by decide⟩
    have hblank : isBlankLine (l ++ [CR]) = false := by
      obtain ⟨c, l, rfl⟩ := List.exists_cons_of_ne_nil hne
      simp [isBlankLine]
    rw [hrest, getlines_line hlf, parseLines, hblank, if_neg Bool.false_ne_true, ih hfields,
      stripCr_line]
    cases hp : parseHeaderLine l with
    | none => simp [hp]
    | some field => simp [hp]

/-- Only the end of what is parsed decides whether the last line end of the body is taken away. -/
theorem parse_text (m : RawMessage) {raw : Bytes}
    (hraw : endHeaders (normalizeCrlf (eraseMarkers raw)) = m.text)
    (hend : m.body ≠ [] → (eraseMarkers raw).getLast? = m.body.getLast?) :
    parseRawHttpRequest raw =
      { method := orDefault ((words m.first).getD 0 []) (str "GET")
        url := orDefault ((words m.first).getD 1 []) (str "/")
        version := orDefault ((words m.first).getD 2 (str "HTTP/1.1")) (str "HTTP/1.1")
        headers := m.fields.filterMap parseHeaderLine
        body := m.body
        rawOverride := m.text } := by
  have hlf : LF ∉ m.first ++ [CR] := by
    rw [List.mem_append, not_or]
    exact ⟨m.first_plain.2, by decide⟩
  have hlines : getlines m.text = (m.first ++ [CR]) ::
      getlines ((m.fields.flatMap fun l => l ++ CRLF) ++ CR :: LF :: m.body) := by
    rw [← getlines_line hlf]
    simp [text]
  have hbody : (if (getlines m.body).flatMap (fun l => l ++ [LF]) ≠ [] ∧
        (eraseMarkers raw).getLast? ≠ some LF
      then ((getlines m.body).flatMap fun l => l ++ [LF]).dropLast
      else (getlines m.body).flatMap fun l => l ++ [LF]) = m.body := by
    -- the loop ends the last line of the body, and what it adds is taken away again
    rw [flatMap_getlines]
    by_cases hnil : m.body = []
    · simp [hnil]
    · rw [hend hnil]
      by_cases hlast : m.body.getLast? = some LF
      · simp [hlast]
      · simp [hnil, hlast]
  unfold parseRawHttpRequest
  dsimp only
  rw [hraw, hlines]
  dsimp only
  rw [parseLines_text m.fields_plain, stripCr_line, hbody]

end RawMessage

section Words

theorem words_append {a : Bytes} (hne : a ≠ []) (h : ∀ c ∈ a, isSpace c = false) (rest : Bytes) :
    words (a ++ 32 :: rest) = a :: words rest := by
  have hsplit := List.splitOnP_append_cons_of_forall_mem h 32 (by decide) rest
  rw [words, hsplit, List.filter_cons_of_pos (by simpa using hne), words]

theorem words_single {a : Bytes} (hne : a ≠ []) (h : ∀ c ∈ a, isSpace c = false) : words a = [a] := by
  have hsplit := List.splitOnP_eq_singleton h
  rw [words, hsplit, List.filter_cons_of_pos (by simpa using hne), List.filter_nil]

end Words

namespace HttpRequest

/-- A request without a raw text that can be told from its serialised form. -/
structure Canonical (r : HttpRequest) : Prop where
  rawOverride : r.rawOverride = []
  method : r.method ≠ [] ∧ ∀ c ∈ r.method, isSpace c = false
  url : r.url ≠ [] ∧ ∀ c ∈ r.url, isSpace c = false
  version : r.version ≠ [] ∧ ∀ c ∈ r.version, isSpace c = false
  names : ∀ h ∈ r.headers, 58 ∉ h.1 ∧ Plain h.1
  values : ∀ h ∈ r.headers, Plain h.2 ∧ ∀ c ∈ h.2.head?, c ≠ 32 ∧ c ≠ 9
  body : CrlfText r.body
  unmarked : ¬ Marked r.serialize

namespace Canonical

variable {r : HttpRequest} (hr : r.Canonical)
include hr

theorem plain_headerLine {h : Header} (hh : h ∈ r.headers) : Plain (headerLine h) := by
  have hcolon : Plain (str ": ") := ⟨by decide, by decide⟩
  exact ((hr.names h hh).2.append hcolon).append (hr.values h hh).1

omit hr in
theorem plain_of_noSpace {s : Bytes} (h : ∀ c ∈ s, isSpace c = false) : Plain s :=
  ⟨fun hc => absurd (h _ hc) (by decide), fun hc => absurd (h _ hc) (by decide)⟩

/-- What is serialised, in the parts that the parser tells apart. -/
def rawMessage : RawMessage where
  first := r.method ++ 32 :: (r.url ++ 32 :: r.version)
  fields := r.headers.map headerLine
  body := r.body
  first_plain := by
    have hblank : Plain [32] := ⟨by decide, by decide⟩
    have hurl : Plain (r.url ++ 32 :: r.version) :=
      (plain_of_noSpace hr.url.2).append (hblank.append (plain_of_noSpace hr.version.2))
    exact (plain_of_noSpace hr.method.2).append (hblank.append hurl)
  fields_plain := by
    rw [List.forall_mem_map]
    intro h hh
    refine ⟨hr.plain_headerLine hh, ?_⟩
    simp [headerLine, str]

theorem serialize_eq : r.serialize = hr.rawMessage.text := by
  simp only [RawMessage.text, rawMessage, serializeHeaders_eq, HttpRequest.serialize, hr.rawOverride,
    HttpRequest.requestLine]
  simp [str, CRLF]

theorem crlfText_serialize : CrlfText r.serialize := by
  rw [hr.serialize_eq, RawMessage.crlfText_text_iff]
  exact hr.body

theorem endHeaders_serialize :
    endHeaders (normalizeCrlf (eraseMarkers r.serialize)) = hr.rawMessage.text := by
  rw [eraseMarkers_of_unmarked hr.unmarked, hr.crlfText_serialize.normalize, hr.serialize_eq,
    endHeaders_of_blankLine]
  rw [← Search.contains_iff, Search.contains, hr.rawMessage.cut_text]
  rfl

/-- Each header line gives back its header. -/
theorem fields_eq {hs : List Header} (hsub : ∀ h ∈ hs, h ∈ r.headers) :
    (hs.map headerLine).filterMap parseHeaderLine = hs := by
  induction hs with
  | nil => rfl
  | cons h hs ih =>
    rw [List.forall_mem_cons] at hsub
    have hfield : FieldOf (headerLine h) h :=
      ⟨⟨[32], by simp [headerLine, str], by simp⟩, (hr.names h hsub.1).1, (hr.values h hsub.1).2⟩
    rw [List.map_cons, List.filterMap_cons, parseHeaderLine_of_field hfield, ih hsub.2]

end Canonical

end HttpRequest

/-- Parsing gives back what was serialised. -/
theorem parse_serialize {r : HttpRequest} (hr : r.Canonical) :
    parseRawHttpRequest r.serialize = { r with rawOverride := r.serialize } ∧
      (parseRawHttpRequest r.serialize).serialize = r.serialize := by
  have hend : hr.rawMessage.body ≠ [] →
      (eraseMarkers r.serialize).getLast? = hr.rawMessage.body.getLast? := by
    intro hne
    rw [eraseMarkers_of_unmarked hr.unmarked, hr.serialize_eq]
    exact hr.rawMessage.getLast?_text hne
  have hparse := hr.rawMessage.parse_text hr.endHeaders_serialize hend
  have hwords : words hr.rawMessage.first = [r.method, r.url, r.version] := by
    show words (r.method ++ 32 :: (r.url ++ 32 :: r.version)) = _
    rw [words_append hr.method.1 hr.method.2, words_append hr.url.1 hr.url.2,
      words_single hr.version.1 hr.version.2]
  have hfields : hr.rawMessage.fields.filterMap parseHeaderLine = r.headers :=
    hr.fields_eq fun _ hh => hh
  rw [hwords, hfields, ← hr.serialize_eq] at hparse
  have hsame : parseRawHttpRequest r.serialize = { r with rawOverride := r.serialize } := by
    rw [hparse]
    simp [orDefault, hr.method.1, hr.url.1, hr.version.1, HttpRequest.Canonical.rawMessage]
  refine ⟨hsame, ?_⟩
  have hne : r.serialize ≠ [] := by
    rw [hr.serialize_eq]
    simp [RawMessage.text]
  rw [hsame]
  exact if_pos hne

/-- A name twice, an empty name and an empty value, and a body that ends in CRLF. -/
def repeatedFields : HttpRequest :=
  { method := str "POST", url := str "/a", headers := [(str "A", str "x"), ([], []), (str "A", str "y ")]
    body := str "b" ++ CRLF ++ CRLF }

theorem repeatedFields_canonical : repeatedFields.Canonical where
  rawOverride := rfl
  method := by decide
  url := by decide
  version := by decide
  names := by decide
  values := by simp [repeatedFields, Plain, str, CR, LF]
  body := crlfText_iff.mpr rfl
  unmarked := by
    rw [← eraseMarkers_eq_self_iff]
    decide

theorem parse_serialize_repeatedFields :
    parseRawHttpRequest repeatedFields.serialize =
        { repeatedFields with rawOverride := repeatedFields.serialize } ∧
      (parseRawHttpRequest repeatedFields.serialize).serialize = repeatedFields.serialize :=
  parse_serialize repeatedFields_canonical

end BurpTUI
