import BurpTUI.Http.RawParse
import BurpTUI.Tui.RepeaterManager

namespace BurpTUI

theorem endHeaders_append (s : Bytes) : ∃ x, endHeaders s = s ++ x ∧ x ∈ [[], CRLF, CRLF ++ CRLF] := by
  unfold endHeaders
  split
  · exact ⟨[], by simp, by simp⟩
  · split
    · exact ⟨CRLF, rfl, by simp⟩
    · exact ⟨CRLF ++ CRLF, by simp, by simp⟩

section Lengths

/-- Erasing a marker takes its bytes out of the normalized text too. -/
theorem normalizeCrlf_eraseFirst_length {m s : Bytes} (hm : Plain m) (h : m <:+: s) :
    (normalizeCrlf (Search.eraseFirst m s)).length + m.length = (normalizeCrlf s).length := by
  obtain ⟨⟨a, b⟩, hcut⟩ := Option.isSome_iff_exists.mp (Search.cut_isSome_of_occurs h)
  have hs := Search.cut_spec hcut
  have herased : Search.eraseFirst m s = a ++ b := by simp [Search.eraseFirst, hcut]
  rw [herased, hs]
  simp only [normalizeCrlf_append, normalizeCrlf_plain hm, List.length_append]
  omega

theorem normalizeCrlf_eraseFirst_length_le {m : Bytes} (s : Bytes) (hm : Plain m) :
    (normalizeCrlf (Search.eraseFirst m s)).length ≤ (normalizeCrlf s).length := by
  by_cases h : m <:+: s
  · have hlen := normalizeCrlf_eraseFirst_length hm h
    omega
  · rw [Search.eraseFirst_of_absent h]

/-- More is erased than `endHeaders` can append. -/
theorem endHeaders_eraseMarkers_length {s : Bytes} (h : Marked s) :
    (endHeaders (normalizeCrlf (eraseMarkers s))).length < (endHeaders (normalizeCrlf s)).length := by
  have herased : (normalizeCrlf (eraseMarkers s)).length + 7 ≤ (normalizeCrlf s).length := by
    unfold eraseMarkers
    by_cases h1 : str " (HTTPS)" <:+: s
    · have hlen := normalizeCrlf_eraseFirst_length plain_https h1
      have hle := normalizeCrlf_eraseFirst_length_le (Search.eraseFirst (str " (HTTPS)") s) plain_http
      have h8 : (str " (HTTPS)").length = 8 := by decide
      omega
    · have hlen := normalizeCrlf_eraseFirst_length plain_http (h.resolve_left h1)
      have h7 : (str " (HTTP)").length = 7 := by decide
      rw [Search.eraseFirst_of_absent h1]
      omega
  obtain ⟨x, hx, hmem⟩ := endHeaders_append (normalizeCrlf (eraseMarkers s))
  obtain ⟨y, hy, -⟩ := endHeaders_append (normalizeCrlf s)
  have hlen : x.length ≤ 4 := by
    simp only [List.mem_cons, List.not_mem_nil, or_false] at hmem
    rcases hmem with rfl | rfl | rfl <;> decide
  rw [hx, hy, List.length_append, List.length_append]
  omega

end Lengths

section Inserted

theorem cut_crlf {l : Bytes} (h : CR ∉ l) (rest : Bytes) :
    Search.cut CRLF (l ++ CR :: LF :: rest) = some (l, rest) := by
  have hskip := Search.cut_skip (p := [LF]) (s := CR :: LF :: rest) h
  have hhere : Search.cut [CR, LF] (CR :: LF :: rest) = some ([], rest) := by simp [Search.cut]
  rw [hhere] at hskip
  show Search.cut [CR, LF] _ = _
  simpa using hskip

theorem insertAfterFirst_line {l : Bytes} (h : CR ∉ l) (rest line : Bytes) :
    insertAfterFirst (l ++ CR :: LF :: rest) line = l ++ CR :: LF :: (line ++ rest) := by
  rw [insertAfterFirst, cut_crlf h]
  simp [CRLF]

/-- The text as the parser and the repeater take it apart. -/
theorem exists_rawMessage (s : Bytes) : ∃ m : RawMessage, m.text = endHeaders (normalizeCrlf s) :=
  RawMessage.exists_text (crlfText_normalize s).endHeaders (blankLine_endHeaders _)

/-- The text of a message whose header section begins with more lines. -/
def RawMessage.textWith (m : RawMessage) (ls : List Bytes) : Bytes :=
  m.first ++ CR :: LF :: (((ls ++ m.fields).flatMap fun l => l ++ CRLF) ++ CR :: LF :: m.body)

theorem RawMessage.insertAfterFirst_textWith (m : RawMessage) (l : Bytes) (ls : List Bytes) :
    insertAfterFirst (m.textWith ls) (l ++ CRLF) = m.textWith (l :: ls) := by
  rw [textWith, insertAfterFirst_line m.first_plain.1]
  simp [textWith]

def hostMentioned (req : Bytes) : Bool :=
  mentions (str "Host:") (str "host:") (endHeaders (normalizeCrlf (eraseMarkers req)))

def insertedHost (host req : Bytes) : List Bytes :=
  if hostMentioned req then [] else [str "Host: " ++ host]

def connectionMentioned (host req : Bytes) : Bool :=
  mentions (str "Connection:") (str "connection:")
    (ensureHost host (endHeaders (normalizeCrlf (eraseMarkers req))))

/-- The header lines that `prepareRequest` inserts. -/
def insertedLines (host req : Bytes) : List Bytes :=
  (if connectionMentioned host req then [] else [str "Connection: close"]) ++ insertedHost host req

theorem ensureHost_text {req : Bytes} {m : RawMessage} (host : Bytes)
    (hm : m.text = endHeaders (normalizeCrlf (eraseMarkers req))) :
    ensureHost host m.text = m.textWith (insertedHost host req) := by
  unfold ensureHost insertedHost hostMentioned
  rw [← hm]
  split
  · rfl
  · exact m.insertAfterFirst_textWith _ []

theorem prepareRequest_text {req : Bytes} {m : RawMessage} (host : Bytes)
    (hm : m.text = endHeaders (normalizeCrlf (eraseMarkers req))) :
    prepareRequest host req = m.textWith (insertedLines host req) := by
  have hhost := ensureHost_text host hm
  unfold prepareRequest ensureConnection insertedLines connectionMentioned
  rw [← hm, hhost]
  split
  · rfl
  · exact m.insertAfterFirst_textWith _ _

end Inserted

/-- Whether only the line ends of the request text were changed, by the parser and by the repeater, and
the header section ended if it was not. The repeater's lines are inserted after the first one. -/
structure OnlyLineEnds (host raw : Bytes) : Prop where
  parsed : (parseRawHttpRequest raw).serialize = endHeaders (normalizeCrlf raw)
  prepared : prepareRequest host raw = insertAfterFirst (endHeaders (normalizeCrlf raw))
    ((insertedLines host raw).flatMap fun l => l ++ CRLF)

theorem RawMessage.insertAfterFirst_text (m : RawMessage) (ls : List Bytes) :
    insertAfterFirst m.text (ls.flatMap fun l => l ++ CRLF) = m.textWith ls := by
  rw [text, insertAfterFirst_line m.first_plain.1]
  simp [textWith]

/-- The clean-up leaves everything else alone exactly if there is no marker in the whole text. -/
theorem only_line_ends_iff (host raw : Bytes) : OnlyLineEnds host raw ↔ ¬ Marked raw := by
  constructor
  · intro h hmarked
    have hlen := endHeaders_eraseMarkers_length hmarked
    have hparsed := h.parsed
    rw [parseRawHttpRequest_serialize] at hparsed
    rw [hparsed] at hlen
    omega
  · intro h
    have herased : eraseMarkers raw = raw := eraseMarkers_of_unmarked h
    obtain ⟨m, hm⟩ := exists_rawMessage (eraseMarkers raw)
    constructor
    · rw [parseRawHttpRequest_serialize, herased]
    · rw [prepareRequest_text host hm, ← m.insertAfterFirst_text, hm, herased]

/-! ## Fields -/

/-- The lines between the first line and the first blank one. -/
def headerLines (text : Bytes) : List Bytes :=
  ((text.filter (· ≠ CR)).splitOn LF).tail.takeWhile (· ≠ [])

/-- A line with a colon, and in front of it this name in any case. -/
def IsNamed (name line : Bytes) : Prop :=
  58 ∈ line ∧ (line.takeWhile (· != 58)).map toLower = name

instance (name line : Bytes) : Decidable (IsNamed name line) := inferInstanceAs (Decidable (_ ∧ _))

def fieldsNamed (name text : Bytes) : List Bytes := (headerLines text).filter fun l => IsNamed name l

/-- A `User-Agent` header with a marker. -/
def markedAgent : Bytes := str "GET / HTTP/1.1\r\nHost: a\r\nUser-Agent: b (HTTP)\r\n\r\n"

theorem only_line_ends_markedAgent : (∀ l ∈ fieldsNamed (str "host") markedAgent, ¬ Marked l) ∧
    ¬ OnlyLineEnds (str "a") markedAgent := by
  have hhost : fieldsNamed (str "host") markedAgent = [str "Host: a"] := by decide
  constructor
  · rw [hhost, List.forall_mem_singleton, ← eraseMarkers_eq_self_iff]
    decide
  · intro h
    exact absurd h.parsed (by decide)

section Fields

theorem filter_normalizeCrlf (s : Bytes) : (normalizeCrlf s).filter (· ≠ CR) = s.filter (· ≠ CR) := by
  induction s with
  | nil => rfl
  | cons c s ih =>
    rw [← List.singleton_append, normalizeCrlf_append, List.filter_append, ih, List.filter_append]
    congr 1
    by_cases hc : c = CR
    · simp [normalizeCrlf, hc]
    · by_cases hl : c = LF
      · subst hl
        decide
      · simp [normalizeCrlf, hc, hl]

theorem takeWhile_snoc {α : Type*} {p : α → Bool} {c : α} (hc : p c = false) (l : List α) :
    (l ++ [c]).takeWhile p = l.takeWhile p := by
  induction l with
  | nil => simp [hc]
  | cons a l ih =>
    by_cases ha : p a = true
    · rw [List.cons_append, List.takeWhile_cons_of_pos ha, List.takeWhile_cons_of_pos ha, ih]
    · rw [List.cons_append, List.takeWhile_cons_of_neg ha, List.takeWhile_cons_of_neg ha]

theorem headerLines_snoc (s : Bytes) : headerLines (s ++ CRLF) = headerLines s := by
  have hfilter : (s ++ CRLF).filter (· ≠ CR) = s.filter (· ≠ CR) ++ LF :: [] := by
    rw [List.filter_append]
    rfl
  have hne : (s.filter (· ≠ CR)).splitOn LF ≠ [] := List.splitOn_ne_nil LF _
  unfold headerLines
  rw [hfilter, List.splitOn_append_cons_self, List.tail_append_of_ne_nil hne]
  exact takeWhile_snoc (by decide) _

/-- The clean-up of the line ends keeps the header lines. -/
theorem headerLines_endHeaders (s : Bytes) : headerLines (endHeaders (normalizeCrlf s)) = headerLines s := by
  have hnormal : headerLines (normalizeCrlf s) = headerLines s := by
    unfold headerLines
    rw [filter_normalizeCrlf]
  obtain ⟨x, hx, hmem⟩ := endHeaders_append (normalizeCrlf s)
  rw [hx]
  simp only [List.mem_cons, List.not_mem_nil, or_false] at hmem
  rcases hmem with rfl | rfl | rfl
  · rw [List.append_nil, hnormal]
  · rw [headerLines_snoc, hnormal]
  · rw [← List.append_assoc, headerLines_snoc, headerLines_snoc, hnormal]

theorem filter_line {l : Bytes} (h : Plain l) (rest : Bytes) :
    ((l ++ CR :: LF :: rest).filter (· ≠ CR)).splitOn LF = l :: (rest.filter (· ≠ CR)).splitOn LF := by
  have hfilter : (l ++ CR :: LF :: rest).filter (· ≠ CR) = l ++ LF :: rest.filter (· ≠ CR) := by
    rw [List.filter_append, filter_noCr h.1]
    rfl
  rw [hfilter, List.splitOn_append_cons_self_of_not_mem h.2]

theorem headerLines_text (m : RawMessage) : headerLines m.text = m.fields := by
  obtain ⟨first, fields, body, hfirst, hfields⟩ := m
  unfold headerLines RawMessage.text
  rw [filter_line hfirst, List.tail_cons]
  induction fields with
  | nil =>
    have hblank := filter_line (l := []) .nil body
    rw [List.nil_append] at hblank
    rw [List.flatMap_nil, List.nil_append, hblank]
    rfl
  | cons l fields ih =>
    rw [List.forall_mem_cons] at hfields
    have hrest : ((l :: fields).flatMap fun l => l ++ CRLF) ++ CR :: LF :: body =
        l ++ CR :: LF :: ((fields.flatMap fun l => l ++ CRLF) ++ CR :: LF :: body) := by
      simp [CRLF]
    rw [hrest, filter_line hfields.1.1, List.takeWhile_cons_of_pos (by simpa using hfields.1.2),
      ih hfields.2]

end Fields

section Mentions

variable {p : Bytes} (hp : Plain p) (hne : p ≠ [])
include hp hne

theorem contains_line (l rest : Bytes) :
    Search.contains p (l ++ CR :: LF :: rest) = (Search.contains p l || Search.contains p rest) := by
  have hlf := Search.contains_append_cons hp.2 hne [] rest
  rw [List.nil_append, Search.contains_nil hne, Bool.false_or] at hlf
  rw [Search.contains_append_cons hp.1 hne, hlf]

/-- A text without line ends occurs in a text or not whatever its line ends are. -/
theorem CrlfText.contains_filter {s : Bytes} (h : CrlfText s) :
    Search.contains p (s.filter (· ≠ CR)) = Search.contains p s := by
  induction h with
  | last hl => rw [filter_noCr hl.1]
  | @line l rest hl _ ih =>
    have hfilter : (l ++ CR :: LF :: rest).filter (· ≠ CR) = l ++ LF :: rest.filter (· ≠ CR) := by
      rw [List.filter_append, filter_noCr hl.1]
      rfl
    rw [hfilter, Search.contains_append_cons hp.2 hne, contains_line hp hne, ih]

theorem contains_endHeaders (s : Bytes) :
    Search.contains p (endHeaders (normalizeCrlf s)) = Search.contains p (s.filter (· ≠ CR)) := by
  have hcrlf (t : Bytes) : Search.contains p (t ++ CRLF) = Search.contains p t := by
    have hline := contains_line hp hne t []
    rwa [Search.contains_nil hne, Bool.or_false] at hline
  obtain ⟨x, hx, hmem⟩ := endHeaders_append (normalizeCrlf s)
  rw [hx, ← filter_normalizeCrlf, (crlfText_normalize s).contains_filter hp hne]
  simp only [List.mem_cons, List.not_mem_nil, or_false] at hmem
  rcases hmem with rfl | rfl | rfl
  · rw [List.append_nil]
  · rw [hcrlf]
  · rw [← List.append_assoc, hcrlf, hcrlf]

omit hp in
/-- A marker that is erased is not part of an occurrence of `p`. -/
theorem contains_of_eraseFirst {m : Bytes} (h32 : 32 ∉ p) (h41 : 41 ∉ p)
    (hm : Search.contains p m = false) {s : Bytes} (hcr : CR ∉ m)
    (h : Search.contains p (s.filter (· ≠ CR)) = true) :
    Search.contains p ((Search.eraseFirst (32 :: (m ++ [41])) s).filter (· ≠ CR)) = true := by
  by_cases hin : 32 :: (m ++ [41]) <:+: s
  · obtain ⟨⟨a, b⟩, hcut⟩ := Option.isSome_iff_exists.mp (Search.cut_isSome_of_occurs hin)
    have hs := Search.cut_spec hcut
    have herased : Search.eraseFirst (32 :: (m ++ [41])) s = a ++ b := by
      simp [Search.eraseFirst, hcut]
    have hfilter : s.filter (· ≠ CR) =
        a.filter (· ≠ CR) ++ 32 :: (m ++ 41 :: b.filter (· ≠ CR)) := by
      rw [hs]
      simp only [List.filter_append, List.filter_cons, filter_noCr hcr]
      simp [CR]
    -- the blank and the bracket keep an occurrence on one side
    rw [hfilter, Search.contains_append_cons h32 hne, Search.contains_append_cons h41 hne, hm,
      Bool.false_or, Bool.or_eq_true, Search.contains_iff, Search.contains_iff] at h
    rw [herased, List.filter_append, Search.contains_iff]
    rcases h with h | h
    · exact h.trans (List.prefix_append _ _).isInfix
    · exact h.trans (List.suffix_append _ _).isInfix
  · rwa [Search.eraseFirst_of_absent hin]

omit hp in
theorem contains_of_eraseMarkers (h32 : 32 ∉ p) (h41 : 41 ∉ p)
    (hs : Search.contains p (str "(HTTPS") = false) (hh : Search.contains p (str "(HTTP") = false)
    {s : Bytes} (h : Search.contains p (s.filter (· ≠ CR)) = true) :
    Search.contains p ((eraseMarkers s).filter (· ≠ CR)) = true := by
  have h1 := contains_of_eraseFirst hne h32 h41 hs (by decide) h
  exact contains_of_eraseFirst hne h32 h41 hh (by decide) h1

theorem contains_of_headerLine {l s : Bytes} (hl : l ∈ headerLines s)
    (h : Search.contains p l = true) : Search.contains p (s.filter (· ≠ CR)) = true := by
  rw [Search.contains_splitOn hp.2 hne, List.any_eq_true]
  exact ⟨l, List.mem_of_mem_tail ((List.takeWhile_sublist _).subset hl), h⟩

end Mentions

section WellPrepared

/-- There is exactly one field with this name, and it is that of the request text if there is one. -/
def OneField (name req sent : Bytes) : Prop :=
  ∃ l, fieldsNamed name sent = [l] ∧ ∀ l' ∈ fieldsNamed name req, l' = l

structure WellPrepared (req sent : Bytes) : Prop where
  ended : CRLF ++ CRLF <:+: sent
  host : OneField (str "host") req sent
  connection : OneField (str "connection") req sent
  crlf : CrlfText sent

/-- One of the two spellings occurs somewhere in the text, if its CRs are left out. -/
def Mentions (upper lower text : Bytes) : Prop :=
  upper <:+: text.filter (· ≠ CR) ∨ lower <:+: text.filter (· ≠ CR)

/-- Where the text looks as if it had a field with this name, it has one; elsewhere it has none. The
clean-up neither takes a field away nor makes one. -/
structure Settled (mentioned : Prop) (name req : Bytes) : Prop where
  one : mentioned → OneField name req (eraseMarkers req)
  none : ¬ mentioned → fieldsNamed name req = [] ∧ fieldsNamed name (eraseMarkers req) = []

def MentionsHost (req : Bytes) : Prop := Mentions (str "Host:") (str "host:") (eraseMarkers req)

/-- The value of a `Host` line that is inserted counts too. -/
def MentionsConnection (host req : Bytes) : Prop :=
  Mentions (str "Connection:") (str "connection:") (eraseMarkers req) ∨
    ¬ MentionsHost req ∧ Mentions (str "Connection:") (str "connection:") host

structure Sendable (host req : Bytes) : Prop where
  hostField : Settled (MentionsHost req) (str "host") req
  connectionField : Settled (MentionsConnection host req) (str "connection") req
  insertedHost : ¬ MentionsHost req → Plain host

theorem mentions_iff {upper lower : Bytes} (hu : Plain upper) (hl : Plain lower) (hu' : upper ≠ [])
    (hl' : lower ≠ []) (s : Bytes) :
    mentions upper lower (endHeaders (normalizeCrlf s)) = true ↔ Mentions upper lower s := by
  unfold mentions Mentions
  rw [contains_endHeaders hu hu', contains_endHeaders hl hl', Bool.or_eq_true, Search.contains_iff,
    Search.contains_iff]

theorem hostMentioned_iff (req : Bytes) : hostMentioned req = true ↔ MentionsHost req :=
  mentions_iff ⟨by decide, by decide⟩ ⟨by decide, by decide⟩ (by decide) (by decide) _

theorem contains_textWith_cons {p : Bytes} (hp : Plain p) (hne : p ≠ []) (m : RawMessage) (l : Bytes)
    (ls : List Bytes) : Search.contains p (m.textWith (l :: ls)) =
      (Search.contains p l || Search.contains p (m.textWith ls)) := by
  have hrest : ((l :: ls ++ m.fields).flatMap fun l => l ++ CRLF) ++ CR :: LF :: m.body =
      l ++ CR :: LF :: (((ls ++ m.fields).flatMap fun l => l ++ CRLF) ++ CR :: LF :: m.body) := by
    simp [CRLF]
  unfold RawMessage.textWith
  rw [hrest, contains_line hp hne m.first, contains_line hp hne l, contains_line hp hne m.first,
    Bool.or_left_comm]

/-- `Host: ` in front of the host cannot be part of what is searched. -/
theorem contains_hostLine {p host : Bytes} (hne : p ≠ []) (h32 : 32 ∉ p)
    (hp : Search.contains p (str "Host:") = false) (hcr : CR ∉ host) :
    Search.contains p (str "Host: " ++ host) = true ↔ p <:+: host.filter (· ≠ CR) := by
  have hline : str "Host: " ++ host = str "Host:" ++ 32 :: host := rfl
  rw [filter_noCr hcr, hline, Search.contains_append_cons h32 hne, hp, Bool.false_or, Search.contains_iff]

theorem connectionMentioned_iff {host req : Bytes} (hhost : ¬ MentionsHost req → Plain host) :
    connectionMentioned host req = true ↔ MentionsConnection host req := by
  obtain ⟨m, hm⟩ := exists_rawMessage (eraseMarkers req)
  have hupper : Plain (str "Connection:") := ⟨by decide, by decide⟩
  have hlower : Plain (str "connection:") := ⟨by decide, by decide⟩
  have htext := mentions_iff hupper hlower (by decide) (by decide) (eraseMarkers req)
  unfold connectionMentioned MentionsConnection
  rw [← hm, ensureHost_text host hm, ← htext, ← hm]
  by_cases hm : MentionsHost req
  · rw [insertedHost, if_pos ((hostMentioned_iff req).mpr hm)]
    simp only [hm, not_true_eq_false, false_and, or_false]
    rfl
  · have hcr := (hhost hm).1
    have hline {p : Bytes} (hp : Plain p) (hne : p ≠ []) :
        Search.contains p (m.textWith [str "Host: " ++ host]) =
          (Search.contains p (str "Host: " ++ host) || Search.contains p m.text) :=
      contains_textWith_cons hp hne m _ []
    rw [insertedHost, if_neg ((hostMentioned_iff req).not.mpr hm)]
    simp only [hm, not_false_iff, true_and, mentions, Mentions, Bool.or_eq_true,
      hline hupper (by decide), hline hlower (by decide),
      contains_hostLine (p := str "Connection:") (by decide) (by decide) (by decide) hcr,
      contains_hostLine (p := str "connection:") (by decide) (by decide) (by decide) hcr]
    rw [or_or_or_comm, or_comm]

theorem settled_iff {mentioned : Prop} {name req sent : Bytes} (line : Bytes)
    (hyes : mentioned → fieldsNamed name sent = fieldsNamed name (eraseMarkers req))
    (hno : ¬ mentioned → fieldsNamed name sent = line :: fieldsNamed name (eraseMarkers req))
    (habsent : ¬ mentioned → line ∉ fieldsNamed name req) :
    OneField name req sent ↔ Settled mentioned name req := by
  by_cases hm : mentioned
  · have hsame : OneField name req sent ↔ OneField name req (eraseMarkers req) := by
      unfold OneField
      rw [hyes hm]
    rw [hsame]
    exact ⟨fun h => ⟨fun _ => h, fun hn => absurd hm hn⟩, fun h => h.one hm⟩
  · constructor
    · rintro ⟨l, hl, hkept⟩
      rw [hno hm] at hl
      obtain ⟨rfl, hnil⟩ := List.cons.inj hl
      refine ⟨fun h => absurd h hm, fun _ => ⟨?_, hnil⟩⟩
      -- a field of the request text would be the one that is inserted
      apply List.eq_nil_iff_forall_not_mem.mpr
      intro l' hl'
      exact habsent hm (hkept l' hl' ▸ hl')
    · intro h
      obtain ⟨hreq, hnil⟩ := h.none hm
      refine ⟨line, by rw [hno hm, hnil], ?_⟩
      rw [hreq]
      simp

variable {host req : Bytes}

theorem fieldsNamed_prepared (h : ∀ l ∈ insertedLines host req, Plain l ∧ l ≠ []) (name : Bytes) :
    fieldsNamed name (prepareRequest host req) =
      (insertedLines host req).filter (fun l => IsNamed name l) ++ fieldsNamed name (eraseMarkers req) := by
  obtain ⟨m, hm⟩ := exists_rawMessage (eraseMarkers req)
  let sent : RawMessage := { m with
    fields := insertedLines host req ++ m.fields
    fields_plain := List.forall_mem_append.mpr ⟨h, m.fields_plain⟩ }
  have hsent : headerLines (prepareRequest host req) = insertedLines host req ++ m.fields := by
    rw [prepareRequest_text host hm]
    exact headerLines_text sent
  have hcleaned : headerLines (eraseMarkers req) = m.fields := by
    rw [← headerLines_endHeaders, ← hm, headerLines_text]
  rw [fieldsNamed, hsent, List.filter_append, fieldsNamed, hcleaned]

theorem isNamed_hostLine (host : Bytes) : IsNamed (str "host") (str "Host: " ++ host) ∧
    ¬ IsNamed (str "connection") (str "Host: " ++ host) := by
  have hname : (str "Host: " ++ host).takeWhile (· != 58) = str "Host" := rfl
  refine ⟨⟨by simp [str], by rw [hname]; decide⟩, fun h => ?_⟩
  have hconnection := h.2
  rw [hname] at hconnection
  exact absurd hconnection (by decide)

theorem isNamed_connectionLine : IsNamed (str "connection") (str "Connection: close") ∧
    ¬ IsNamed (str "host") (str "Connection: close") := by decide

theorem insertedLines_filter (host req : Bytes) :
    (insertedLines host req).filter (fun l => IsNamed (str "host") l) = insertedHost host req ∧
    (insertedLines host req).filter (fun l => IsNamed (str "connection") l) =
      if connectionMentioned host req then [] else [str "Connection: close"] := by
  unfold insertedLines insertedHost
  constructor <;> split <;> split <;> simp [isNamed_hostLine, isNamed_connectionLine]

theorem not_mem_fieldsNamed {p name line : Bytes} (hp : Plain p) (hne : p ≠ []) (h32 : 32 ∉ p)
    (h41 : 41 ∉ p) (hs : Search.contains p (str "(HTTPS") = false)
    (hh : Search.contains p (str "(HTTP") = false) (hline : p <+: line)
    (hnone : ¬ p <:+: (eraseMarkers req).filter (· ≠ CR)) : line ∉ fieldsNamed name req := by
  intro hmem
  apply hnone
  rw [← Search.contains_iff]
  apply contains_of_eraseMarkers hne h32 h41 hs hh
  exact contains_of_headerLine hp hne (List.mem_of_mem_filter hmem)
    (Search.contains_iff.mpr hline.isInfix)

theorem settled_host_iff (h : ∀ l ∈ insertedLines host req, Plain l ∧ l ≠ []) :
    OneField (str "host") req (prepareRequest host req) ↔ Settled (MentionsHost req) (str "host") req := by
  have hfields := fieldsNamed_prepared h (str "host")
  rw [(insertedLines_filter host req).1, insertedHost] at hfields
  apply settled_iff (str "Host: " ++ host)
  · intro hm
    rwa [if_pos ((hostMentioned_iff req).mpr hm)] at hfields
  · intro hm
    rwa [if_neg ((hostMentioned_iff req).not.mpr hm)] at hfields
  · intro hm
    apply not_mem_fieldsNamed (p := str "Host:") ⟨by decide, by decide⟩ (by decide) (by decide)
      (by decide) (by decide) (by decide) ⟨32 :: host, rfl⟩
    exact fun hin => hm (.inl hin)

theorem settled_connection_iff (hhost : ¬ MentionsHost req → Plain host)
    (h : ∀ l ∈ insertedLines host req, Plain l ∧ l ≠ []) :
    OneField (str "connection") req (prepareRequest host req) ↔
      Settled (MentionsConnection host req) (str "connection") req := by
  have hfields := fieldsNamed_prepared h (str "connection")
  rw [(insertedLines_filter host req).2] at hfields
  apply settled_iff (str "Connection: close")
  · intro hm
    rwa [if_pos ((connectionMentioned_iff hhost).mpr hm)] at hfields
  · intro hm
    rwa [if_neg ((connectionMentioned_iff hhost).not.mpr hm)] at hfields
  · intro hm
    apply not_mem_fieldsNamed (p := str "Connection:") ⟨by decide, by decide⟩ (by decide) (by decide)
      (by decide) (by decide) (by decide) ⟨str " close", rfl⟩
    exact fun hin => hm (.inl (.inl hin))

theorem plain_connectionLine (host req : Bytes) : ∀ l ∈ (if connectionMentioned host req then [] else
    [str "Connection: close"]), Plain l ∧ l ≠ [] := by
  split
  · simp
  · rw [List.forall_mem_singleton]
    decide

theorem plain_insertedLines (hhost : ¬ MentionsHost req → Plain host) :
    ∀ l ∈ insertedLines host req, Plain l ∧ l ≠ [] := by
  unfold insertedLines insertedHost
  rw [List.forall_mem_append]
  refine ⟨plain_connectionLine host req, ?_⟩
  split
  · simp
  · rename_i hm
    rw [List.forall_mem_singleton]
    have hname : Plain (str "Host: ") := by decide
    exact ⟨hname.append (hhost ((hostMentioned_iff req).not.mp hm)), by simp [str]⟩

/-- A line end of the host stands in the message as it is. -/
theorem crlfText_host (hm : ¬ MentionsHost req) (h : CrlfText (prepareRequest host req)) :
    CrlfText host := by
  obtain ⟨m, hmsg⟩ := exists_rawMessage (eraseMarkers req)
  have hname : CrlfText (str "Host: ") := .last (by decide)
  have hlines := CrlfText.lines (fun l hl => (plain_connectionLine host req l hl).1) hname
  have hbefore := CrlfText.line m.first_plain hlines
  have hafter : CrlfText (CR :: LF :: ((m.fields.flatMap fun l => l ++ CRLF) ++ CR :: LF :: m.body)) := by
    have htext : CrlfText m.text := hmsg ▸ (crlfText_normalize _).endHeaders
    exact (CrlfText.last m.first_plain).of_append htext
  have hsent : prepareRequest host req = (m.first ++ CR :: LF ::
      (((if connectionMentioned host req then [] else [str "Connection: close"]).flatMap
        fun l => l ++ CRLF) ++ str "Host: ")) ++ (host ++ CR :: LF ::
      ((m.fields.flatMap fun l => l ++ CRLF) ++ CR :: LF :: m.body)) := by
    rw [prepareRequest_text host hmsg, RawMessage.textWith, insertedLines, insertedHost,
      if_neg ((hostMentioned_iff req).not.mpr hm)]
    simp [CRLF]
  rw [hsent] at h
  have hrest := hbefore.of_append h
  rw [crlfText_iff, normalizeCrlf_append, hafter.normalize, List.append_cancel_right_eq] at hrest
  exact crlfText_iff.mpr hrest

theorem plain_of_crlfText {s : Bytes} (h : CrlfText s) (hline : ¬ CRLF <:+: s) : Plain s := by
  cases h with
  | last hl => exact hl
  | @line l rest _ _ => exact absurd ⟨l, rest, by simp [CRLF]⟩ hline

theorem wellPrepared_of_sendable (h : Sendable host req) : WellPrepared req (prepareRequest host req) := by
  have hplain := plain_insertedLines h.insertedHost
  obtain ⟨m, hm⟩ := exists_rawMessage (eraseMarkers req)
  let sent : RawMessage := { m with
    fields := insertedLines host req ++ m.fields
    fields_plain := List.forall_mem_append.mpr ⟨hplain, m.fields_plain⟩ }
  have hsent : prepareRequest host req = sent.text := prepareRequest_text host hm
  have hbody : CrlfText m.body := by
    rw [← m.crlfText_text_iff, hm]
    exact (crlfText_normalize _).endHeaders
  refine ⟨?_, (settled_host_iff hplain).mpr h.hostField,
    (settled_connection_iff h.insertedHost hplain).mpr h.connectionField, ?_⟩
  · rw [hsent, sent.text_eq]
    exact ⟨_, _, rfl⟩
  · rw [hsent, sent.crlfText_text_iff]
    exact hbody

/-- What is sent has its `Host` and `Connection` field if nothing else looks like one and no line end
is inserted with the host, and for a host of one line only then. -/
theorem well_prepared_iff (host req : Bytes) :
    (Sendable host req → WellPrepared req (prepareRequest host req)) ∧
      (¬ CRLF <:+: host → WellPrepared req (prepareRequest host req) → Sendable host req) := by
  refine ⟨wellPrepared_of_sendable, fun hline h => ?_⟩
  have hhost : ¬ MentionsHost req → Plain host := fun hm =>
    plain_of_crlfText (crlfText_host hm h.crlf) hline
  have hplain := plain_insertedLines hhost
  exact ⟨(settled_host_iff hplain).mp h.host, (settled_connection_iff hhost hplain).mp h.connection,
    hhost⟩

/-- A request without fields gets both. -/
theorem well_prepared_iff_bare : WellPrepared (str "GET / HTTP/1.1")
    (prepareRequest (str "a") (str "GET / HTTP/1.1")) := by
  have hhost : ¬ MentionsHost (str "GET / HTTP/1.1") := by
    rw [← hostMentioned_iff]
    decide
  have hconnection : ¬ MentionsConnection (str "a") (str "GET / HTTP/1.1") := by
    rw [← connectionMentioned_iff fun _ => by decide]
    decide
  apply (well_prepared_iff (str "a") (str "GET / HTTP/1.1")).1
  refine ⟨⟨fun hm => absurd hm hhost, fun _ => by decide⟩,
    ⟨fun hm => absurd hm hconnection, fun _ => by decide⟩, fun _ => by decide⟩

def forwardedHost : Bytes := str "GET / HTTP/1.1\r\nX-Forwarded-Host: b\r\n\r\n"

/-- `X-Forwarded-Host:` is taken for a `Host` field. -/
theorem not_well_prepared_forwardedHost :
    (fieldsNamed (str "host") forwardedHost).length ≤ 1 ∧
    (fieldsNamed (str "connection") forwardedHost).length ≤ 1 ∧
    fieldsNamed (str "host") (prepareRequest (str "a") forwardedHost) = [] ∧
    ¬ WellPrepared forwardedHost (prepareRequest (str "a") forwardedHost) := by
  have hnone : fieldsNamed (str "host") (prepareRequest (str "a") forwardedHost) = [] := by decide
  refine ⟨by decide, by decide, hnone, fun h => ?_⟩
  obtain ⟨l, hl, -⟩ := h.host
  rw [hnone] at hl
  exact absurd hl (by simp)

end WellPrepared

end BurpTUI
