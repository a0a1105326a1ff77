import BurpTUI.Base.Utf8
import BurpTUI.Tui.HexDump

namespace BurpTUI

open Utf8

/-- The control characters: those below the blank, DEL and the block from U+0080 on. -/
def IsControl (c : Char) : Prop := c.toNat < 32 ∨ 127 ≤ c.toNat ∧ c.toNat < 160

def IsC1 (c : Char) : Prop := 128 ≤ c.toNat ∧ c.toNat < 160

def SafeChar (c : Char) : Prop := IsControl c → c = '\n' ∨ c = '\t'

/-- Valid UTF-8 without a control character other than LF and TAB. -/
def SafeText (s : Bytes) : Prop := ∃ cs, s = encode cs ∧ ∀ c ∈ cs, SafeChar c

/-- Without its carriage returns the text fits or is cut between two characters, and what is kept has no
control character from U+0080 on. -/
def KeptClean (s : Bytes) (maxLen : ℕ) : Prop :=
  ∃ (kept : List Char) (rest : Bytes), s.filter (· ≠ CR) = encode kept ++ rest ∧
    (encode kept).length ≤ maxLen ∧ (rest = [] ∨ (encode kept).length = maxLen) ∧ ∀ c ∈ kept, ¬ IsC1 c

/-- `sanitizeByte` for a character. -/
def sanitizeChar (c : Char) : Char :=
  if c.toNat < 128 then Char.ofNat (sanitizeByte (UInt8.ofNat c.toNat)).toNat else c

section Characters

theorem sanitizeByte_lt : ∀ n < 128, (sanitizeByte (UInt8.ofNat n)).toNat < 128 := by decide

theorem sanitizeByte_ge (b : UInt8) : 128 ≤ b.toNat → sanitizeByte b = b := by
  apply forall_byte (p := fun b => 128 ≤ b.toNat → sanitizeByte b = b)
  decide +kernel

theorem sanitizeByte_lt_iff (b : UInt8) : (sanitizeByte b).toNat < 128 ↔ b.toNat < 128 := by
  by_cases hb : b.toNat < 128
  · have hlt := sanitizeByte_lt b.toNat hb
    rw [UInt8.ofNat_toNat] at hlt
    exact iff_of_true hlt hb
  · rw [sanitizeByte_ge b (Nat.le_of_not_lt hb)]

theorem map_sanitizeByte {t : Bytes} (h : ∀ b ∈ t, 128 ≤ b.toNat) : t.map sanitizeByte = t := by
  have hid := List.map_congr_left (g := id) fun b hb => sanitizeByte_ge b (h b hb)
  rwa [List.map_id] at hid

theorem encode_sanitizeChar (c : Char) :
    (String.utf8EncodeChar c).map sanitizeByte = String.utf8EncodeChar (sanitizeChar c) := by
  rw [sanitizeChar]
  by_cases hc : c.toNat < 128
  · have hlt := sanitizeByte_lt c.toNat hc
    rw [if_pos hc, encode_ascii hc, List.map_singleton, encode_ascii (by rwa [toNat_char_ofNat hlt]),
      toNat_char_ofNat hlt, UInt8.ofNat_toNat]
  · rw [if_neg hc]
    exact map_sanitizeByte (encode_not_ascii (Nat.le_of_not_lt hc))

theorem encode_sanitize (cs : List Char) : (encode cs).map sanitizeByte = encode (cs.map sanitizeChar) := by
  simp only [encode, List.map_flatMap, List.flatMap_map, encode_sanitizeChar]

/-- The bytes below the blank other than LF and TAB are replaced, and DEL is. -/
theorem sanitizeByte_ascii : ∀ n < 128,
    ((sanitizeByte (UInt8.ofNat n)).toNat < 32 ∨ (sanitizeByte (UInt8.ofNat n)).toNat = 127) →
      (sanitizeByte (UInt8.ofNat n)).toNat = 10 ∨ (sanitizeByte (UInt8.ofNat n)).toNat = 9 := by
  decide

theorem safeChar_sanitizeChar (c : Char) : SafeChar (sanitizeChar c) ↔ ¬ IsC1 c := by
  rw [sanitizeChar]
  by_cases hc : c.toNat < 128
  · have hval := toNat_char_ofNat (sanitizeByte_lt c.toNat hc)
    rw [if_pos hc]
    refine iff_of_true ?_ ?_
    · rintro hcontrol
      rw [IsControl, hval] at hcontrol
      have hlt := sanitizeByte_lt c.toNat hc
      rcases sanitizeByte_ascii c.toNat hc (by omega) with h | h
      · rw [h]
        exact .inl rfl
      · rw [h]
        exact .inr rfl
    · rintro ⟨hlow, -⟩
      exact absurd hc (Nat.not_lt_of_le hlow)
  · rw [if_neg hc]
    constructor
    · rintro hsafe ⟨hlow, hhigh⟩
      rcases hsafe (.inr ⟨by omega, hhigh⟩) with rfl | rfl
      · exact absurd hlow (by decide)
      · exact absurd hlow (by decide)
    · intro hc1 hcontrol
      rcases hcontrol with h | h
      · exact absurd h (by omega)
      · exact absurd ⟨Nat.le_of_not_lt hc, h.2⟩ hc1

end Characters

section Text

variable {s t p : Bytes}

theorem safeText_encode (cs : List Char) : SafeText (encode cs) ↔ ∀ c ∈ cs, SafeChar c := by
  constructor
  · rintro ⟨ds, heq, hsafe⟩
    rwa [encode_injective heq]
  · intro hsafe
    exact ⟨cs, rfl, hsafe⟩

/-- The bytes that are replaced are ASCII, and so are those put in their places. -/
theorem valid_of_map (h : Valid (t.map sanitizeByte)) : Valid t := by
  obtain ⟨s, hs⟩ : ∃ s, s = t.map sanitizeByte := ⟨_, rfl⟩
  rw [← hs] at h
  refine h.induction (P := fun s => ∀ t, s = t.map sanitizeByte → Valid t) ?_ ?_ t hs
  · intro t ht
    rw [List.map_eq_nil_iff.mp ht.symm]
    exact .nil
  · intro c rest _ ih t ht
    obtain ⟨p, t, rfl, hp, ht⟩ := List.map_eq_append_iff.mp ht.symm
    refine Valid.append ?_ (ih t ht.symm)
    by_cases hc : c.toNat < 128
    · rw [encode_ascii hc] at hp
      obtain ⟨x, rfl⟩ := List.length_eq_one_iff.mp ((List.length_map _).symm.trans (congrArg List.length hp))
      rw [List.map_singleton, List.singleton_inj] at hp
      have hx : (sanitizeByte x).toNat < 128 := by
        rwa [hp, toNat_ofNat (by omega)]
      obtain ⟨d, hd⟩ := exists_encode ((sanitizeByte_lt_iff x).mp hx)
      exact hd ▸ .encode d
    · have hkeep : p.map sanitizeByte = p := by
        apply map_sanitizeByte
        intro b hb
        have hge := encode_not_ascii (Nat.le_of_not_lt hc) _ (hp ▸ List.mem_map_of_mem hb)
        by_contra hlt
        exact Nat.not_lt_of_le hge ((sanitizeByte_lt_iff b).mpr (Nat.lt_of_not_le hlt))
      rw [← hkeep, hp]
      exact .encode c

/-- The output is clean if and only if the text that is kept is. -/
theorem safeText_sanitizeText_iff (s : Bytes) (maxLen : ℕ) :
    SafeText (sanitizeText s maxLen) ↔ KeptClean s maxLen := by
  rw [sanitizeText_eq]
  constructor
  · rintro ⟨cs, heq, hsafe⟩
    obtain ⟨kept, hkept⟩ := valid_of_map ⟨cs, heq⟩
    rw [hkept] at heq
    have hcs := encode_injective ((encode_sanitize kept).symm.trans heq)
    refine ⟨kept, (s.filter (· ≠ CR)).drop maxLen, ?_, ?_, ?_, ?_⟩
    · rw [encode, ← hkept, List.take_append_drop]
    · rw [encode, ← hkept, List.length_take]
      omega
    · rw [encode, ← hkept, List.length_take, List.drop_eq_nil_iff]
      omega
    · intro c hc
      rw [← safeChar_sanitizeChar]
      exact hsafe _ (hcs ▸ List.mem_map_of_mem hc)
  · rintro ⟨kept, rest, hfilter, hle, hcut, hclean⟩
    have htake : (s.filter (· ≠ CR)).take maxLen = encode kept := by
      rw [hfilter]
      rcases hcut with rfl | hlen
      · rw [List.append_nil, List.take_of_length_le hle]
      · rw [← hlen, List.take_left]
    rw [htake, encode_sanitize, safeText_encode, List.forall_mem_map]
    intro c hc
    exact (safeChar_sanitizeChar c).mpr (hclean c hc)

theorem safeText_append (hs : Valid s) (ht : Valid t) : SafeText (s ++ t) ↔ SafeText s ∧ SafeText t := by
  obtain ⟨cs, rfl⟩ := hs
  obtain ⟨ds, rfl⟩ := ht
  rw [← List.flatMap_append]
  simp only [safeText_encode, List.forall_mem_append]

theorem SafeText.valid (h : SafeText s) : Valid s := by
  obtain ⟨cs, hs, -⟩ := h
  exact ⟨cs, hs⟩

theorem Printable.ascii (h : Printable p) : ∀ b ∈ p, b.toNat < 128 := by
  intro b hb
  have hlt := (h b hb).2
  omega

theorem Printable.safe (h : Printable p) : SafeText p := by
  induction p with
  | nil => exact ⟨[], rfl, by simp⟩
  | cons b p ih =>
    obtain ⟨⟨hlow, hhigh⟩, hp⟩ := List.forall_mem_cons.mp h
    obtain ⟨cs, rfl, hcs⟩ := ih hp
    have hval := toNat_char_ofNat (n := b.toNat) (by omega)
    refine ⟨Char.ofNat b.toNat :: cs, ?_, ?_⟩
    · rw [encode, encode, List.flatMap_cons, encode_ascii (by omega), hval, UInt8.ofNat_toNat]
      rfl
    · rw [List.forall_mem_cons]
      refine ⟨?_, hcs⟩
      intro hcontrol
      rw [IsControl, hval] at hcontrol
      omega

theorem safeText_append_printable (h : Printable p) : SafeText (s ++ p) ↔ SafeText s := by
  constructor
  · intro hsafe
    have hs := (valid_append_ascii h.ascii).mp hsafe.valid
    exact ((safeText_append hs h.safe.valid).mp hsafe).1
  · intro hsafe
    exact (safeText_append hsafe.valid h.safe.valid).mpr ⟨hsafe, h.safe⟩

theorem safeText_printable_append (h : Printable p) : SafeText (p ++ s) ↔ SafeText s := by
  constructor
  · intro hsafe
    have hs := (valid_ascii_append h.ascii).mp hsafe.valid
    exact ((safeText_append h.safe.valid hs).mp hsafe).2
  · intro hsafe
    exact (safeText_append h.safe.valid hsafe.valid).mpr ⟨h.safe, hsafe⟩

end Text

/-- The texts that an element of a list is made of. -/
def Element.segments : Element → List Segment
  | .row texts => texts
  | .separator => []

/-- All texts that the viewer gets are clean. -/
def SafeRows (lines : List Element) : Prop := ∀ e ∈ lines, ∀ t ∈ e.segments, SafeText t.shown

/-- A text body is shown line by line; of a binary one only the content type is not made by the
formatter. -/
structure CleanBody (body contentType : Bytes) : Prop where
  content_type : body ≠ [] → isBinaryData body contentType = true → SafeText contentType
  lines : body ≠ [] → isBinaryData body contentType = false → ∀ l ∈ (getlines body).take 1000, KeptClean l 512

structure CleanResponse (res : HttpResponse) : Prop where
  version : SafeText res.version
  status_text : KeptClean res.statusText 64
  headers : ∀ h ∈ res.headers, KeptClean h.1 64 ∧ KeptClean h.2 256
  body : CleanBody res.body (res.header (str "Content-Type"))

structure CleanRequest (req : HttpRequest) (host : Bytes) : Prop where
  method : SafeText req.method
  url : KeptClean req.url 256
  version : SafeText req.version
  host : SafeText host
  headers : ∀ h ∈ req.headers, h.1 ≠ str "Host" → KeptClean h.1 64 ∧ KeptClean h.2 256
  body : CleanBody req.body (req.header (str "Content-Type"))

section Rows

theorem safeRows_append (a b : List Element) : SafeRows (a ++ b) ↔ SafeRows a ∧ SafeRows b := by
  rw [SafeRows, List.forall_mem_append]
  rfl

theorem safeRows_cons (e : Element) (b : List Element) :
    SafeRows (e :: b) ↔ (∀ t ∈ e.segments, SafeText t.shown) ∧ SafeRows b := by
  rw [SafeRows, List.forall_mem_cons]
  rfl

theorem safeRows_nil : SafeRows [] := by
  intro e he
  cases he

theorem safe_plain (s : Bytes) : (∀ t ∈ (Element.row [.plain s]).segments, SafeText t.shown) ↔ SafeText s := by
  rw [Element.segments, List.forall_mem_singleton]
  rfl

theorem safe_separator : ∀ t ∈ Element.separator.segments, SafeText t.shown := by
  intro t ht
  cases ht

theorem safe_headerRow (h : Header) :
    (∀ t ∈ (headerRow h).segments, SafeText t.shown) ↔ KeptClean h.1 64 ∧ KeptClean h.2 256 := by
  have hcolon : SafeText (str ": ") := Printable.safe (by decide)
  simp only [headerRow, Element.segments, List.forall_mem_cons, Segment.shown, safeText_sanitizeText_iff]
  simp [hcolon]

theorem safeRows_headers (hs : List Header) :
    SafeRows (hs.map headerRow) ↔ ∀ h ∈ hs, KeptClean h.1 64 ∧ KeptClean h.2 256 := by
  rw [SafeRows, List.forall_mem_map]
  simp only [safe_headerRow]

/-- The carriage return in front of the line end is not kept anyway. -/
theorem keptClean_stripCr (l : Bytes) (maxLen : ℕ) : KeptClean (stripCr l) maxLen ↔ KeptClean l maxLen := by
  rw [KeptClean, filter_stripCr, KeptClean]

theorem safeRows_text (body : Bytes) : SafeRows (bodyLoop maxLines { rest := body }).1 ↔
    ∀ l ∈ (getlines body).take 1000, KeptClean l 512 := by
  have hline (l : Bytes) : (∀ t ∈ (lineRow l).segments, SafeText t.shown) ↔ KeptClean l 512 := by
    rw [lineRow, Element.segments, List.forall_mem_singleton, Segment.shown, safeText_sanitizeText_iff,
      keptClean_stripCr]
  rw [(bodyLoop_spec maxLines body).1, SafeRows, List.forall_mem_map]
  simp only [hline, maxLines]

theorem safeText_orDefault (s : Bytes) : SafeText (orDefault s (str "unknown")) ↔ SafeText s := by
  rw [orDefault]
  split
  · rename_i hs
    rw [hs]
    exact iff_of_true (Printable.safe (by decide)) (Printable.safe (by decide))
  · rfl

theorem safeRows_dump (body : Bytes) (maxBytes : ℕ) :
    SafeRows ((getlines (formatHexDump body maxBytes)).map fun line => .row [.plain line]) := by
  rw [getlines_formatHexDump, SafeRows, List.forall_mem_map]
  intro l hl
  rw [safe_plain]
  exact (printable_dumpLines body maxBytes l hl).safe

theorem safeRows_binary (body contentType : Bytes) :
    SafeRows ([.row [.plain (str "[ Binary Payload: " ++ decimal body.length ++
        str " bytes | Content-Type: " ++ orDefault contentType (str "unknown") ++ str " ]")],
      .row [.plain []]] ++ (getlines (formatHexDump body 1024)).map fun line => .row [.plain line]) ↔
      SafeText contentType := by
  have hleft : Printable (str "[ Binary Payload: " ++ decimal body.length ++
      str " bytes | Content-Type: ") :=
    (Printable.append (by decide) (printable_decimal _)).append (by decide)
  have hempty : SafeText [] := Printable.safe (by decide)
  rw [safeRows_append, safeRows_cons, safeRows_cons, safe_plain, safe_plain,
    safeText_append_printable (by decide), safeText_printable_append hleft, safeText_orDefault]
  simp only [hempty, safeRows_nil, safeRows_dump, and_true]

theorem safeRows_formatBodyLines {body : Bytes} (hne : body ≠ []) (contentType : Bytes) :
    SafeRows (formatBodyLines body contentType) ↔ CleanBody body contentType := by
  rw [formatBodyLines, if_neg hne]
  cases hkind : isBinaryData body contentType with
  | true =>
    rw [if_pos rfl, safeRows_binary]
    constructor
    · intro h
      refine ⟨fun _ _ => h, fun _ htext => ?_⟩
      rw [hkind] at htext
      cases htext
    · intro h
      exact h.content_type hne hkind
  | false =>
    have hnotice (more : Bool) :
        SafeRows (if more then [.row [.plain truncationNotice]] else []) := by
      split
      · rw [safeRows_cons, safe_plain]
        exact ⟨Printable.safe (by decide), safeRows_nil⟩
      · exact safeRows_nil
    rw [if_neg Bool.false_ne_true]
    dsimp only
    rw [safeRows_append, safeRows_text]
    constructor
    · rintro ⟨h, -⟩
      refine ⟨fun _ hbinary => ?_, fun _ _ => h⟩
      rw [hkind] at hbinary
      cases hbinary
    · intro h
      exact ⟨h.lines hne hkind, hnotice _⟩

theorem safeRows_bodyRows {heading : Bytes} (h : Printable heading) (body contentType : Bytes) :
    SafeRows (bodyRows heading body contentType) ↔ CleanBody body contentType := by
  rw [bodyRows]
  by_cases hne : body = []
  · rw [if_pos hne]
    exact iff_of_true safeRows_nil ⟨fun hbody => absurd hne hbody, fun hbody => absurd hne hbody⟩
  · have hheading : SafeText (heading ++ decimal body.length ++ str " bytes) ---") :=
      ((h.append (printable_decimal _)).append (by decide)).safe
    rw [if_neg hne, safeRows_append, safeRows_formatBodyLines hne, safeRows_cons, safeRows_cons, safe_plain]
    exact and_iff_right ⟨safe_separator, hheading, safeRows_nil⟩

theorem safeRows_response (res : HttpResponse) :
    SafeRows (formatHttpResponseLines res) ↔ CleanResponse res := by
  have hcode : SafeText (decimal res.statusCode ++ str " ") :=
    ((printable_decimal _).append (by decide)).safe
  have hfirst : (∀ t ∈ (Element.row [.plain (res.version ++ str " "), .plain (decimal res.statusCode ++ str " "),
      .sanitized res.statusText 64]).segments, SafeText t.shown) ↔
      SafeText res.version ∧ KeptClean res.statusText 64 := by
    simp only [Element.segments, List.forall_mem_cons, Segment.shown, safeText_sanitizeText_iff, hcode,
      safeText_append_printable (show Printable (str " ") by decide)]
    simp
  rw [formatHttpResponseLines, safeRows_append, safeRows_append, safeRows_cons, safeRows_cons, hfirst,
    safeRows_headers, safeRows_bodyRows (by decide)]
  constructor
  · rintro ⟨⟨⟨⟨hversion, hstatus⟩, -⟩, hheaders⟩, hbody⟩
    exact ⟨hversion, hstatus, hheaders, hbody⟩
  · intro h
    exact ⟨⟨⟨⟨h.version, h.status_text⟩, safe_separator, safeRows_nil⟩, h.headers⟩, h.body⟩

theorem safeRows_request (req : HttpRequest) (isHttps : Bool) (host : Bytes) :
    SafeRows (formatHttpRequestLines req isHttps host) ↔ CleanRequest req host := by
  have hblank : Printable (str " ") := by decide
  have hmark : Printable (if isHttps then str " (HTTPS)" else str " (HTTP)") := by
    split <;> decide
  have hfirst : (∀ t ∈ (Element.row [.plain (req.method ++ str " "), .sanitized req.url 256,
      .plain (str " "), .plain req.version]).segments, SafeText t.shown) ↔
      SafeText req.method ∧ KeptClean req.url 256 ∧ SafeText req.version := by
    simp only [Element.segments, List.forall_mem_cons, Segment.shown, safeText_sanitizeText_iff,
      safeText_append_printable hblank, hblank.safe]
    simp
  have hhost : (∀ t ∈ (Element.row [.plain (str "Host: "), .plain (host ++ if isHttps then str " (HTTPS)"
      else str " (HTTP)")]).segments, SafeText t.shown) ↔ SafeText host := by
    have hname : SafeText (str "Host: ") := Printable.safe (by decide)
    simp only [Element.segments, List.forall_mem_cons, Segment.shown, safeText_append_printable hmark, hname]
    simp
  rw [formatHttpRequestLines, safeRows_append, safeRows_append, safeRows_cons, safeRows_cons, safeRows_cons,
    hfirst, hhost, safeRows_headers, safeRows_bodyRows (by decide)]
  simp only [List.mem_filter, decide_eq_true_eq]
  constructor
  · rintro ⟨⟨⟨⟨hmethod, hurl, hversion⟩, -, hhost, -⟩, hheaders⟩, hbody⟩
    exact ⟨hmethod, hurl, hversion, hhost, fun h hmem hname => hheaders h ⟨hmem, hname⟩, hbody⟩
  · intro h
    exact ⟨⟨⟨⟨h.method, h.url, h.version⟩, safe_separator, h.host, safeRows_nil⟩,
      fun hd hmem => h.headers hd hmem.1 hmem.2⟩, h.body⟩

end Rows

/-- What the viewers get of a text or a message is clean exactly if that is. -/
theorem sanitized_safe_iff (s : Bytes) (maxLen : ℕ) (res : HttpResponse) (req : HttpRequest) (isHttps : Bool)
    (host : Bytes) :
    (((sanitizeText s maxLen).length ≤ maxLen ∧ SafeText (sanitizeText s maxLen)) ↔ KeptClean s maxLen) ∧
      (SafeRows (formatHttpResponseLines res) ↔ CleanResponse res) ∧
      (SafeRows (formatHttpRequestLines req isHttps host) ↔ CleanRequest req host) := by
  refine ⟨?_, safeRows_response res, safeRows_request req isHttps host⟩
  rw [safeText_sanitizeText_iff]
  exact and_iff_right (length_sanitizeText_le s maxLen)

/-- The control sequence introducer as one character, and a letter that the limit cuts in two. -/
theorem csi_not_safe : (Valid [0xC2, 0x9B] ∧ ¬ SafeText (sanitizeText [0xC2, 0x9B] 4096)) ∧
    Valid [0xC3, 0xA9] ∧ ¬ SafeText (sanitizeText [0xC3, 0xA9] 1) := by
  have hcsi : [0xC2, 0x9B] = encode ['\u009B'] := by decide
  have hletter : Valid [0xC3, 0xA9] := ⟨['é'], by decide⟩
  have hkept : sanitizeText [0xC2, 0x9B] 4096 = [0xC2, 0x9B] := by decide
  have hcut : sanitizeText [0xC3, 0xA9] 1 = [0xC3] := by decide
  refine ⟨⟨⟨_, hcsi⟩, ?_⟩, hletter, ?_⟩
  · rw [hkept, hcsi, safeText_encode]
    intro hsafe
    rcases hsafe '\u009B' List.mem_cons_self (.inr (by decide)) with h | h
    · exact absurd h (by decide)
    · exact absurd h (by decide)
  · rw [hcut]
    intro hsafe
    -- the second byte alone is no text
    have hrest : Valid [0xA9] := hsafe.valid.of_append (l := [0xC3]) hletter
    exact hrest.head 0xA9 rfl (by decide)

end BurpTUI
