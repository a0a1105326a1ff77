import BurpTUI.Http.Markers
import BurpTUI.Proxy.Routing
import BurpTUI.Tui.HttpFormatter
import BurpTUI.Tui.TextEditor
import Mathlib.Data.List.Flatten

namespace BurpTUI

theorem intercalate_crlf_splitOn {s : Bytes} (h : CR ∉ s) :
    CRLF.intercalate (s.splitOn LF) = normalizeCrlf s := by
  induction s with
  | nil => rfl
  | cons c cs ih =>
    have hc : c ≠ CR := fun e => h (by simp [e])
    have hcs : CR ∉ cs := fun e => h (by simp [e])
    obtain ⟨l, ls, hl⟩ := List.exists_cons_of_ne_nil (List.splitOn_ne_nil LF cs)
    have hn : normalizeCrlf (c :: cs) = normalizeCrlf [c] ++ normalizeCrlf cs :=
      normalizeCrlf_append [c] cs
    rw [hn, ← ih hcs, List.splitOn_cons_eq_if_modifyHead, hl]
    by_cases hlf : c = LF
    · simp [hlf, normalizeCrlf, CR, LF, CRLF]
    · cases ls <;> simp [hlf, hc, normalizeCrlf]

/-- What goes into the editor comes out with its line ends normalized. -/
theorem getText_setText (e : TextEditor) (t : Bytes) :
    (e.setText t).getText = normalizeCrlf t := by
  have h : normalizeCrlf (t.filter (· ≠ CR)) = normalizeCrlf t := by
    induction t with
    | nil => rfl
    | cons c cs ih =>
      by_cases hc : c = CR
      · simpa [hc, normalizeCrlf] using ih
      · simpa [hc, normalizeCrlf] using ih
  unfold TextEditor.setText TextEditor.getText
  rw [intercalate_crlf_splitOn (by simp), h]

namespace HttpRequest.Delivered

variable {r : HttpRequest} (hr : r.Delivered)
include hr

theorem plain_headerLine {h : Header} (hh : h ∈ r.headers) : Plain (headerLine h) := by
  have hn := hr.names h hh
  have hs : Plain (str ": ") := ⟨by decide, by decide⟩
  have hname : Plain h.1 := ⟨hn.2.1, hn.2.2⟩
  exact (hname.append hs).append (hr.values h hh)

theorem plain_firstLine :
    Plain (r.method ++ str " " ++ r.url ++ str " " ++ r.version) := by
  have hs : Plain (str " ") := ⟨by decide, by decide⟩
  have hm := plain_of_noBlank hr.method
  have hu := plain_of_noBlank hr.url
  exact (((hm.append hs).append hu).append hs).append (plain_of_noBlank hr.version)

theorem crlfText_requestLine : CrlfText r.requestLine := by
  have h := CrlfText.line hr.plain_firstLine (.last .nil)
  simpa [HttpRequest.requestLine, CRLF] using h

theorem crlfText_headers {hs : List Header} (hsub : ∀ h ∈ hs, h ∈ r.headers) :
    CrlfText (serializeHeaders hs) := by
  have hplain : ∀ l ∈ hs.map headerLine, Plain l := by
    rw [List.forall_mem_map]
    exact fun h hh => hr.plain_headerLine (hsub h hh)
  have hlines := CrlfText.lines hplain (.last .nil)
  rwa [List.append_nil, ← serializeHeaders_eq] at hlines

theorem serialize_eq :
    r.serialize = r.requestLine ++ serializeHeaders r.headers ++ CRLF ++ r.body := by
  simp [HttpRequest.serialize, hr.rawOverride]

end HttpRequest.Delivered

section HostLine

/-- The host that `Session` or `MitmSession` passes to `interceptRequest` along with `r`. -/
def HeldFor (r : HttpRequest) (host : Bytes) : Prop :=
  host = (splitHostPort (plainHostPort r) (str "80")).1 ∨
    ∃ target, NoBlank target ∧ host = (splitHostPort target (str "443")).1

/-- The `Host` line that the editor shows is the request's first header line, as it stands, and
the only one. -/
def HostLineStays (headers : List Header) (shown : Bytes) : Prop :=
  if shown = [] then ∀ h ∈ headers, isHostName h.1 = false
  else ∃ rest, headers = (str "Host", shown) :: rest ∧ ∀ h ∈ rest, isHostName h.1 = false

theorem splitHostPort_part (s d : Bytes) : (splitHostPort s d).1 <:+: s := by
  unfold splitHostPort
  split
  · rename_i host port h
    have hs := Search.cut_spec h
    exact ⟨[], str ":" ++ port, by simp [hs]⟩
  · exact List.infix_rfl

theorem urlAuthority_part (url : Bytes) : urlAuthority url <:+: url := by
  unfold urlAuthority
  split
  · rename_i a rest h
    have hs := Search.cut_spec h
    split
    · rename_i authority path h'
      have hs' := Search.cut_spec h'
      exact ⟨a ++ str "://", str "/" ++ path, by simp [hs, hs']⟩
    · exact ⟨a ++ str "://", [], by simp [hs]⟩
  · exact List.nil_infix

theorem plainHostPort_part (r : HttpRequest) :
    plainHostPort r <:+: r.url ∨ plainHostPort r <:+: r.header (str "Host") := by
  unfold plainHostPort
  split
  · exact .inl (urlAuthority_part r.url)
  · exact .inr List.infix_rfl

theorem stripScheme_part (s : Bytes) : stripScheme s <:+: s := by
  unfold stripScheme
  split
  · exact (List.drop_suffix 8 s).isInfix
  · split
    · exact (List.drop_suffix 7 s).isInfix
    · exact List.infix_rfl

theorem stripTrailingSlash_part (s : Bytes) : stripTrailingSlash s <:+: s := by
  unfold stripTrailingSlash
  split
  · exact (List.dropLast_prefix s).isInfix
  · exact List.infix_rfl

theorem stripHttpMark_part (s : Bytes) : stripHttpMark s <:+: s := by
  unfold stripHttpMark
  split
  · rename_i before rest h
    have hs := Search.cut_spec h
    exact ⟨[], str " (HTTP" ++ rest, by simp [hs]⟩
  · exact List.infix_rfl

theorem stripHttpMark_unmarked (s : Bytes) : ¬ str " (HTTP" <:+: stripHttpMark s := by
  unfold stripHttpMark
  split
  · rename_i before rest h
    exact Search.cut_first (by decide) h
  · rename_i h
    exact Search.cut_eq_none_iff.mp h

theorem shownHost_part (r : HttpRequest) (host : Bytes) :
    shownHost r host <:+: if host = [] then r.header (str "Host") else host :=
  (stripHttpMark_part _).trans ((stripTrailingSlash_part _).trans (stripScheme_part _))

theorem NoBlank.of_part {s t : Bytes} (h : NoBlank t) (hs : s <:+: t) : NoBlank s :=
  fun c hc => h c (hs.subset hc)

theorem HeldFor.shown {r : HttpRequest} {host : Bytes} (hr : r.Delivered) (h : HeldFor r host) :
    NoBlank (shownHost r host) ∨ shownHost r host <:+: r.header (str "Host") := by
  have hi := shownHost_part r host
  by_cases hn : host = []
  · rw [if_pos hn] at hi
    exact .inr hi
  · rw [if_neg hn] at hi
    rcases h with rfl | ⟨target, ht, rfl⟩
    · have hi' := hi.trans (splitHostPort_part _ _)
      rcases plainHostPort_part r with hp | hp
      · exact .inl (hr.url.of_part (hi'.trans hp))
      · exact .inr (hi'.trans hp)
    · exact .inl (ht.of_part (hi.trans (splitHostPort_part _ _)))

theorem plain_header {r : HttpRequest} (hr : r.Delivered) (name : Bytes) :
    Plain (r.header name) := by
  unfold HttpRequest.header headerValue
  cases h : r.headers.find? fun h => h.1 == name with
  | none => exact .nil
  | some hd => exact hr.values hd (List.mem_of_find?_eq_some h)

theorem Plain.of_part {s t : Bytes} (h : Plain t) (hs : s <:+: t) : Plain s :=
  ⟨fun hc => h.1 (hs.subset hc), fun hc => h.2 (hs.subset hc)⟩

theorem HeldFor.plain {r : HttpRequest} {host : Bytes} (hr : r.Delivered) (h : HeldFor r host) :
    Plain (shownHost r host) := by
  rcases h.shown hr with hs | hs
  · exact plain_of_noBlank hs
  · exact (plain_header hr _).of_part hs

/-- In a `Host` line a marker can only be erased right behind the colon. -/
theorem eraseFirst_host {m t : Bytes} (h : ¬ 32 :: m <:+: t) :
    Search.eraseFirst (32 :: m) (str "Host:" ++ 32 :: t) =
      str "Host:" ++ if m <+: t then t.drop m.length else 32 :: t := by
  have hnone : Search.cut (32 :: m) t = none := Search.cut_eq_none_iff.mpr h
  have hskip := Search.cut_skip (p := m) (s := 32 :: t) (show 32 ∉ str "Host:" by decide)
  unfold Search.eraseFirst
  rw [hskip]
  by_cases hp : m <+: t
  · simp [Search.cut, hp]
  · simp [Search.cut, hp, hnone]

theorem eraseFirst_afterHost {m t : Bytes} (h : ¬ 32 :: m <:+: t) :
    Search.eraseFirst (32 :: m) (str "Host:" ++ t) = str "Host:" ++ t := by
  have hnone : Search.cut (32 :: m) t = none := Search.cut_eq_none_iff.mpr h
  have hskip := Search.cut_skip (p := m) (s := t) (show 32 ∉ str "Host:" by decide)
  unfold Search.eraseFirst
  rw [hskip, hnone]
  rfl

theorem eraseMarkers_host {shown : Bytes} (h : ¬ str " (HTTP" <:+: shown) :
    ∃ t, eraseMarkers (str "Host:" ++ 32 :: shown) = str "Host:" ++ t ∧
      (t = 32 :: shown ∨ t <:+ shown ∧ t.length + 6 ≤ shown.length) := by
  have hs {t : Bytes} (ht : t <:+ shown) : ¬ 32 :: str "(HTTPS)" <:+: t := fun e =>
    h ((show str " (HTTP" <:+: 32 :: str "(HTTPS)" from ⟨[], str "S)", rfl⟩).trans
      (e.trans ht.isInfix))
  have hp {t : Bytes} (ht : t <:+ shown) : ¬ 32 :: str "(HTTP)" <:+: t := fun e =>
    h ((show str " (HTTP" <:+: 32 :: str "(HTTP)" from ⟨[], str ")", rfl⟩).trans
      (e.trans ht.isInfix))
  have hmark1 : str " (HTTPS)" = 32 :: str "(HTTPS)" := rfl
  have hmark2 : str " (HTTP)" = 32 :: str "(HTTP)" := rfl
  unfold eraseMarkers
  rw [hmark1, hmark2, eraseFirst_host (hs List.suffix_rfl)]
  by_cases h1 : str "(HTTPS)" <+: shown
  · have hd : shown.drop (str "(HTTPS)").length <:+ shown := List.drop_suffix _ _
    rw [if_pos h1, eraseFirst_afterHost (hp hd)]
    have hlen : (str "(HTTPS)").length ≤ shown.length := h1.length_le
    have h7 : (str "(HTTPS)").length = 7 := by decide
    exact ⟨_, rfl, .inr ⟨hd, by rw [List.length_drop]; omega⟩⟩
  · rw [if_neg h1, eraseFirst_host (hp List.suffix_rfl)]
    by_cases h2 : str "(HTTP)" <+: shown
    · rw [if_pos h2]
      have hlen : (str "(HTTP)").length ≤ shown.length := h2.length_le
      have h6 : (str "(HTTP)").length = 6 := by decide
      exact ⟨_, rfl, .inr ⟨List.drop_suffix _ _, by rw [List.length_drop]; omega⟩⟩
    · exact ⟨_, by rw [if_neg h2], .inl rfl⟩

theorem serializeHeaders_filter_length (p : Header → Bool) (hs : List Header) :
    (serializeHeaders (hs.filter p)).length ≤ (serializeHeaders hs).length :=
  (List.filter_sublist.flatMap _).length_le

theorem kept_of_length {p : Header → Bool} {hs : List Header}
    (hl : (serializeHeaders hs).length ≤ (serializeHeaders (hs.filter p)).length) :
    ∀ h ∈ hs, p h = true := by
  induction hs with
  | nil => simp
  | cons h hs ih =>
    have hle := serializeHeaders_filter_length p hs
    cases hp : p h with
    | true =>
      simp only [List.filter_cons, hp, if_true, serializeHeaders_cons, List.length_append,
        List.length_cons] at hl
      have hrest := ih (by omega)
      intro h' hh'
      rcases List.mem_cons.mp hh' with rfl | hh'
      · exact hp
      · exact hrest h' hh'
    | false =>
      simp only [List.filter_cons, hp, serializeHeaders_cons, List.length_append,
        List.length_cons] at hl
      simp at hl
      omega

/-- Header lines that the clean-up gives back unchanged were all kept. -/
theorem kept_of_eraseMarkers {p : Header → Bool} {hs : List Header} {body : Bytes}
    (h : eraseMarkers (serializeHeaders (hs.filter p) ++ CRLF ++ body) =
      serializeHeaders hs ++ CRLF ++ body) :
    ∀ h ∈ hs, p h = true := by
  have hlen := eraseMarkers_length_le (serializeHeaders (hs.filter p) ++ CRLF ++ body)
  rw [h] at hlen
  simp only [List.length_append] at hlen
  exact kept_of_length (by omega)

theorem format_of_stays {r : HttpRequest} {host : Bytes} (isHttps : Bool) (hr : r.Delivered)
    (h : HostLineStays r.headers (shownHost r host)) :
    formatHttpRequestRaw r isHttps host = r.serialize := by
  have hall {hs : List Header} (hn : ∀ h ∈ hs, isHostName h.1 = false) :
      hs.filter (fun h => !isHostName h.1) = hs :=
    List.filter_eq_self.mpr fun h hh => by simp [hn h hh]
  have hhost : isHostName (str "Host") = true := by decide
  have hcolon : str "Host: " = str "Host" ++ str ": " := rfl
  rw [hr.serialize_eq, formatHttpRequestRaw, if_neg (by simp [hr.rawOverride])]
  unfold HostLineStays at h
  split at h
  · rename_i hn
    simp [hostLine, hn, hall h]
  · rename_i hn
    obtain ⟨rest, hrest, hnone⟩ := h
    rw [hrest, List.filter_cons_of_neg (by simp [hhost]), hall hnone]
    simp [hostLine, hn, serializeHeaders, hcolon]

/-- The lines behind the request line decide that the `Host` line stays. -/
theorem stays_of_eraseMarkers {r : HttpRequest} {host : Bytes} (hr : r.Delivered)
    (hh : HeldFor r host)
    (h : eraseMarkers (hostLine (shownHost r host) ++
        serializeHeaders (r.headers.filter fun h => !isHostName h.1) ++ CRLF ++ r.body) =
      serializeHeaders r.headers ++ CRLF ++ r.body) :
    HostLineStays r.headers (shownHost r host) := by
  have hshown := hh.shown hr
  have hplain := hh.plain hr
  have hmark : ¬ str " (HTTP" <:+: shownHost r host := stripHttpMark_unmarked _
  unfold HostLineStays
  generalize shownHost r host = shown at *
  split
  · rename_i hn
    simp only [hn, hostLine, if_true, List.nil_append] at h
    exact fun h' hh' => by simpa using kept_of_eraseMarkers h h' hh'
  · rename_i hn
    have hpl : Plain (str "Host:" ++ 32 :: shown) :=
      Plain.append ⟨by decide, by decide⟩ (Plain.append (a := [32]) ⟨by decide, by decide⟩ hplain)
    have hline (R : Bytes) : hostLine shown ++ R = (str "Host:" ++ 32 :: shown) ++ CR :: LF :: R := by
      have h1 : str "Host: " = str "Host:" ++ [32] := rfl
      simp [hostLine, hn, h1, CRLF]
    obtain ⟨R', hR, hkeep⟩ := eraseMarkers_line (str "Host:" ++ 32 :: shown)
      (serializeHeaders (r.headers.filter fun h => !isHostName h.1) ++ CRLF ++ r.body)
    obtain ⟨t, ht, hcase⟩ := eraseMarkers_host hmark
    rw [List.append_assoc, List.append_assoc, hline, ← List.append_assoc, hR] at h
    -- the `Host` line comes back as the first line of the header section
    have hpl' := plain_eraseMarkers hpl
    cases hhs : r.headers with
    | nil =>
      rw [hhs] at h
      have hnil := (line_inj hpl' .nil h).1
      rw [ht] at hnil
      simp [str] at hnil
    | cons hd rest =>
      have hpd : Plain (headerLine hd) := hr.plain_headerLine (by simp [hhs])
      rw [hhs, serializeHeaders_cons, List.append_assoc, List.append_assoc] at h
      obtain ⟨hl, hrest⟩ := line_inj hpl' hpd h
      rw [ht] at hl
      -- the first colon of the line ends the name
      have hcut := Search.cut_singleton 58 (str "Host") t (by decide)
      have hname : 58 ∉ hd.1 := (hr.names hd (by simp [hhs])).1
      have hcut' := Search.cut_singleton 58 hd.1 (32 :: hd.2) hname
      have hsame : str "Host" ++ 58 :: t = hd.1 ++ 58 :: 32 :: hd.2 := by
        simpa [headerLine, str] using hl
      rw [hsame, hcut'] at hcut
      simp only [Option.some.injEq, Prod.mk.injEq] at hcut
      obtain ⟨hn1, rfl⟩ := hcut
      rcases hcase with hsp | ⟨hsuf, hlen⟩
      · have hv : hd.2 = shown := by simpa using hsp
        have hhd : hd = (str "Host", shown) := Prod.ext hn1 hv
        rw [hv, eraseMarkers_eq_self_iff] at ht
        rw [hkeep ht, hhs, List.filter_cons_of_neg (by simp [hn1]; decide)] at hrest
        refine ⟨rest, by rw [hhd], fun h' hh' => ?_⟩
        have hk := kept_of_eraseMarkers (by simpa using hrest) h' hh'
        simpa using hk
      · have hblank : (32 : UInt8) ∈ shown := hsuf.subset (by simp)
        have hval : r.header (str "Host") = hd.2 := by
          simp [HttpRequest.header, headerValue, hhs, hn1]
        rcases hshown with hnb | hin
        · exact absurd rfl (hnb 32 hblank).1
        · have hle := hin.length_le
          rw [hval] at hle
          simp only [List.length_cons] at hlen
          omega

end HostLine

section Forward

theorem endsCrlf_append {a b : Bytes} (ha : CRLF <:+ a) (hb : b = [] ∨ CRLF <:+ b) :
    CRLF <:+ a ++ b := by
  rcases hb with rfl | hb
  · simpa using ha
  · exact hb.trans (List.suffix_append a b)

theorem serializeHeaders_endsCrlf (hs : List Header) :
    serializeHeaders hs = [] ∨ CRLF <:+ serializeHeaders hs := by
  induction hs with
  | nil => exact .inl rfl
  | cons h hs ih =>
    have hl : CRLF <:+ headerLine h ++ CRLF := List.suffix_append _ _
    have happ : serializeHeaders (h :: hs) = headerLine h ++ CRLF ++ serializeHeaders hs := by
      simp [serializeHeaders_cons, CRLF]
    rw [happ]
    exact .inr (endsCrlf_append hl ih)

theorem hostLine_endsCrlf (shown : Bytes) : hostLine shown = [] ∨ CRLF <:+ hostLine shown := by
  unfold hostLine
  split
  · exact .inl rfl
  · exact .inr (List.suffix_append _ _)

/-- Everything that `formatHttpRequestRaw` writes before the body. -/
def shownHead (r : HttpRequest) (host : Bytes) : Bytes :=
  r.requestLine ++ hostLine (shownHost r host) ++
    serializeHeaders (r.headers.filter fun h => !isHostName h.1) ++ CRLF

/-- What goes upstream when a held request is forwarded as the editor shows it. -/
def resent (e : TextEditor) (r : HttpRequest) (isHttps : Bool) (host : Bytes) : Bytes :=
  (parseRawHttpRequest (e.setText (formatHttpRequestRaw r isHttps host)).getText).serialize

variable {r : HttpRequest} {host : Bytes} (hr : r.Delivered)
include hr

theorem formatHttpRequestRaw_eq (isHttps : Bool) :
    formatHttpRequestRaw r isHttps host = shownHead r host ++ r.body := by
  rw [formatHttpRequestRaw, if_neg (by simp [hr.rawOverride]), shownHead]

omit hr in
theorem blankLine_shownHead (r : HttpRequest) (host : Bytes) : CRLF ++ CRLF <:+: shownHead r host := by
  have hreq : CRLF <:+ r.requestLine := List.suffix_append _ _
  have hpre := endsCrlf_append (endsCrlf_append hreq (hostLine_endsCrlf (shownHost r host)))
    (serializeHeaders_endsCrlf (r.headers.filter fun h => !isHostName h.1))
  obtain ⟨a, ha⟩ := hpre
  refine ⟨a, [], ?_⟩
  rw [shownHead, ← ha]
  simp

theorem crlfText_shownHead (hh : HeldFor r host) : CrlfText (shownHead r host) := by
  have hhost : CrlfText (hostLine (shownHost r host)) := by
    unfold hostLine
    split
    · exact .last .nil
    · have hl : Plain (str "Host: " ++ shownHost r host) :=
        Plain.append ⟨by decide, by decide⟩ (hh.plain hr)
      simpa [CRLF] using CrlfText.line hl (.last .nil)
  have hfields : CrlfText (serializeHeaders (r.headers.filter fun h => !isHostName h.1)) :=
    hr.crlfText_headers fun h hf => (List.mem_filter.mp hf).1
  exact ((hr.crlfText_requestLine.append hhost).append hfields).append .crlf

theorem resent_eq (e : TextEditor) (isHttps : Bool) (hh : HeldFor r host) :
    resent e r isHttps host = eraseMarkers (shownHead r host ++ normalizeCrlf r.body) := by
  have hhead := crlfText_shownHead hr hh
  have hcrlf : CrlfText (eraseMarkers (shownHead r host ++ normalizeCrlf r.body)) :=
    (hhead.append (crlfText_normalize r.body)).eraseMarkers
  have hblank : CRLF ++ CRLF <:+: eraseMarkers (shownHead r host ++ normalizeCrlf r.body) :=
    blankLine_eraseMarkers ((blankLine_shownHead r host).trans
      (List.prefix_append _ _).isInfix)
  unfold resent
  rw [parseRawHttpRequest_serialize, getText_setText, formatHttpRequestRaw_eq hr,
    normalizeCrlf_append, hhead.normalize, hcrlf.normalize, endHeaders_of_blankLine hblank]

/-- A held request that is forwarded untouched goes upstream unchanged exactly when its `Host`
line stands first and as the editor shows it, its body has CRLF line ends only, and no marker
occurs in it anywhere. -/
theorem held_request_unchanged_iff (e : TextEditor) (isHttps : Bool) (hh : HeldFor r host) :
    resent e r isHttps host = r.serialize ↔
      HostLineStays r.headers (shownHost r host) ∧ CrlfText r.body ∧ ¬ Marked r.serialize := by
  have hhead := crlfText_shownHead hr hh
  rw [resent_eq hr e isHttps hh]
  constructor
  · intro h
    have hpre : CrlfText (r.requestLine ++ serializeHeaders r.headers ++ CRLF) :=
      (hr.crlfText_requestLine.append (hr.crlfText_headers fun _ hm => hm)).append .crlf
    have hbody : CrlfText r.body := by
      refine hpre.of_append ?_
      rw [← hr.serialize_eq, ← h]
      exact (hhead.append (crlfText_normalize r.body)).eraseMarkers
    rw [hbody.normalize] at h
    have hfirst (R : Bytes) : r.requestLine ++ R =
        (r.method ++ str " " ++ r.url ++ str " " ++ r.version) ++ CR :: LF :: R := by
      simp [HttpRequest.requestLine, CRLF]
    have hsplit : shownHead r host ++ r.body = r.requestLine ++ (hostLine (shownHost r host) ++
        serializeHeaders (r.headers.filter fun h => !isHostName h.1) ++ CRLF ++ r.body) := by
      simp [shownHead]
    have hser : r.serialize =
        r.requestLine ++ (serializeHeaders r.headers ++ CRLF ++ r.body) := by
      rw [hr.serialize_eq]
      simp
    obtain ⟨rest', hline, hkeep⟩ := eraseMarkers_line
      (r.method ++ str " " ++ r.url ++ str " " ++ r.version) (hostLine (shownHost r host) ++
        serializeHeaders (r.headers.filter fun h => !isHostName h.1) ++ CRLF ++ r.body)
    have hstays : HostLineStays r.headers (shownHost r host) := by
      have h' := h
      rw [hsplit, hser, hfirst, hline, hfirst] at h'
      obtain ⟨hl, hrest⟩ :=
        line_inj (plain_eraseMarkers hr.plain_firstLine) hr.plain_firstLine h'
      rw [hkeep (eraseMarkers_eq_self_iff.mp hl)] at hrest
      exact stays_of_eraseMarkers hr hh hrest
    refine ⟨hstays, hbody, ?_⟩
    rw [← formatHttpRequestRaw_eq hr isHttps, format_of_stays isHttps hr hstays] at h
    exact eraseMarkers_eq_self_iff.mp h
  · rintro ⟨hstays, hbody, hmark⟩
    rw [hbody.normalize, ← formatHttpRequestRaw_eq hr isHttps, format_of_stays isHttps hr hstays]
    exact eraseMarkers_eq_self_iff.mpr hmark

end Forward

/-- A POST whose `Host` header names a port. -/
def portRequest : HttpRequest :=
  { method := str "POST", url := str "/a", headers := [(str "Host", str "a:8080")]
    body := str "x" }

theorem portRequest_delivered : portRequest.Delivered := by
  constructor <;> decide

theorem portRequest_heldFor : HeldFor portRequest (str "a") := .inl (by decide)

theorem held_request_unchanged_iff_portRequest :
    resent {} portRequest false (str "a") = portRequest.serialize ↔
      HostLineStays portRequest.headers (shownHost portRequest (str "a")) ∧
        CrlfText portRequest.body ∧ ¬ Marked portRequest.serialize :=
  held_request_unchanged_iff portRequest_delivered {} false portRequest_heldFor

/-- The `Host` header loses its port, since the editor is given the host without it. -/
theorem held_request_loses_port : ¬ ∀ (r : HttpRequest) (isHttps : Bool) (host : Bytes),
    r.Delivered → HeldFor r host → resent {} r isHttps host = r.serialize := by
  intro h
  have hsame := h portRequest false (str "a") portRequest_delivered portRequest_heldFor
  exact absurd hsame (by decide)

end BurpTUI
