import BurpTUI.Http.CrlfText
import BurpTUI.Http.MessageSequence

namespace BurpTUI

section WellFormed

/-- Blanks behind a value may count as a part of it: llhttp reports them so. -/
structure Field.WellFormed (f : Field) : Prop where
  name : f.name ≠ [] ∧ 58 ∉ f.name ∧ Plain f.name
  before : ∀ c ∈ f.before, isBlank c = true
  value : Plain f.value ∧ f.value.head?.all (fun c => !isBlank c) = true
  after : ∀ c ∈ f.after, isBlank c = true

def hexDigit (c : UInt8) : Option ℕ :=
  if isDigit c then some (c.toNat - 48)
  else if 97 ≤ toLower c ∧ toLower c ≤ 102 then some ((toLower c).toNat - 87)
  else none

/-- The size at the head of a chunk's size line. Behind it may stand an extension. -/
def chunkSize (line : Bytes) : Option ℕ :=
  let digits := line.takeWhile fun c => (hexDigit c).isSome
  let extension := line.drop digits.length
  if digits ≠ [] ∧ (extension.head?.all fun c => isBlank c || c == 59) then
    some (digits.foldl (fun n c => 16 * n + (hexDigit c).getD 0) 0)
  else none

def valuesOf (headers : List Header) (lowerName : Bytes) : List Bytes :=
  (headers.filter fun h => h.1.map toLower == lowerName).map Prod.snd

/-- The values of the `Transfer-Encoding` headers. -/
def transferEncodings (headers : List Header) : List Bytes :=
  valuesOf headers (str "transfer-encoding")

def contentLengths (headers : List Header) : List Bytes :=
  valuesOf headers (str "content-length")

/-- The last one of the transfer codings that a value lists. -/
def lastCoding (value : Bytes) : Bytes :=
  (trimBlanks ((value.splitOn 44).getLastD [])).map toLower

/-- The body is framed as the headers announce. -/
def Framed (headers : List Header) : WireBody → Prop
  | .plain data => transferEncodings headers = [] ∧
      (contentLengths headers = [] ∧ data = [] ∨ ∃ value, contentLengths headers = [value] ∧
        trimBlanks value ≠ [] ∧ (trimBlanks value).all isDigit ∧ digitsValue (trimBlanks value) = data.length)
  | .chunked chunks last _ =>
      (transferEncodings headers).getLast?.map lastCoding = some (str "chunked") ∧
      contentLengths headers = [] ∧
      (∀ c ∈ chunks, Plain c.1 ∧ c.2 ≠ [] ∧ chunkSize c.1 = some c.2.length) ∧
      Plain last ∧ chunkSize last = some 0

structure RequestMessage.WellFormed (m : RequestMessage) : Prop where
  method : m.method ≠ [] ∧ NoBlank m.method
  url : m.url ≠ [] ∧ NoBlank m.url
  fields : ∀ f ∈ m.fields ++ m.body.trailers, f.WellFormed
  framing : Framed (m.fields.map Field.header) m.body

/-- The bytes are one well-framed message that stands for `r`. -/
def Represents (bytes : Bytes) (r : HttpRequest) : Prop :=
  ∃ m : RequestMessage, m.WellFormed ∧ m.request = r ∧ m.message.wire = bytes

end WellFormed

section Lines

theorem RequestMessage.WellFormed.namesGiven {m : RequestMessage} (hm : m.WellFormed) :
    m.message.NamesGiven := fun f hf => (hm.fields f hf).name.1

def fieldLine (f : Field) : Bytes := f.name ++ str ":" ++ f.before ++ f.value ++ f.after

theorem wireOf_fields_cons (f : Field) (fs : List Field) :
    wireOf ((f :: fs).flatMap Field.pieces) =
      fieldLine f ++ CR :: LF :: wireOf (fs.flatMap Field.pieces) := by
  simp [wireOf, Field.pieces, Piece.bytes, fieldLine, CRLF]

theorem RequestMessage.wire_eq (m : RequestMessage) :
    m.message.wire = m.request.requestLine ++ wireOf (m.fields.flatMap Field.pieces) ++
      CRLF ++ wireOf m.body.pieces := by
  simp [WireMessage.wire, WireMessage.pieces, WireMessage.core, RequestMessage.message,
    wireOf_append, wireOf_cons, Piece.bytes, HttpRequest.requestLine, RequestMessage.request]
  simp [wireOf]

theorem RequestMessage.serialize_eq (m : RequestMessage) :
    m.request.serialize = m.request.requestLine ++ serializeHeaders m.message.headers ++
      CRLF ++ m.body.data := by
  simp [HttpRequest.serialize, RequestMessage.request]

theorem plain_blanks {s : Bytes} (h : ∀ c ∈ s, isBlank c = true) : Plain s := by
  constructor
  · intro hc
    exact absurd (h _ hc) (by decide)
  · intro hc
    exact absurd (h _ hc) (by decide)

theorem Field.WellFormed.plain_line {f : Field} (hf : f.WellFormed) : Plain (fieldLine f) := by
  have hcolon : Plain (str ":") := ⟨by decide, by decide⟩
  have hbefore := plain_blanks hf.before
  have hafter := plain_blanks hf.after
  exact (((hf.name.2.2.append hcolon).append hbefore).append hf.value.1).append hafter

theorem plain_headerLine_of_wellFormed {f : Field} (hf : f.WellFormed) :
    Plain (headerLine f.header) := by
  have hs : Plain (str ": ") := ⟨by decide, by decide⟩
  exact (hf.name.2.2.append hs).append hf.value.1

theorem headerLine_ne_nil (h : Header) : headerLine h ≠ [] := by
  simp [headerLine, str]

/-- Header lines end where the blank line stands. -/
theorem headers_end {fs rest : List Field} (hfs : ∀ f ∈ fs ++ rest, f.WellFormed) {a b : Bytes}
    (h : wireOf (fs.flatMap Field.pieces) ++ CRLF ++ a =
      serializeHeaders ((fs ++ rest).map Field.header) ++ CRLF ++ b) :
    rest = [] ∧ a = b := by
  induction fs with
  | nil =>
    cases rest with
    | nil => simpa [wireOf, serializeHeaders] using h
    | cons f rest =>
      have h' : [] ++ CR :: LF :: a = headerLine f.header ++
          CR :: LF :: (serializeHeaders (rest.map Field.header) ++ CRLF ++ b) := by
        simpa [wireOf, CRLF, serializeHeaders_cons] using h
      have hline := line_inj .nil (plain_headerLine_of_wellFormed (hfs f (by simp))) h'
      exact absurd hline.1.symm (headerLine_ne_nil _)
  | cons f fs ih =>
    rw [wireOf_fields_cons, List.cons_append, List.map_cons, serializeHeaders_cons] at h
    simp only [List.append_assoc, List.cons_append] at h
    have hf := hfs f (by simp)
    have hline := line_inj hf.plain_line (plain_headerLine_of_wellFormed hf) h
    exact ih (fun g hg => hfs g (by simp [hg])) (by simpa using hline.2)

/-- A chunked body is longer than the data in it. -/
theorem data_lt_chunked (chunks : List (Bytes × Bytes)) (last : Bytes) (trailers : List Field) :
    (WireBody.chunked chunks last trailers).data.length <
      (wireOf (WireBody.chunked chunks last trailers).pieces).length := by
  have hchunks : (chunks.flatMap Prod.snd).length ≤
      (wireOf (chunks.flatMap WireBody.chunkPieces)).length := by
    induction chunks with
    | nil => simp
    | cons c chunks ih =>
      simp only [List.flatMap_cons, wireOf_append, List.length_append]
      have hc : c.2.length ≤ (wireOf (WireBody.chunkPieces c)).length := by
        simp only [WireBody.chunkPieces, optionalSpan, wireOf_cons, Piece.bytes,
          List.length_append]
        omega
      omega
  have hlast : 0 < (last ++ CRLF).length := by simp [CRLF]
  simp only [WireBody.data, WireBody.pieces, wireOf_append, wireOf_cons, Piece.bytes,
    List.length_append] at hlast ⊢
  omega

end Lines

section Serialized

variable {m : RequestMessage}

def Field.plainly (f : Field) : Field := { name := f.name, value := f.value }

theorem wireOf_plainly (fs : List Field) :
    wireOf ((fs.map Field.plainly).flatMap Field.pieces) =
      serializeHeaders (fs.map Field.header) := by
  induction fs with
  | nil => rfl
  | cons f fs ih =>
    rw [List.map_cons, wireOf_fields_cons, ih, List.map_cons, serializeHeaders_cons]
    simp [fieldLine, Field.plainly, headerLine, Field.header, str]

/-- The serialized form of a request whose body came as it is. -/
theorem represents_of_plain (hm : m.WellFormed) {data : Bytes} (hb : m.body = .plain data) :
    Represents m.request.serialize m.request := by
  let m' : RequestMessage := { m with fields := m.fields.map Field.plainly }
  have hheaders : (m.fields.map Field.plainly).map Field.header = m.fields.map Field.header := by
    rw [List.map_map]
    rfl
  have htrailers : m.body.trailers = [] := by rw [hb]; rfl
  have hreq : m'.request = m.request := by
    simp [m', RequestMessage.request, RequestMessage.message, WireMessage.headers, htrailers,
      RequestMessage.parser, hheaders]
  refine ⟨m', ⟨hm.method, hm.url, ?_, ?_⟩, hreq, ?_⟩
  · intro f hf
    simp only [m', htrailers, List.append_nil, List.mem_map] at hf
    obtain ⟨g, hg, rfl⟩ := hf
    have hwf := hm.fields g (by simp [hg])
    have hblank : ∀ c ∈ str " ", isBlank c = true := by decide
    exact ⟨hwf.name, hblank, hwf.value, List.forall_mem_nil _⟩
  · show Framed ((m.fields.map Field.plainly).map Field.header) m.body
    rw [hheaders]
    exact hm.framing
  · rw [RequestMessage.wire_eq, RequestMessage.serialize_eq, hreq]
    have hfields : m.message.headers = m.fields.map Field.header := by
      simp [WireMessage.headers, RequestMessage.message, htrailers]
    show _ ++ wireOf ((m.fields.map Field.plainly).flatMap Field.pieces) ++ _ ++ _ = _
    rw [wireOf_plainly, hfields, hb]
    simp [WireBody.pieces, WireBody.data, wireOf, optionalSpan, Piece.bytes]

/-- A chunked body is sent decoded under headers that still announce chunks. -/
theorem not_represents_of_chunked (hm : m.WellFormed) {chunks : List (Bytes × Bytes)}
    {last : Bytes} {trailers : List Field} (hb : m.body = .chunked chunks last trailers) :
    ¬ Represents m.request.serialize m.request := by
  rintro ⟨m', hm', hreq, hwire⟩
  have hheaders : m'.message.headers = m.message.headers := congrArg HttpRequest.headers hreq
  have hdata : m'.body.data = m.body.data := congrArg HttpRequest.body hreq
  -- chunks need a transfer encoding, and a plain body excludes one
  have hte : transferEncodings m.message.headers ≠ [] := by
    have hframed := hm.framing
    rw [hb] at hframed
    have hlast := hframed.1
    intro hnil
    have happ : transferEncodings m.message.headers =
        transferEncodings (m.fields.map Field.header) ++
          transferEncodings (m.body.trailers.map Field.header) := by
      simp [transferEncodings, valuesOf, WireMessage.headers, RequestMessage.message]
    rw [happ, List.append_eq_nil_iff] at hnil
    rw [hnil.1] at hlast
    cases hlast
  cases hb' : m'.body with
  | plain data =>
    have hframed := hm'.framing
    rw [hb'] at hframed
    have hfields : m'.message.headers = m'.fields.map Field.header := by
      simp [WireMessage.headers, RequestMessage.message, hb', WireBody.trailers]
    rw [← hheaders, hfields] at hte
    exact hte hframed.1
  | chunked chunks' last' trailers' =>
    -- the same data in chunks is longer than `serialize` writes it
    rw [RequestMessage.wire_eq, hreq, RequestMessage.serialize_eq, ← hheaders] at hwire
    simp only [List.append_assoc, List.append_cancel_left_eq] at hwire
    have hend := headers_end hm'.fields (a := wireOf m'.body.pieces) (b := m.body.data) (by
      rw [List.append_assoc, List.append_assoc]
      exact hwire)
    have hlt := data_lt_chunked chunks' last' trailers'
    rw [← hb', hdata, ← hend.2] at hlt
    omega

variable {L : Llhttp} {At : L.State → List Piece → Prop} {chunks : List Bytes}

theorem takeRequests_one (hL : L.Reads At) (hm : m.message.NamesGiven)
    (hat : At (L.init .request) m.message.pieces) (hc : chunks.flatten = m.message.wire) :
    (HttpParser.new : HttpParser L).takeRequests chunks = [m.request] := by
  have hms : ∀ r ∈ [m], r.message.NamesGiven ∧ At (L.init .request) r.message.pieces := by
    intro r hr
    rw [List.mem_singleton.mp hr]
    exact ⟨hm, hat⟩
  exact takeRequests_aligned hL hms ⟨[chunks], by simp, by simp [hc]⟩

/-- What is sent upstream for a well-formed message is well framed exactly when its body did not
come in chunks. -/
theorem serialized_request_framed_iff (hL : L.Reads At) (hm : m.WellFormed)
    (hat : At (L.init .request) m.message.pieces) (hc : chunks.flatten = m.message.wire) :
    ∃ r, (HttpParser.new : HttpParser L).takeRequests chunks = [r] ∧
      (Represents r.serialize r ↔ ∃ data, m.body = .plain data) := by
  refine ⟨m.request, takeRequests_one hL hm.namesGiven hat hc, fun h => ?_, ?_⟩
  · cases hb : m.body with
    | plain data => exact ⟨data, rfl⟩
    | chunked chunks last trailers => exact absurd h (not_represents_of_chunked hm hb)
  · rintro ⟨data, hb⟩
    exact represents_of_plain hm hb

end Serialized

section Examples

/-- A POST whose body comes in one chunk. -/
def chunkedPost : RequestMessage :=
  { method := str "POST", url := str "/"
    fields := [{ name := str "Transfer-Encoding", value := str "chunked" }]
    body := .chunked [(str "2", str "hi")] (str "0") [] }

theorem chunkedPost_wellFormed : chunkedPost.WellFormed where
  method := by decide
  url := by decide
  fields f hf := by
    rw [List.mem_singleton.mp hf]
    exact ⟨by decide, by decide, by decide, by decide⟩
  framing := by
    refine ⟨by decide, by decide, fun c hc => ?_, by decide, by decide⟩
    rw [List.mem_singleton.mp hc]
    decide

def chunkedScript : ParserType → List Piece := fun _ => chunkedPost.message.pieces

theorem ahead_chunkedPost : Ahead (chunkedScript .request) chunkedPost.message.pieces :=
  ⟨[], .inl rfl, by simp [chunkedScript]⟩

theorem serialized_request_framed_iff_chunkedPost :
    ∃ r, (HttpParser.new : HttpParser (scripted chunkedScript)).takeRequests
        [chunkedPost.message.wire] = [r] ∧
      (Represents r.serialize r ↔ ∃ data, chunkedPost.body = .plain data) :=
  serialized_request_framed_iff (scripted_reads chunkedScript) chunkedPost_wellFormed
    ahead_chunkedPost (by simp)

/-- The bytes `hi` go upstream under `Transfer-Encoding: chunked`. -/
theorem chunked_request_sent_misframed :
    ¬ ∀ (L : Llhttp) (At : L.State → List Piece → Prop) (m : RequestMessage)
      (chunks : List Bytes), L.Reads At → m.WellFormed →
      At (L.init .request) m.message.pieces → chunks.flatten = m.message.wire →
      ∀ r ∈ (HttpParser.new : HttpParser L).takeRequests chunks, Represents r.serialize r := by
  intro h
  have hall := h _ _ chunkedPost [chunkedPost.message.wire] (scripted_reads chunkedScript)
    chunkedPost_wellFormed ahead_chunkedPost (by simp)
  have hflat : [chunkedPost.message.wire].flatten = chunkedPost.message.wire := by simp
  have hone := takeRequests_one (scripted_reads chunkedScript)
    chunkedPost_wellFormed.namesGiven ahead_chunkedPost hflat
  rw [hone] at hall
  exact not_represents_of_chunked chunkedPost_wellFormed rfl (hall _ (by simp))

end Examples

end BurpTUI
