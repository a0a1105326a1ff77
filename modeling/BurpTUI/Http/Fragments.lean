import BurpTUI.Http.Executed
import BurpTUI.Http.MessageSequence

namespace BurpTUI

/-- The text of a span, in the fragments that llhttp reports. -/
def spans (kind : SpanKind) (parts : List Bytes) : List Callback := parts.map (.span kind)

/-- A header in fragments: its name is given, and its value is reported at least once. -/
structure FieldParts where
  name : List Bytes
  value : List Bytes
  named : name.flatten ≠ []
  valued : value ≠ []

namespace FieldParts

def header (f : FieldParts) : Header := (f.name.flatten, f.value.flatten)

def callbacks (f : FieldParts) : List Callback :=
  spans .headerField f.name ++ spans .headerValue f.value

def whole (f : FieldParts) : Field := { name := f.name.flatten, value := f.value.flatten }

theorem name_ne_nil (f : FieldParts) : f.name ≠ [] := by
  intro h
  exact f.named (by rw [h]; rfl)

end FieldParts

/-- A message in fragments; `text` is the url or the status text. -/
structure MessageParts where
  text : List Bytes
  fields : List FieldParts
  body : List Bytes
  trailers : List FieldParts
  parser : Completion

namespace MessageParts

def headers (m : MessageParts) : List Header := (m.fields ++ m.trailers).map FieldParts.header

def front (kind : SpanKind) (m : MessageParts) : List Callback :=
  spans kind m.text ++ m.fields.flatMap FieldParts.callbacks ++ spans .body m.body ++
    m.trailers.flatMap FieldParts.callbacks

def callbacks (kind : SpanKind) (m : MessageParts) : List Callback :=
  m.front kind ++ [.messageComplete m.parser]

def request (m : MessageParts) : HttpRequest where
  method := m.parser.methodName
  url := m.text.flatten
  version := httpVersion m.parser
  headers := m.headers
  body := m.body.flatten

def response (m : MessageParts) : HttpResponse where
  version := httpVersion m.parser
  statusCode := m.parser.statusCode
  statusText := m.text.flatten
  headers := m.headers
  body := m.body.flatten

/-- The message as it could stand on the wire. -/
def whole (kind : SpanKind) (m : MessageParts) : WireMessage where
  start := [.span kind false m.text.flatten]
  fields := m.fields.map FieldParts.whole
  body := .chunked [([], m.body.flatten)] [] (m.trailers.map FieldParts.whole)
  parser := m.parser

end MessageParts

section Deliver

variable {c : Collector Content}

theorem deliver_append (c : Collector Content) (a b : List Callback) :
    deliver c (a ++ b) = deliver (deliver c a) b := List.foldl_append

theorem deliver_spans (kind : SpanKind) {parts : List Bytes} (hne : parts ≠ []) :
    deliver c (spans kind parts) = c.onSpan contentOps kind parts.flatten := by
  induction parts generalizing c with
  | nil => exact absurd rfl hne
  | cons part parts ih =>
    by_cases hnil : parts = []
    · simp [hnil, spans, deliver, Collector.onCallback]
    · have hstep : deliver c (spans kind (part :: parts)) =
          deliver (c.onSpan contentOps kind part) (spans kind parts) := rfl
      rw [hstep, ih hnil, onSpan_append, List.flatten_cons]

/-- Spans that are not part of a header may be reported in no fragment at all. -/
theorem deliver_freeSpans {kind : SpanKind} (hf : kind ≠ .headerField) (hv : kind ≠ .headerValue)
    (parts : List Bytes) : deliver c (spans kind parts) = c.onSpan contentOps kind parts.flatten := by
  by_cases hnil : parts = []
  · rw [hnil]
    exact (onSpan_nil c hf hv).symm
  · exact deliver_spans kind hnil

theorem deliver_field (f : FieldParts) :
    deliver c f.callbacks = collect c f.whole.pieces := by
  rw [FieldParts.callbacks, deliver_append, deliver_spans _ f.name_ne_nil, deliver_spans _ f.valued]
  rfl

theorem deliver_fields (fs : List FieldParts) :
    deliver c (fs.flatMap FieldParts.callbacks) =
      collect c ((fs.map FieldParts.whole).flatMap Field.pieces) := by
  induction fs generalizing c with
  | nil => rfl
  | cons f fs ih =>
    rw [List.flatMap_cons, deliver_append, deliver_field, ih, List.map_cons, List.flatMap_cons,
      collect_append]

/-- The fragments leave behind what the whole message does. -/
theorem deliver_message {kind : SpanKind} (hf : kind ≠ .headerField) (hv : kind ≠ .headerValue)
    (m : MessageParts) : deliver c (m.callbacks kind) = collect c (m.whole kind).pieces := by
  have hbody : SpanKind.body ≠ .headerField ∧ SpanKind.body ≠ .headerValue := by decide
  rw [MessageParts.callbacks, MessageParts.front, deliver_append, deliver_append, deliver_append,
    deliver_append, deliver_freeSpans hf hv, deliver_fields, deliver_freeSpans hbody.1 hbody.2,
    deliver_fields]
  simp only [WireMessage.pieces, WireMessage.core, MessageParts.whole, WireBody.pieces,
    List.flatMap_cons, List.flatMap_nil, WireBody.chunkPieces, collect_append, List.append_nil,
    List.singleton_append, optionalSpan]
  simp [collect, collectPiece, deliver, Collector.onCallback]

theorem namesGiven_whole (kind : SpanKind) (m : MessageParts) : (m.whole kind).NamesGiven := by
  intro f hf
  simp only [MessageParts.whole, WireBody.trailers, ← List.map_append, List.mem_map] at hf
  obtain ⟨parts, -, rfl⟩ := hf
  exact parts.named

theorem headers_whole (kind : SpanKind) (m : MessageParts) : (m.whole kind).headers = m.headers := by
  simp only [WireMessage.headers, MessageParts.headers, MessageParts.whole, WireBody.trailers,
    ← List.map_append, List.map_map]
  rfl

end Deliver

section Collected

variable {M : Type} {ops : ParserOps M} {R : M → Content → Prop}

/-- The collector of a fresh parser after these callbacks. -/
def collected (ops : ParserOps M) (cbs : List Callback) : Collector M :=
  cbs.foldl (Collector.onCallback ops.toMessageOps) { message := ops.fresh }

theorem collected_taken (hops : ops.Keeps R) (kind : SpanKind) (hf : kind ≠ .headerField)
    (hv : kind ≠ .headerValue) (m : MessageParts) :
    TakenFrom ops R (m.whole kind) (collected ops (m.callbacks kind)).message := by
  have hfresh : Mirrors R { message := ops.fresh } { message := {} } := ⟨hops.fresh, rfl, rfl, rfl⟩
  have hmirror := hfresh.deliver hops (m.callbacks kind)
  rw [deliver_message hf hv] at hmirror
  refine ⟨hmirror.message, ?_⟩
  rw [collected, MessageParts.callbacks, List.foldl_append]
  exact ⟨_, rfl⟩

theorem collected_request (m : MessageParts) :
    (collected requestOps (m.callbacks .url)).message = m.request := by
  obtain ⟨hholds, x, hx⟩ := collected_taken requestOps_keeps .url (by decide) (by decide) m
  have hs : collect { message := {} } (m.whole .url).start =
      { message := { url := m.text.flatten } } := rfl
  rw [collect_message (namesGiven_whole .url m) hs, headers_whole] at hholds
  obtain ⟨hurl, hheaders, hbody, hraw⟩ := hholds
  rw [hx] at hurl hheaders hbody hraw ⊢
  simp only [requestOps] at hurl hheaders hbody hraw ⊢
  simp [MessageParts.request, hurl, hheaders, hbody, hraw, MessageParts.whole, WireBody.data]

/-- All but the body is as reported; the body is what the handler kept of it. -/
theorem collected_response (m : MessageParts) :
    (collected responseOps (m.callbacks .status)).message =
      { m.response with body := m.body.foldl appendBody [] } := by
  have htexts (k : SpanKind) (hk : k ≠ .body) (parts : List Bytes) :
      (spans k parts).filterMap Callback.bodyText = [] := by
    cases k <;> simp [spans, Callback.bodyText] at hk ⊢
  have hfields (fs : List FieldParts) :
      (fs.flatMap FieldParts.callbacks).filterMap Callback.bodyText = [] := by
    simp [List.filterMap_flatMap, FieldParts.callbacks, htexts]
  have hbodies (parts : List Bytes) : (spans .body parts).filterMap Callback.bodyText = parts := by
    induction parts with
    | nil => rfl
    | cons part parts ih => exact congrArg (part :: ·) ih
  have hend : [Callback.messageComplete m.parser].filterMap Callback.bodyText = [] := rfl
  have hbody : (collected responseOps (m.callbacks .status)).message.body =
      m.body.foldl appendBody [] := by
    rw [collected, collected_body]
    simp [MessageParts.callbacks, MessageParts.front, htexts, hfields, hbodies, hend, responseOps]
  obtain ⟨hholds, x, hx⟩ := collected_taken responseOps_keeps .status (by decide) (by decide) m
  have hs : collect { message := {} } (m.whole .status).start =
      { message := { statusText := m.text.flatten } } := rfl
  rw [collect_message (namesGiven_whole .status m) hs, headers_whole] at hholds
  obtain ⟨hstatus, hheaders, -⟩ := hholds
  rw [← hbody]
  rw [hx] at hstatus hheaders ⊢
  simp only [responseOps] at hstatus hheaders ⊢
  simp [MessageParts.response, hstatus, hheaders, MessageParts.whole]

/-- The end of the message is reported once, at the end. -/
theorem front_noCompletion (kind : SpanKind) (m : MessageParts) : NoCompletion (m.front kind) := by
  intro p
  simp [MessageParts.front, FieldParts.callbacks, spans]

end Collected

section Fed

variable {L : Llhttp} {M : Type} {ops : ParserOps M}

/-- The parser after it was fed the chunks one after another. -/
def MessageParser.feedAll (ops : ParserOps M) (p : MessageParser L M) (chunks : List Bytes) :
    MessageParser L M := chunks.foldl (fun p data => (p.feed ops data).1) p

theorem follows_feedAll {p : MessageParser L M} {received : List Bytes} (h : p.Follows ops received)
    (chunks : List Bytes) : (p.feedAll ops chunks).Follows ops (received ++ chunks) := by
  induction chunks generalizing p received with
  | nil => simpa [MessageParser.feedAll] using h
  | cons data chunks ih =>
    have hnext := ih (h.feed data)
    rwa [List.append_assoc] at hnext

/-- However a message is spread over the feeds, the parser collects all of it. -/
theorem collector_feedAll (ops : ParserOps M) {chunks : List Bytes} {front : List Callback} {q : Completion}
    (hfront : NoCompletion front)
    (htrace : L.trace (L.init ops.parserType) chunks = front ++ [.messageComplete q]) :
    ((.reset ops : MessageParser L M).feedAll ops chunks).collector =
      collected ops (front ++ [.messageComplete q]) := by
  obtain ⟨fed, ⟨rest, hchunks⟩, hp, hall⟩ := follows_feedAll MessageParser.Follows.reset chunks
  rw [List.nil_append] at hchunks hall
  rw [hp]
  show collected ops (L.trace (L.init ops.parserType) fed) = _
  -- what is not fed comes after the end of the message, so nothing is reported in it
  have hsplit := htrace
  rw [← hchunks, Llhttp.trace_append] at hsplit
  by_cases hend : NoCompletion (L.trace (L.init ops.parserType) fed)
  · have hnever := messageComplete_of_noCompletion ops.toMessageOps hend { message := ops.fresh }
    rw [hp] at hall
    rw [hall hnever, htrace]
  · rcases List.append_eq_append_iff.mp hsplit with ⟨t, hfront', -⟩ | ⟨t, hfed, hrest⟩
    · exact absurd (fun p hmem => hfront p (by rw [hfront']; simp [hmem])) hend
    · cases t with
      | nil =>
        rw [List.append_nil] at hfed
        exact absurd (hfed ▸ hfront) hend
      | cons cb t =>
        have hcb : [Callback.messageComplete q] = cb :: (t ++ _) := hrest
        simp only [List.cons.injEq] at hcb
        obtain ⟨rfl, hnil⟩ := hcb
        obtain ⟨rfl, -⟩ := List.append_eq_nil_iff.mp hnil.symm
        rw [hfed]

namespace HttpParser

def feedRequests (p : HttpParser L) (chunks : List Bytes) : HttpParser L :=
  chunks.foldl (fun p data => (p.feedRequest data).1) p

def feedResponses (p : HttpParser L) (chunks : List Bytes) : HttpParser L :=
  chunks.foldl (fun p data => (p.feedResponse data).1) p

theorem feedRequests_eq (p : HttpParser L) (chunks : List Bytes) :
    p.feedRequests chunks = { p with requestParser := p.requestParser.feedAll requestOps chunks } := by
  induction chunks generalizing p with
  | nil => rfl
  | cons data chunks ih => exact ih _

theorem feedResponses_eq (p : HttpParser L) (chunks : List Bytes) :
    p.feedResponses chunks =
      { p with responseParser := p.responseParser.feedAll responseOps chunks } := by
  induction chunks generalizing p with
  | nil => rfl
  | cons data chunks ih => exact ih _

end HttpParser

theorem take_of_collector {p : MessageParser L M} {front : List Callback} {q : Completion}
    (h : p.collector = collected ops (front ++ [.messageComplete q])) :
    p.take ops = (some (collected ops (front ++ [.messageComplete q])).message, .reset ops) := by
  have hcomplete : p.collector.messageComplete = true := by
    rw [h, collected, List.foldl_append]
    rfl
  rw [MessageParser.take, if_pos hcomplete, h]

theorem takeRequest_fragments {p : HttpParser L} {chunks : List Bytes} {m : MessageParts}
    (hp : p.requestParser = .reset requestOps)
    (hm : L.trace (L.init .request) chunks = m.callbacks .url) :
    (p.feedRequests chunks).takeRequest = (some m.request, p) := by
  have htake := take_of_collector (collector_feedAll requestOps (front_noCompletion .url m) hm)
  have hmessage := collected_request m
  rw [MessageParts.callbacks] at hmessage
  rw [HttpParser.feedRequests_eq, HttpParser.takeRequest, hp, htake, hmessage, ← hp]

theorem takeResponse_fragments {p : HttpParser L} {chunks : List Bytes} {m : MessageParts}
    (hp : p.responseParser = .reset responseOps)
    (hm : L.trace (L.init .response) chunks = m.callbacks .status) :
    (p.feedResponses chunks).takeResponse =
      (some { m.response with body := m.body.foldl appendBody [] }, p) := by
  have htake := take_of_collector
    (collector_feedAll responseOps (front_noCompletion .status m) hm)
  have hmessage := collected_response m
  rw [MessageParts.callbacks] at hmessage
  rw [HttpParser.feedResponses_eq, HttpParser.takeResponse, hp, htake, hmessage, ← hp]

end Fed

section StoredBody

variable {kept : Bytes}

/-- A body as it should be kept for the UI. -/
def storedBody (body : Bytes) : Bytes :=
  if body.length ≤ maxBodySize then body else body.take maxBodySize ++ truncationMark

/-- A fragment ends after exactly `n` bytes. -/
def EndsAt (n : ℕ) (parts : List Bytes) : Prop := ∃ a b, parts = a ++ b ∧ a.flatten.length = n

theorem appendBody_fits {text : Bytes} (h : kept.length + text.length ≤ maxBodySize) :
    appendBody kept text = kept ++ text := by
  have hkept : KeptBody (kept ++ text) (appendBody kept text) :=
    KeptBody.append (by rw [KeptBody, if_pos (by omega)]) text
  rwa [KeptBody, if_pos (by rwa [List.length_append])] at hkept

theorem appendBody_cut {text : Bytes} (hroom : kept.length < maxBodySize)
    (hmore : maxBodySize < kept.length + text.length) :
    appendBody kept text = (kept ++ text).take maxBodySize ++ truncationMark := by
  have hmin : min text.length (maxBodySize - kept.length) = maxBodySize - kept.length := by omega
  have htake : kept.take maxBodySize = kept := List.take_of_length_le (by omega)
  rw [appendBody, if_pos hroom]
  simp only [hmin]
  rw [if_pos (by omega), List.take_append, htake]

theorem foldl_appendBody_full (h : maxBodySize ≤ kept.length) (parts : List Bytes) :
    parts.foldl appendBody kept = kept := by
  induction parts with
  | nil => rfl
  | cons part parts ih => rw [List.foldl_cons, appendBody, if_neg (by omega), ih]

theorem foldl_appendBody_fits (kept : Bytes) (parts : List Bytes)
    (h : kept.length + parts.flatten.length ≤ maxBodySize) :
    parts.foldl appendBody kept = kept ++ parts.flatten := by
  induction parts generalizing kept with
  | nil => simp
  | cons part parts ih =>
    rw [List.flatten_cons, List.length_append] at h
    rw [List.foldl_cons, appendBody_fits (by omega), ih _ (by rw [List.length_append]; omega),
      List.flatten_cons, List.append_assoc]

theorem foldl_appendBody_cut (kept : Bytes) (parts : List Bytes) (hroom : kept.length ≤ maxBodySize)
    (hmore : maxBodySize < kept.length + parts.flatten.length)
    (hends : ¬ EndsAt (maxBodySize - kept.length) parts) :
    parts.foldl appendBody kept = (kept ++ parts.flatten).take maxBodySize ++ truncationMark := by
  induction parts generalizing kept with
  | nil =>
    rw [List.flatten_nil, List.length_nil] at hmore
    omega
  | cons part parts ih =>
    rw [List.flatten_cons, List.length_append] at hmore
    have hstart : maxBodySize - kept.length ≠ 0 := fun h => hends ⟨[], _, rfl, h.symm⟩
    rw [List.foldl_cons, List.flatten_cons]
    by_cases hfit : kept.length + part.length ≤ maxBodySize
    · rw [appendBody_fits hfit, ← List.append_assoc]
      apply ih
      · rwa [List.length_append]
      · rw [List.length_append]
        omega
      · rintro ⟨a, b, rfl, ha⟩
        refine hends ⟨part :: a, b, rfl, ?_⟩
        rw [List.length_append] at ha
        rw [List.flatten_cons, List.length_append]
        omega
    · rw [appendBody_cut (by omega) (by omega), foldl_appendBody_full]
      · congr 1
        have hlong : maxBodySize ≤ (kept ++ part).length := by
          rw [List.length_append]
          omega
        rw [← List.append_assoc, List.take_append_of_le_length hlong]
      · rw [List.length_append, List.length_take, List.length_append]
        omega

/-- The kept body is the stored one unless the body goes on after a fragment that ends exactly at the
limit. -/
theorem foldl_appendBody_iff (parts : List Bytes) :
    parts.foldl appendBody [] = storedBody parts.flatten ↔
      parts.flatten.length ≤ maxBodySize ∨ ¬ EndsAt maxBodySize parts := by
  have hmark : truncationMark.length = 33 := by decide
  unfold storedBody
  by_cases hle : parts.flatten.length ≤ maxBodySize
  · have hfits := foldl_appendBody_fits [] parts (by simpa using hle)
    rw [if_pos hle]
    exact iff_of_true hfits (.inl hle)
  · rw [if_neg hle]
    by_cases hends : EndsAt maxBodySize parts
    · obtain ⟨a, b, rfl, ha⟩ := hends
      have hfirst := foldl_appendBody_fits [] a (by simp [ha])
      have hlen : ((a ++ b).foldl appendBody []).length = maxBodySize := by
        rw [List.foldl_append, hfirst, List.nil_append, foldl_appendBody_full (by omega), ha]
      refine iff_of_false (fun heq => ?_) ?_
      · rw [heq, List.length_append, List.length_take] at hlen
        omega
      · exact fun h => h.elim hle fun hn => hn ⟨a, b, rfl, ha⟩
    · have hcut := foldl_appendBody_cut [] parts (Nat.zero_le _)
        (by simp only [List.length_nil]; omega) (by simpa using hends)
      rw [List.nil_append] at hcut
      exact iff_of_true hcut (.inr hends)

end StoredBody

section Theorems

/-- Every message comes out of the parser whole, however llhttp cuts its parts and spreads them over
the feeds, and the parser is as it was before. -/
theorem message_assembled (L : Llhttp) :
    (∀ (p : HttpParser L) (chunks : List Bytes) (m : MessageParts),
      p.requestParser = .reset requestOps →
      L.trace (L.init .request) chunks = m.callbacks .url →
      (p.feedRequests chunks).takeRequest = (some m.request, p)) ∧
    ∀ (p : HttpParser L) (chunks : List Bytes) (m : MessageParts),
      p.responseParser = .reset responseOps → m.body.flatten.length ≤ maxBodySize →
      L.trace (L.init .response) chunks = m.callbacks .status →
      (p.feedResponses chunks).takeResponse = (some m.response, p) := by
  refine ⟨fun p chunks m hp hm => takeRequest_fragments hp hm, fun p chunks m hp hlen hm => ?_⟩
  have hbody : m.body.foldl appendBody [] = m.body.flatten := by
    simpa using foldl_appendBody_fits [] m.body (by simpa using hlen)
  rw [takeResponse_fragments hp hm, hbody]
  rfl

/-- The response that is taken has the stored body unless the body goes on after a fragment that ends
exactly at the limit. -/
theorem recorded_body_iff {L : Llhttp} {p : HttpParser L} {chunks : List Bytes} {m : MessageParts}
    (hp : p.responseParser = .reset responseOps)
    (hm : L.trace (L.init .response) chunks = m.callbacks .status) :
    (p.feedResponses chunks).takeResponse.1.map HttpResponse.body =
        some (storedBody m.body.flatten) ↔
      m.body.flatten.length ≤ maxBodySize ∨ ¬ EndsAt maxBodySize m.body := by
  rw [takeResponse_fragments hp hm, Option.map_some, Option.some_inj]
  exact foldl_appendBody_iff m.body

end Theorems

section Examples

/-- A request and a response, with a chunked body and a trailer each. -/
def trailerScript : ParserType → List Piece
  | .request => RequestMessage.message
      { method := str "POST", url := str "/a", fields := [{ name := str "Host", value := str "a" }]
        body := .chunked [(str "2", str "ok")] (str "0")
          [{ name := str "X-Empty", value := [] }] } |>.pieces
  | .response => ResponseMessage.message
      { statusCode := 200, statusText := str "OK", fields := []
        body := .chunked [(str "2", str "ok")] (str "0")
          [{ name := str "X-Empty", value := [] }] } |>.pieces

def trailerRequest : MessageParts where
  text := [str "/", str "a"]
  fields := [⟨[str "Host"], [str "a"], by decide, by decide⟩]
  body := [str "ok"]
  trailers := [⟨[str "X-Empty"], [[]], by decide, by decide⟩]
  parser := { methodName := str "POST" }

def trailerResponse : MessageParts where
  text := [str "O", str "K"]
  fields := []
  body := [str "ok"]
  trailers := [⟨[str "X-E", str "mpty"], [[]], by decide, by decide⟩]
  parser := { statusCode := 200 }

def requestChunks : List Bytes :=
  [str "POST /", str "a HTTP/1.1\r\nHost", str ": a\r\n\r\n2\r\nok\r\n0\r\nX-Empty: \r\n\r\n"]

def responseChunks : List Bytes :=
  [str "HTTP/1.1 200 O", str "K\r\n\r\n2\r\nok\r\n0\r\nX-E", str "mpty: \r\n\r\n"]

theorem trace_trailerRequest :
    (scripted trailerScript).trace (trailerScript .request) requestChunks =
      trailerRequest.callbacks .url := by decide

theorem trace_trailerResponse :
    (scripted trailerScript).trace (trailerScript .response) responseChunks =
      trailerResponse.callbacks .status := by decide

theorem message_assembled_trailers :
    ((HttpParser.new : HttpParser (scripted trailerScript)).feedRequests requestChunks).takeRequest =
      (some trailerRequest.request, .new) ∧
    ((HttpParser.new : HttpParser (scripted trailerScript)).feedResponses responseChunks).takeResponse =
      (some trailerResponse.response, .new) :=
  ⟨(message_assembled _).1 .new requestChunks trailerRequest rfl trace_trailerRequest,
    (message_assembled _).2 .new responseChunks trailerResponse rfl (by decide) trace_trailerResponse⟩

theorem recorded_body_iff_trailers :
    ((HttpParser.new : HttpParser (scripted trailerScript)).feedResponses
        responseChunks).takeResponse.1.map HttpResponse.body =
      some (storedBody trailerResponse.body.flatten) ↔
    trailerResponse.body.flatten.length ≤ maxBodySize ∨ ¬ EndsAt maxBodySize trailerResponse.body :=
  recorded_body_iff rfl trace_trailerResponse

/-- What llhttp reads before the body of a response with 1048577 bytes of body. -/
def longHead : List Piece :=
  [.silent (str "HTTP/1.1 200 "), .span .status false (str "OK"), .silent CRLF] ++
    Field.pieces { name := str "Content-Length", value := str "1048577" } ++ [.silent CRLF]

def longScript (front back : Bytes) : ParserType → List Piece := fun _ =>
  longHead ++ [.span .body false (front ++ back), .complete { statusCode := 200 }]

def longResponse (front back : Bytes) : MessageParts where
  text := [str "OK"]
  fields := [⟨[str "Content-Length"], [str "1048577"], by decide, by decide⟩]
  body := [front, back]
  trailers := []
  parser := { statusCode := 200 }

/-- The body comes in two parts, and llhttp reports each of them. -/
theorem trace_longResponse {front back : Bytes} (hf : front ≠ []) (hb : back ≠ []) :
    (scripted (longScript front back)).trace (longScript front back .response)
      [wireOf longHead ++ front, back] = (longResponse front back).callbacks .status := by
  have hshort : ¬ front.length + back.length ≤ front.length := by
    have hpos : 0 < back.length := List.length_pos_iff.mpr hb
    omega
  have hfirst := readPieces_append longHead
    [.span .body false (front ++ back), .complete { statusCode := 200 }] front
  simp only [Llhttp.trace, scripted, longScript, hfirst]
  simp [readPieces, hshort, hf]
  rfl

/-- The first fragment ends at the limit, and the rest of the body is dropped without a mark. -/
theorem body_not_stored : ¬ ∀ (L : Llhttp) (p : HttpParser L) (chunks : List Bytes)
    (m : MessageParts), p.responseParser = .reset responseOps →
    L.trace (L.init .response) chunks = m.callbacks .status →
    (p.feedResponses chunks).takeResponse.1.map HttpResponse.body =
      some (storedBody m.body.flatten) := by
  intro h
  -- the front is a megabyte of zeros, of which only the length matters
  obtain ⟨front, hlen⟩ : ∃ front : Bytes, front.length = maxBodySize :=
    ⟨List.replicate maxBodySize 0, List.length_replicate⟩
  have hne : front ≠ [] := by
    rintro rfl
    exact absurd hlen (by decide)
  have htrace := trace_longResponse hne (List.cons_ne_nil 0 [])
  have hsame := h _ .new _ _ rfl htrace
  rw [takeResponse_fragments rfl htrace, Option.map_some, Option.some_inj] at hsame
  rcases (foldl_appendBody_iff _).mp hsame with hle | hends
  · simp only [longResponse, List.flatten_cons, List.flatten_nil, List.length_append,
      List.length_singleton, List.length_nil] at hle
    omega
  · exact hends ⟨[front], [[0]], rfl, by simpa using hlen⟩

end Examples

end BurpTUI
