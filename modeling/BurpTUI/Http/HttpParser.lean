import BurpTUI.Http.Message

namespace BurpTUI

/-- The spans that llhttp reports. -/
inductive SpanKind
  | url
  | status
  | headerField
  | headerValue
  | body
  deriving DecidableEq, Repr

/-- The fields of `llhttp_t` that `on_message_complete` reads. -/
structure Completion where
  methodName : Bytes := []
  httpMajor : ℕ := 1
  httpMinor : ℕ := 1
  statusCode : ℕ := 0
  deriving DecidableEq, Repr

inductive Callback
  | span (kind : SpanKind) (text : Bytes)
  | messageComplete (parser : Completion)
  deriving DecidableEq, Repr

inductive ParserType
  | request
  | response
  deriving DecidableEq, Repr

inductive Errno
  | ok
  | pausedUpgrade
  | failed
  deriving DecidableEq, Repr

/-- The llhttp library: `execute` returns the callbacks that it makes, in order. The callbacks of
this program return 0 and leave the parser alone. -/
structure Llhttp where
  State : Type
  init : ParserType → State
  execute : State → Bytes → State × List Callback × Errno

/-- What a parser does with the parts of a message that llhttp reports. -/
structure MessageOps (M : Type) where
  fresh : M
  onUrl : M → Bytes → M
  onStatus : M → Bytes → M
  pushHeader : M → Header → M
  onBody : M → Bytes → M
  onComplete : M → Completion → M

/-- What `RequestParser` and `ResponseParser` do differently. -/
structure ParserOps (M : Type) extends MessageOps M where
  parserType : ParserType

/-- The fields that `RequestParser` and `ResponseParser` share. -/
structure Collector (M : Type) where
  message : M
  currentHeaderField : Bytes := []
  currentHeaderValue : Bytes := []
  lastWasField : Bool := false
  messageComplete : Bool := false
  deriving DecidableEq, Repr

namespace Collector

variable {M : Type} (ops : MessageOps M) (c : Collector M)

def commitHeader : Collector M :=
  if c.currentHeaderField ≠ [] then
    { c with
      message := ops.pushHeader c.message (c.currentHeaderField, c.currentHeaderValue)
      currentHeaderField := []
      currentHeaderValue := [] }
  else c

def onHeaderField (text : Bytes) : Collector M :=
  let c' := if c.lastWasField then c else c.commitHeader ops
  { c' with currentHeaderField := c'.currentHeaderField ++ text, lastWasField := true }

def onHeaderValue (text : Bytes) : Collector M :=
  { c with currentHeaderValue := c.currentHeaderValue ++ text, lastWasField := false }

def onSpan : SpanKind → Bytes → Collector M
  | .url, text => { c with message := ops.onUrl c.message text }
  | .status, text => { c with message := ops.onStatus c.message text }
  | .headerField, text => c.onHeaderField ops text
  | .headerValue, text => c.onHeaderValue text
  | .body, text => { c with message := ops.onBody c.message text }

def onMessageComplete (p : Completion) : Collector M :=
  let c' := c.commitHeader ops
  { c' with message := ops.onComplete c'.message p, messageComplete := true }

def onCallback : Callback → Collector M
  | .span kind text => c.onSpan ops kind text
  | .messageComplete p => c.onMessageComplete ops p

end Collector

def httpVersion (p : Completion) : Bytes :=
  str "HTTP/" ++ decimal p.httpMajor ++ str "." ++ decimal p.httpMinor

/-- `RequestParser` registers no `on_status`. -/
def requestOps : ParserOps HttpRequest where
  parserType := .request
  fresh := {}
  onUrl r text := { r with url := r.url ++ text }
  onStatus r _ := r
  pushHeader r h := { r with headers := r.headers ++ [h] }
  onBody r text := { r with body := r.body ++ text }
  onComplete r p := { r with method := p.methodName, version := httpVersion p }

def maxBodySize : ℕ := 1 * 1024 * 1024

def truncationMark : Bytes := str "\n\n[--- Body truncated for UI ---]"

/-- The body that `ResponseParser` keeps for the UI. -/
def appendBody (body text : Bytes) : Bytes :=
  if body.length < maxBodySize then
    let toAppend := min text.length (maxBodySize - body.length)
    let body' := body ++ text.take toAppend
    if toAppend < text.length then body' ++ truncationMark else body'
  else body

/-- `ResponseParser` registers no `on_url`. -/
def responseOps : ParserOps HttpResponse where
  parserType := .response
  fresh := {}
  onUrl r _ := r
  onStatus r text := { r with statusText := r.statusText ++ text }
  pushHeader r h := { r with headers := r.headers ++ [h] }
  onBody r text := { r with body := appendBody r.body text }
  onComplete r p := { r with statusCode := p.statusCode, version := httpVersion p }

/-- A `RequestParser` or `ResponseParser`: the llhttp state and what it collected. -/
structure MessageParser (L : Llhttp) (M : Type) where
  parser : L.State
  collector : Collector M

namespace MessageParser

variable {L : Llhttp} {M : Type} (ops : ParserOps M)

def reset : MessageParser L M :=
  { parser := L.init ops.parserType, collector := { message := ops.fresh } }

/-- `llhttp_execute` with the callbacks of this parser. -/
def execute (p : MessageParser L M) (data : Bytes) : MessageParser L M × Errno :=
  let (parser, callbacks, err) := L.execute p.parser data
  let collector := callbacks.foldl (fun c cb => c.onCallback ops.toMessageOps cb) p.collector
  ({ parser := parser, collector := collector }, err)

def feed (p : MessageParser L M) (data : Bytes) : MessageParser L M × Bool :=
  if p.collector.messageComplete then (p, true)
  else
    let (p', err) := p.execute ops data
    (p', err != .failed && p'.collector.messageComplete)

def take (p : MessageParser L M) : Option M × MessageParser L M :=
  if p.collector.messageComplete then (some p.collector.message, reset ops) else (none, p)

/-- A caller that takes a message each time the feed returns true. -/
def takeEach (p : MessageParser L M) : List Bytes → List M
  | [] => []
  | data :: rest =>
    let (p', ready) := p.feed ops data
    if ready then
      let (message, p'') := p'.take ops
      message.toList ++ takeEach p'' rest
    else takeEach p' rest

end MessageParser

structure HttpParser (L : Llhttp) where
  requestParser : MessageParser L HttpRequest
  responseParser : MessageParser L HttpResponse

namespace HttpParser

variable {L : Llhttp}

def new : HttpParser L :=
  { requestParser := .reset requestOps, responseParser := .reset responseOps }

def feedRequest (p : HttpParser L) (data : Bytes) : HttpParser L × Bool :=
  let (requestParser, ready) := p.requestParser.feed requestOps data
  ({ p with requestParser := requestParser }, ready)

def feedResponse (p : HttpParser L) (data : Bytes) : HttpParser L × Bool :=
  let (responseParser, ready) := p.responseParser.feed responseOps data
  ({ p with responseParser := responseParser }, ready)

def takeRequest (p : HttpParser L) : Option HttpRequest × HttpParser L :=
  let (request, requestParser) := p.requestParser.take requestOps
  (request, { p with requestParser := requestParser })

def takeResponse (p : HttpParser L) : Option HttpResponse × HttpParser L :=
  let (response, responseParser) := p.responseParser.take responseOps
  (response, { p with responseParser := responseParser })

def reset (_ : HttpParser L) : HttpParser L := new

/-- The requests taken when the bytes come in these parts. -/
def takeRequests (p : HttpParser L) : List Bytes → List HttpRequest
  | [] => []
  | data :: rest =>
    let (p', ready) := p.feedRequest data
    if ready then
      let (request, p'') := p'.takeRequest
      request.toList ++ takeRequests p'' rest
    else takeRequests p' rest

def takeResponses (p : HttpParser L) : List Bytes → List HttpResponse
  | [] => []
  | data :: rest =>
    let (p', ready) := p.feedResponse data
    if ready then
      let (response, p'') := p'.takeResponse
      response.toList ++ takeResponses p'' rest
    else takeResponses p' rest

theorem takeRequests_eq (p : HttpParser L) (chunks : List Bytes) :
    p.takeRequests chunks = p.requestParser.takeEach requestOps chunks := by
  induction chunks generalizing p with
  | nil => rfl
  | cons data rest ih =>
    simp only [takeRequests, MessageParser.takeEach, feedRequest, takeRequest, ih]

theorem takeResponses_eq (p : HttpParser L) (chunks : List Bytes) :
    p.takeResponses chunks = p.responseParser.takeEach responseOps chunks := by
  induction chunks generalizing p with
  | nil => rfl
  | cons data rest ih =>
    simp only [takeResponses, MessageParser.takeEach, feedResponse, takeResponse, ih]

end HttpParser

end BurpTUI
