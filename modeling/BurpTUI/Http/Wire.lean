import BurpTUI.Http.HttpParser

namespace BurpTUI

/-- A piece of a message on the wire, as llhttp sees it: bytes that it does not report, a span, of
which it has reported a part already if `begun`, and the end of the message. -/
inductive Piece
  | silent (bytes : Bytes)
  | span (kind : SpanKind) (begun : Bool) (text : Bytes)
  | complete (parser : Completion)
  deriving DecidableEq, Repr

namespace Piece

def bytes : Piece → Bytes
  | .silent bytes => bytes
  | .span _ _ text => text
  | .complete _ => []

def isComplete : Piece → Bool
  | .complete _ => true
  | _ => false

end Piece

def wireOf (ps : List Piece) : Bytes := ps.flatMap Piece.bytes

/-- The next thing to happen is the end of a message, and no byte is needed for it. -/
def completionDue : List Piece → Bool
  | [] => false
  | .complete _ :: _ => true
  | p :: ps => p.bytes == [] && completionDue ps

/-- `Delivers ps data callbacks ps'`: while it executes `data`, llhttp makes these callbacks and
comes from `ps` to `ps'`. It cuts spans as it likes, reports a span at least once, and reports the
end of a message together with the message's last byte. -/
inductive Delivers : List Piece → Bytes → List Callback → List Piece → Prop
  | stop {ps} : completionDue ps = false → Delivers ps [] [] ps
  | skip {ps data cbs ps'} : Delivers ps data cbs ps' → Delivers (.silent [] :: ps) data cbs ps'
  | silent {c bytes ps data cbs ps'} : Delivers (.silent bytes :: ps) data cbs ps' →
      Delivers (.silent (c :: bytes) :: ps) (c :: data) cbs ps'
  | span {kind begun part text ps data cbs ps'} :
      Delivers (.span kind true text :: ps) data cbs ps' →
      Delivers (.span kind begun (part ++ text) :: ps) (part ++ data) (.span kind part :: cbs) ps'
  | endSpan {kind ps data cbs ps'} : Delivers ps data cbs ps' →
      Delivers (.span kind true [] :: ps) data cbs ps'
  | complete {p ps data cbs ps'} : Delivers ps data cbs ps' →
      Delivers (.complete p :: ps) data (.messageComplete p :: cbs) ps'

/-- `At st ps` says that llhttp in state `st` reads the pieces `ps`. -/
def Llhttp.Reads (L : Llhttp) (At : L.State → List Piece → Prop) : Prop :=
  ∀ st ps data, At st ps → data <+: wireOf ps →
    ∃ ps', Delivers ps data (L.execute st data).2.1 ps' ∧ At (L.execute st data).1 ps' ∧
      (L.execute st data).2.2 ≠ .failed

/-- A header line, with the blanks around its value. -/
structure Field where
  name : Bytes
  before : Bytes := str " "
  value : Bytes
  after : Bytes := []
  deriving DecidableEq, Repr

namespace Field

def header (f : Field) : Header := (f.name, f.value)

def pieces (f : Field) : List Piece :=
  [.span .headerField false f.name, .silent (str ":" ++ f.before),
    .span .headerValue false f.value, .silent (f.after ++ CRLF)]

end Field

/-- llhttp may leave out an empty span of these kinds. -/
def optionalSpan (kind : SpanKind) (text : Bytes) : Piece := .span kind (text == []) text

/-- The body of a message on the wire: as it is, or in chunks, each behind its size line, then the
line of the last chunk and the trailers. -/
inductive WireBody
  | plain (data : Bytes)
  | chunked (chunks : List (Bytes × Bytes)) (last : Bytes) (trailers : List Field)
  deriving DecidableEq, Repr

namespace WireBody

def data : WireBody → Bytes
  | .plain data => data
  | .chunked chunks _ _ => chunks.flatMap Prod.snd

def trailers : WireBody → List Field
  | .plain _ => []
  | .chunked _ _ trailers => trailers

def chunkPieces (c : Bytes × Bytes) : List Piece :=
  [.silent (c.1 ++ CRLF), optionalSpan .body c.2, .silent CRLF]

def pieces : WireBody → List Piece
  | .plain data => [optionalSpan .body data]
  | .chunked chunks last trailers =>
    chunks.flatMap chunkPieces ++ .silent (last ++ CRLF) ::
      (trailers.flatMap Field.pieces ++ [.silent CRLF])

end WireBody

/-- A message on the wire. `start` are the pieces of its first line. -/
structure WireMessage where
  start : List Piece
  fields : List Field
  body : WireBody
  parser : Completion
  deriving DecidableEq, Repr

namespace WireMessage

def core (m : WireMessage) : List Piece :=
  m.start ++ m.fields.flatMap Field.pieces ++ .silent CRLF :: m.body.pieces

def pieces (m : WireMessage) : List Piece := m.core ++ [.complete m.parser]

def wire (m : WireMessage) : Bytes := wireOf m.pieces

/-- All header fields in the order of the wire. -/
def headers (m : WireMessage) : List Header := (m.fields ++ m.body.trailers).map Field.header

def NamesGiven (m : WireMessage) : Prop := ∀ f ∈ m.fields ++ m.body.trailers, f.name ≠ []

end WireMessage

structure RequestMessage where
  method : Bytes
  url : Bytes
  httpMajor : ℕ := 1
  httpMinor : ℕ := 1
  fields : List Field
  body : WireBody
  deriving DecidableEq, Repr

namespace RequestMessage

def parser (m : RequestMessage) : Completion :=
  { methodName := m.method, httpMajor := m.httpMajor, httpMinor := m.httpMinor }

def message (m : RequestMessage) : WireMessage where
  start := [.silent (m.method ++ str " "), .span .url false m.url,
    .silent (str " " ++ httpVersion m.parser ++ CRLF)]
  fields := m.fields
  body := m.body
  parser := m.parser

/-- The request that the message stands for. -/
def request (m : RequestMessage) : HttpRequest :=
  { method := m.method, url := m.url, version := httpVersion m.parser
    headers := m.message.headers, body := m.body.data }

end RequestMessage

/-- `gap` stands between the status code and the status text. -/
structure ResponseMessage where
  statusCode : ℕ
  gap : Bytes := str " "
  statusText : Bytes
  httpMajor : ℕ := 1
  httpMinor : ℕ := 1
  fields : List Field
  body : WireBody
  deriving DecidableEq, Repr

namespace ResponseMessage

def parser (m : ResponseMessage) : Completion :=
  { httpMajor := m.httpMajor, httpMinor := m.httpMinor, statusCode := m.statusCode }

def message (m : ResponseMessage) : WireMessage where
  start := [.silent (httpVersion m.parser ++ str " " ++ decimal m.statusCode ++ m.gap),
    optionalSpan .status m.statusText, .silent CRLF]
  fields := m.fields
  body := m.body
  parser := m.parser

def response (m : ResponseMessage) : HttpResponse :=
  { version := httpVersion m.parser, statusCode := m.statusCode, statusText := m.statusText
    headers := m.message.headers, body := m.body.data }

end ResponseMessage

end BurpTUI
