import BurpTUI.Http.RawText

namespace BurpTUI

/-- A header name that is `Host` in any letter case. -/
def isHostName : Bytes → Bool
  | [h, o, s, t] => (h == 72 || h == 104) && (o == 111 || o == 79) && (s == 115 || s == 83) &&
      (t == 116 || t == 84)
  | _ => false

def stripScheme (s : Bytes) : Bytes :=
  if (str "https://").isPrefixOf s then s.drop 8
  else if (str "http://").isPrefixOf s then s.drop 7
  else s

def stripTrailingSlash (s : Bytes) : Bytes :=
  if (str "/").isSuffixOf s then s.dropLast else s

def stripHttpMark (s : Bytes) : Bytes :=
  match Search.cut (str " (HTTP") s with
  | some (before, _) => before
  | none => s

/-- The value of the `Host` line that `formatHttpRequestRaw` writes. -/
def shownHost (req : HttpRequest) (host : Bytes) : Bytes :=
  stripHttpMark (stripTrailingSlash (stripScheme
    (if host = [] then req.header (str "Host") else host)))

def hostLine (hostVal : Bytes) : Bytes :=
  if hostVal = [] then [] else str "Host: " ++ hostVal ++ CRLF

/-- The source does not use the second argument either. -/
def formatHttpRequestRaw (req : HttpRequest) (_isHttps : Bool) (host : Bytes) : Bytes :=
  if req.rawOverride ≠ [] then eraseMarkers req.rawOverride
  else req.requestLine ++ hostLine (shownHost req host) ++
    serializeHeaders (req.headers.filter fun h => !isHostName h.1) ++ CRLF ++ req.body

/-! What the viewers show. -/

/-- What `SanitizeText` puts in the place of a byte other than CR. -/
def sanitizeByte (c : UInt8) : UInt8 :=
  if c = LF ∨ c = 9 ∨ (32 ≤ c ∧ c < 127) then c else if 128 ≤ c then c else 46

/-- The loop, with `count` bytes of output so far. -/
def sanitizeLoop (maxLen : ℕ) : Bytes → ℕ → Bytes
  | [], _ => []
  | c :: cs, count =>
    if maxLen ≤ count then []
    else if c = CR then sanitizeLoop maxLen cs count
    else sanitizeByte c :: sanitizeLoop maxLen cs (count + 1)

def sanitizeText (input : Bytes) (maxLen : ℕ) : Bytes := sanitizeLoop maxLen input 0

/-- The content types that make data binary whatever it is. -/
def binaryTypes : List Bytes :=
  [str "image/", str "audio/", str "video/", str "font/", str "application/octet-stream",
    str "application/zip", str "application/gzip", str "application/pdf"]

def isNonPrintable (c : UInt8) : Bool := c < 9 || (13 < c && c < 32)

def isBinaryData (data contentType : Bytes) : Bool :=
  if binaryTypes.any fun t => Search.contains t contentType then true
  else
    let sample := data.take 512
    if sample = [] then false
    else if sample.contains 0 then true
    else 8 < sample.countP isNonPrintable * 100 / sample.length

/-- Lower case hexadecimal digits, with zeros in front up to a width, as `%0*x` prints them. -/
def hexDigits (width n : ℕ) : Bytes :=
  ((Nat.toDigits 16 n).map fun c => UInt8.ofNat c.toNat).leftpad width 48

/-- One column of a row of the dump: the byte at `i + j`, or blanks behind the last one. -/
def hexColumn (data : Bytes) (limit i j : ℕ) : Bytes :=
  (if i + j < limit then hexDigits 2 (data.getD (i + j) 0).toNat ++ str " " else str "   ") ++
    if j = 7 then str " " else []

def asciiColumn (c : UInt8) : UInt8 := if 32 ≤ c ∧ c < 127 then c else 46

def hexRow (data : Bytes) (limit i : ℕ) : Bytes :=
  hexDigits 8 i ++ str ": " ++ (List.range 16).flatMap (hexColumn data limit i) ++ str " |" ++
    (((data.take limit).drop i).take 16).map asciiColumn ++ str "|\n"

def formatHexDump (data : Bytes) (maxBytes : ℕ) : Bytes :=
  let limit := min data.length maxBytes
  (List.range' 0 ((limit + 15) / 16) 16).flatMap (hexRow data limit) ++
    if limit < data.length then
      str "[ ... " ++ decimal (data.length - limit) ++ str " additional binary bytes omitted ... ]\n"
    else []

/-- A text in a row, as it is or under `SanitizeText`. Colours and weights are left out. -/
inductive Segment
  | plain (s : Bytes)
  | sanitized (s : Bytes) (maxLen : ℕ)
  deriving DecidableEq, Repr

/-- An element of the lists that the viewers get: `text` or an `hbox` of texts, or `separatorLight()`. -/
inductive Element
  | row (pieces : List Segment)
  | separator
  deriving DecidableEq, Repr

/-- The state of an input stream over a string. -/
structure IStream where
  rest : Bytes
  eof : Bool := false
  fail : Bool := false
  deriving DecidableEq, Repr

def IStream.good (s : IStream) : Bool := !s.eof && !s.fail

/-- `std::getline`. A line that ends with the input sets the end-of-file bit; when there is nothing to
read, or the stream is not good, it fails. -/
def IStream.getline (s : IStream) : Option Bytes × IStream :=
  if s.good = false then (none, { s with fail := true })
  else if s.rest = [] then (none, { s with eof := true, fail := true })
  else match Search.cut [LF] s.rest with
    | some (line, rest) => (some line, { s with rest := rest })
    | none => (some s.rest, { s with rest := [], eof := true })

def truncationNotice : Bytes := str "[ ... Remaining lines truncated for TUI display ... ]"

/-- The loop over the lines of a text body, with the number of lines that it may still keep. The line
is read before that number is looked at. -/
def bodyLoop : ℕ → IStream → List Element × IStream
  | 0, s => ([], s.getline.2)
  | left + 1, s =>
    match s.getline with
    | (none, s) => ([], s)
    | (some line, s) =>
      let (lines, s) := bodyLoop left s
      (.row [.sanitized (stripCr line) 512] :: lines, s)

def maxLines : ℕ := 1000

def formatBodyLines (body contentType : Bytes) : List Element :=
  if body = [] then [.row [.plain (str "(Empty body)")]]
  else if isBinaryData body contentType then
    [.row [.plain (str "[ Binary Payload: " ++ decimal body.length ++ str " bytes | Content-Type: " ++
        orDefault contentType (str "unknown") ++ str " ]")],
      .row [.plain []]] ++
      (getlines (formatHexDump body 1024)).map fun line => .row [.plain line]
  else
    let (lines, stream) := bodyLoop maxLines { rest := body }
    lines ++ if stream.good then [.row [.plain truncationNotice]] else []

def headerRow (h : Header) : Element :=
  .row [.sanitized h.1 64, .plain (str ": "), .sanitized h.2 256]

/-- The rows of a body that is not empty, under their heading. -/
def bodyRows (heading body contentType : Bytes) : List Element :=
  if body = [] then []
  else [.separator, .row [.plain (heading ++ decimal body.length ++ str " bytes) ---")]] ++
    formatBodyLines body contentType

def formatHttpRequestLines (req : HttpRequest) (isHttps : Bool) (host : Bytes) : List Element :=
  [.row [.plain (req.method ++ str " "), .sanitized req.url 256, .plain (str " "), .plain req.version],
    .separator,
    .row [.plain (str "Host: "), .plain (host ++ if isHttps then str " (HTTPS)" else str " (HTTP)")]] ++
    (req.headers.filter fun h => h.1 ≠ str "Host").map headerRow ++
    bodyRows (str "--- Request Body (") req.body (req.header (str "Content-Type"))

def formatHttpResponseLines (res : HttpResponse) : List Element :=
  [.row [.plain (res.version ++ str " "), .plain (decimal res.statusCode ++ str " "),
      .sanitized res.statusText 64],
    .separator] ++
    res.headers.map headerRow ++
    bodyRows (str "--- Response Body (") res.body (res.header (str "Content-Type"))

def formatHttpResponseRaw (res : HttpResponse) : Bytes :=
  res.version ++ str " " ++ decimal res.statusCode ++ str " " ++ res.statusText ++ CRLF ++
    serializeHeaders res.headers ++ CRLF ++ res.body

end BurpTUI
