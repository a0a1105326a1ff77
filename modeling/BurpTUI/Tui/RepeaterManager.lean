import BurpTUI.Http.RawText

namespace BurpTUI

structure Target where
  host : Bytes
  port : Bytes
  isHttps : Bool
  deriving DecidableEq, Repr

structure RepeaterManager where
  target : Target := { host := str "httpbin.org", port := str "443", isHttps := true }
  rawRequest : Bytes := str "GET /get HTTP/1.1\r\nHost: httpbin.org\r\n" ++
    str "User-Agent: BurpTUI/0.1\r\nAccept: */*\r\n\r\n"
  statusText : Bytes := str "Ready"
  isSending : Bool := false
  deriving DecidableEq, Repr

/-- The host text without its scheme, and the scheme that it has or else the given one. -/
def cutScheme (host : Bytes) (isHttps : Bool) : Bytes × Bool :=
  if (str "https://").isPrefixOf host then (host.drop 8, true)
  else if (str "http://").isPrefixOf host then (host.drop 7, false)
  else (host, isHttps)

def cutPath (host : Bytes) : Bytes :=
  match Search.cut (str "/") host with
  | some (authority, _) => authority
  | none => host

/-- Host and port of an authority, cut at the last colon if it has no bracket. -/
def cutPort (host port : Bytes) : Bytes × Bytes :=
  match Search.cutLast 58 host with
  | some (before, after) => if 93 ∈ host then (host, port) else (before, after)
  | none => (host, port)

def schemePort (isHttps : Bool) : Bytes := if isHttps then str "443" else str "80"

/-- The target that `executeRequest` makes of what the fields hold. -/
def deriveTarget (t : Target) : Target :=
  let (host, isHttps) := cutScheme (trimBlanks t.host) t.isHttps
  let (host, port) := cutPort (cutPath host) t.port
  { host := host, port := if port = [] then schemePort isHttps else port, isHttps := isHttps }

/-- Whether one of two spellings of a field name occurs anywhere in the message. -/
def mentions (upper lower msg : Bytes) : Bool := Search.contains upper msg || Search.contains lower msg

def insertAfterFirst (msg line : Bytes) : Bytes :=
  match Search.cut CRLF msg with
  | some (first, rest) => first ++ CRLF ++ line ++ rest
  | none => msg

def ensureHost (host msg : Bytes) : Bytes :=
  if mentions (str "Host:") (str "host:") msg then msg
  else insertAfterFirst msg (str "Host: " ++ host ++ CRLF)

def ensureConnection (msg : Bytes) : Bytes :=
  if mentions (str "Connection:") (str "connection:") msg then msg
  else insertAfterFirst msg (str "Connection: close" ++ CRLF)

/-- The message that `executeRequest` makes of the request text. -/
def prepareRequest (host req : Bytes) : Bytes :=
  ensureConnection (ensureHost host (endHeaders (normalizeCrlf (eraseMarkers req))))

namespace RepeaterManager

def setTarget (m : RepeaterManager) (target : Target) : RepeaterManager := { m with target := target }

def setRequest (m : RepeaterManager) (target : Target) (rawRequest : Bytes) : RepeaterManager :=
  { m with
    target := target
    rawRequest := rawRequest
    statusText := str "Loaded request for " ++ target.host ++ str ":" ++ target.port }

def setRawRequest (m : RepeaterManager) (raw : Bytes) : RepeaterManager := { m with rawRequest := raw }

/-- What the sending thread is given. -/
structure Sending where
  target : Target
  req : Bytes
  deriving DecidableEq, Repr

/-- `executeRequest` up to the start of the thread, with no other call in between. There is no result
while a request is being sent. -/
def executeRequest (m : RepeaterManager) : Option (RepeaterManager × Sending) :=
  if m.isSending then none
  else
    let target := deriveTarget m.target
    some ({ m with
      isSending := true
      target := target
      statusText := str "Connecting to " ++ target.host ++ str ":" ++ target.port ++ str "..." },
      { target := target, req := prepareRequest target.host m.rawRequest })

end RepeaterManager

end BurpTUI
