import BurpTUI.Base.Search
import BurpTUI.Http.RawText

namespace BurpTUI

inductive StdException
  | invalidArgument
  | outOfRange
  deriving DecidableEq, Repr

/-- `std::stoi` in base 10, for a 32-bit `int`. -/
def stoi (s : Bytes) : Except StdException ℤ :=
  let t := s.dropWhile isSpace
  let negative := t.head? == some 45
  let u := if t.head? = some 45 ∨ t.head? = some 43 then t.tail else t
  let digits := u.takeWhile isDigit
  let value : ℤ := if negative then -digitsValue digits else digitsValue digits
  if digits = [] then .error .invalidArgument
  else if -2147483648 ≤ value ∧ value ≤ 2147483647 then .ok value
  else .error .outOfRange

/-- The host and the port text of an authority, cut at its first colon. -/
def splitHostPort (hostPort defaultPort : Bytes) : Bytes × Bytes :=
  match Search.cut (str ":") hostPort with
  | some (host, port) => (host, port)
  | none => (hostPort, defaultPort)

/-- The authority of an absolute URL, or nothing. -/
def urlAuthority (url : Bytes) : Bytes :=
  match Search.cut (str "://") url with
  | some (_, rest) =>
    match Search.cut (str "/") rest with
    | some (authority, _) => authority
    | none => rest
  | none => []

/-- The authority of a plain HTTP request: the `Host` header, else the absolute URL. -/
def plainHostPort (req : HttpRequest) : Bytes :=
  if req.header (str "Host") = [] then urlAuthority req.url else req.header (str "Host")

def endsWithCert (url : Bytes) : Bool := (str "/cert").isSuffixOf url

/-- The hosts and paths that the proxy answers itself. -/
def isLocalEndpoint (host url : Bytes) : Bool :=
  let hostLower := host.map toLower
  hostLower == str "burp" || hostLower == str "burptui" || url == str "/cert" ||
    endsWithCert url ||
    ((hostLower == str "127.0.0.1" || hostLower == str "localhost") &&
      (url == str "/cert" || Search.contains (str "/cert") url))

def wantsCert (url : Bytes) : Bool :=
  url == str "/cert" || endsWithCert url || Search.contains (str "/cert") url

def orPort (port default : Bytes) : Bytes := if port = [] then default else port

/-- What `handleClientRead` does with a request that is not CONNECT. -/
inductive Route
  | badRequest
  | caCert
  | helpPage
  | upstream (host port : Bytes) (portNumber : ℤ)
  deriving DecidableEq, Repr

def routePlain (req : HttpRequest) : Except StdException Route :=
  let hostPort := plainHostPort req
  if hostPort = [] then .ok .badRequest
  else
    let (host, port) := splitHostPort hostPort (str "80")
    if isLocalEndpoint host req.url then
      .ok (if wantsCert req.url then .caCert else .helpPage)
    else
      (stoi (orPort port (str "80"))).map fun n => .upstream host (orPort port (str "80")) n

/-- Host, port text and port number of a CONNECT target. -/
structure ConnectTarget where
  host : Bytes
  port : Bytes
  portNumber : ℤ
  deriving DecidableEq, Repr

def routeConnect (req : HttpRequest) : Except StdException ConnectTarget :=
  let (host, port) := splitHostPort req.url (str "443")
  (stoi (orPort port (str "443"))).map fun n => { host := host, port := port, portNumber := n }

theorem ok_of_map {ε α β : Type} {f : α → β} {x : Except ε α} {b : β} (h : x.map f = .ok b) :
    ∃ a, x = .ok a ∧ f a = b := by
  cases x with
  | error e => cases h
  | ok a => exact ⟨a, rfl, Except.ok.inj h⟩

end BurpTUI
