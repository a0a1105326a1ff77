import Mathlib.Data.Int.Notation
import Mathlib.Data.List.Basic

namespace BurpTUI

abbrev Bytes := List UInt8

/-- A statement about the bytes of a text is decided by going through the text, not through all
bytes. -/
instance (priority := high) decidableForallMem (s : Bytes) (p : UInt8 → Prop) [DecidablePred p] :
    Decidable (∀ c ∈ s, p c) := List.decidableBAll p s

/-- What holds of the first 256 numbers holds of all bytes. -/
theorem forall_byte {p : UInt8 → Prop} (h : ∀ n < 256, p (UInt8.ofNat n)) (c : UInt8) : p c := by
  have hc := h c.toNat c.toNat_lt
  rwa [UInt8.ofNat_toNat] at hc

/-- The bytes of an ASCII literal of the source. -/
def str (s : String) : Bytes := s.toList.map fun c => UInt8.ofNat c.toNat

def CR : UInt8 := 13
def LF : UInt8 := 10
def CRLF : Bytes := [CR, LF]

/-- `std::to_string` of a number that is not negative. -/
def decimal (n : ℕ) : Bytes := str (toString n)

def isDigit (c : UInt8) : Bool := 48 ≤ c && c ≤ 57

def digitsValue (ds : Bytes) : ℕ := ds.foldl (fun n c => 10 * n + (c.toNat - 48)) 0

/-- `std::tolower` in the C locale. -/
def toLower (c : UInt8) : UInt8 := if 65 ≤ c ∧ c ≤ 90 then c + 32 else c

abbrev Header := Bytes × Bytes

/-- The value of the first header with exactly this name, or the empty string. -/
def headerValue (headers : List Header) (name : Bytes) : Bytes :=
  ((headers.find? fun h => h.1 == name).map Prod.snd).getD []

def serializeHeaders (headers : List Header) : Bytes :=
  headers.flatMap fun h => h.1 ++ str ": " ++ h.2 ++ CRLF

def headerLine (h : Header) : Bytes := h.1 ++ str ": " ++ h.2

theorem serializeHeaders_cons (h : Header) (hs : List Header) :
    serializeHeaders (h :: hs) = headerLine h ++ CR :: LF :: serializeHeaders hs := by
  simp [serializeHeaders, headerLine, CRLF]

theorem serializeHeaders_eq (hs : List Header) :
    serializeHeaders hs = (hs.map headerLine).flatMap fun l => l ++ CRLF := by
  rw [List.flatMap_map]
  rfl

structure HttpRequest where
  method : Bytes := []
  url : Bytes := []
  version : Bytes := str "HTTP/1.1"
  headers : List Header := []
  body : Bytes := []
  rawOverride : Bytes := []
  deriving DecidableEq, Repr

namespace HttpRequest

def header (r : HttpRequest) (name : Bytes) : Bytes := headerValue r.headers name

def requestLine (r : HttpRequest) : Bytes :=
  r.method ++ str " " ++ r.url ++ str " " ++ r.version ++ CRLF

def serialize (r : HttpRequest) : Bytes :=
  if r.rawOverride ≠ [] then r.rawOverride
  else r.requestLine ++ serializeHeaders r.headers ++ CRLF ++ r.body

end HttpRequest

/-- No blank, CR or LF. -/
def NoBlank (s : Bytes) : Prop := ∀ c ∈ s, c ≠ 32 ∧ c ≠ CR ∧ c ≠ LF

instance (s : Bytes) : Decidable (NoBlank s) :=
  inferInstanceAs (Decidable (∀ c ∈ s, c ≠ 32 ∧ c ≠ CR ∧ c ≠ LF))

/-- What `HttpParser` promises of the requests that it delivers: no raw text, and parts that
llhttp cuts at blanks, colons and line ends. -/
structure HttpRequest.Delivered (r : HttpRequest) : Prop where
  rawOverride : r.rawOverride = []
  method : NoBlank r.method
  url : NoBlank r.url
  version : NoBlank r.version
  names : ∀ h ∈ r.headers, 58 ∉ h.1 ∧ CR ∉ h.1 ∧ LF ∉ h.1
  values : ∀ h ∈ r.headers, CR ∉ h.2 ∧ LF ∉ h.2

structure HttpResponse where
  version : Bytes := []
  statusCode : ℕ := 0
  statusText : Bytes := []
  headers : List Header := []
  body : Bytes := []
  deriving DecidableEq, Repr

def HttpResponse.header (r : HttpResponse) (name : Bytes) : Bytes := headerValue r.headers name

/-- The address of a shared `HttpRequest`. -/
abbrev Ref := ℕ

structure HttpTransaction where
  id : ℤ := 0
  host : Bytes := []
  port : ℤ := 0
  isHttps : Bool := false
  request : Option Ref := none
  response : Option HttpResponse := none
  deriving DecidableEq, Repr

end BurpTUI
