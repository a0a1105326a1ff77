import BurpTUI.Base.Search
import BurpTUI.Http.Message

namespace BurpTUI

/-- The clean-up of accidental scheme markers: the first ` (HTTPS)`, then the first ` (HTTP)`. -/
def eraseMarkers (s : Bytes) : Bytes :=
  Search.eraseFirst (str " (HTTP)") (Search.eraseFirst (str " (HTTPS)") s)

/-- CR is dropped and LF becomes CRLF. -/
def normalizeCrlf (s : Bytes) : Bytes :=
  s.flatMap fun c => if c = CR then [] else if c = LF then CRLF else [c]

/-- The header section gets its terminator if it has none. -/
def endHeaders (s : Bytes) : Bytes :=
  if Search.contains (CRLF ++ CRLF) s then s
  else if CRLF.isSuffixOf s then s ++ CRLF
  else s ++ CRLF ++ CRLF

/-- The lines that repeated `std::getline` reads: an end of input right after LF starts no line. -/
def getlines : Bytes → List Bytes
  | [] => []
  | c :: cs =>
    if c = LF then [] :: getlines cs
    else match getlines cs with
      | [] => [[c]]
      | l :: ls => (c :: l) :: ls

/-- `std::isspace` in the C locale. -/
def isSpace (c : UInt8) : Bool := c == 32 || (9 ≤ c && c ≤ 13)

def isBlank (c : UInt8) : Bool := c == 32 || c == 9

def trimBlanks (s : Bytes) : Bytes :=
  ((s.dropWhile isBlank).reverse.dropWhile isBlank).reverse

theorem takeWhile_of_stop {α : Type*} (p : α → Bool) {a b : List α} (ha : ∀ c ∈ a, p c = true)
    (hb : ∀ c ∈ b.head?, p c = false) : (a ++ b).takeWhile p = a := by
  rw [List.takeWhile_append_of_pos ha]
  cases b with
  | nil => simp
  | cons c b => simp [hb c (by simp)]

theorem dropWhile_of_stop {α : Type*} (p : α → Bool) {a b : List α} (ha : ∀ c ∈ a, p c = true)
    (hb : ∀ c ∈ b.head?, p c = false) : (a ++ b).dropWhile p = b := by
  rw [List.dropWhile_append_of_pos ha]
  cases b with
  | nil => simp
  | cons c b => simp [hb c (by simp)]

theorem head?_dropWhile {α : Type*} (p : α → Bool) (l : List α) :
    ∀ c ∈ (l.dropWhile p).head?, p c = false := by
  intro c hc
  have hn := List.head?_dropWhile_not p l
  rw [hc] at hn
  simpa using hn

/-- The words that repeated `operator>>` into strings reads. -/
def words (s : Bytes) : List Bytes := (s.splitOnP isSpace).filter (· ≠ [])

def stripCr (line : Bytes) : Bytes :=
  if line.getLast? = some CR then line.dropLast else line

/-- One header line, split at its first colon; a line without a colon gives no header. -/
def parseHeaderLine (line : Bytes) : Option Header :=
  (Search.cut (str ":") line).map fun p => (p.1, p.2.dropWhile fun c => c == 32 || c == 9)

def isBlankLine (line : Bytes) : Bool := line == [CR] || line == []

/-- The loop over the lines after the first one: headers up to the blank line, then the body. -/
def parseLines : List Bytes → List Header × Bytes
  | [] => ([], [])
  | line :: rest =>
    if isBlankLine line then ([], rest.flatMap fun l => l ++ [LF])
    else
      let (headers, body) := parseLines rest
      ((parseHeaderLine (stripCr line)).toList ++ headers, body)

def orDefault (s d : Bytes) : Bytes := if s = [] then d else s

def parseRawHttpRequest (raw : Bytes) : HttpRequest :=
  let str' := eraseMarkers raw
  let normalized := endHeaders (normalizeCrlf str')
  match getlines normalized with
  | [] => { rawOverride := normalized }
  | first :: rest =>
    let ws := words (stripCr first)
    let (headers, body) := parseLines rest
    { method := orDefault (ws.getD 0 []) (str "GET")
      url := orDefault (ws.getD 1 []) (str "/")
      version := orDefault (ws.getD 2 (str "HTTP/1.1")) (str "HTTP/1.1")
      headers := headers
      body := if body ≠ [] ∧ str'.getLast? ≠ some LF then body.dropLast else body
      rawOverride := normalized }

end BurpTUI
