import BurpTUI.Http.Framing
import BurpTUI.Proxy.MitmSession

namespace BurpTUI

/-- What a read makes of a request that comes in parts. -/
inductive Admission (L : Llhttp)
  | taken (req : HttpRequest) (parser : HttpParser L)
  | more (parser : HttpParser L)
  | refused (parser : HttpParser L)

/-- What the two `handleClientRead` share. The limit is tested when the message stays incomplete. -/
def readPart {L : Llhttp} (limit : ℕ) (p : HttpParser L) (accumulated data : Bytes) : Admission L :=
  if (p.feedRequest data).2 then
    match (p.feedRequest data).1.takeRequest with
    | (some req, parser) => .taken req parser
    | (none, parser) => .more parser
  else if accumulated.length < limit then .more (p.feedRequest data).1
  else .refused (p.feedRequest data).1

inductive Verdict
  | handedOn (req : HttpRequest)
  | rejected
  | undecided
  deriving DecidableEq, Repr

def Verdict.accepts : Verdict → Bool
  | .handedOn _ => true
  | _ => false

/-- What becomes of the rest of a request, told from the parser and the bytes so far. -/
def verdictOf {L : Llhttp} (limit : ℕ) (p : HttpParser L) (accumulated : Bytes) :
    List Bytes → Verdict
  | [] => .undecided
  | data :: rest =>
    match readPart limit p (accumulated ++ data) data with
    | .taken req _ => .handedOn req
    | .refused _ => .rejected
    | .more p => verdictOf limit p (accumulated ++ data) rest

section Sessions

variable {L : Llhttp}

namespace Session

/-- The session with the bytes of a read. -/
def received (s : Session L) (data : Bytes) : Session L :=
  let s := s.resetTimer.emit (.read data)
  { s with clientData := s.clientData ++ data }

theorem handleClientRead_bytes {s : Session L} (h : s.isConnect = false) (env : Env) (data : Bytes) :
    s.handleClientRead env (.bytes data) =
      match readPart maxRequestSize s.parser (s.clientData ++ data) data with
      | .taken req parser => { s.received data with parser := parser }.handleRequest env req
      | .more parser => .ok { s.received data with parser := parser }.readClient
      | .refused parser =>
        .ok ({ s.received data with parser := parser }.sendErrorResponse 400 (str "Bad Request")) := by
  have hc : (s.resetTimer.emit (.read data)).isConnect = false := h
  have hparser : (s.resetTimer.emit (.read data)).parser = s.parser := rfl
  have hdata : (s.resetTimer.emit (.read data)).clientData = s.clientData := rfl
  unfold handleClientRead received readPart
  dsimp only
  rw [← hparser, ← hdata]
  generalize s.resetTimer.emit (.read data) = u at hc
  simp only [hc, Bool.false_eq_true, if_false]
  split
  · split <;> simp_all
  · split <;> rfl

/-- What becomes of a request that comes in these reads: each is handled while more is wanted. -/
def verdict (env : Env) (s : Session L) : List Bytes → Verdict
  | [] => .undecided
  | data :: rest =>
    match readPart maxRequestSize s.parser (s.clientData ++ data) data with
    | .taken req _ => .handedOn req
    | .refused _ => .rejected
    | .more _ =>
      match s.handleClientRead env (.bytes data) with
      | .ok s => s.verdict env rest
      | .error _ => .undecided

theorem verdict_eq {s : Session L} (h : s.isConnect = false) (env : Env) (reads : List Bytes) :
    s.verdict env reads = verdictOf maxRequestSize s.parser s.clientData reads := by
  induction reads generalizing s with
  | nil => rfl
  | cons data rest ih =>
    unfold verdict verdictOf
    rw [handleClientRead_bytes h]
    cases readPart maxRequestSize s.parser (s.clientData ++ data) data with
    | taken req parser => rfl
    | refused parser => rfl
    | more parser => exact ih (s := { s.received data with parser := parser }.readClient) h

/-- A session that has read nothing of the next request. -/
structure AtStart (s : Session L) : Prop where
  plain : s.isConnect = false
  parser : s.parser.requestParser = .reset requestOps
  data : s.clientData = []

theorem atStart_started (hasCertCache : Bool) : (started hasCertCache : Session L).AtStart := ⟨rfl, rfl, rfl⟩

/-- A connection that is kept alive is ready again. -/
theorem atStart_finishExchange {s : Session L} {env : Env} {res : HttpResponse}
    (h : keepAlive ((s.respond .relayed res).request env) res = true) :
    (s.finishExchange env res).AtStart := by
  unfold finishExchange
  rw [if_pos h]
  exact ⟨rfl, rfl, rfl⟩

end Session

namespace MitmSession

def received (s : MitmSession L) (data : Bytes) : MitmSession L :=
  { s.resetTimer.emit (.read data) with clientAccumulated := s.clientAccumulated ++ data }

theorem handleClientRead_bytes {s : MitmSession L} (h : s.isClosed = false) (env : Env)
    (data : Bytes) : s.handleClientRead env (.bytes data) =
      match readPart maxRequestSize s.clientParser (s.clientAccumulated ++ data) data with
      | .taken req parser => { s.received data with clientParser := parser }.handleRequest env req
      | .more parser => { s.received data with clientParser := parser }.readClient
      | .refused parser => { s.received data with clientParser := parser }.close := by
  have hread : s.handleClientRead env (.bytes data) =
      if (s.clientParser.feedRequest data).2 then
        match (s.clientParser.feedRequest data).1.takeRequest with
        | (some req, parser) =>
          { s.received data with clientParser := parser }.handleRequest env req
        | (none, parser) => { s.received data with clientParser := parser }.readClient
      else if (s.clientAccumulated ++ data).length < maxRequestSize then
        { s.received data with clientParser := (s.clientParser.feedRequest data).1 }.readClient
      else { s.received data with clientParser := (s.clientParser.feedRequest data).1 }.close := by
    unfold handleClientRead
    rw [if_neg (by simp [h])]
    rfl
  rw [hread, readPart]
  split
  · split <;> rfl
  · split <;> rfl

def verdict (env : Env) (s : MitmSession L) : List Bytes → Verdict
  | [] => .undecided
  | data :: rest =>
    match readPart maxRequestSize s.clientParser (s.clientAccumulated ++ data) data with
    | .taken req _ => .handedOn req
    | .refused _ => .rejected
    | .more _ => (s.handleClientRead env (.bytes data)).verdict env rest

theorem readClient_open {s : MitmSession L} (h : s.isClosed = false) :
    s.readClient = s.start .clientRead := if_neg (Bool.eq_false_iff.mp h)

theorem verdict_eq {s : MitmSession L} (h : s.isClosed = false) (env : Env) (reads : List Bytes) :
    s.verdict env reads = verdictOf maxRequestSize s.clientParser s.clientAccumulated reads := by
  induction reads generalizing s with
  | nil => rfl
  | cons data rest ih =>
    unfold verdict verdictOf
    rw [handleClientRead_bytes h]
    cases readPart maxRequestSize s.clientParser (s.clientAccumulated ++ data) data with
    | taken req parser => rfl
    | refused parser => rfl
    | more parser =>
      let u : MitmSession L := { s.received data with clientParser := parser }
      show u.readClient.verdict env rest = _
      rw [readClient_open (s := u) h]
      exact ih (s := u.start .clientRead) h

structure AtStart (s : MitmSession L) : Prop where
  opened : s.isClosed = false
  parser : s.clientParser.requestParser = .reset requestOps
  data : s.clientAccumulated = []

theorem atStart_started (targetHost : Bytes) (targetPort : UInt16) :
    (started targetHost targetPort : MitmSession L).AtStart := ⟨rfl, rfl, rfl⟩

theorem AtStart.readClient {s : MitmSession L} (hs : s.AtStart) : s.readClient.AtStart := by
  rw [readClient_open hs.opened]
  exact ⟨hs.opened, hs.parser, hs.data⟩

theorem atStart_finishExchange {s : MitmSession L} (hopen : s.isClosed = false) {env : Env}
    {res : HttpResponse}
    (h : keepAlive ((s.respond .relayed res).currentTransaction.request.map env.heap) res = true) :
    (s.finishExchange env res).AtStart := by
  unfold finishExchange
  rw [if_pos h]
  apply AtStart.readClient
  exact ⟨hopen, rfl, rfl⟩

end MitmSession

end Sessions

section Divisions

variable {L : Llhttp} {At : L.State → List Piece → Prop} {m : RequestMessage}

theorem readPart_ready (limit : ℕ) {p : HttpParser L} {data : Bytes} {req : HttpRequest}
    (accumulated : Bytes) (hready : (p.feedRequest data).2 = true)
    (htake : (p.feedRequest data).1.takeRequest.1 = some req) :
    readPart limit p accumulated data = .taken req (p.feedRequest data).1.takeRequest.2 := by
  unfold readPart
  rw [if_pos hready]
  generalize (p.feedRequest data).1.takeRequest = taken at htake
  obtain ⟨req', parser⟩ := taken
  cases htake
  rfl

/-- The reads of a message are handed on when all of them but the last stay below the limit. -/
theorem verdictOf_waiting (hL : L.Reads At) (hn : m.message.NamesGiven) {limit : ℕ}
    {p : HttpParser L} {core : List Piece} {accumulated : Bytes} {reads : List Bytes}
    (hw : Waiting At HoldsRequest m.message p.requestParser core)
    (hflat : reads.flatten = wireOf core) (hne : ∀ c ∈ reads, c ≠ [])
    (hbelow : accumulated.length < limit) :
    verdictOf limit p accumulated reads =
      if accumulated.length + reads.dropLast.flatten.length < limit then .handedOn m.request
      else .rejected := by
  induction reads generalizing p core accumulated with
  | nil => exact absurd hflat.symm hw.more
  | cons data rest ih =>
    rw [List.flatten_cons] at hflat
    have hrest : ∀ c ∈ rest, c ≠ [] := fun c hc => hne c (List.mem_cons_of_mem data hc)
    rcases hw.feed hL requestOps_keeps ⟨rest.flatten, hflat⟩ with
      ⟨hall, hready, r, htake, htaken⟩ | ⟨core', hcore, hready, hw'⟩
    · -- the last read: the message is complete and the limit is not tested
      have hlast : rest = [] := by
        rw [hall, List.append_right_eq_self, List.flatten_eq_nil_iff] at hflat
        apply List.eq_nil_iff_forall_not_mem.mpr
        intro c hc
        exact hrest c hc (hflat c hc)
      have htaken' : r = m.request := request_of_taken hn htaken
      have hpart := readPart_ready (p := p) limit (accumulated ++ data) hready
        (congrArg Prod.fst htake)
      unfold verdictOf
      rw [hpart, hlast, htaken']
      simp [hbelow]
    · have hmore : rest ≠ [] := by
        intro hnil
        rw [hcore, List.append_cancel_left_eq, hnil] at hflat
        exact hw'.more hflat.symm
      rw [hcore, List.append_cancel_left_eq] at hflat
      have hready' : (p.feedRequest data).2 = false := hready
      have hlen : accumulated.length + (data :: rest).dropLast.flatten.length =
          (accumulated ++ data).length + rest.dropLast.flatten.length := by
        rw [List.dropLast_cons_of_ne_nil hmore, List.flatten_cons, List.length_append,
          List.length_append]
        omega
      rw [hlen]
      unfold verdictOf readPart
      rw [hready', if_neg Bool.false_ne_true]
      by_cases hlimit : (accumulated ++ data).length < limit
      · rw [if_pos hlimit]
        exact ih hw' hflat hrest hlimit
      · rw [if_neg hlimit, if_neg (by omega)]

/-- The reads that the buffers of the two classes allow. -/
def Division (bytes : Bytes) (reads : List Bytes) : Prop :=
  reads.flatten = bytes ∧ ∀ c ∈ reads, 1 ≤ c.length ∧ c.length ≤ 8192

theorem Division.ne_nil {bytes : Bytes} {reads : List Bytes} (h : Division bytes reads) :
    ∀ c ∈ reads, c ≠ [] := fun c hc => List.length_pos_iff.mp (h.2 c hc).1

/-- All reads but the last hold all bytes but 1 to 8192. -/
theorem Division.dropLast_length {bytes : Bytes} {reads : List Bytes} (h : Division bytes reads)
    (hne : bytes ≠ []) : reads.dropLast.flatten.length < bytes.length ∧
      bytes.length ≤ reads.dropLast.flatten.length + 8192 := by
  have hreads : reads ≠ [] := by
    intro hnil
    apply hne
    rw [← h.1, hnil]
    rfl
  have hsplit := List.dropLast_append_getLast hreads
  have hlast := h.2 _ (List.getLast_mem hreads)
  have hlen : bytes.length = reads.dropLast.flatten.length + (reads.getLast hreads).length := by
    rw [← h.1]
    conv_lhs => rw [← hsplit]
    simp
  omega

/-- One byte at a time, but for the last `k` bytes. -/
def lastAtOnce (k : ℕ) (bytes : Bytes) : List Bytes :=
  (bytes.take (bytes.length - k)).map (fun c => [c]) ++ [bytes.drop (bytes.length - k)]

theorem division_lastAtOnce (k : ℕ) {bytes : Bytes} (hpos : 1 ≤ k) (hk : k ≤ 8192)
    (hlen : k ≤ bytes.length) : Division bytes (lastAtOnce k bytes) ∧
      (lastAtOnce k bytes).dropLast.flatten.length = bytes.length - k := by
  have hflat : (((bytes.take (bytes.length - k)).map fun c => [c]) : List Bytes).flatten =
      bytes.take (bytes.length - k) := by
    rw [← List.flatMap_def, List.flatMap_singleton']
  refine ⟨⟨?_, ?_⟩, ?_⟩
  · rw [lastAtOnce, List.flatten_append, hflat, List.flatten_singleton, List.take_append_drop]
  · intro c hc
    rcases List.mem_append.mp hc with hc | hc
    · obtain ⟨x, -, rfl⟩ := List.mem_map.mp hc
      simp
    · rw [List.mem_singleton.mp hc, List.length_drop]
      omega
  · rw [lastAtOnce, List.dropLast_concat, hflat, List.length_take]
    omega

/-- The bytes alone decide: how they are divided does not matter, nor which class reads them. -/
def DecidedByBytes (env : Env) (s : Session L) (t : MitmSession L) (bytes : Bytes) : Prop :=
  ∀ reads reads', Division bytes reads → Division bytes reads' →
    s.verdict env reads = s.verdict env reads' ∧
      (t.verdict env reads').accepts = (s.verdict env reads).accepts

variable {s : Session L} {t : MitmSession L}

theorem verdictOf_division (hL : L.Reads At) (hn : m.message.NamesGiven)
    (hat : At (L.init .request) m.message.pieces) {limit : ℕ} (hlimit : 0 < limit)
    {p : HttpParser L} (hp : p.requestParser = .reset requestOps) {reads : List Bytes}
    (hd : Division m.message.wire reads) : verdictOf limit p [] reads =
      if reads.dropLast.flatten.length < limit then .handedOn m.request else .rejected := by
  have hread : Readable At requestOps.parserType m.message := ⟨regular_requestStart m, hat⟩
  have hw : Waiting At HoldsRequest m.message p.requestParser m.message.core := by
    rw [hp]
    exact hread.waiting requestOps_keeps
  have hbelow : ([] : Bytes).length < limit := hlimit
  have hverdict := verdictOf_waiting hL hn hw (hd.1.trans (wire_eq_core _)) hd.ne_nil hbelow
  simpa using hverdict

theorem Session.verdict_division (hL : L.Reads At) (hn : m.message.NamesGiven)
    (hat : At (L.init .request) m.message.pieces) (env : Env) (hs : s.AtStart) {reads : List Bytes}
    (hd : Division m.message.wire reads) : s.verdict env reads =
      if reads.dropLast.flatten.length < 65536 then .handedOn m.request else .rejected := by
  rw [Session.verdict_eq hs.plain, hs.data]
  exact verdictOf_division hL hn hat (by decide) hs.parser hd

theorem MitmSession.verdict_division (hL : L.Reads At) (hn : m.message.NamesGiven)
    (hat : At (L.init .request) m.message.pieces) (env : Env) (ht : t.AtStart) {reads : List Bytes}
    (hd : Division m.message.wire reads) : t.verdict env reads =
      if reads.dropLast.flatten.length < 1048576 then .handedOn m.request else .rejected := by
  rw [MitmSession.verdict_eq ht.opened, ht.data]
  exact verdictOf_division hL hn hat (by decide) ht.parser hd

theorem wire_ne_nil (m : WireMessage) : m.wire ≠ [] := by
  rw [wire_eq_core]
  exact wireOf_core_ne_nil m

/-- The bytes decide exactly for messages that stay within the smaller limit, and for those that
no division brings in under the larger one. -/
theorem decided_by_bytes_iff (hL : L.Reads At) (hm : m.WellFormed)
    (hat : At (L.init .request) m.message.pieces) (env : Env) (hs : s.AtStart) (ht : t.AtStart) :
    DecidedByBytes env s t m.message.wire ↔
      m.message.wire.length ≤ 65536 ∨ 1048576 + 8192 ≤ m.message.wire.length := by
  have hn := hm.namesGiven
  have hne := wire_ne_nil m.message
  constructor
  · intro h
    by_contra hbetween
    rw [not_or] at hbetween
    obtain ⟨hones, hones_len⟩ := division_lastAtOnce 1 (by omega) (by omega)
      (show 1 ≤ m.message.wire.length by omega)
    obtain ⟨hlarge, hlarge_len⟩ := division_lastAtOnce 8192 (by omega) (by omega)
      (show 8192 ≤ m.message.wire.length by omega)
    -- `Session` rejects the single bytes, and `MitmSession` hands the other division on
    have hsame := (h _ _ hones hlarge).2
    rw [Session.verdict_division hL hn hat env hs hones, hones_len, if_neg (by omega),
      MitmSession.verdict_division hL hn hat env ht hlarge, hlarge_len, if_pos (by omega)] at hsame
    simp [Verdict.accepts] at hsame
  · intro h reads reads' hd hd'
    obtain ⟨hlt, hle⟩ := hd.dropLast_length hne
    obtain ⟨hlt', hle'⟩ := hd'.dropLast_length hne
    rw [Session.verdict_division hL hn hat env hs hd, Session.verdict_division hL hn hat env hs hd',
      MitmSession.verdict_division hL hn hat env ht hd']
    rcases h with h | h
    · rw [if_pos (by omega), if_pos (by omega), if_pos (by omega)]
      exact ⟨rfl, rfl⟩
    · rw [if_neg (by omega), if_neg (by omega), if_neg (by omega)]
      exact ⟨rfl, rfl⟩

/-- The connection is kept alive after it. -/
def keptResponse : HttpResponse := { headers := [(str "Connection", str "keep-alive")] }

/-- For the first request of a connection, and for the next one when it is kept alive. -/
theorem decided_by_bytes_iff_chunkedPost :
    let s : Session (scripted chunkedScript) := .started true
    let t : MitmSession (scripted chunkedScript) := .started (str "h") 443
    let bytes := chunkedPost.message.wire
    (DecidedByBytes {} s t bytes ↔ bytes.length ≤ 65536 ∨ 1048576 + 8192 ≤ bytes.length) ∧
    (DecidedByBytes {} (s.finishExchange {} keptResponse) (t.finishExchange {} keptResponse) bytes ↔
      bytes.length ≤ 65536 ∨ 1048576 + 8192 ≤ bytes.length) := by
  have hiff {s : Session (scripted chunkedScript)} {t : MitmSession (scripted chunkedScript)}
      (hs : s.AtStart) (ht : t.AtStart) := decided_by_bytes_iff (scripted_reads chunkedScript)
    chunkedPost_wellFormed ahead_chunkedPost {} hs ht
  exact ⟨hiff (Session.atStart_started true) (MitmSession.atStart_started (str "h") 443),
    hiff (Session.atStart_finishExchange (by decide)) (MitmSession.atStart_finishExchange rfl (by decide))⟩

end Divisions

section Examples

def lengthField : Field := { name := str "Content-Length", value := str "65536" }

/-- A POST with a body of 65536 bytes. -/
def largePost (body : Bytes) : RequestMessage :=
  { method := str "POST", url := str "http://h/", fields := [lengthField], body := .plain body }

variable {body : Bytes}

theorem largePost_wellFormed (hlen : body.length = 65536) : (largePost body).WellFormed where
  method := show str "POST" ≠ [] ∧ NoBlank (str "POST") by decide
  url := show str "http://h/" ≠ [] ∧ NoBlank (str "http://h/") by decide
  fields f hf := by
    have hfield : f = lengthField := List.mem_singleton.mp hf
    rw [hfield]
    exact ⟨by decide, by decide, by decide, by decide⟩
  framing := by
    have hvalues : contentLengths [lengthField.header] = [str "65536"] := by decide
    have hdigits : digitsValue (str "65536") = 65536 := by decide
    refine ⟨show transferEncodings [lengthField.header] = [] by decide, Or.inr ?_⟩
    exact ⟨str "65536", hvalues, by decide, by decide, hdigits.trans hlen.symm⟩

theorem largePost_wire_length (hlen : body.length = 65536) :
    (largePost body).message.wire.length = 65586 := by
  have hline : (largePost body).request.requestLine = str "POST http://h/ HTTP/1.1" ++ CRLF := by
    show (str "POST" ++ str " " ++ str "http://h/" ++ str " " ++ httpVersion {} ++ CRLF) = _
    decide
  rw [RequestMessage.wire_eq, hline]
  simp [largePost, lengthField, wireOf, Field.pieces, Piece.bytes, WireBody.pieces, optionalSpan,
    str, CRLF, hlen]

def largeScript (body : Bytes) : ParserType → List Piece := fun _ => (largePost body).message.pieces

theorem ahead_largePost (body : Bytes) :
    Ahead (largeScript body .request) (largePost body).message.pieces :=
  ⟨[], .inl rfl, by simp [largeScript]⟩

theorem largePost_divided (hlen : body.length = 65536)
    (s : Session (scripted (largeScript body))) (t : MitmSession (scripted (largeScript body)))
    (hs : s.AtStart) (ht : t.AtStart) (env : Env) :
    s.verdict env (lastAtOnce 8192 (largePost body).message.wire) =
        .handedOn (largePost body).request ∧
      s.verdict env (lastAtOnce 1 (largePost body).message.wire) = .rejected ∧
      t.verdict env (lastAtOnce 1 (largePost body).message.wire) =
        .handedOn (largePost body).request ∧
      ¬ DecidedByBytes env s t (largePost body).message.wire := by
  have hL := scripted_reads (largeScript body)
  have hn := (largePost_wellFormed hlen).namesGiven
  have hat := ahead_largePost body
  have hwire := largePost_wire_length hlen
  obtain ⟨hones, hones_len⟩ := division_lastAtOnce 1 (by omega) (by omega)
    (show 1 ≤ (largePost body).message.wire.length by omega)
  obtain ⟨hlarge, hlarge_len⟩ := division_lastAtOnce 8192 (by omega) (by omega)
    (show 8192 ≤ (largePost body).message.wire.length by omega)
  have haccepted := Session.verdict_division hL hn hat env hs hlarge
  have hrejected := Session.verdict_division hL hn hat env hs hones
  have hmitm := MitmSession.verdict_division hL hn hat env ht hones
  rw [hlarge_len, if_pos (by omega)] at haccepted
  rw [hones_len, if_neg (by omega)] at hrejected
  rw [hones_len, if_pos (by omega)] at hmitm
  refine ⟨haccepted, hrejected, hmitm, ?_⟩
  intro h
  have hsame := (h _ _ hlarge hones).1
  rw [haccepted, hrejected] at hsame
  cases hsame

/-- One request of 65586 bytes is handed on or rejected as it is divided. -/
theorem large_post_divided :
    let body : Bytes := List.replicate 65536 97
    let bytes := (largePost body).message.wire
    let s : Session (scripted (largeScript body)) := .started true
    let t : MitmSession (scripted (largeScript body)) := .started (str "h") 443
    s.verdict {} (lastAtOnce 8192 bytes) = .handedOn (largePost body).request ∧
      s.verdict {} (lastAtOnce 1 bytes) = .rejected ∧
      t.verdict {} (lastAtOnce 1 bytes) = .handedOn (largePost body).request ∧
      ¬ DecidedByBytes {} s t bytes :=
  largePost_divided List.length_replicate (.started true) (.started (str "h") 443)
    (Session.atStart_started true) (MitmSession.atStart_started (str "h") 443) {}

end Examples

end BurpTUI
