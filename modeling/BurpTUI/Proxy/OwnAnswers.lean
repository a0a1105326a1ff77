import BurpTUI.Base.Grows
import BurpTUI.Http.Fragments
import BurpTUI.Http.Framing
import BurpTUI.Http.WholeReply
import BurpTUI.Http.Script
import BurpTUI.Proxy.Aside
import BurpTUI.Proxy.Destination
import BurpTUI.Proxy.MitmAnswer

namespace BurpTUI

/-! The responses of the proxy itself as messages on the wire. -/

structure ResponseMessage.WellFormed (m : ResponseMessage) : Prop where
  status : 200 ≤ m.statusCode ∧ m.statusCode ≤ 599
  statusText : Plain m.statusText
  fields : ∀ f ∈ m.fields ++ m.body.trailers, f.WellFormed
  framing : Framed (m.fields.map Field.header) m.body

/-- Every response of the proxy itself ends in this way. -/
def closingFields (body : Bytes) : List Field :=
  [{ name := str "Content-Length", value := decimal body.length },
    { name := str "Connection", value := str "close" }]

def ownMessage (statusCode : ℕ) (statusText : Bytes) (fields : List Field) (body : Bytes) : ResponseMessage where
  statusCode := statusCode
  statusText := statusText
  fields := fields ++ closingFields body
  body := .plain body

def errorPage (statusCode : ℕ) (statusText : Bytes) : ResponseMessage :=
  ownMessage statusCode statusText [{ name := str "Content-Type", value := str "text/html" }]
    (Session.errorBody statusCode statusText)

def caCertPage (caCert : Bytes) : ResponseMessage :=
  ownMessage 200 (str "OK") [{ name := str "Content-Type", value := str "application/x-x509-ca-cert" },
    { name := str "Content-Disposition", value := str "attachment; filename=\"burptui-ca.crt\"" }] caCert

def helpMessage (certPath : Bytes) : ResponseMessage :=
  ownMessage 200 (str "OK") [{ name := str "Content-Type", value := str "text/html; charset=utf-8" }]
    (Session.helpPage certPath)

inductive OwnPage : ResponseMessage → Prop
  | error {statusCode : ℕ} {statusText : Bytes} (h : (statusCode, statusText) ∈ ownStatuses) :
    OwnPage (errorPage statusCode statusText)
  | caCert {caCert : Bytes} (h : caCert ≠ []) : OwnPage (caCertPage caCert)
  | help (certPath : Bytes) : OwnPage (helpMessage certPath)
  | bare {statusCode : ℕ} {statusText : Bytes} (h : (statusCode, statusText) ∈ ownStatuses) :
    OwnPage (ownMessage statusCode statusText [] [])

theorem wire_ownMessage (statusCode : ℕ) (statusText : Bytes) (fields : List Field) (body : Bytes) :
    (ownMessage statusCode statusText fields body).message.wire =
      Session.ownResponse (str "HTTP/1.1 " ++ decimal statusCode ++ str " " ++ statusText)
        (wireOf (fields.flatMap Field.pieces)) body := by
  have hversion : httpVersion (ownMessage statusCode statusText fields body).parser = str "HTTP/1.1" := by
    show str "HTTP/" ++ decimal 1 ++ str "." ++ decimal 1 = str "HTTP/1.1"
    decide
  have hline : str "HTTP/1.1" ++ str " " = str "HTTP/1.1 " := by decide
  have hlength : str "Content-Length" ++ (str ":" ++ str " ") = str "Content-Length: " := by decide
  have hclose : str "Connection" ++ (str ":" ++ (str " " ++ str "close")) = str "Connection: close" := by decide
  simp only [WireMessage.wire, WireMessage.pieces, WireMessage.core, ResponseMessage.message, hversion]
  simp only [ownMessage, closingFields, wireOf_append, wireOf_cons, List.flatMap_append, List.flatMap_cons,
    List.flatMap_nil, Field.pieces, Piece.bytes, optionalSpan, WireBody.pieces, Session.ownResponse,
    List.append_assoc, List.nil_append, List.append_nil]
  rw [← hline, ← hlength, ← hclose]
  simp only [wireOf, List.flatMap_nil, List.nil_append, List.append_nil, List.append_assoc]

theorem wire_errorPage (statusCode : ℕ) (statusText : Bytes) :
    (errorPage statusCode statusText).message.wire =
      Session.ownResponse (str "HTTP/1.1 " ++ decimal statusCode ++ str " " ++ statusText)
        (str "Content-Type: text/html" ++ CRLF) (Session.errorBody statusCode statusText) :=
  wire_ownMessage _ _ _ _

theorem wire_caCertPage (caCert : Bytes) : (caCertPage caCert).message.wire =
    Session.ownResponse (str "HTTP/1.1 200 OK") (str "Content-Type: application/x-x509-ca-cert" ++ CRLF ++
      str "Content-Disposition: attachment; filename=\"burptui-ca.crt\"" ++ CRLF) caCert :=
  wire_ownMessage _ _ _ _

theorem wire_helpMessage (certPath : Bytes) : (helpMessage certPath).message.wire =
    Session.ownResponse (str "HTTP/1.1 200 OK") (str "Content-Type: text/html; charset=utf-8" ++ CRLF)
      (Session.helpPage certPath) :=
  wire_ownMessage _ _ _ _

/-- A TLS session answers without a page. -/
theorem wire_errorResponse (statusCode : ℕ) (statusText : Bytes) :
    (ownMessage statusCode statusText [] []).message.wire =
      MitmSession.errorResponse statusCode statusText := by
  have hlength : str "Content-Length: 0" = str "Content-Length: " ++ decimal 0 := by decide
  rw [wire_ownMessage]
  simp only [Session.ownResponse, MitmSession.errorResponse, hlength, wireOf, List.flatMap_nil, List.length_nil,
    List.append_assoc, List.append_nil]

/-! They are well formed: the client sees where they end. -/

theorem not_blank_of_digit {c : UInt8} (h : isDigit c = true) : isBlank c = false := by
  simp only [isDigit, Bool.and_eq_true, decide_eq_true_eq] at h
  simp only [isBlank, Bool.or_eq_false_iff, beq_eq_false_iff_ne]
  exact ⟨fun he => by simp [he] at h, fun he => by simp [he] at h⟩

theorem trimBlanks_digits {s : Bytes} (h : ∀ c ∈ s, isDigit c = true) : trimBlanks s = s := by
  have hblank {c : UInt8} (hc : c ∈ s) : isBlank c = false := not_blank_of_digit (h c hc)
  have hdrop {l : Bytes} (hl : ∀ c ∈ l, c ∈ s) : l.dropWhile isBlank = l := by
    cases l with
    | nil => rfl
    | cons c l => rw [List.dropWhile_cons_of_neg (by simp [hblank (hl c List.mem_cons_self)])]
  rw [trimBlanks, hdrop fun c hc => hc, hdrop fun c hc => List.mem_reverse.mp hc, List.reverse_reverse]

theorem plain_digits {s : Bytes} (h : ∀ c ∈ s, isDigit c = true) : Plain s :=
  ⟨fun hc => absurd (h _ hc) (by decide), fun hc => absurd (h _ hc) (by decide)⟩

theorem valuesOf_append (hs hs' : List Header) (name : Bytes) :
    valuesOf (hs ++ hs') name = valuesOf hs name ++ valuesOf hs' name := by
  simp [valuesOf]

theorem wellFormed_field {name value : Bytes} (hname : name ≠ [] ∧ 58 ∉ name ∧ Plain name)
    (hvalue : Plain value ∧ value.head?.all (fun c => !isBlank c) = true) :
    ({ name := name, value := value } : Field).WellFormed where
  name := hname
  before := show ∀ c ∈ str " ", isBlank c = true by decide
  value := hvalue
  after c hc := by cases hc

/-- The fields say nothing about the length of the body. -/
def Unframing (fields : List Field) : Prop :=
  ∀ f ∈ fields, f.WellFormed ∧ f.name.map toLower ≠ str "transfer-encoding" ∧
    f.name.map toLower ≠ str "content-length"

theorem ownMessage_wellFormed {statusCode : ℕ} {statusText : Bytes} {fields : List Field}
    (hstatus : 200 ≤ statusCode ∧ statusCode ≤ 599) (htext : Plain statusText) (hfields : Unframing fields)
    (body : Bytes) : (ownMessage statusCode statusText fields body).WellFormed where
  status := hstatus
  statusText := htext
  fields f hf := by
    obtain ⟨-, hdigits, -⟩ := isPort_decimal body.length
    have hf : f ∈ fields ++ closingFields body := by simpa [ownMessage, WireBody.trailers] using hf
    rcases List.mem_append.mp hf with hf | hf
    · exact (hfields f hf).1
    · rcases List.mem_pair.mp hf with rfl | rfl
      · exact wellFormed_field (by decide) ⟨plain_digits hdigits, by
          simpa [Option.all_eq_true] using fun c hc => not_blank_of_digit (hdigits c (List.mem_of_mem_head? hc))⟩
      · exact wellFormed_field (by decide) (by decide)
  framing := by
    obtain ⟨hne, hdigits, hvalue⟩ := isPort_decimal body.length
    have hnone {name : Bytes} (hname : ∀ f ∈ fields, f.name.map toLower ≠ name) :
        valuesOf (fields.map Field.header) name = [] := by
      rw [valuesOf, List.map_eq_nil_iff, List.filter_eq_nil_iff]
      intro h hh
      obtain ⟨f, hf, rfl⟩ := List.mem_map.mp hh
      simpa [Field.header] using hname f hf
    have hheaders : (ownMessage statusCode statusText fields body).fields.map Field.header =
        fields.map Field.header ++ (closingFields body).map Field.header := List.map_append
    rw [hheaders]
    have htrim := trimBlanks_digits hdigits
    refine ⟨?_, .inr ⟨decimal body.length, ?_, by rwa [htrim], by rwa [htrim, List.all_eq_true], by rwa [htrim]⟩⟩
    · rw [transferEncodings, valuesOf_append, hnone fun f hf => (hfields f hf).2.1]
      rfl
    · rw [contentLengths, valuesOf_append, hnone fun f hf => (hfields f hf).2.2]
      rfl

theorem OwnPage.wellFormed {m : ResponseMessage} (h : OwnPage m) : m.WellFormed := by
  have hfield {f : Field} (hf : f.WellFormed ∧ f.name.map toLower ≠ str "transfer-encoding" ∧
      f.name.map toLower ≠ str "content-length") : Unframing [f] := by
    intro f' hf'
    rw [List.mem_singleton.mp hf']
    exact hf
  have hstatus : ∀ p ∈ ownStatuses, (200 ≤ p.1 ∧ p.1 ≤ 599) ∧ Plain p.2 := by decide
  cases h with
  | error h =>
    exact ownMessage_wellFormed (hstatus _ h).1 (hstatus _ h).2
      (hfield ⟨wellFormed_field (by decide) (by decide), by decide, by decide⟩) _
  | caCert h =>
    refine ownMessage_wellFormed (by decide) (by decide) (fun f hf => ?_) _
    rcases List.mem_pair.mp hf with rfl | rfl
    · exact ⟨wellFormed_field (by decide) (by decide), by decide, by decide⟩
    · exact ⟨wellFormed_field (by decide) (by decide), by decide, by decide⟩
  | bare h => exact ownMessage_wellFormed (hstatus _ h).1 (hstatus _ h).2 (fun f hf => by cases hf) _
  | help certPath =>
    exact ownMessage_wellFormed (by decide) (by decide)
      (hfield ⟨wellFormed_field (by decide) (by decide), by decide, by decide⟩) _

/-- What the proxy says to a client by itself. -/
def Said (data : Bytes) : Prop := data = Session.established ∨ ∃ m, OwnPage m ∧ m.message.wire = data

def Effect.Spoken : Effect → Prop
  | .queued .generated data => Said data
  | .answered data => Said data
  | _ => True

theorem said_error {statusCode : ℕ} {statusText : Bytes} (h : (statusCode, statusText) ∈ ownStatuses) :
    Said (Session.ownResponse (str "HTTP/1.1 " ++ decimal statusCode ++ str " " ++ statusText)
      (str "Content-Type: text/html" ++ CRLF) (Session.errorBody statusCode statusText)) :=
  .inr ⟨_, .error h, wire_errorPage _ _⟩

theorem spoken_of_aside {e : Effect} (h : e.aside = true) : e.Spoken := by
  cases e <;> simp_all [Effect.aside, Effect.Spoken]

namespace Session

variable {L : Llhttp} {s t u : Session L} {op : Op}

/-- From `s` to `t` the proxy says nothing else. -/
def Speaks (s t : Session L) : Prop := Grows Effect.Spoken s.log t.log

namespace Speaks

theorem refl (s : Session L) : Speaks s s := Grows.refl _

theorem trans (h : Speaks s t) (h' : Speaks t u) : Speaks s u := Grows.trans h h'

theorem same (h : t.log = s.log) : Speaks s t := by
  unfold Speaks
  rw [h]
  exact Grows.refl _

theorem emit (s : Session L) {e : Effect} (he : e.Spoken) : Speaks s (s.emit e) := Grows.snoc _ he

theorem aside (h : Aside s t) : Speaks s t := by
  obtain ⟨es, hes, haside⟩ := h.log
  exact ⟨es, hes, fun e he => spoken_of_aside (haside e he)⟩

theorem writes : AllowsWrite (Speaks (L := L)) where
  refl := refl
  trans := trans
  send _ _ := Grows.snoc _ trivial
  sendServer _ _ := Grows.snoc _ trivial

theorem writeClient (s : Session L) (origin : Origin) (data : Bytes)
    (h : (Effect.queued origin data).Spoken) : Speaks s (s.writeClient origin data) :=
  writes.writeClient (Grows.snoc _ h)

theorem answer (s : Session L) (response : HttpResponse) {data : Bytes} (h : Said data) :
    Speaks s ({ s.respond .generated response with closeAfterWrite := true }.writeClient .generated data) := by
  have hreported : Speaks s { s.respond .generated response with closeAfterWrite := true } :=
    Grows.snoc _ trivial
  exact hreported.trans (writeClient _ .generated data h)

theorem sendErrorResponse (s : Session L) {statusCode : ℕ} {statusText : Bytes}
    (h : (statusCode, statusText) ∈ ownStatuses) : Speaks s (s.sendErrorResponse statusCode statusText) :=
  answer s _ (said_error h)

theorem serveCaCert (s : Session L) (env : Env) : Speaks s (s.serveCaCert env) := by
  unfold Session.serveCaCert
  split
  · exact sendErrorResponse s (by decide)
  · rename_i hcert
    exact answer s _ (.inr ⟨_, .caCert hcert, wire_caCertPage _⟩)

theorem serveBurpHelpPage (s : Session L) (env : Env) : Speaks s (s.serveBurpHelpPage env) :=
  answer s _ (.inr ⟨_, .help env.caCertPath, wire_helpMessage _⟩)

theorem close (s : Session L) : Speaks s s.close := aside (Aside.closes.close s)

theorem closeServer (s : Session L) : Speaks s s.closeServer := aside (Aside.closes.closeServer s)

theorem dials : AllowsDial (Speaks (L := L)) where
  refl := refl
  trans := trans
  error := sendErrorResponse
  serverOpen _ := same rfl
  store _ _ := same rfl
  handed _ _ _ := Grows.snoc _ trivial
  start _ _ _ := same rfl

theorem finishes : AllowsFinish (Speaks (L := L)) where
  refl := refl
  trans := trans
  respond _ _ := Grows.snoc _ trivial
  parser _ _ := same rfl
  renew _ := same rfl
  flag _ := same rfl
  readClient _ := same rfl
  readUpstream _ := same rfl

theorem takes : AllowsTake (Speaks (L := L)) where
  refl := refl
  trans := trans
  target _ _ _ _ := same rfl
  connected _ _ := Grows.snoc _ trivial
  spawn _ _ _ := Grows.snoc _ trivial
  route _ _ _ := same rfl
  tunnel _ := same rfl
  tested _ _ _ := Grows.snoc _ trivial
  resolve _ := same rfl

theorem handleUpstreamRead (s : Session L) (env : Env) (o : Outcome) :
    Speaks s (s.handleUpstreamRead env o) := by
  refine finishes.handleUpstreamRead close (fun data => ?_) env o
  have hreceived : Speaks s (s.resetTimer.emit (.received data)) := Grows.snoc _ trivial
  exact hreceived.trans (writeClient _ .relayed data trivial)

theorem handleRequest {env : Env} {req : HttpRequest} (hok : s.handleRequest env req = .ok t) : Speaks s t :=
  handleRequest_of writes.toChain (Grows.snoc _ trivial) takes.handleConnect
    (fun s => sendErrorResponse s (by decide)) (serveCaCert · env) (serveBurpHelpPage · env)
    (fun t _ => takes.handleUpstreamRoute (fun _ _ => Grows.snoc _ trivial)
      (fun t _ => dials.forwardRequest (closeServer t)) env (s := t)) hok

theorem handleClientRead {env : Env} {o : Outcome} (hok : s.handleClientRead env o = .ok t) : Speaks s t :=
  handleClientRead_any writes.toChain (close s) (fun _ => Grows.snoc _ trivial) (fun _ _ _ => same rfl)
    (fun s data => aside (Aside.writeServerBlind s data)) (fun _ => same rfl)
    (fun s => sendErrorResponse s (by decide)) (fun _ _ => handleRequest) hok

theorem handle {env : Env} {o : Outcome} (hok : s.handle env op o = .ok t) : Speaks s t := by
  cases op with
  | clientRead => exact handleClientRead hok
  | timer =>
    cases hok
    exact handleTimeout_of writes.toChain (fun _ _ _ => same rfl) (fun s => sendErrorResponse s (by decide))
      (close s) o
  | resolve => cases hok; exact dials.handleResolve (closeServer s) o
  | connect =>
    cases hok
    exact dials.handleConnected (writeClient s .generated _ (.inl rfl)) (fun _ => same rfl) env o
  | clientWrite data => cases hok; exact aside (Aside.handleClientWrite s o)
  | upstreamRead => cases hok; exact handleUpstreamRead s env o
  | upstreamWrite data => cases hok; exact dials.handleUpstreamWrite s o
  | serverWrite data => cases hok; exact aside (Aside.handleServerWrite s o)
  | decision action => cases hok; exact dials.handleDecision (same rfl) (closeServer _) action
  | rawWrite data => cases hok; exact refl s
  | established => cases hok; exact refl s
  | clientHandshake => cases hok; exact refl s
  | upstreamHandshake => cases hok; exact refl s

end Speaks

theorem reached_spoken {r : Running L} (h : (system L).Reached r) : ∀ e ∈ r.session.log, e.Spoken := by
  refine h.invariant (I := fun r => ∀ e ∈ r.session.log, e.Spoken) ?_ ?_
  · rintro _ ⟨hasCertCache, rfl⟩ e he
    cases he
  · intro r a r' hr _ hstep
    have hgrows (t : Session L) (ht : Speaks r.session t) : ∀ e ∈ t.log, e.Spoken := by
      obtain ⟨es, hes, hspoken⟩ := ht
      intro e he
      rw [hes] at he
      exact (List.mem_append.mp he).elim (hr e) (hspoken e)
    cases moves_of_step hstep with
    | complete ht => exact hgrows _ (.aside (.complete ht))
    | handled _ _ ht =>
      obtain ⟨op, o, io, hio, hhandle⟩ := dispatch_spec ht
      exact hgrows _ (Speaks.handle (s := { r.session with io := io }) hhandle)
    | threw => exact hr
    | decide href => exact hgrows _ (.emit _ trivial)
    | close => exact hgrows _ (.close _)

end Session

namespace MitmSession

variable {L : Llhttp} {s t u : MitmSession L} {op : Op}

def Speaks (s t : MitmSession L) : Prop := Grows Effect.Spoken s.log t.log

namespace Speaks

theorem refl (s : MitmSession L) : Speaks s s := Grows.refl _

theorem trans (h : Speaks s t) (h' : Speaks t u) : Speaks s u := Grows.trans h h'

theorem same (h : t.log = s.log) : Speaks s t := by
  unfold Speaks
  rw [h]
  exact Grows.refl _

theorem aside (h : Aside s t) : Speaks s t := by
  obtain ⟨es, hes, haside⟩ := h.log
  exact ⟨es, hes, fun e he => spoken_of_aside (haside e he)⟩

theorem close (s : MitmSession L) : Speaks s s.close := aside (Aside.closes.close s)

theorem writes : AllowsWrite (Speaks (L := L)) where
  refl := refl
  trans := trans
  send _ _ := Grows.snoc _ trivial

theorem writeClient (s : MitmSession L) (origin : Origin) (data : Bytes)
    (h : (Effect.queued origin data).Spoken) : Speaks s (s.writeClient origin data) :=
  writes.writeClient fun _ => Grows.snoc _ h

theorem sendErrorResponse (s : MitmSession L) {statusCode : ℕ} {statusText : Bytes}
    (h : (statusCode, statusText) ∈ ownStatuses) : Speaks s (s.sendErrorResponse statusCode statusText) := by
  have hsaid : Said (errorResponse statusCode statusText) := .inr ⟨_, .bare h, wire_errorResponse _ _⟩
  unfold MitmSession.sendErrorResponse
  split
  · exact refl s
  · let v : MitmSession L := { s with closeAfterWrite := true }.respond .generated
      { version := str "HTTP/1.1", statusCode := statusCode, statusText := statusText }
    have hreported : Speaks s v := Grows.snoc _ trivial
    dsimp only
    split
    · exact hreported.trans (writeClient v .generated _ hsaid)
    · exact hreported.trans (Grows.snoc _ hsaid)

theorem readClient (s : MitmSession L) : Speaks s s.readClient := startOpen_of writes.toChain (same rfl)

theorem readUpstream (s : MitmSession L) : Speaks s s.readUpstream := startOpen_of writes.toChain (same rfl)

theorem sets : AllowsSetup (Speaks (L := L)) where
  refl := refl
  trans := trans
  connect _ := same rfl
  established _ := Grows.snoc _ (.inl rfl)
  handshakes _ := same rfl
  clientDone _ := same rfl
  upstreamDone _ := same rfl
  readClient := readClient

theorem forwards : AllowsForward (Speaks (L := L)) where
  refl := refl
  trans := trans
  push _ _ _ := Grows.snoc _ trivial
  send _ _ _ := (Grows.snoc _ trivial).trans (Grows.snoc _ trivial)

theorem finishes : AllowsFinish (Speaks (L := L)) where
  refl := refl
  trans := trans
  respond _ _ := Grows.snoc _ trivial
  parser _ _ _ := same rfl
  renew _ := same rfl
  flag _ := same rfl
  readClient := readClient
  readUpstream := readUpstream

theorem handleRequest (s : MitmSession L) (env : Env) (req : HttpRequest) :
    Speaks s (s.handleRequest env req) :=
  handleRequest_of writes.toChain (Grows.snoc _ trivial) (fun _ => Grows.snoc _ trivial)
    (fun _ _ => Grows.snoc _ trivial) forwards.writeUpstream

theorem handleUpstreamRead (s : MitmSession L) (env : Env) (o : Outcome) :
    Speaks s (s.handleUpstreamRead env o) := by
  refine finishes.handleUpstreamRead close (fun _ data => ?_) env o
  have hreceived : Speaks s (s.resetTimer.emit (.received data)) := Grows.snoc _ trivial
  exact hreceived.trans (writeClient _ .relayed data trivial)

theorem handle (env : Env) (o : Outcome) : Speaks s (handle env s op o) := by
  cases op with
  | timer => exact aside (Aside.handleTimeout s o)
  | resolve => exact sets.handleResolve (sendErrorResponse s (by decide)) o
  | connect => exact sets.handleConnected (sendErrorResponse s (by decide)) o
  | established => exact sets.handleEstablished (close s) env o
  | clientHandshake => exact sets.handleClientHandshake fun _ => close s
  | upstreamHandshake => exact sets.handleUpstreamHandshake fun _ => close s
  | rawWrite data => exact close s
  | clientRead =>
    exact handleClientRead_any writes.toChain (fun _ _ => Grows.snoc _ trivial) (fun _ _ _ => same rfl)
      readClient close (handleRequest · env) o
  | clientWrite data => exact aside (Aside.handleClientWrite s o)
  | upstreamRead => exact handleUpstreamRead s env o
  | upstreamWrite data => exact forwards.handleUpstreamWrite (fun _ => close s) (same rfl) readUpstream
  | decision action => exact forwards.handleDecision (same rfl) (sendErrorResponse _ (by decide)) env action
  | serverWrite data => exact refl s

end Speaks

theorem reached_spoken (h : (system L).Reached s) : ∀ e ∈ s.log, e.Spoken := by
  refine h.invariant (I := fun s => ∀ e ∈ s.log, e.Spoken) ?_ ?_
  · rintro _ ⟨targetHost, targetPort, rfl⟩ e he
    cases he
  · intro s a t hs _ hstep
    have hgrows {t : MitmSession L} (ht : Speaks s t) : ∀ e ∈ t.log, e.Spoken := by
      obtain ⟨es, hes, hspoken⟩ := ht
      intro e he
      rw [hes] at he
      exact (List.mem_append.mp he).elim (hs e) (hspoken e)
    cases moves_of_step hstep with
    | complete ht => exact hgrows (.aside (.complete ht))
    | handled _ ht =>
      obtain ⟨op, o, io, hio, rfl⟩ := dispatch_spec ht
      exact hgrows (Speaks.handle (s := { s with io := io }) _ o)
    | decide href => exact hgrows (Grows.snoc _ trivial)
    | close => exact hgrows (.close _)

end MitmSession

/-- A parser that is fed these reads is ready with the last of them, and the response is all that it takes. -/
def TakenWhole (L : Llhttp) (m : ResponseMessage) (reads : List Bytes) : Prop :=
  Reader.ReadyAtLast (MessageParser.feed responseOps) (.reset responseOps : MessageParser L HttpResponse) reads ∧
    (((MessageParser.reset responseOps : MessageParser L HttpResponse).feedAll responseOps reads).take
      responseOps).1 = some m.response

theorem OwnPage.taken {m : ResponseMessage} (h : OwnPage m) {L : Llhttp} {At : L.State → List Piece → Prop}
    (hL : L.Reads At) (hat : At (L.init .response) m.message.pieces) (hfits : m.body.data.length ≤ maxBodySize)
    {reads : List Bytes} (hflat : reads.flatten = m.message.wire)
    (hlast : reads.dropLast.flatten.length < m.message.wire.length) : TakenWhole L m reads := by
  have hwell := h.wellFormed
  let r : Reply := { method := [], interims := [], final := m, interim := by simp, finalStatus := hwell.status.1 }
  have hget : r.method ≠ str "HEAD" := show ([] : Bytes) ≠ str "HEAD" by decide
  have hbytes : r.bytes = m.message.wire := by rw [Reply.bytes, if_neg hget]; rfl
  have hpieces : r.pieces = m.message.pieces := rfl
  have hrecordable : r.Recordable := ⟨rfl, rfl, fun hhead => absurd hhead hget, hfits⟩
  refine ⟨(Reply.readyAtLast_iff (r := r) hL (hpieces ▸ hat) (hflat.trans hbytes.symm) (hbytes ▸ hlast)).mpr
    ⟨rfl, fun hhead => absurd hhead hget⟩, ?_⟩
  rcases List.eq_nil_or_concat reads with rfl | ⟨init, last, rfl⟩
  · rw [← hflat] at hlast
    cases hlast
  · rw [List.concat_eq_append] at hflat hlast ⊢
    rw [List.dropLast_concat, ← hflat, List.flatten_append, List.flatten_singleton, List.length_append] at hlast
    have hne : last ≠ [] := fun hnil => by simp [hnil] at hlast
    have hnames : r.final.message.NamesGiven := fun f hf => (hwell.fields f hf).name.1
    obtain ⟨hready, hmessage⟩ := hrecordable.taken hL hnames (hpieces ▸ hat)
      (follows_feedAll MessageParser.Follows.reset init) hne
      (by rw [hbytes, ← hflat, List.nil_append, List.flatten_append, List.flatten_singleton])
    have hfed : (MessageParser.reset responseOps : MessageParser L HttpResponse).feedAll responseOps
        (init ++ [last]) = (((MessageParser.reset responseOps : MessageParser L HttpResponse).feedAll
          responseOps init).feed responseOps last).1 := by
      rw [MessageParser.feedAll, List.foldl_append]
      rfl
    have hcomplete := HttpParser.feedResponse_complete
      (p := { (HttpParser.new : HttpParser L) with responseParser := .feedAll responseOps (.reset responseOps) init })
      hready
    rw [hfed, MessageParser.take]
    refine (congrArg Prod.fst (if_pos hcomplete)).trans ?_
    exact congrArg some hmessage

/-- All that the proxy says to a client by itself, in any run, is one well-formed message: another proxy of this
kind in front of it takes each with its last byte, and takes all of it. -/
theorem own_answers_taken {L L' : Llhttp} {At : L'.State → List Piece → Prop} (hL : L'.Reads At)
    {log : List Effect} (hlog : (∃ r, (Session.system L).Reached r ∧ r.session.log = log) ∨
      ∃ s, (MitmSession.system L).Reached s ∧ s.log = log) {data : Bytes}
    (hdata : .queued .generated data ∈ log ∨ .answered data ∈ log) :
    data = Session.established ∨ ∃ m, OwnPage m ∧ m.WellFormed ∧ m.message.wire = data ∧
      (At (L'.init .response) m.message.pieces → m.body.data.length ≤ maxBodySize → ∀ reads : List Bytes,
        reads.flatten = data → reads.dropLast.flatten.length < data.length → TakenWhole L' m reads) := by
  have hspoken : ∀ e ∈ log, e.Spoken := by
    rcases hlog with ⟨r, hr, rfl⟩ | ⟨s, hs, rfl⟩
    · exact Session.reached_spoken hr
    · exact MitmSession.reached_spoken hs
  have hsaid : Said data := by
    rcases hdata with hdata | hdata
    · exact hspoken _ hdata
    · exact hspoken _ hdata
  refine hsaid.imp id ?_
  rintro ⟨m, hpage, rfl⟩
  exact ⟨m, hpage, hpage.wellFormed, rfl, fun hat hfits reads hflat hlast => hpage.taken hL hat hfits hflat hlast⟩

section Examples

/-- What the client of `droppedRun` gets. -/
def droppedPage : ResponseMessage := ownMessage 502 (str "Request Dropped by BurpTUI") [] []

theorem own_answers_taken_droppedRun :
    ∃ (s : MitmSession (answering [])) (m : ResponseMessage), OwnPage m ∧ m.WellFormed ∧
      .queued .generated m.message.wire ∈ s.log := by
  let page := MitmSession.errorResponse 502 (str "Request Dropped by BurpTUI")
  have hrun : ((MitmSession.system (answering [])).run (.started [] 443) (MitmSession.droppedRun simpleGet)).any
      (fun s => .queued .generated page ∈ s.log) = true := by decide
  obtain ⟨s, hs, hsaid⟩ := (Option.any_eq_true _ _).mp hrun
  have hsaid : .queued .generated page ∈ s.log := of_decide_eq_true hsaid
  have hreached : (MitmSession.system (answering [])).Reached s := .run (.init ⟨[], 443, rfl⟩) hs
  rcases own_answers_taken (scripted_reads fun _ => droppedPage.message.pieces) (.inr ⟨s, hreached, rfl⟩)
    (.inl hsaid) with hother | ⟨m, hpage, hwell, hwire, -⟩
  · exact absurd hother (by decide)
  · exact ⟨s, m, hpage, hwell, hwire ▸ hsaid⟩

end Examples

end BurpTUI
