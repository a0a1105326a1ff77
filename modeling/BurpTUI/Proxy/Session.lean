import BurpTUI.Base.StepSystem
import BurpTUI.Http.HttpParser
import BurpTUI.Proxy.Exchange
import BurpTUI.Proxy.Routing

namespace BurpTUI

/-- `log` and `asked` only record the run: `asked` holds the requests given to the intercept
manager whose callback was not called. -/
structure Session (L : Llhttp) where
  hasCertCache : Bool := true
  clientOpen : Bool := true
  serverOpen : Bool := false
  io : Io := {}
  parser : HttpParser L := .new
  clientData : Bytes := []
  serverData : Bytes := []
  writeQueue : List Bytes := []
  writeServerQueue : List Bytes := []
  upstreamHost : Bytes := []
  upstreamPort : Bytes := []
  currentTransaction : HttpTransaction := {}
  isConnect : Bool := false
  closeAfterWrite : Bool := false
  asked : List Ref := []
  log : List Effect := []

namespace Session

variable {L : Llhttp} (s : Session L)

def emit (e : Effect) : Session L := { s with log := s.log ++ [e] }

def start (op : Op) : Session L := { s with io := s.io.start op }

def cancel (p : Op → Bool) : Session L := { s with io := s.io.cancel p .aborted }

def cancelTimer : Session L := s.cancel (· == .timer)

def closeClient : Session L :=
  if s.clientOpen then ({ s with clientOpen := false }.cancel Op.onClientSocket).emit .closed else s

def closeServer : Session L :=
  if s.serverOpen then { s with serverOpen := false }.cancel Op.onServerSocket else s

def removeFromQueue : Session L :=
  if s.currentTransaction.id ≠ 0 then s.emit (.removed s.currentTransaction.id) else s

def close : Session L := s.cancelTimer.removeFromQueue.closeClient.closeServer

def resetTimer : Session L := s.cancelTimer.start .timer

def readClient : Session L := s.start .clientRead

def readUpstream : Session L := s.start .upstreamRead

def doClientWrite : Session L :=
  match s.writeQueue with
  | data :: _ => (s.emit (.sent .client data)).start (.clientWrite data)
  | [] => s

/-- `origin` says for the record where the data comes from. -/
def writeClient (origin : Origin) (data : Bytes) : Session L :=
  let idle := s.writeQueue.isEmpty
  let s := { s with writeQueue := s.writeQueue ++ [data] }.emit (.queued origin data)
  if idle then s.doClientWrite else s

def doServerWrite : Session L :=
  match s.writeServerQueue with
  | data :: _ => (s.emit (.sent .upstream data)).start (.serverWrite data)
  | [] => s

def writeServerBlind (data : Bytes) : Session L :=
  let idle := s.writeServerQueue.isEmpty
  let s := { s with writeServerQueue := s.writeServerQueue ++ [data] }.emit (.pushed data)
  if idle then s.doServerWrite else s

/-- The response of the current transaction is recorded and reported. -/
def respond (origin : Origin) (response : HttpResponse) : Session L :=
  let s := { s with
    currentTransaction := { s.currentTransaction with response := some response } }
  s.emit (.reported origin s.currentTransaction)

def errorBody (statusCode : ℕ) (statusText : Bytes) : Bytes :=
  str "<html><body><h1>" ++ decimal statusCode ++ str " " ++ statusText ++ str "</h1>" ++
    str "<p>BurpTUI Proxy Error</p></body></html>"

/-- A response of the proxy itself. -/
def ownResponse (statusLine fields body : Bytes) : Bytes :=
  statusLine ++ CRLF ++ fields ++ str "Content-Length: " ++ decimal body.length ++ CRLF ++
    str "Connection: close" ++ CRLF ++ CRLF ++ body

def sendErrorResponse (statusCode : ℕ) (statusText : Bytes) : Session L :=
  let body := errorBody statusCode statusText
  let response := ownResponse (str "HTTP/1.1 " ++ decimal statusCode ++ str " " ++ statusText)
    (str "Content-Type: text/html" ++ CRLF) body
  let s := s.respond .generated { version := str "HTTP/1.1", statusCode := statusCode
                                  statusText := statusText, body := body }
  { s with closeAfterWrite := true }.writeClient .generated response

/-- The two pages end in the same way. -/
def sendPage (fields body : Bytes) : Session L :=
  let s := s.respond .generated
    { version := str "HTTP/1.1", statusCode := 200, statusText := str "OK" }
  { s with closeAfterWrite := true }.writeClient .generated
    (ownResponse (str "HTTP/1.1 200 OK") fields body)

def serveCaCert (env : Env) : Session L :=
  if env.caCert = [] then s.sendErrorResponse 500 (str "CA Certificate Not Found")
  else s.sendPage (str "Content-Type: application/x-x509-ca-cert" ++ CRLF ++
    str "Content-Disposition: attachment; filename=\"burptui-ca.crt\"" ++ CRLF) env.caCert

/-- The help page around the certificate path. -/
def helpPage (certPath : Bytes) : Bytes :=
  str "<!DOCTYPE html><html><head><meta charset=\"utf-8\">" ++
    str "<title>BurpTUI CA Certificate</title>" ++
    str "<style>" ++
    str "body\x7bfont-family:-apple-system,BlinkMacSystemFont,\"Segoe UI\",Roboto,sans-serif;background:#14141e;color:#eee;text-align:center;padding:60px 20px;\x7d" ++
    str ".card\x7bmax-width:540px;margin:0 auto;background:#1e1e2d;border:1px solid #333348;border-radius:12px;padding:40px 30px;box-shadow:0 8px 30px rgba(0,0,0,0.5);\x7d" ++
    str "h1\x7bcolor:#00ff88;margin-top:0;font-size:28px;\x7d" ++
    str "p\x7bline-height:1.6;color:#bbb;font-size:15px;\x7d" ++
    str ".btn\x7bdisplay:inline-block;margin-top:20px;padding:12px 28px;background:#00b0ff;color:#000;font-weight:bold;font-size:16px;text-decoration:none;border-radius:6px;\x7d" ++
    str ".btn:hover\x7bbackground:#00ff88;\x7d" ++
    str "code\x7bbackground:#0d0d14;padding:4px 8px;border-radius:4px;color:#00ff88;font-size:13px;word-break:break-all;\x7d" ++
    str "</style></head><body>" ++
    str "<div class=\"card\">" ++
    str "<h1>BurpTUI Proxy</h1>" ++
    str "<p>To intercept and inspect encrypted HTTPS traffic without browser security warnings, download and trust the BurpTUI Root CA certificate.</p>" ++
    str "<a class=\"btn\" href=\"/cert\">Download CA Certificate</a>" ++
    str "<p style=\"margin-top:28px;font-size:13px;color:#777;\">Certificate file path on system:<br><br><code>" ++
    certPath ++ str "</code></p>" ++
    str "</div></body></html>"

def serveBurpHelpPage (env : Env) : Session L :=
  s.sendPage (str "Content-Type: text/html; charset=utf-8" ++ CRLF) (helpPage env.caCertPath)

def connectUpstream : Session L := s.start .resolve

/-- `serverSocket_` is replaced by a new socket. -/
def forwardRequest : Session L :=
  if s.clientOpen then s.closeServer.connectUpstream else s

/-- `interceptRequest` is called by a step of its own. -/
def intercept (item : InterceptedRequest Ref) : Session L :=
  { s.emit (.intercepted item) with asked := s.asked ++ [item.onDecision] }

/-- The CONNECT branch of `handleClientRead`. -/
def handleConnect (target : ConnectTarget) : Session L :=
  let s := { s with currentTransaction := { s.currentTransaction with
    host := target.host, port := target.portNumber, isHttps := true } }
  let s := s.respond .generated { version := str "HTTP/1.1", statusCode := 200
                                  statusText := str "Connection Established" }
  if s.hasCertCache then
    -- the socket is moved into the new session
    { s.cancelTimer with clientOpen := false }.emit
      (.spawned target.host (UInt16.ofInt target.portNumber))
  else
    -- the fallback to a blind tunnel
    { s with isConnect := true, upstreamHost := target.host
             upstreamPort := target.port }.connectUpstream

/-- The end of `handleClientRead`, for a request that has to be routed. -/
def handleUpstreamRoute (env : Env) (host port : Bytes) (portNumber : ℤ) : Session L :=
  let s := { s with
    currentTransaction := { s.currentTransaction with
      host := host, port := portNumber, isHttps := false }
    upstreamHost := host
    upstreamPort := port }
  let s := s.emit (.tested env.newRef env.interceptEnabled)
  if env.interceptEnabled then
    s.cancelTimer.intercept
      { id := s.currentTransaction.id, isHttps := false, host := host
        port := UInt16.ofInt portNumber, request := some env.newRef, onDecision := env.newRef }
  else s.forwardRequest

/-- What `handleClientRead` does with the request that it has taken. -/
def handleRequest (env : Env) (req : HttpRequest) : Except StdException (Session L) :=
  let s := { s with currentTransaction := { s.currentTransaction with
    id := env.nextId, request := some env.newRef } }.emit (.took env.newRef req)
  if req.method = str "CONNECT" then (routeConnect req).map s.handleConnect
  else (routePlain req).map fun
    | .badRequest => s.sendErrorResponse 400 (str "Bad Request")
    | .caCert => s.serveCaCert env
    | .helpPage => s.serveBurpHelpPage env
    | .upstream host port portNumber => s.handleUpstreamRoute env host port portNumber

def maxRequestSize : ℕ := 65536

def handleClientRead (env : Env) : Outcome → Except StdException (Session L)
  | .bytes data =>
    let s := s.resetTimer.emit (.read data)
    -- in a blind tunnel nothing is parsed
    if s.isConnect then .ok (s.writeServerBlind data).readClient
    else
      let s := { s with clientData := s.clientData ++ data }
      let (parser, ready) := s.parser.feedRequest data
      if ready then
        match parser.takeRequest with
        | (some req, parser) => { s with parser := parser }.handleRequest env req
        | (none, parser) => .ok { s with parser := parser }.readClient
      -- a parse error looks like a request that is not complete yet
      else if s.clientData.length < maxRequestSize then .ok { s with parser := parser }.readClient
      else .ok ({ s with parser := parser }.sendErrorResponse 400 (str "Bad Request"))
  | _ => .ok s.close

def handleTimeout (o : Outcome) : Session L :=
  -- the timer was cancelled or armed again
  if o = .aborted then s
  else if s.currentTransaction.request.isSome ∧ s.currentTransaction.response = none ∧
      s.isConnect = false then
    let s := s.cancel (· == .resolve)
    let s := if s.serverOpen then s.cancel Op.onServerSocket else s
    s.sendErrorResponse 504 (str "Gateway Timeout")
  else s.close

/-- `async_connect` closes the socket that it is given before it opens it. -/
def handleUpstreamConnect : Session L :=
  { s.closeServer with serverOpen := true }.start .connect

def handleResolve (o : Outcome) : Session L :=
  if o = .ok then s.handleUpstreamConnect
  else s.sendErrorResponse 502 (str "Bad Gateway")

/-- The request object that the current transaction points to. -/
def request (env : Env) : HttpRequest := (s.currentTransaction.request.map env.heap).getD {}

def writeUpstream (env : Env) : Session L :=
  let serialized := (s.request env).serialize
  let s := { s with serverData := serialized }.emit
    (.handed (s.currentTransaction.request.getD 0) serialized)
  s.start (.upstreamWrite serialized)

def established : Bytes := str "HTTP/1.1 200 Connection Established" ++ CRLF ++ CRLF

def handleConnected (env : Env) (o : Outcome) : Session L :=
  if o ≠ .ok then s.sendErrorResponse 502 (str "Bad Gateway")
  else if s.isConnect then (s.writeClient .generated established).readClient.readUpstream
  else s.writeUpstream env

def handleUpstreamWrite (o : Outcome) : Session L :=
  if o ≠ .ok then s.sendErrorResponse 502 (str "Bad Gateway")
  else { s with serverData := [] }.readUpstream

/-- A response is recorded and reported if the parser has one. -/
def reportTaken (data : Bytes) : Session L :=
  match (s.parser.feedResponse data).1.takeResponse with
  | (some res, parser) => { s with parser := parser }.respond .relayed res
  | (none, parser) => { s with parser := parser }

def keepAlive (request : HttpRequest) (response : HttpResponse) : Bool :=
  let connReq := request.header (str "Connection")
  let connRes := response.header (str "Connection")
  if request.version = str "HTTP/1.1" then
    !Search.contains (str "close") connReq && !Search.contains (str "close") connRes
  else Search.contains (str "keep-alive") connReq || Search.contains (str "keep-alive") connRes

/-- The end of an exchange. -/
def finishExchange (env : Env) (res : HttpResponse) : Session L :=
  let s := s.respond .relayed res
  if keepAlive (s.request env) res then
    -- the upstream socket stays open
    { s with
      parser := s.parser.reset
      clientData := []
      serverData := []
      currentTransaction := {}
      isConnect := false }.readClient
  else
    -- otherwise the handler of the last write closes the session
    let s := { s with closeAfterWrite := true }
    if s.writeQueue = [] then s.close else s

def handleUpstreamRead (env : Env) : Outcome → Session L
  | .bytes data =>
    let s := (s.resetTimer.emit (.received data)).writeClient .relayed data
    if s.isConnect then s.readUpstream
    else
      let (parser, ready) := s.parser.feedResponse data
      if ready then
        match parser.takeResponse with
        | (some res, parser) => { s with parser := parser }.finishExchange env res
        | (none, parser) => { s with parser := parser }.readUpstream
      else { s with parser := parser }.readUpstream
  | .eof =>
    -- `serverData_` holds the request that is being sent, never a part of a response
    let s := if s.currentTransaction.response = none ∧ s.serverData ≠ [] then
      s.reportTaken s.serverData else s
    s.close
  | _ => s.close

def handleClientWrite (o : Outcome) : Session L :=
  if o ≠ .ok then s.close
  else
    let s := { s with writeQueue := s.writeQueue.tail }
    if s.writeQueue ≠ [] then s.doClientWrite
    else if s.closeAfterWrite then s.close else s

def handleServerWrite (o : Outcome) : Session L :=
  if o = .ok then
    let s := { s with writeServerQueue := s.writeServerQueue.tail }
    if s.writeServerQueue ≠ [] then s.doServerWrite else s
  else if o = .aborted then s
  else s.close

/-- The posted callback of `interceptRequest`. -/
def handleDecision (action : InterceptAction) : Session L :=
  if s.clientOpen then
    match action with
    | .forward => s.resetTimer.forwardRequest
    | .drop => s.resetTimer.sendErrorResponse 502 (str "Request Dropped by BurpTUI")
  else s

def handle (env : Env) (s : Session L) : Op → Outcome → Except StdException (Session L)
  | .timer, o => .ok (s.handleTimeout o)
  | .resolve, o => .ok (s.handleResolve o)
  | .connect, o => .ok (s.handleConnected env o)
  | .clientRead, o => s.handleClientRead env o
  | .clientWrite _, o => .ok (s.handleClientWrite o)
  | .upstreamRead, o => .ok (s.handleUpstreamRead env o)
  | .upstreamWrite _, o => .ok (s.handleUpstreamWrite o)
  | .serverWrite _, o => .ok (s.handleServerWrite o)
  | .decision action, _ => .ok (s.handleDecision action)
  | _, _ => .ok s

/-- On a closed socket operations can only fail. -/
def canComplete (op : Op) (o : Outcome) : Bool :=
  op.allows o && (o == .failed ||
    (!op.onClientSocket || s.clientOpen) && (!op.onServerSocket || s.serverOpen))

/-- An operation completes; its handler is queued. -/
def complete (k : ℕ) (o : Outcome) : Option (Session L) :=
  match s.io.complete k o with
  | some (op, io) =>
    if s.canComplete op o then some { s with io := io, log := s.log ++ op.completion o } else none
  | none => none

/-- A queued handler runs. -/
def dispatch (k : ℕ) (env : Env) : Option (Except StdException (Session L)) :=
  match s.io.take k with
  | some ((op, o), io) => some ({ s with io := io }.handle env op o)
  | none => none

/-- The intercept manager calls the callback. -/
def decided (ref : Ref) (action : InterceptAction) : Session L :=
  { s with
    asked := s.asked.erase ref
    io := s.io.post (.decision action) .ok
    log := s.log ++ [.decided ref action] }

/-- A session right after `start`. -/
def started (hasCertCache : Bool) : Session L :=
  ({ hasCertCache := hasCertCache } : Session L).resetTimer.readClient

/-- A session on its event loop. An exception ends the loop. -/
structure Running (L : Llhttp) where
  session : Session L
  loopEnded : Bool := false

inductive Label
  | complete (k : ℕ) (o : Outcome)
  | dispatch (k : ℕ) (env : Env)
  | decide (ref : Ref) (action : InterceptAction)
  | close

def step (r : Running L) : Label → Option (Running L)
  | .complete k o => (r.session.complete k o).map fun s => { r with session := s }
  | .dispatch k env =>
    if r.loopEnded ∨ env.newRef ∈ tookRefs r.session.log then none
    else match r.session.dispatch k env with
      | some (.ok s) => some { r with session := s }
      -- what `std::stoi` throws leaves `io_context::run`
      | some (.error _) => some { r with loopEnded := true }
      | none => none
  | .decide ref action =>
    if ref ∈ r.session.asked then some { r with session := r.session.decided ref action } else none
  | .close => some { r with session := r.session.close }

def system (L : Llhttp) : StepSystem.System (Running L) Label where
  init r := ∃ hasCertCache, r = { session := started hasCertCache }
  step := step

variable {s} {t : Session L}

theorem complete_spec {k : ℕ} {o : Outcome} (h : s.complete k o = some t) :
    ∃ op io, s.io.complete k o = some (op, io) ∧ s.canComplete op o = true ∧
      t = { s with io := io, log := s.log ++ op.completion o } := by
  unfold complete at h
  split at h
  · rename_i op io hio
    split at h
    · rename_i hcan
      exact ⟨op, io, hio, hcan, (Option.some.inj h).symm⟩
    · cases h
  · cases h

theorem dispatch_spec {k : ℕ} {env : Env} {result : Except StdException (Session L)}
    (h : s.dispatch k env = some result) :
    ∃ op o io, s.io.take k = some ((op, o), io) ∧ handle env { s with io := io } op o = result := by
  unfold dispatch at h
  split at h
  · rename_i op o io hio
    exact ⟨op, o, io, hio, Option.some.inj h⟩
  · cases h

/-- What a step can be. -/
inductive Moves (r : Running L) : Label → Running L → Prop
  | complete {k : ℕ} {o : Outcome} {t : Session L} (h : r.session.complete k o = some t) :
    Moves r (.complete k o) { r with session := t }
  | handled {k : ℕ} {env : Env} {t : Session L} (hloop : r.loopEnded = false)
      (hfresh : env.newRef ∉ tookRefs r.session.log) (h : r.session.dispatch k env = some (.ok t)) :
    Moves r (.dispatch k env) { r with session := t }
  | threw {k : ℕ} {env : Env} {e : StdException} (hloop : r.loopEnded = false)
      (hfresh : env.newRef ∉ tookRefs r.session.log) (h : r.session.dispatch k env = some (.error e)) :
    Moves r (.dispatch k env) { r with loopEnded := true }
  | decide {ref : Ref} {action : InterceptAction} (href : ref ∈ r.session.asked) :
    Moves r (.decide ref action) { r with session := r.session.decided ref action }
  | close : Moves r .close { r with session := r.session.close }

theorem moves_of_step {r r' : Running L} {a : Label} (h : step r a = some r') : Moves r a r' := by
  cases a with
  | complete k o =>
    obtain ⟨t, ht, rfl⟩ := Option.map_eq_some_iff.mp h
    exact .complete ht
  | dispatch k env =>
    simp only [step] at h
    split at h
    · cases h
    · rename_i hnot
      rw [not_or, Bool.not_eq_true] at hnot
      split at h
      · rename_i t ht
        cases h
        exact .handled hnot.1 hnot.2 ht
      · rename_i e ht
        cases h
        exact .threw hnot.1 hnot.2 ht
      · cases h
  | decide ref action =>
    simp only [step] at h
    split at h
    · rename_i href
      cases h
      exact .decide href
    · cases h
  | close =>
    cases h
    exact .close

end Session

end BurpTUI
