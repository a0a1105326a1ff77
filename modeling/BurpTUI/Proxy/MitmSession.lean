import BurpTUI.Proxy.Session

namespace BurpTUI

/-- `log`, `asked` and the first parts of `upstreamWriteQueue` only record the run: the queue
holds each request with its serialization. -/
structure MitmSession (L : Llhttp) where
  targetHost : Bytes
  targetPort : UInt16
  clientHandshakeDone : Bool := false
  upstreamHandshakeDone : Bool := false
  isClosed : Bool := false
  io : Io := {}
  clientParser : HttpParser L := .new
  upstreamParser : HttpParser L := .new
  clientAccumulated : Bytes := []
  upstreamAccumulated : Bytes := []
  clientWriteQueue : List Bytes := []
  upstreamWriteQueue : List (Ref × Bytes) := []
  currentTransaction : HttpTransaction := {}
  closeAfterWrite : Bool := false
  asked : List Ref := []
  log : List Effect := []

namespace MitmSession

variable {L : Llhttp} (s : MitmSession L)

def emit (e : Effect) : MitmSession L := { s with log := s.log ++ [e] }

def start (op : Op) : MitmSession L := { s with io := s.io.start op }

def cancel (p : Op → Bool) : MitmSession L := { s with io := s.io.cancel p .aborted }

def cancelTimer : MitmSession L := s.cancel (· == .timer)

def removeFromQueue : MitmSession L :=
  if s.currentTransaction.id ≠ 0 then s.emit (.removed s.currentTransaction.id) else s

def close : MitmSession L :=
  if s.isClosed then s
  else (({ s with isClosed := true }.removeFromQueue.cancelTimer.cancel fun op =>
    op.onClientSocket || op.onServerSocket)).emit .closed

def resetTimer : MitmSession L := s.cancelTimer.start .timer

def handleTimeout (o : Outcome) : MitmSession L := if o = .aborted then s else s.close

def connectUpstream : MitmSession L := s.start .resolve

def doClientWrite : MitmSession L :=
  if s.isClosed then s
  else match s.clientWriteQueue with
    | data :: _ => (s.emit (.sent .client data)).start (.clientWrite data)
    | [] => s

def writeClient (origin : Origin) (data : Bytes) : MitmSession L :=
  if s.isClosed then s
  else
    let idle := s.clientWriteQueue.isEmpty
    let s := { s with clientWriteQueue := s.clientWriteQueue ++ [data] }.emit (.queued origin data)
    if idle then s.doClientWrite else s

def respond (origin : Origin) (response : HttpResponse) : MitmSession L :=
  let s := { s with
    currentTransaction := { s.currentTransaction with response := some response } }
  s.emit (.reported origin s.currentTransaction)

def errorResponse (statusCode : ℕ) (statusText : Bytes) : Bytes :=
  str "HTTP/1.1 " ++ decimal statusCode ++ str " " ++ statusText ++ CRLF ++
    str "Content-Length: 0" ++ CRLF ++ str "Connection: close" ++ CRLF ++ CRLF

/-- Before the handshake of the client is done the response goes to the raw socket. -/
def sendErrorResponse (statusCode : ℕ) (statusText : Bytes) : MitmSession L :=
  if s.isClosed then s
  else
    let response := errorResponse statusCode statusText
    let s := { s with closeAfterWrite := true }.respond .generated
      { version := str "HTTP/1.1", statusCode := statusCode, statusText := statusText }
    if s.clientHandshakeDone then s.writeClient .generated response
    else (s.emit (.answered response)).start (.rawWrite response)

def handleResolve (o : Outcome) : MitmSession L :=
  if s.isClosed then s
  else if o ≠ .ok then s.sendErrorResponse 502 (str "Bad Gateway")
  else s.start .connect

def sendEstablishedResponse : MitmSession L :=
  if s.isClosed then s else (s.emit (.answered Session.established)).start .established

def handleConnected (o : Outcome) : MitmSession L :=
  if s.isClosed then s
  else if o ≠ .ok then s.sendErrorResponse 502 (str "Bad Gateway")
  else s.sendEstablishedResponse

/-- Both streams are made, and both handshakes started. -/
def startTlsHandshakes (env : Env) : MitmSession L :=
  if s.isClosed then s
  else if env.sslContext = false then s.close
  else (s.start .clientHandshake).start .upstreamHandshake

def handleEstablished (env : Env) (o : Outcome) : MitmSession L :=
  if s.isClosed then s
  else if o ≠ .ok then s.close
  else s.startTlsHandshakes env

def readClient : MitmSession L := if s.isClosed then s else s.start .clientRead

def onBothHandshakesComplete : MitmSession L := if s.isClosed then s else s.readClient

def handleClientHandshake (o : Outcome) : MitmSession L :=
  if s.isClosed then s
  else if o ≠ .ok then s.close
  else
    let s := { s with clientHandshakeDone := true }
    if s.upstreamHandshakeDone then s.onBothHandshakesComplete else s

def handleUpstreamHandshake (o : Outcome) : MitmSession L :=
  if s.isClosed then s
  else if o ≠ .ok then s.close
  else
    let s := { s with upstreamHandshakeDone := true }
    if s.clientHandshakeDone then s.onBothHandshakesComplete else s

def readUpstream : MitmSession L := if s.isClosed then s else s.start .upstreamRead

def doUpstreamWrite : MitmSession L :=
  if s.isClosed then s
  else match s.upstreamWriteQueue with
    | (ref, data) :: _ =>
      ((s.emit (.handed ref data)).emit (.sent .upstream data)).start (.upstreamWrite data)
    | [] => s

def writeUpstream (ref : Ref) (data : Bytes) : MitmSession L :=
  if s.isClosed then s
  else
    let idle := s.upstreamWriteQueue.isEmpty
    let s := { s with
      upstreamWriteQueue := s.upstreamWriteQueue ++ [(ref, data)] }.emit (.pushed data)
    if idle then s.doUpstreamWrite else s

/-- `interceptRequest` is called by a step of its own. -/
def intercept (item : InterceptedRequest Ref) : MitmSession L :=
  { s.emit (.intercepted item) with asked := s.asked ++ [item.onDecision] }

/-- What `handleClientRead` does with the request that it has taken. -/
def handleRequest (env : Env) (req : HttpRequest) : MitmSession L :=
  let s := { s with currentTransaction := { s.currentTransaction with
    id := env.nextId, host := s.targetHost, port := s.targetPort.toNat, isHttps := true
    request := some env.newRef } }.emit (.took env.newRef req)
  let s := s.emit (.tested env.newRef env.interceptEnabled)
  if env.interceptEnabled then
    s.cancelTimer.intercept
      { id := s.currentTransaction.id, isHttps := true, host := s.targetHost, port := s.targetPort
        request := some env.newRef, onDecision := env.newRef }
  else s.writeUpstream env.newRef req.serialize

def maxRequestSize : ℕ := 1048576

def handleClientRead (env : Env) (o : Outcome) : MitmSession L :=
  if s.isClosed then s
  else match o with
    | .bytes data =>
      let s := s.resetTimer.emit (.read data)
      let s := { s with clientAccumulated := s.clientAccumulated ++ data }
      let (parser, ready) := s.clientParser.feedRequest data
      if ready then
        match parser.takeRequest with
        | (some req, parser) => { s with clientParser := parser }.handleRequest env req
        | (none, parser) => { s with clientParser := parser }.readClient
      else
        let s := { s with clientParser := parser }
        -- no response here, other than in `Session`
        if s.clientAccumulated.length < maxRequestSize then s.readClient else s.close
    | _ => s.close

/-- The posted callback of `interceptRequest`. -/
def handleDecision (env : Env) (action : InterceptAction) : MitmSession L :=
  if s.isClosed then s
  else
    let s := s.resetTimer
    match action with
    | .forward =>
      let ref := s.currentTransaction.request.getD 0
      s.writeUpstream ref (env.heap ref).serialize
    | .drop => s.sendErrorResponse 502 (str "Request Dropped by BurpTUI")

def handleUpstreamWrite (o : Outcome) : MitmSession L :=
  if s.isClosed then s
  else if o ≠ .ok then s.close
  else
    let s := { s with upstreamWriteQueue := s.upstreamWriteQueue.tail }
    -- the response is only read when the queue is empty
    if s.upstreamWriteQueue ≠ [] then s.doUpstreamWrite else s.readUpstream

/-- A response is recorded and reported if the parser has one. -/
def reportTaken (data : Bytes) : MitmSession L :=
  match (s.upstreamParser.feedResponse data).1.takeResponse with
  | (some res, parser) => { s with upstreamParser := parser }.respond .relayed res
  | (none, parser) => { s with upstreamParser := parser }

def keepAlive : Option HttpRequest → HttpResponse → Bool
  | some request, response => Session.keepAlive request response
  | none, response => Search.contains (str "keep-alive") (response.header (str "Connection"))

/-- The end of an exchange. -/
def finishExchange (env : Env) (res : HttpResponse) : MitmSession L :=
  let s := s.respond .relayed res
  if keepAlive (s.currentTransaction.request.map env.heap) res then
    { s with
      clientParser := s.clientParser.reset
      upstreamParser := s.upstreamParser.reset
      clientAccumulated := []
      upstreamAccumulated := []
      currentTransaction := {} }.readClient
  else
    let s := { s with closeAfterWrite := true }
    if s.clientWriteQueue = [] then s.close else s

def handleUpstreamRead (env : Env) (o : Outcome) : MitmSession L :=
  if s.isClosed then s
  else match o with
    | .bytes data =>
      let s := (s.resetTimer.emit (.received data)).writeClient .relayed data
      let s := { s with upstreamAccumulated := s.upstreamAccumulated ++ data }
      let (parser, ready) := s.upstreamParser.feedResponse data
      if ready then
        match parser.takeResponse with
        | (some res, parser) => { s with upstreamParser := parser }.finishExchange env res
        | (none, parser) => { s with upstreamParser := parser }.readUpstream
      else { s with upstreamParser := parser }.readUpstream
    | o =>
      -- the bytes were fed when they came, and are fed a second time
      let s := if (o = .eof ∨ o = .truncated) ∧ s.currentTransaction.response = none ∧
          s.upstreamAccumulated ≠ [] then s.reportTaken s.upstreamAccumulated else s
      s.close

def handleClientWrite (o : Outcome) : MitmSession L :=
  if s.isClosed then s
  else if o ≠ .ok then s.close
  else
    let s := { s with clientWriteQueue := s.clientWriteQueue.tail }
    if s.clientWriteQueue ≠ [] then s.doClientWrite
    else if s.closeAfterWrite then s.close else s

def handle (env : Env) (s : MitmSession L) : Op → Outcome → MitmSession L
  | .timer, o => s.handleTimeout o
  | .resolve, o => s.handleResolve o
  | .connect, o => s.handleConnected o
  | .established, o => s.handleEstablished env o
  | .clientHandshake, o => s.handleClientHandshake o
  | .upstreamHandshake, o => s.handleUpstreamHandshake o
  | .rawWrite _, _ => s.close
  | .clientRead, o => s.handleClientRead env o
  | .clientWrite _, o => s.handleClientWrite o
  | .upstreamRead, o => s.handleUpstreamRead env o
  | .upstreamWrite _, o => s.handleUpstreamWrite o
  | .decision action, _ => s.handleDecision env action
  | .serverWrite _, _ => s

/-- On a closed socket operations can only fail. -/
def canComplete (op : Op) (o : Outcome) : Bool :=
  op.allows o && (o == .failed || !s.isClosed || !(op.onClientSocket || op.onServerSocket))

/-- An operation completes; its handler is queued. -/
def complete (k : ℕ) (o : Outcome) : Option (MitmSession L) :=
  match s.io.complete k o with
  | some (op, io) =>
    if s.canComplete op o then some { s with io := io, log := s.log ++ op.completion o } else none
  | none => none

/-- A queued handler runs. -/
def dispatch (k : ℕ) (env : Env) : Option (MitmSession L) :=
  match s.io.take k with
  | some ((op, o), io) => some ({ s with io := io }.handle env op o)
  | none => none

/-- The intercept manager calls the callback. -/
def decided (ref : Ref) (action : InterceptAction) : MitmSession L :=
  { s with
    asked := s.asked.erase ref
    io := s.io.post (.decision action) .ok
    log := s.log ++ [.decided ref action] }

/-- A session right after `start`. -/
def started (targetHost : Bytes) (targetPort : UInt16) : MitmSession L :=
  ({ targetHost := targetHost, targetPort := targetPort } : MitmSession L).resetTimer.connectUpstream

def step (s : MitmSession L) : Session.Label → Option (MitmSession L)
  | .complete k o => s.complete k o
  | .dispatch k env => if env.newRef ∈ tookRefs s.log then none else s.dispatch k env
  | .decide ref action => if ref ∈ s.asked then some (s.decided ref action) else none
  | .close => some s.close

def system (L : Llhttp) : StepSystem.System (MitmSession L) Session.Label where
  init s := ∃ targetHost targetPort, s = started targetHost targetPort
  step := step

variable {s} {t : MitmSession L}

theorem complete_spec {k : ℕ} {o : Outcome} (h : s.complete k o = some t) :
    ∃ op io, s.io.complete k o = some (op, io) ∧ s.canComplete op o = true ∧
      t = { s with io := io, log := s.log ++ op.completion o } := by
  unfold complete at h
  split at h
  · rename_i op io hio
    split at h
    · rename_i hcan
      exact ⟨op, io, hio, hcan, (Option.some.inj h).symm⟩
    · cases h
  · cases h

theorem dispatch_spec {k : ℕ} {env : Env} (h : s.dispatch k env = some t) :
    ∃ op o io, s.io.take k = some ((op, o), io) ∧ t = handle env { s with io := io } op o := by
  unfold dispatch at h
  split at h
  · rename_i op o io hio
    exact ⟨op, o, io, hio, (Option.some.inj h).symm⟩
  · cases h

/-- What a step can be. -/
inductive Moves (s : MitmSession L) : Session.Label → MitmSession L → Prop
  | complete {k : ℕ} {o : Outcome} {t : MitmSession L} (h : s.complete k o = some t) :
    Moves s (.complete k o) t
  | handled {k : ℕ} {env : Env} {t : MitmSession L} (hfresh : env.newRef ∉ tookRefs s.log)
      (h : s.dispatch k env = some t) : Moves s (.dispatch k env) t
  | decide {ref : Ref} {action : InterceptAction} (href : ref ∈ s.asked) :
    Moves s (.decide ref action) (s.decided ref action)
  | close : Moves s .close s.close

theorem moves_of_step {a : Session.Label} (h : step s a = some t) : Moves s a t := by
  cases a with
  | complete k o => exact .complete h
  | dispatch k env =>
    simp only [step] at h
    split at h
    · cases h
    · rename_i hfresh
      exact .handled hfresh h
  | decide ref action =>
    simp only [step] at h
    split at h
    · rename_i href
      cases h
      exact .decide href
    · cases h
  | close =>
    cases h
    exact .close

end MitmSession

end BurpTUI
