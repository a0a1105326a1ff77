import BurpTUI.Proxy.MitmSession

/-! What the helpers and handlers of the two sessions do, for any relation between a session before
and after. A relation says which single acts it allows; what is made of them follows here, once. -/

namespace BurpTUI

/-- What the proxy answers with an error. -/
def ownStatuses : List (ℕ × Bytes) :=
  [(400, str "Bad Request"), (500, str "CA Certificate Not Found"), (502, str "Bad Gateway"),
    (502, str "Request Dropped by BurpTUI"), (504, str "Gateway Timeout")]

/-- A relation that can be followed from one act to the next. -/
structure Chain {α : Type} (R : α → α → Prop) : Prop where
  refl : ∀ s, R s s
  trans : ∀ {s t u}, R s t → R t u → R s u

/-- What is kept is kept along a chain. -/
theorem Chain.keeps {α : Type} (P : α → Prop) : Chain fun s t => P s → P t :=
  ⟨fun _ => id, fun h h' hs => h' (h hs)⟩

namespace Session

variable {L : Llhttp} {R : Session L → Session L → Prop} {s t : Session L} {op : Op} {o : Outcome}

structure AllowsClose (R : Session L → Session L → Prop) : Prop extends Chain R where
  cancel : ∀ s p, R s (s.cancel p)
  removed : ∀ s id, R s (s.emit (.removed id))
  clientGone : ∀ s, R s { s with clientOpen := false }
  closed : ∀ s, R s (s.emit .closed)
  serverGone : ∀ s, R s { s with serverOpen := false }

namespace AllowsClose

theorem cancelTimer (h : AllowsClose R) (s : Session L) : R s s.cancelTimer := h.cancel s _

theorem removeFromQueue (h : AllowsClose R) (s : Session L) : R s s.removeFromQueue := by
  unfold Session.removeFromQueue
  split
  · exact h.removed s _
  · exact h.refl s

theorem closeClient (h : AllowsClose R) (s : Session L) : R s s.closeClient := by
  unfold Session.closeClient
  split
  · exact h.trans (h.trans (h.clientGone s) (h.cancel _ _)) (h.closed _)
  · exact h.refl s

theorem closeServer (h : AllowsClose R) (s : Session L) : R s s.closeServer := by
  unfold Session.closeServer
  split
  · exact h.trans (h.serverGone s) (h.cancel _ _)
  · exact h.refl s

theorem close (h : AllowsClose R) (s : Session L) : R s s.close :=
  h.trans (h.trans (h.trans (h.cancel s _) (h.removeFromQueue _)) (h.closeClient _)) (h.closeServer _)

theorem resetTimer (h : AllowsClose R) (hstart : ∀ s, R s (s.start .timer)) (s : Session L) :
    R s s.resetTimer := h.trans (h.cancel s _) (hstart _)

end AllowsClose

/-- A write to the client that takes what is queued. -/
structure AllowsSend (R : Session L → Session L → Prop) : Prop extends Chain R where
  send : ∀ s data, R s ((s.emit (.sent .client data)).start (.clientWrite data))

namespace AllowsSend

theorem doClientWrite (h : AllowsSend R) (s : Session L) : R s s.doClientWrite := by
  unfold Session.doClientWrite
  split
  · exact h.send s _
  · exact h.refl s

theorem writeClient (h : AllowsSend R) {origin : Origin} {data : Bytes}
    (hqueued : R s ({ s with writeQueue := s.writeQueue ++ [data] }.emit (.queued origin data))) :
    R s (s.writeClient origin data) := by
  unfold Session.writeClient
  dsimp only
  split
  · exact h.trans hqueued (h.doClientWrite _)
  · exact hqueued

/-- After the data is queued, and the queueing recorded. -/
theorem writeClient_queued (h : AllowsSend R) (s : Session L) (origin : Origin) (data : Bytes) :
    R ({ s with writeQueue := s.writeQueue ++ [data] }.emit (.queued origin data))
      (s.writeClient origin data) := by
  unfold Session.writeClient
  dsimp only
  split
  · exact h.doClientWrite _
  · exact h.refl _

theorem handleClientWrite (h : AllowsSend R) (hclose : ∀ s, R s s.close)
    (hpop : R s { s with writeQueue := s.writeQueue.tail }) (o : Outcome) : R s (s.handleClientWrite o) := by
  unfold Session.handleClientWrite
  split
  · exact hclose s
  · dsimp only
    split
    · exact h.trans hpop (h.doClientWrite _)
    · split
      · exact h.trans hpop (hclose _)
      · exact hpop

end AllowsSend

/-- And a write of a tunnel. -/
structure AllowsWrite (R : Session L → Session L → Prop) : Prop extends AllowsSend R where
  sendServer : ∀ s data, R s ((s.emit (.sent .upstream data)).start (.serverWrite data))

namespace AllowsWrite

theorem doServerWrite (h : AllowsWrite R) (s : Session L) : R s s.doServerWrite := by
  unfold Session.doServerWrite
  split
  · exact h.sendServer s _
  · exact h.refl s

theorem writeServerBlind (h : AllowsWrite R) {data : Bytes}
    (hpushed : R s ({ s with writeServerQueue := s.writeServerQueue ++ [data] }.emit (.pushed data))) :
    R s (s.writeServerBlind data) := by
  unfold Session.writeServerBlind
  dsimp only
  split
  · exact h.trans hpushed (h.doServerWrite _)
  · exact hpushed

theorem handleServerWrite (h : AllowsWrite R) (hclose : o ≠ .ok → o ≠ .aborted → R s s.close)
    (hpop : R s { s with writeServerQueue := s.writeServerQueue.tail }) : R s (s.handleServerWrite o) := by
  unfold Session.handleServerWrite
  split
  · dsimp only
    split
    · exact h.trans hpop (h.doServerWrite _)
    · exact hpop
  · split
    · exact h.refl s
    · exact hclose ‹_› ‹_›

end AllowsWrite

theorem serveCaCert_of (h : ∀ response data,
      R s ({ s.respond .generated response with closeAfterWrite := true }.writeClient .generated data)) (env : Env) :
    R s (s.serveCaCert env) := by
  unfold serveCaCert
  split
  · exact h _ _
  · exact h _ _

/-- The responses of the proxy itself. -/
structure AllowsAnswer (R : Session L → Session L → Prop) : Prop extends AllowsWrite R where
  respond : ∀ s response, R s { s.respond .generated response with closeAfterWrite := true }
  queue : ∀ s data, R s ({ s with writeQueue := s.writeQueue ++ [data] }.emit (.queued .generated data))

namespace AllowsAnswer

/-- Every response of the proxy itself is made in this way. -/
theorem answer (h : AllowsAnswer R) (s : Session L) (response : HttpResponse) (data : Bytes) :
    R s ({ s.respond .generated response with closeAfterWrite := true }.writeClient .generated data) :=
  h.trans (h.respond s response) (h.writeClient (h.queue _ data))

theorem sendErrorResponse (h : AllowsAnswer R) (s : Session L) (statusCode : ℕ) (statusText : Bytes) :
    R s (s.sendErrorResponse statusCode statusText) := h.answer s _ _

theorem serveBurpHelpPage (h : AllowsAnswer R) (s : Session L) (env : Env) :
    R s (s.serveBurpHelpPage env) := h.answer s _ _

theorem serveCaCert (h : AllowsAnswer R) (s : Session L) (env : Env) : R s (s.serveCaCert env) :=
  serveCaCert_of (h.answer s) env

end AllowsAnswer

/-- The way of a request to the server, with the errors that the proxy answers on it. -/
structure AllowsDial (R : Session L → Session L → Prop) : Prop extends Chain R where
  error : ∀ s {statusCode statusText}, (statusCode, statusText) ∈ ownStatuses →
    R s (s.sendErrorResponse statusCode statusText)
  serverOpen : ∀ s, R s { s with serverOpen := true }
  store : ∀ s data, R s { s with serverData := data }
  handed : ∀ s ref data, R s (s.emit (.handed ref data))
  start : ∀ s {op : Op}, op.kind = .dial ∨ op.kind = .send ∨ op.kind = .receive → R s (s.start op)

namespace AllowsDial

theorem forwardRequest (h : AllowsDial R) (hclose : R s s.closeServer) : R s s.forwardRequest := by
  unfold Session.forwardRequest
  split
  · exact h.trans hclose (h.start _ (.inl rfl))
  · exact h.refl s

theorem handleResolve (h : AllowsDial R) (hclose : R s s.closeServer) (o : Outcome) :
    R s (s.handleResolve o) := by
  unfold Session.handleResolve handleUpstreamConnect
  split
  · exact h.trans (h.trans hclose (h.serverOpen _)) (h.start _ (.inl rfl))
  · exact h.error s (by decide)

theorem writeUpstream (h : AllowsDial R) (s : Session L) (env : Env) : R s (s.writeUpstream env) :=
  h.trans (h.trans (h.store s _) (h.handed _ _ _)) (h.start _ (.inr (.inl rfl)))

theorem handleConnected (h : AllowsDial R) (hwrite : R s (s.writeClient .generated established))
    (hread : ∀ s, R s s.readClient) (env : Env) (o : Outcome) : R s (s.handleConnected env o) := by
  unfold Session.handleConnected
  split
  · exact h.error s (by decide)
  · split
    · exact h.trans (h.trans hwrite (hread _)) (h.start _ (.inr (.inr rfl)))
    · exact h.writeUpstream s env

theorem handleUpstreamWrite (h : AllowsDial R) (s : Session L) (o : Outcome) :
    R s (s.handleUpstreamWrite o) := by
  unfold Session.handleUpstreamWrite
  split
  · exact h.error s (by decide)
  · exact h.trans (h.store s _) (h.start _ (.inr (.inr rfl)))

theorem handleDecision (h : AllowsDial R) (hreset : R s s.resetTimer)
    (hclose : R s.resetTimer s.resetTimer.closeServer) (action : InterceptAction) :
    R s (s.handleDecision action) := by
  unfold Session.handleDecision
  split
  · cases action with
    | forward => exact h.trans hreset (h.forwardRequest hclose)
    | drop => exact h.trans hreset (h.error _ (by decide))
  · exact h.refl s

end AllowsDial

theorem handleTimeout_of (h : Chain R) (hcancel : ∀ s p, p .timer = false → R s (s.cancel p))
    (herror : ∀ s, R s (s.sendErrorResponse 504 (str "Gateway Timeout"))) (hclose : R s s.close) (o : Outcome) :
    R s (s.handleTimeout o) := by
  unfold handleTimeout
  split
  · exact h.refl s
  · split
    · dsimp only
      split
      · exact h.trans (h.trans (hcancel s _ rfl) (hcancel _ _ rfl)) (herror _)
      · exact h.trans (hcancel s _ rfl) (herror _)
    · exact hclose

theorem reportTaken_of (h : Chain R) (hparser : ∀ parser, R s { s with parser := parser })
    (hrespond : ∀ s response, R s (s.respond .relayed response)) (data : Bytes) : R s (s.reportTaken data) := by
  unfold reportTaken
  split
  · exact h.trans (hparser _) (hrespond _ _)
  · exact hparser _

/-- The end of an exchange. -/
structure AllowsFinish (R : Session L → Session L → Prop) : Prop extends Chain R where
  respond : ∀ s response, R s (s.respond .relayed response)
  parser : ∀ s parser, R s { s with parser := parser }
  renew : ∀ s, R s
    { s with
      parser := s.parser.reset
      clientData := []
      serverData := []
      currentTransaction := {}
      isConnect := false }
  flag : ∀ s, R s { s with closeAfterWrite := true }
  readClient : ∀ s, R s s.readClient
  readUpstream : ∀ s, R s s.readUpstream

namespace AllowsFinish

theorem reportTaken (h : AllowsFinish R) (s : Session L) (data : Bytes) : R s (s.reportTaken data) :=
  reportTaken_of h.toChain (h.parser s) h.respond data

theorem finishExchange (h : AllowsFinish R) (hclose : ∀ s, R s s.close) (s : Session L) (env : Env)
    (res : HttpResponse) : R s (s.finishExchange env res) := by
  have hrespond := h.respond s res
  unfold Session.finishExchange
  dsimp only
  split
  · exact h.trans (h.trans hrespond (h.renew _)) (h.readClient _)
  · have hflag := h.trans hrespond (h.flag _)
    split
    · exact h.trans hflag (hclose _)
    · exact hflag

/-- What is done after a chunk was relayed. -/
theorem received_of (h : AllowsFinish R) {env : Env} {data : Bytes}
    (hfinish : ∀ v : Session L, v = (s.resetTimer.emit (.received data)).writeClient .relayed data →
      ∀ parser res, R { v with parser := parser } ({ v with parser := parser }.finishExchange env res)) :
    R ((s.resetTimer.emit (.received data)).writeClient .relayed data)
      (s.handleUpstreamRead env (.bytes data)) := by
  unfold Session.handleUpstreamRead
  dsimp only
  generalize (s.resetTimer.emit (.received data)).writeClient .relayed data = v at hfinish
  split
  · exact h.readUpstream v
  · split
    · split
      · exact h.trans (h.parser v _) (hfinish v rfl _ _)
      · exact h.trans (h.parser v _) (h.readUpstream _)
    · exact h.trans (h.parser v _) (h.readUpstream _)

theorem received (h : AllowsFinish R) (hclose : ∀ s, R s s.close) (s : Session L) (env : Env) (data : Bytes) :
    R ((s.resetTimer.emit (.received data)).writeClient .relayed data)
      (s.handleUpstreamRead env (.bytes data)) :=
  h.received_of fun _ _ _ res => h.finishExchange hclose _ env res

theorem ended (h : AllowsFinish R) (hclose : ∀ s, R s s.close) (s : Session L) (env : Env)
    (ho : ∀ data, o ≠ .bytes data) : R s (s.handleUpstreamRead env o) := by
  cases o with
  | bytes data => exact absurd rfl (ho data)
  | eof =>
    unfold Session.handleUpstreamRead
    dsimp only
    split
    · exact h.trans (h.reportTaken s _) (hclose _)
    · exact hclose s
  | ok | truncated | aborted | failed => exact hclose s

theorem handleUpstreamRead (h : AllowsFinish R) (hclose : ∀ s, R s s.close)
    (hrelay : ∀ data, R s ((s.resetTimer.emit (.received data)).writeClient .relayed data)) (env : Env)
    (o : Outcome) : R s (s.handleUpstreamRead env o) := by
  cases o with
  | bytes data => exact h.trans (hrelay data) (h.received hclose s env data)
  | _ => exact h.ended hclose s env (by simp)

end AllowsFinish

/-- What is done with a request that is to go to the server. -/
structure AllowsRoute (R : Session L → Session L → Prop) : Prop extends Chain R where
  target : ∀ (s : Session L) host port isHttps, R s { s with
    currentTransaction := { s.currentTransaction with host := host, port := port, isHttps := isHttps } }
  route : ∀ s host port, R s { s with upstreamHost := host, upstreamPort := port }
  tested : ∀ s ref enabled, R s (s.emit (.tested ref enabled))

theorem AllowsRoute.handleUpstreamRoute (h : AllowsRoute R) (hask : ∀ s item, R s (s.cancelTimer.intercept item))
    (hforward : ∀ t, R s t → R t t.forwardRequest) (env : Env) (host port : Bytes) (k : ℤ) :
    R s (s.handleUpstreamRoute env host port k) := by
  have htested := h.trans (h.trans (h.target s host k false) (h.route _ host port))
    (h.tested _ env.newRef env.interceptEnabled)
  unfold Session.handleUpstreamRoute
  dsimp only
  split
  · exact h.trans htested (hask _ _)
  · exact h.trans htested (hforward _ htested)

/-- And what is done for a tunnel. -/
structure AllowsTake (R : Session L → Session L → Prop) : Prop extends AllowsRoute R where
  connected : ∀ s response, R s (s.respond .generated response)
  spawn : ∀ s host port, R s ({ s.cancelTimer with clientOpen := false }.emit (.spawned host port))
  tunnel : ∀ s, R s { s with isConnect := true }
  resolve : ∀ s, R s s.connectUpstream

theorem AllowsTake.handleConnect (h : AllowsTake R) (s : Session L) (target : ConnectTarget) :
    R s (s.handleConnect target) := by
  have hconnected := h.trans (h.target s target.host target.portNumber true) (h.connected _
    { version := str "HTTP/1.1", statusCode := 200, statusText := str "Connection Established" })
  unfold Session.handleConnect
  dsimp only
  split
  · exact h.trans hconnected (h.spawn _ _ _)
  · exact h.trans (h.trans (h.trans hconnected (h.route _ target.host target.port)) (h.tunnel _)) (h.resolve _)

/-- The requests that are answered at once, and those that are routed. -/
theorem handleRequest_of {env : Env} {req : HttpRequest} (h : Chain R)
    (htook : R s (({ s with currentTransaction := { s.currentTransaction with
      id := env.nextId, request := some env.newRef } } : Session L).emit (.took env.newRef req)))
    (hconnect : ∀ s target, R s (s.handleConnect target))
    (herror : ∀ s, R s (s.sendErrorResponse 400 (str "Bad Request"))) (hcert : ∀ s, R s (s.serveCaCert env))
    (hhelp : ∀ s, R s (s.serveBurpHelpPage env))
    (hroute : ∀ t, R s t → ∀ host port k, R t (t.handleUpstreamRoute env host port k))
    (hok : s.handleRequest env req = .ok t) : R s t := by
  unfold handleRequest at hok
  dsimp only at hok
  split at hok
  · obtain ⟨target, -, rfl⟩ := ok_of_map hok
    exact h.trans htook (hconnect _ target)
  · obtain ⟨route, -, rfl⟩ := ok_of_map hok
    cases route with
    | badRequest => exact h.trans htook (herror _)
    | caCert => exact h.trans htook (hcert _)
    | helpPage => exact h.trans htook (hhelp _)
    | upstream host port k => exact h.trans htook (hroute _ htook host port k)

/-- What is done after a chunk was read. -/
theorem handleClientRead_of {env : Env} {data : Bytes} (h : Chain R)
    (hfields : ∀ s clientData parser, R s { s with clientData := clientData, parser := parser })
    (hpush : ∀ s, R s (s.writeServerBlind data)) (hread : ∀ s, R s s.readClient)
    (herror : ∀ s, R s (s.sendErrorResponse 400 (str "Bad Request")))
    (hrequest : ∀ u req, R (s.resetTimer.emit (.read data)) u → u.handleRequest env req = .ok t → R u t)
    (hok : s.handleClientRead env (.bytes data) = .ok t) : R (s.resetTimer.emit (.read data)) t := by
  unfold handleClientRead at hok
  dsimp only at hok
  generalize s.resetTimer.emit (.read data) = v at hok hrequest
  split at hok
  · cases hok
    exact h.trans (hpush v) (hread _)
  · split at hok
    · split at hok
      · rename_i req parser _
        have hv := hfields v (v.clientData ++ data) parser
        exact h.trans hv (hrequest _ req hv hok)
      · cases hok
        exact h.trans (hfields v _ _) (hread _)
    · split at hok
      · cases hok
        exact h.trans (hfields v _ _) (hread _)
      · cases hok
        exact h.trans (hfields v _ _) (herror _)

/-- Whatever a read brings. -/
theorem handleClientRead_any {env : Env} (h : Chain R) (hclose : R s s.close)
    (hread : ∀ data, R s (s.resetTimer.emit (.read data)))
    (hfields : ∀ s clientData parser, R s { s with clientData := clientData, parser := parser })
    (hpush : ∀ s data, R s (s.writeServerBlind data)) (hnext : ∀ s, R s s.readClient)
    (herror : ∀ s, R s (s.sendErrorResponse 400 (str "Bad Request")))
    (hrequest : ∀ u req, u.handleRequest env req = .ok t → R u t)
    (hok : s.handleClientRead env o = .ok t) : R s t := by
  cases o with
  | bytes data =>
    exact h.trans (hread data)
      (handleClientRead_of h hfields (hpush · data) hnext herror (fun u req _ => hrequest u req) hok)
  | ok | eof | truncated | aborted | failed =>
    obtain rfl := Except.ok.inj hok
    exact hclose

end Session

namespace MitmSession

variable {L : Llhttp} {R : MitmSession L → MitmSession L → Prop} {s t : MitmSession L} {op : Op} {o : Outcome}

structure AllowsClose (R : MitmSession L → MitmSession L → Prop) : Prop extends Chain R where
  cancel : ∀ s p, R s (s.cancel p)
  removed : ∀ s id, R s (s.emit (.removed id))
  gone : ∀ s, R s { s with isClosed := true }
  closed : ∀ s, R s (s.emit .closed)

namespace AllowsClose

theorem cancelTimer (h : AllowsClose R) (s : MitmSession L) : R s s.cancelTimer := h.cancel s _

theorem removeFromQueue (h : AllowsClose R) (s : MitmSession L) : R s s.removeFromQueue := by
  unfold MitmSession.removeFromQueue
  split
  · exact h.removed s _
  · exact h.refl s

theorem close (h : AllowsClose R) (s : MitmSession L) : R s s.close := by
  unfold MitmSession.close
  split
  · exact h.refl s
  · have hremoved := h.trans (h.gone s) (h.removeFromQueue _)
    exact h.trans (h.trans (h.trans hremoved (h.cancel _ _)) (h.cancel _ _)) (h.closed _)

theorem resetTimer (h : AllowsClose R) (hstart : ∀ s, R s (s.start .timer)) (s : MitmSession L) :
    R s s.resetTimer := h.trans (h.cancel s _) (hstart _)

end AllowsClose

theorem handleTimeout_of (h : Chain R) (hclose : o ≠ .aborted → R s s.close) : R s (s.handleTimeout o) := by
  unfold handleTimeout
  split
  · exact h.refl s
  · rename_i ho
    exact hclose ho

/-- The writes to the client that take what is queued. -/
structure AllowsWrite (R : MitmSession L → MitmSession L → Prop) : Prop extends Chain R where
  send : ∀ s data, R s ((s.emit (.sent .client data)).start (.clientWrite data))

namespace AllowsWrite

theorem doClientWrite (h : AllowsWrite R) (s : MitmSession L) : R s s.doClientWrite := by
  unfold MitmSession.doClientWrite
  split
  · exact h.refl s
  · split
    · exact h.send s _
    · exact h.refl s

/-- After the data is queued, and the queueing recorded. -/
theorem writeClient_queued (h : AllowsWrite R) (hopen : s.isClosed = false) (origin : Origin) (data : Bytes) :
    R ({ s with clientWriteQueue := s.clientWriteQueue ++ [data] }.emit (.queued origin data))
      (s.writeClient origin data) := by
  unfold MitmSession.writeClient
  rw [if_neg (by simp [hopen])]
  dsimp only
  split
  · exact h.doClientWrite _
  · exact h.refl _

theorem writeClient (h : AllowsWrite R) {origin : Origin} {data : Bytes} (hqueued : s.isClosed = false →
    R s ({ s with clientWriteQueue := s.clientWriteQueue ++ [data] }.emit (.queued origin data))) :
    R s (s.writeClient origin data) := by
  cases hclosed : s.isClosed with
  | true =>
    unfold MitmSession.writeClient
    rw [if_pos hclosed]
    exact h.refl s
  | false => exact h.trans (hqueued hclosed) (h.writeClient_queued hclosed origin data)

theorem handleClientWrite (h : AllowsWrite R) (hclose : ∀ s, R s s.close)
    (hpop : R s { s with clientWriteQueue := s.clientWriteQueue.tail }) (o : Outcome) :
    R s (s.handleClientWrite o) := by
  unfold MitmSession.handleClientWrite
  split
  · exact h.refl s
  · split
    · exact hclose s
    · dsimp only
      split
      · exact h.trans hpop (h.doClientWrite _)
      · split
        · exact h.trans hpop (hclose _)
        · exact hpop

end AllowsWrite

/-- The error responses of the proxy. -/
structure AllowsAnswer (R : MitmSession L → MitmSession L → Prop) : Prop extends AllowsWrite R where
  respond : ∀ s response, R s ({ s with closeAfterWrite := true }.respond .generated response)
  queue : ∀ s data,
    R s ({ s with clientWriteQueue := s.clientWriteQueue ++ [data] }.emit (.queued .generated data))
  raw : ∀ s data, R s ((s.emit (.answered data)).start (.rawWrite data))

theorem AllowsAnswer.sendErrorResponse (h : AllowsAnswer R) (s : MitmSession L) (statusCode : ℕ)
    (statusText : Bytes) : R s (s.sendErrorResponse statusCode statusText) := by
  have hrespond := h.respond s
    { version := str "HTTP/1.1", statusCode := statusCode, statusText := statusText }
  unfold MitmSession.sendErrorResponse
  split
  · exact h.refl s
  · dsimp only
    split
    · exact h.trans hrespond (h.writeClient fun _ => h.queue _ _)
    · exact h.trans hrespond (h.raw _ _)

/-- An operation is started unless the session is closed. -/
theorem startOpen_of (h : Chain R) (hstart : R s (s.start op)) : R s (if s.isClosed then s else s.start op) := by
  split
  · exact h.refl s
  · exact hstart

/-- The handshakes of the setup. -/
structure AllowsHandshake (R : MitmSession L → MitmSession L → Prop) : Prop extends Chain R where
  handshakes : ∀ s, R s ((s.start .clientHandshake).start .upstreamHandshake)
  clientDone : ∀ s, R s { s with clientHandshakeDone := true }
  upstreamDone : ∀ s, R s { s with upstreamHandshakeDone := true }
  readClient : ∀ s, R s s.readClient

namespace AllowsHandshake

theorem handleEstablished (h : AllowsHandshake R) (hclose : R s s.close) (env : Env) (o : Outcome) :
    R s (s.handleEstablished env o) := by
  unfold MitmSession.handleEstablished startTlsHandshakes
  split
  · exact h.refl s
  · split
    · exact hclose
    · split
      · exact hclose
      · exact h.handshakes s

theorem onBothHandshakesComplete (h : AllowsHandshake R) (s : MitmSession L) :
    R s s.onBothHandshakesComplete := by
  unfold MitmSession.onBothHandshakesComplete
  split
  · exact h.refl s
  · exact h.readClient s

theorem handleClientHandshake (h : AllowsHandshake R) (hclose : o ≠ .ok → R s s.close) :
    R s (s.handleClientHandshake o) := by
  unfold MitmSession.handleClientHandshake
  split
  · exact h.refl s
  · split
    · exact hclose ‹_›
    · dsimp only
      split
      · exact h.trans (h.clientDone s) (h.onBothHandshakesComplete _)
      · exact h.clientDone s

theorem handleUpstreamHandshake (h : AllowsHandshake R) (hclose : o ≠ .ok → R s s.close) :
    R s (s.handleUpstreamHandshake o) := by
  unfold MitmSession.handleUpstreamHandshake
  split
  · exact h.refl s
  · split
    · exact hclose ‹_›
    · dsimp only
      split
      · exact h.trans (h.upstreamDone s) (h.onBothHandshakesComplete _)
      · exact h.upstreamDone s

end AllowsHandshake

/-- All of the setup. -/
structure AllowsSetup (R : MitmSession L → MitmSession L → Prop) : Prop extends AllowsHandshake R where
  connect : ∀ s, R s (s.start .connect)
  established : ∀ s, R s ((s.emit (.answered Session.established)).start .established)

namespace AllowsSetup

theorem handleResolve (h : AllowsSetup R) (herror : R s (s.sendErrorResponse 502 (str "Bad Gateway")))
    (o : Outcome) : R s (s.handleResolve o) := by
  unfold MitmSession.handleResolve
  split
  · exact h.refl s
  · split
    · exact herror
    · exact h.connect s

theorem handleConnected (h : AllowsSetup R) (herror : R s (s.sendErrorResponse 502 (str "Bad Gateway")))
    (o : Outcome) : R s (s.handleConnected o) := by
  unfold MitmSession.handleConnected sendEstablishedResponse
  split
  · exact h.refl s
  · split
    · exact herror
    · exact h.established s

end AllowsSetup

/-- The way of a request to the server. -/
structure AllowsForward (R : MitmSession L → MitmSession L → Prop) : Prop extends Chain R where
  push : ∀ s ref data,
    R s ({ s with upstreamWriteQueue := s.upstreamWriteQueue ++ [(ref, data)] }.emit (.pushed data))
  send : ∀ s ref data,
    R s (((s.emit (.handed ref data)).emit (.sent .upstream data)).start (.upstreamWrite data))

namespace AllowsForward

theorem doUpstreamWrite (h : AllowsForward R) (s : MitmSession L) : R s s.doUpstreamWrite := by
  unfold MitmSession.doUpstreamWrite
  split
  · exact h.refl s
  · split
    · exact h.send s _ _
    · exact h.refl s

theorem writeUpstream (h : AllowsForward R) (s : MitmSession L) (ref : Ref) (data : Bytes) :
    R s (s.writeUpstream ref data) := by
  unfold MitmSession.writeUpstream
  split
  · exact h.refl s
  · dsimp only
    split
    · exact h.trans (h.push s ref data) (h.doUpstreamWrite _)
    · exact h.push s ref data

theorem handleDecision (h : AllowsForward R) (hreset : R s s.resetTimer)
    (herror : R s.resetTimer (s.resetTimer.sendErrorResponse 502 (str "Request Dropped by BurpTUI")))
    (env : Env) (action : InterceptAction) : R s (s.handleDecision env action) := by
  unfold MitmSession.handleDecision
  split
  · exact h.refl s
  · cases action with
    | forward => exact h.trans hreset (h.writeUpstream _ _ _)
    | drop => exact h.trans hreset herror

theorem handleUpstreamWrite (h : AllowsForward R) (hclose : o ≠ .ok → R s s.close)
    (hpop : R s { s with upstreamWriteQueue := s.upstreamWriteQueue.tail })
    (hread : ∀ s, R s s.readUpstream) : R s (s.handleUpstreamWrite o) := by
  unfold MitmSession.handleUpstreamWrite
  split
  · exact h.refl s
  · split
    · exact hclose ‹_›
    · dsimp only
      split
      · exact h.trans hpop (h.doUpstreamWrite _)
      · exact h.trans hpop (hread _)

end AllowsForward

theorem reportTaken_of (h : Chain R) (hparser : ∀ parser, R s { s with upstreamParser := parser })
    (hrespond : ∀ s response, R s (s.respond .relayed response)) (data : Bytes) : R s (s.reportTaken data) := by
  unfold reportTaken
  split
  · exact h.trans (hparser _) (hrespond _ _)
  · exact hparser _

/-- The end of an exchange. -/
structure AllowsFinish (R : MitmSession L → MitmSession L → Prop) : Prop extends Chain R where
  respond : ∀ s response, R s (s.respond .relayed response)
  parser : ∀ s accumulated parser,
    R s { s with upstreamAccumulated := accumulated, upstreamParser := parser }
  renew : ∀ s, R s
    { s with
      clientParser := s.clientParser.reset
      upstreamParser := s.upstreamParser.reset
      clientAccumulated := []
      upstreamAccumulated := []
      currentTransaction := {} }
  flag : ∀ s, R s { s with closeAfterWrite := true }
  readClient : ∀ s, R s s.readClient
  readUpstream : ∀ s, R s s.readUpstream

namespace AllowsFinish

theorem reportTaken (h : AllowsFinish R) (s : MitmSession L) (data : Bytes) : R s (s.reportTaken data) :=
  reportTaken_of h.toChain (fun _ => h.parser s s.upstreamAccumulated _) h.respond data

theorem finishExchange (h : AllowsFinish R) (hclose : ∀ s, R s s.close) (s : MitmSession L) (env : Env)
    (res : HttpResponse) : R s (s.finishExchange env res) := by
  have hrespond := h.respond s res
  unfold MitmSession.finishExchange
  dsimp only
  split
  · exact h.trans (h.trans hrespond (h.renew _)) (h.readClient _)
  · have hflag := h.trans hrespond (h.flag _)
    split
    · exact h.trans hflag (hclose _)
    · exact hflag

/-- What is done after a chunk was relayed. -/
theorem received_of (h : AllowsFinish R) (hopen : s.isClosed = false) {env : Env} {data : Bytes}
    (hfinish : ∀ v : MitmSession L, v = (s.resetTimer.emit (.received data)).writeClient .relayed data →
      ∀ accumulated parser res, R { v with upstreamAccumulated := accumulated, upstreamParser := parser }
        ({ v with upstreamAccumulated := accumulated, upstreamParser := parser }.finishExchange env res)) :
    R ((s.resetTimer.emit (.received data)).writeClient .relayed data)
      (s.handleUpstreamRead env (.bytes data)) := by
  unfold MitmSession.handleUpstreamRead
  rw [if_neg (by simp [hopen])]
  dsimp only
  generalize (s.resetTimer.emit (.received data)).writeClient .relayed data = v at hfinish
  split
  · split
    · exact h.trans (h.parser v _ _) (hfinish v rfl _ _ _)
    · exact h.trans (h.parser v _ _) (h.readUpstream _)
  · exact h.trans (h.parser v _ _) (h.readUpstream _)

theorem received (h : AllowsFinish R) (hclose : ∀ s, R s s.close) (hopen : s.isClosed = false) (env : Env)
    (data : Bytes) : R ((s.resetTimer.emit (.received data)).writeClient .relayed data)
      (s.handleUpstreamRead env (.bytes data)) :=
  h.received_of hopen fun _ _ _ _ res => h.finishExchange hclose _ env res

theorem ended (h : AllowsFinish R) (hclose : ∀ s, R s s.close) (s : MitmSession L) (env : Env)
    (ho : ∀ data, o ≠ .bytes data) : R s (s.handleUpstreamRead env o) := by
  unfold MitmSession.handleUpstreamRead
  split
  · exact h.refl s
  · split
    · rename_i data
      exact absurd rfl (ho data)
    · dsimp only
      split
      · exact h.trans (h.reportTaken s _) (hclose _)
      · exact hclose s

theorem handleUpstreamRead (h : AllowsFinish R) (hclose : ∀ s, R s s.close) (hrelay : s.isClosed = false →
      ∀ data, R s ((s.resetTimer.emit (.received data)).writeClient .relayed data)) (env : Env)
    (o : Outcome) : R s (s.handleUpstreamRead env o) := by
  cases o with
  | bytes data =>
    cases hclosed : s.isClosed with
    | true =>
      unfold MitmSession.handleUpstreamRead
      rw [if_pos hclosed]
      exact h.refl s
    | false => exact h.trans (hrelay hclosed data) (h.received hclose hclosed env data)
  | _ => exact h.ended hclose s env (by simp)

end AllowsFinish

theorem handleRequest_of (h : Chain R) {env : Env} {req : HttpRequest}
    (htook : R s (({ s with currentTransaction := { s.currentTransaction with
      id := env.nextId, host := s.targetHost, port := s.targetPort.toNat, isHttps := true
      request := some env.newRef } } : MitmSession L).emit (.took env.newRef req)))
    (htested : ∀ s, R s (s.emit (.tested env.newRef env.interceptEnabled)))
    (hask : ∀ s item, R s (s.cancelTimer.intercept item))
    (hwrite : ∀ s ref data, R s (s.writeUpstream ref data)) : R s (s.handleRequest env req) := by
  unfold handleRequest
  dsimp only
  split
  · exact h.trans (h.trans htook (htested _)) (hask _ _)
  · exact h.trans (h.trans htook (htested _)) (hwrite _ _ _)

/-- What is done after a chunk was read. -/
theorem handleClientRead_of (h : Chain R) (hopen : s.isClosed = false) {env : Env} {data : Bytes}
    (hfields : ∀ s accumulated parser, R s { s with clientAccumulated := accumulated, clientParser := parser })
    (hread : ∀ s, R s s.readClient) (hclose : ∀ s, R s s.close)
    (hrequest : ∀ u req, R (s.resetTimer.emit (.read data)) u → R u (u.handleRequest env req)) :
    R (s.resetTimer.emit (.read data)) (s.handleClientRead env (.bytes data)) := by
  unfold handleClientRead
  rw [if_neg (by simp [hopen])]
  dsimp only
  generalize s.resetTimer.emit (.read data) = v at hrequest
  split
  · split
    · rename_i req parser _
      have hv := hfields v (v.clientAccumulated ++ data) parser
      exact h.trans hv (hrequest _ req hv)
    · exact h.trans (hfields v _ _) (hread _)
  · split
    · exact h.trans (hfields v _ _) (hread _)
    · exact h.trans (hfields v _ _) (hclose _)

/-- Whatever a read brings. -/
theorem handleClientRead_any {env : Env} (h : Chain R)
    (hread : s.isClosed = false → ∀ data, R s (s.resetTimer.emit (.read data)))
    (hfields : ∀ s accumulated parser, R s { s with clientAccumulated := accumulated, clientParser := parser })
    (hnext : ∀ s, R s s.readClient) (hclose : ∀ s, R s s.close)
    (hrequest : ∀ u req, R u (u.handleRequest env req)) (o : Outcome) : R s (s.handleClientRead env o) := by
  cases hclosed : s.isClosed with
  | true =>
    unfold handleClientRead
    rw [if_pos hclosed]
    exact h.refl s
  | false =>
    cases o with
    | bytes data =>
      exact h.trans (hread hclosed data)
        (handleClientRead_of h hclosed hfields hnext hclose fun u req _ => hrequest u req)
    | ok | eof | truncated | aborted | failed =>
      unfold handleClientRead
      rw [if_neg (by simp [hclosed])]
      exact hclose s

end MitmSession

end BurpTUI
