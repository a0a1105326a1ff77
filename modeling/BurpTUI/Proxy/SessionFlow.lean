import BurpTUI.Proxy.Chores
import BurpTUI.Proxy.ExchangeFlow

namespace BurpTUI.Session

open BurpTUI.Flow (Idle Cleared Sound SoundAfter)

variable {L : Llhttp} {b : Flow} {new ref : Ref} {s t u : Session L} {op : Op}

def flow (s : Session L) : Flow where
  log := s.log
  asked := s.asked
  request := s.currentTransaction.request
  tunnel := s.isConnect
  count := s.io.count

theorem flow_emit (s : Session L) (e : Effect) : (s.emit e).flow = s.flow.emit e := rfl

theorem flow_start (s : Session L) (op : Op) : (s.start op).flow = s.flow.start op := by
  simp only [flow, Flow.start, Session.start, Flow.mk.injEq, true_and]
  funext k
  exact Io.count_start s.io op k

theorem flow_cancel (s : Session L) (p : Op → Bool) : (s.cancel p).flow = s.flow := by
  simp only [flow, Session.cancel, Flow.mk.injEq, true_and]
  funext k
  exact Io.count_cancel s.io p .aborted k

/-- `t` is `s` but for timers, client writes, sockets and the parser. -/
abbrev Quietly (s t : Session L) : Prop := Flow.Quietly s.flow t.flow

namespace Quietly

theorem of_flow (h : t.flow = s.flow) : Quietly s t := by
  show Flow.Quietly s.flow t.flow
  rw [h]
  exact Flow.Quietly.refl _

theorem refl (s : Session L) : Quietly s s := Flow.Quietly.refl _

theorem emit (s : Session L) {e : Effect} (he : e.subject = none) : Quietly s (s.emit e) :=
  Flow.Quietly.emit _ he

theorem cancel (s : Session L) (p : Op → Bool) : Quietly s (s.cancel p) :=
  of_flow (flow_cancel s p)

theorem start (s : Session L) {op : Op} (hop : op.kind = .other) : Quietly s (s.start op) := by
  show Flow.Quietly s.flow (s.start op).flow
  rw [flow_start]
  exact Flow.Quietly.start _ hop

theorem closes : AllowsClose (Quietly (L := L)) where
  refl := refl
  trans := Flow.Quietly.trans
  cancel := cancel
  removed s _ := emit s rfl
  clientGone _ := of_flow rfl
  closed s := emit s rfl
  serverGone _ := of_flow rfl

theorem queue (s : Session L) (origin : Origin) (data : Bytes) :
    Quietly s ({ s with writeQueue := s.writeQueue ++ [data] }.emit (.queued origin data)) :=
  emit { s with writeQueue := s.writeQueue ++ [data] } rfl

theorem respond (s : Session L) (origin : Origin) (response : HttpResponse) :
    Quietly s (s.respond origin response) :=
  emit { s with currentTransaction := { s.currentTransaction with response := some response } } rfl

theorem answers : AllowsAnswer (Quietly (L := L)) where
  refl := refl
  trans := Flow.Quietly.trans
  send s _ := (emit s rfl).trans (start _ rfl)
  sendServer s _ := (emit s rfl).trans (start _ rfl)
  respond s response := respond s _ response
  queue s data := queue s _ data

theorem resetTimer (s : Session L) : Quietly s s.resetTimer := closes.resetTimer (fun s => start s rfl) s

theorem writeClient (s : Session L) (origin : Origin) (data : Bytes) :
    Quietly s (s.writeClient origin data) := answers.writeClient (queue s origin data)

theorem writeServerBlind (s : Session L) (data : Bytes) : Quietly s (s.writeServerBlind data) :=
  answers.writeServerBlind (emit { s with writeServerQueue := s.writeServerQueue ++ [data] } rfl)

theorem reportTaken (s : Session L) (data : Bytes) : Quietly s (s.reportTaken data) :=
  reportTaken_of closes.toChain (fun _ => of_flow rfl) (fun s => respond s _) data

theorem handleTimeout (s : Session L) (o : Outcome) : Quietly s (s.handleTimeout o) :=
  handleTimeout_of closes.toChain (fun s p _ => cancel s p) (fun s => answers.sendErrorResponse s _ _)
    (closes.close s) o

theorem handleClientWrite (s : Session L) (o : Outcome) : Quietly s (s.handleClientWrite o) :=
  answers.handleClientWrite closes.close (of_flow rfl) o

theorem handleServerWrite (s : Session L) (o : Outcome) : Quietly s (s.handleServerWrite o) :=
  answers.handleServerWrite (fun _ _ => closes.close s) (of_flow rfl)

end Quietly

/-! One lemma for each handler that does more than what `Quietly` allows. -/

theorem readClient_sound (h : Idle b new s.flow) : Sound b new s.readClient.flow := by
  rw [Session.readClient, flow_start]
  exact h.start (Or.inl rfl)

theorem readUpstream_sound (h : Idle b new s.flow) : Sound b new s.readUpstream.flow := by
  rw [Session.readUpstream, flow_start]
  exact h.start (Or.inr (Or.inr rfl))

/-- In a tunnel. -/
theorem start_idle (h : Idle b new s.flow) (hc : s.isConnect = true) {op : Op}
    (hop : ∀ a, op.kind ≠ .decision a) : Idle b new (s.start op).flow := by
  rw [flow_start]
  exact h.start_tunnel hc hop

theorem dial_sound (h : Cleared b new ref s.flow) {op : Op} (hop : op.kind = .dial) :
    Sound b new (s.start op).flow := by
  rw [flow_start]
  exact h.start hop

theorem forwardRequest_sound (h : Cleared b new ref s.flow) : Sound b new s.forwardRequest.flow := by
  unfold Session.forwardRequest
  split
  · exact dial_sound ((Quietly.closes.closeServer s).cleared h) rfl
  · exact h.idle.sound

theorem handleResolve_sound (h : SoundAfter b new .resolve s.flow) (o : Outcome) :
    Sound b new (s.handleResolve o).flow := by
  have hquiet : Quietly s { s.closeServer with serverOpen := true } := by
    have hfield : Quietly s.closeServer { s.closeServer with serverOpen := true } :=
      .of_flow rfl
    exact (Quietly.closes.closeServer s).trans hfield
  unfold Session.handleResolve handleUpstreamConnect
  rcases h.dialed rfl with ⟨hidle, hc⟩ | ⟨r, hcleared⟩
  · split
    · exact (start_idle (hquiet.idle hidle) (hquiet.tunnel.trans hc) (by simp [Op.kind])).sound
    · exact ((Quietly.answers.sendErrorResponse s _ _).idle hidle).sound
  · split
    · exact dial_sound (hquiet.cleared hcleared) rfl
    · exact ((Quietly.answers.sendErrorResponse s _ _).idle hcleared.idle).sound

theorem writeUpstream_sound (h : Cleared b new ref s.flow) (env : Env) :
    Sound b new (s.writeUpstream env).flow := by
  have hfield : Quietly s { s with serverData := (s.request env).serialize } := .of_flow rfl
  have hhanded := (hfield.cleared h).hand (s.request env).serialize
  have hrequest : s.currentTransaction.request.getD 0 = ref := by
    rw [show s.currentTransaction.request = some ref from h.request]
    rfl
  unfold Session.writeUpstream
  dsimp only
  rw [hrequest, flow_start]
  exact hhanded.start (Or.inr (Or.inl rfl))

theorem handleConnected_sound (h : SoundAfter b new .connect s.flow) (env : Env) (o : Outcome) :
    Sound b new (s.handleConnected env o).flow := by
  unfold Session.handleConnected
  rcases h.dialed rfl with ⟨hidle, hc⟩ | ⟨r, hcleared⟩
  · have hc : s.isConnect = true := hc
    split
    · exact ((Quietly.answers.sendErrorResponse s _ _).idle hidle).sound
    · have hquiet := Quietly.writeClient s .generated established
      have hread : Idle b new (s.writeClient .generated established).readClient.flow :=
        start_idle (hquiet.idle hidle) (hquiet.tunnel.trans hc) (by simp [Op.kind])
      exact (start_idle hread (hquiet.tunnel.trans hc) (by simp [Op.kind])).sound
  · have hc : s.isConnect = false := hcleared.tunnel
    split
    · exact ((Quietly.answers.sendErrorResponse s _ _).idle hcleared.idle).sound
    · rw [if_neg (by simp [hc])]
      exact writeUpstream_sound hcleared env

theorem handleUpstreamWrite_sound {data : Bytes} (h : SoundAfter b new (.upstreamWrite data) s.flow)
    (o : Outcome) : Sound b new (s.handleUpstreamWrite o).flow := by
  have hidle := h.idle (Or.inr (Or.inl rfl))
  unfold Session.handleUpstreamWrite
  split
  · exact ((Quietly.answers.sendErrorResponse s _ _).idle hidle).sound
  · have hfield : Quietly s { s with serverData := [] } := .of_flow rfl
    exact readUpstream_sound (hfield.idle hidle)

theorem finishExchange_sound (h : Idle b new s.flow) (hc : s.isConnect = false) (env : Env)
    (res : HttpResponse) : Sound b new (s.finishExchange env res).flow := by
  have hrespond := Quietly.respond s .relayed res
  have hidle := hrespond.idle h
  have hplain := hidle.plain (hrespond.tunnel.trans hc)
  unfold Session.finishExchange
  dsimp only
  split
  · apply readClient_sound
    exact ⟨hidle.since, hidle.proper, hidle.asked, hidle.decision, fun _ => hplain⟩
  · have hfield : Quietly (s.respond .relayed res)
        { s.respond .relayed res with closeAfterWrite := true } := .of_flow rfl
    split
    · exact ((hfield.trans (Quietly.closes.close _)).idle hidle).sound
    · exact (hfield.idle hidle).sound

theorem handleUpstreamRead_sound (h : SoundAfter b new .upstreamRead s.flow) (env : Env) (o : Outcome) :
    Sound b new (s.handleUpstreamRead env o).flow := by
  have hidle := h.idle (Or.inr (Or.inr rfl))
  cases o with
  | bytes data =>
    have hquiet : Quietly s ((s.resetTimer.emit (.received data)).writeClient .relayed data) :=
      ((Quietly.resetTimer s).trans (Quietly.emit _ rfl)).trans (Quietly.writeClient _ _ _)
    unfold Session.handleUpstreamRead
    dsimp only
    generalize (s.resetTimer.emit (.received data)).writeClient .relayed data = t at hquiet
    have hidle := hquiet.idle hidle
    split
    · exact readUpstream_sound hidle
    · rename_i hc
      have hc : t.isConnect = false := by simpa using hc
      have hparser (parser : HttpParser L) : Idle b new { t with parser := parser }.flow := hidle
      split
      · split
        · rename_i res parser _
          exact finishExchange_sound (hparser parser) hc env res
        · rename_i parser _
          exact readUpstream_sound (hparser parser)
      · exact readUpstream_sound (hparser _)
  | eof =>
    unfold Session.handleUpstreamRead
    dsimp only
    split
    · exact ((Quietly.reportTaken s _).trans (Quietly.closes.close _)).sound hidle.sound
    · exact (Quietly.closes.close s).sound hidle.sound
  | ok => exact (Quietly.closes.close s).sound hidle.sound
  | truncated => exact (Quietly.closes.close s).sound hidle.sound
  | aborted => exact (Quietly.closes.close s).sound hidle.sound
  | failed => exact (Quietly.closes.close s).sound hidle.sound

theorem handleDecision_sound {a : InterceptAction} (h : SoundAfter b new (.decision a) s.flow) :
    Sound b new (s.handleDecision a).flow := by
  obtain ⟨hidle, hforward⟩ := h.decided
  unfold Session.handleDecision
  split
  · cases a with
    | forward =>
      obtain ⟨r, hcleared⟩ := hforward rfl
      exact forwardRequest_sound ((Quietly.resetTimer s).cleared hcleared)
    | drop =>
      exact ((Quietly.resetTimer s).trans (Quietly.answers.sendErrorResponse _ _ _)).sound hidle.sound
  · exact hidle.sound

theorem handleConnect_sound (h : Idle b new s.flow) (target : ConnectTarget) :
    Sound b new (s.handleConnect target).flow := by
  unfold Session.handleConnect
  dsimp only
  have hhost : Idle b new { s with currentTransaction := { s.currentTransaction with
      host := target.host, port := target.portNumber, isHttps := true } }.flow := h
  have hidle := (Quietly.respond _ .generated
    { version := str "HTTP/1.1", statusCode := 200
      statusText := str "Connection Established" }).idle hhost
  split
  · have hmoved := (Quietly.closes.cancelTimer _).idle hidle
    rw [flow_emit]
    exact ((Flow.Quietly.emit _ rfl).idle hmoved).sound
  · refine (start_idle ?_ rfl (by simp [Op.kind])).sound
    exact ⟨hidle.since, hidle.proper, hidle.asked, hidle.decision, fun hfalse => by cases hfalse⟩

/-- The request is new, and it is tested before it goes anywhere. -/
theorem handleUpstreamRoute_sound {env : Env} (h : Idle b env.newRef s.flow)
    (hc : s.isConnect = false) (hfresh : env.newRef ∉ tookRefs s.log) (req : HttpRequest)
    (host port : Bytes) (n : ℤ) :
    Sound b env.newRef (handleUpstreamRoute ({ s with
      currentTransaction := { s.currentTransaction with
        id := env.nextId, request := some env.newRef } }.emit (.took env.newRef req))
      env host port n).flow := by
  unfold handleUpstreamRoute
  dsimp only
  split
  · -- the callback is registered, the timer is off
    rename_i hon
    let item : InterceptedRequest Ref :=
      { id := env.nextId, isHttps := false, host := host, port := UInt16.ofInt n
        request := some env.newRef, onDecision := env.newRef }
    have hasked := h.ask hc hfresh req (show item.onDecision = env.newRef from rfl)
    refine Flow.Quietly.sound ?_ hasked
    refine ⟨⟨[], ?_, by simp⟩, rfl, rfl, rfl, fun k _ => Io.count_cancel s.io _ _ k⟩
    simp [flow, intercept, emit, Session.cancelTimer, Session.cancel, hon, item]
  · rename_i hoff
    have hoff : env.interceptEnabled = false := by simpa using hoff
    have hcleared := h.pass hc hfresh req
    rw [List.append_cons] at hcleared
    apply forwardRequest_sound
    rw [hoff]
    exact hcleared

theorem handleRequest_sound {env : Env} (h : Idle b env.newRef s.flow) (hc : s.isConnect = false)
    (hfresh : env.newRef ∉ tookRefs s.log) {req : HttpRequest}
    (hok : s.handleRequest env req = .ok t) : Sound b env.newRef t.flow := by
  have htook : Idle b env.newRef ({ s with currentTransaction := { s.currentTransaction with
      id := env.nextId, request := some env.newRef } }.emit (.took env.newRef req)).flow := by
    have hfield : Idle b env.newRef { s with currentTransaction := { s.currentTransaction with
        id := env.nextId, request := some env.newRef } }.flow :=
      ⟨h.since, h.proper, h.asked, h.decision, h.plain⟩
    exact hfield.take req
  unfold Session.handleRequest at hok
  dsimp only at hok
  split at hok
  · obtain ⟨target, -, rfl⟩ := ok_of_map hok
    exact handleConnect_sound htook target
  · obtain ⟨route, -, rfl⟩ := ok_of_map hok
    cases route with
    | badRequest => exact ((Quietly.answers.sendErrorResponse _ _ _).idle htook).sound
    | caCert => exact ((Quietly.answers.serveCaCert _ env).idle htook).sound
    | helpPage => exact ((Quietly.answers.serveBurpHelpPage _ env).idle htook).sound
    | upstream host port n => exact handleUpstreamRoute_sound h hc hfresh req host port n

theorem handleClientRead_sound {env : Env} (h : SoundAfter b env.newRef .clientRead s.flow)
    (hfresh : env.newRef ∉ tookRefs s.log) {o : Outcome} (hok : s.handleClientRead env o = .ok t) :
    Sound b env.newRef t.flow := by
  have hidle := h.idle (Or.inl rfl)
  cases o with
  | bytes data =>
    have hquiet : Quietly s (s.resetTimer.emit (.read data)) :=
      (Quietly.resetTimer s).trans (Quietly.emit _ rfl)
    have hfresh : env.newRef ∉ tookRefs (s.resetTimer.emit (.read data)).log := by
      simpa [Session.resetTimer, Session.cancelTimer, Session.cancel, Session.start, Session.emit,
        tookRefs] using hfresh
    unfold Session.handleClientRead at hok
    dsimp only at hok
    generalize s.resetTimer.emit (.read data) = u at hquiet hfresh hok
    have hidle := hquiet.idle hidle
    split at hok
    · cases hok
      exact readClient_sound ((Quietly.writeServerBlind u data).idle hidle)
    · rename_i hc
      have hc : u.isConnect = false := by simpa using hc
      have hfields (clientData : Bytes) (parser : HttpParser L) :
          Idle b env.newRef { u with clientData := clientData, parser := parser }.flow := hidle
      split at hok
      · split at hok
        · rename_i req parser _
          exact handleRequest_sound (hfields _ parser) hc hfresh hok
        · rename_i parser _
          cases hok
          exact readClient_sound (hfields _ parser)
      · split at hok
        · cases hok
          exact readClient_sound (hfields _ _)
        · cases hok
          exact ((Quietly.answers.sendErrorResponse _ _ _).idle (hfields _ _)).sound
  | ok => cases hok; exact (Quietly.closes.close s).sound hidle.sound
  | eof => cases hok; exact (Quietly.closes.close s).sound hidle.sound
  | truncated => cases hok; exact (Quietly.closes.close s).sound hidle.sound
  | aborted => cases hok; exact (Quietly.closes.close s).sound hidle.sound
  | failed => cases hok; exact (Quietly.closes.close s).sound hidle.sound

theorem handle_sound {env : Env} (h : SoundAfter b env.newRef op s.flow)
    (hfresh : env.newRef ∉ tookRefs s.log) {o : Outcome} (hok : s.handle env op o = .ok t) :
    Sound b env.newRef t.flow := by
  cases op with
  | clientRead => exact handleClientRead_sound h hfresh hok
  | timer => cases hok; exact (Quietly.handleTimeout s o).sound (h.other (Or.inl rfl))
  | clientWrite data =>
    cases hok
    exact (Quietly.handleClientWrite s o).sound (h.other (Or.inl rfl))
  | serverWrite data =>
    cases hok
    exact (Quietly.handleServerWrite s o).sound (h.other (Or.inl rfl))
  | resolve => cases hok; exact handleResolve_sound h o
  | connect => cases hok; exact handleConnected_sound h env o
  | upstreamRead => cases hok; exact handleUpstreamRead_sound h env o
  | upstreamWrite data => cases hok; exact handleUpstreamWrite_sound h o
  | decision action => cases hok; exact handleDecision_sound h
  | rawWrite data => cases hok; exact h.other (Or.inl rfl)
  | clientHandshake => cases hok; exact h.other (Or.inr (Or.inl rfl))
  | upstreamHandshake => cases hok; exact h.other (Or.inr (Or.inr rfl))
  | established =>
    cases hok
    rcases h.dialed rfl with ⟨hidle, -⟩ | ⟨r, hcleared⟩
    · exact hidle.sound
    · exact hcleared.idle.sound

/-! The steps of a session. -/

theorem complete_quietly {k : ℕ} {o : Outcome} (hok : s.complete k o = some t) : Quietly s t := by
  obtain ⟨op, io, hio, -, rfl⟩ := complete_spec hok
  exact ⟨⟨_, rfl, op.completion_subject o⟩, rfl, rfl, rfl,
    fun k _ => congrFun (Io.count_complete hio) k⟩

theorem taken_sound (h : s.flow.Holds) {k : ℕ} {o : Outcome} {io : Io}
    (hio : s.io.take k = some ((op, o), io)) (new : Ref) :
    SoundAfter s.flow new op { s with io := io }.flow := by
  obtain ⟨st, hp, hfits⟩ := h
  refine ⟨⟨st, hp, ?_⟩, Flow.Since.refl s.flow⟩
  simp only [flow, Io.count_take hio] at hfits
  cases st <;> exact hfits

theorem dispatch_sound (h : s.flow.Holds) {k : ℕ} {env : Env} (hfresh : env.newRef ∉ tookRefs s.log)
    (hok : s.dispatch k env = some (.ok t)) : Sound s.flow env.newRef t.flow := by
  obtain ⟨op, o, io, hio, hhandle⟩ := dispatch_spec hok
  exact handle_sound (taken_sound h hio env.newRef) hfresh hhandle

theorem decided_holds (h : s.flow.Holds) (href : ref ∈ s.asked) (a : InterceptAction) :
    (s.decided ref a).flow.Holds := by
  have hflow : (s.decided ref a).flow = { s.flow with
      log := s.log ++ [.decided ref a]
      asked := s.asked.erase ref
      count := fun k => s.io.count k + (Op.decision a).weight k } := by
    simp only [flow, Session.decided, Flow.mk.injEq, true_and]
    funext k
    exact Io.count_post s.io _ _ k
  rw [hflow]
  exact h.decide href a

theorem started_holds (hasCertCache : Bool) : (started hasCertCache : Session L).flow.Holds := by
  refine ⟨.quiet, .nil, rfl, fun a => ?_, fun _ => ⟨rfl, Nat.le_refl 1⟩⟩
  cases a <;> rfl

/-- The invariant holds in every state of a session. -/
theorem reached_holds {r : Running L} (h : (system L).Reached r) : r.session.flow.Holds := by
  refine h.invariant (I := fun r => r.session.flow.Holds) ?_ ?_
  · rintro _ ⟨hasCertCache, rfl⟩
    exact started_holds hasCertCache
  · intro r a r' hr _ hstep
    cases moves_of_step hstep with
    | complete ht => exact (complete_quietly ht).holds hr
    | handled _ hfresh ht => exact (dispatch_sound hr hfresh ht).holds
    | threw => exact hr
    | decide href => exact decided_holds hr href _
    | close => exact (Quietly.closes.close _).holds hr

end BurpTUI.Session
