import BurpTUI.Http.Executed
import BurpTUI.Proxy.Aside

namespace BurpTUI

/-- What an exchange consists of, for the client and for the history. -/
def Effect.ofExchange : Effect → Bool
  | .took .. => true
  | .received _ => true
  | .queued .. => true
  | .answered _ => true
  | .reported .. => true
  | .spawned .. => true
  | _ => false

def exchanges (log : List Effect) : List Effect := log.filter Effect.ofExchange

theorem exchanges_append (log es : List Effect) :
    exchanges (log ++ es) = exchanges log ++ exchanges es := List.filter_append log es

theorem exchanges_aside {log log' : List Effect} (h : LogAside log log') : exchanges log' = exchanges log := by
  obtain ⟨es, rfl, hes⟩ := h
  have hnone : exchanges es = [] := by
    apply List.filter_eq_nil_iff.mpr
    intro e he
    have haside := hes e he
    cases e <;> simp_all [Effect.aside, Effect.ofExchange]
  rw [exchanges_append, hnone, List.append_nil]

/-- A fold over what belongs to exchanges. -/
theorem foldl_exchanges {β : Type} {f : β → Effect → β} (hf : ∀ e, e.ofExchange = false → ∀ b, f b e = b)
    (b : β) (log : List Effect) : (exchanges log).foldl f b = log.foldl f b := by
  induction log generalizing b with
  | nil => rfl
  | cons e log ih =>
    cases he : e.ofExchange with
    | true =>
      have hcons : exchanges (e :: log) = e :: exchanges log := List.filter_cons_of_pos he
      rw [hcons, List.foldl_cons, List.foldl_cons, ih]
    | false =>
      have hcons : exchanges (e :: log) = exchanges log := List.filter_cons_of_neg (by simp [he])
      rw [hcons, List.foldl_cons, hf e he, ih]

/-- How a response with this status begins. -/
def statusLine (statusCode : ℕ) : Bytes := str "HTTP/1.1 " ++ decimal statusCode ++ str " "

namespace Session

variable {L : Llhttp} {es es' : List Effect} {n n' : OpKind → ℕ} {tx tx' : HttpTransaction}
  {s t u : Session L}

/-- From `s` to `t` these things happen in the exchange, so many operations are started that carry
it, and then the transaction is `tx`. -/
structure Turn (es : List Effect) (n : OpKind → ℕ) (tx : HttpTransaction) (s t : Session L) : Prop where
  log : exchanges t.log = exchanges s.log ++ es
  transaction : t.currentTransaction = tx
  isConnect : t.isConnect = s.isConnect
  asked : t.asked = s.asked
  count : ∀ k, k ≠ .other → t.io.count k = s.io.count k + n k

/-- Nothing is started. -/
def idle : OpKind → ℕ := fun _ => 0

namespace Turn

theorem trans (h : Turn es n tx s t) (h' : Turn es' n' tx' t u) :
    Turn (es ++ es') (fun k => n k + n' k) tx' s u where
  log := by rw [h'.log, h.log, List.append_assoc]
  transaction := h'.transaction
  isConnect := h'.isConnect.trans h.isConnect
  asked := h'.asked.trans h.asked
  count k hk := by rw [h'.count k hk, h.count k hk, Nat.add_assoc]

theorem aside (h : Aside s t) : Turn [] idle s.currentTransaction s t where
  log := by rw [exchanges_aside h.log, List.append_nil]
  transaction := h.transaction
  isConnect := h.isConnect
  asked := h.asked
  count := h.count

/-- First something that does not matter, and then the rest. -/
theorem first (h : Turn [] idle tx s t) (h' : Turn es n tx' t u) : Turn es n tx' s u := by
  have hturn := h.trans h'
  refine ⟨hturn.log, hturn.transaction, hturn.isConnect, hturn.asked, fun k hk => ?_⟩
  rw [hturn.count k hk, idle, Nat.zero_add]

theorem before (h : Turn es n tx s t) (h' : Turn [] idle tx' t u) : Turn es n tx' s u := by
  have hturn := h.trans h'
  refine ⟨?_, hturn.transaction, hturn.isConnect, hturn.asked, hturn.count⟩
  rw [hturn.log, List.append_nil]

theorem after (h' : Turn es n tx t u) (h : Aside s t) : Turn es n tx s u := (aside h).first h'

theorem before_aside (h : Turn es n tx s t) (h' : Aside t u) : Turn es n tx s u :=
  h.transaction ▸ h.before (aside h')

theorem emit (s : Session L) {e : Effect} (he : e.ofExchange = false) :
    Turn [] idle s.currentTransaction s (s.emit e) := by
  refine ⟨?_, rfl, rfl, rfl, fun _ _ => rfl⟩
  show exchanges (s.log ++ [e]) = _
  rw [exchanges_append]
  simp [exchanges, he]

theorem start (s : Session L) (op : Op) : Turn [] op.weight s.currentTransaction s (s.start op) := by
  refine ⟨by simp [Session.start], rfl, rfl, rfl, fun k _ => ?_⟩
  rw [Session.start, Io.count_start]

/-- The last thing that happens is that an operation is started. -/
theorem start_last (h : Turn es idle tx s t) (op : Op) : Turn es op.weight tx s (t.start op) := by
  have hturn := h.trans (start t op)
  refine ⟨?_, hturn.transaction.trans h.transaction, hturn.isConnect, hturn.asked, fun k hk => ?_⟩
  · rw [hturn.log, List.append_nil]
  · rw [hturn.count k hk, idle, Nat.zero_add]

theorem fields (htx : t.currentTransaction = tx) (hlog : t.log = s.log) (hio : t.io = s.io)
    (hsame : (t.isConnect, t.asked) = (s.isConnect, s.asked)) : Turn [] idle tx s t := by
  obtain ⟨hconnect, hasked⟩ := Prod.mk.inj hsame
  exact ⟨by rw [hlog, List.append_nil], htx, hconnect, hasked, fun _ _ => by rw [hio]; rfl⟩

theorem writeClient (s : Session L) (origin : Origin) (data : Bytes) :
    Turn [.queued origin data] idle s.currentTransaction s (s.writeClient origin data) := by
  have hqueued : Turn [.queued origin data] idle s.currentTransaction s
      (({ s with writeQueue := s.writeQueue ++ [data] } : Session L).emit (.queued origin data)) :=
    ⟨exchanges_append _ _, rfl, rfl, rfl, fun _ _ => rfl⟩
  exact hqueued.before_aside (Aside.writes.writeClient_queued s origin data)

theorem respond (s : Session L) (origin : Origin) (response : HttpResponse) :
    Turn [.reported origin { s.currentTransaction with response := some response }] idle
      { s.currentTransaction with response := some response } s (s.respond origin response) :=
  ⟨exchanges_append _ _, rfl, rfl, rfl, fun _ _ => rfl⟩

end Turn

/-- The proxy answers itself: it reports a response, and writes one with the same status. -/
def Answers (s t : Session L) : Prop := ∃ response data, statusLine response.statusCode <+: data ∧
  Turn [.reported .generated { s.currentTransaction with response := some response },
    .queued .generated data] idle { s.currentTransaction with response := some response } s t

theorem Answers.after (h : Answers t u) (haside : Aside s t) : Answers s u := by
  obtain ⟨response, data, hline, hturn⟩ := h
  rw [haside.transaction] at hturn
  exact ⟨response, data, hline, hturn.after haside⟩

theorem answers (s : Session L) (response : HttpResponse) {data : Bytes}
    (hline : statusLine response.statusCode <+: data) :
    Answers s ({ s.respond .generated response with closeAfterWrite := true }.writeClient .generated data) := by
  refine ⟨response, data, hline, ?_⟩
  have hreported := Turn.respond s .generated response
  have hflag : Turn [.reported .generated { s.currentTransaction with response := some response }] idle
      { s.currentTransaction with response := some response } s
      { s.respond .generated response with closeAfterWrite := true } :=
    ⟨hreported.log, hreported.transaction, hreported.isConnect, hreported.asked, hreported.count⟩
  have hwritten := hflag.trans (.writeClient _ .generated data)
  exact ⟨hwritten.log, hwritten.transaction, hwritten.isConnect, hwritten.asked, hwritten.count⟩

theorem answers_error (s : Session L) (statusCode : ℕ) (statusText : Bytes) :
    Answers s (s.sendErrorResponse statusCode statusText) := by
  refine answers s _ ?_
  simp only [ownResponse, List.append_assoc, statusLine]
  exact ⟨_, by simp only [List.append_assoc]; rfl⟩

theorem answers_page (s : Session L) (fields body : Bytes) : Answers s (s.sendPage fields body) := by
  refine answers s _ ?_
  have hline : str "HTTP/1.1 200 OK" = statusLine 200 ++ str "OK" := by decide
  simp only [ownResponse, hline, List.append_assoc]
  exact List.prefix_append _ _

theorem answers_caCert (s : Session L) (env : Env) : Answers s (s.serveCaCert env) := by
  unfold serveCaCert
  split
  · exact answers_error s _ _
  · exact answers_page s _ _

/-! What the handlers do. -/

theorem handleTimeout_turn (s : Session L) (o : Outcome) : Aside s (s.handleTimeout o) ∨
    o ≠ .aborted ∧ s.currentTransaction.request.isSome = true ∧ s.currentTransaction.response = none ∧
      s.isConnect = false ∧ Answers s (s.handleTimeout o) := by
  unfold handleTimeout
  split
  · exact Or.inl (Aside.refl s)
  · rename_i ho
    split
    · rename_i hopen
      refine Or.inr ⟨ho, hopen.1, hopen.2.1, hopen.2.2, ?_⟩
      dsimp only
      split
      · exact (answers_error _ _ _).after ((Aside.cancel s _).trans (Aside.cancel _ _))
      · exact (answers_error _ _ _).after (Aside.cancel s _)
    · exact Or.inl (Aside.closes.close s)

theorem handleResolve_turn (s : Session L) (o : Outcome) :
    o = .ok ∧ Turn [] Op.connect.weight s.currentTransaction s (s.handleResolve o) ∨
      o ≠ .ok ∧ Answers s (s.handleResolve o) := by
  unfold handleResolve handleUpstreamConnect
  split
  · rename_i ho
    have hopened : Turn [] idle s.closeServer.currentTransaction s.closeServer
        { s.closeServer with serverOpen := true } := .fields rfl rfl rfl rfl
    have hclosed := Aside.closes.closeServer s
    rw [hclosed.transaction] at hopened
    exact Or.inl ⟨ho, (hopened.after hclosed).start_last .connect⟩
  · rename_i ho
    exact Or.inr ⟨ho, answers_error s _ _⟩

theorem writeUpstream_turn (s : Session L) (env : Env) : ∃ data,
    Turn [] (Op.upstreamWrite data).weight s.currentTransaction s (s.writeUpstream env) := by
  have hdata : Turn [] idle s.currentTransaction s { s with serverData := (s.request env).serialize } :=
    .fields rfl rfl rfl rfl
  have hhanded := hdata.before (.emit _ (e := .handed (s.currentTransaction.request.getD 0)
    (s.request env).serialize) rfl)
  exact ⟨_, hhanded.start_last _⟩

theorem handleConnected_turn (s : Session L) (env : Env) (o : Outcome) :
    o ≠ .ok ∧ Answers s (s.handleConnected env o) ∨
      o = .ok ∧ s.isConnect = true ∧ Turn [.queued .generated established]
        (fun k => Op.clientRead.weight k + Op.upstreamRead.weight k) s.currentTransaction s
        (s.handleConnected env o) ∨
      s.isConnect = false ∧ ∃ data, Turn [] (Op.upstreamWrite data).weight s.currentTransaction s
        (s.handleConnected env o) := by
  unfold handleConnected
  split
  · rename_i ho
    exact Or.inl ⟨ho, answers_error s _ _⟩
  · rename_i ho
    split
    · rename_i hc
      have hwritten := (Turn.writeClient s .generated established).start_last .clientRead
      have hread := hwritten.trans (.start _ .upstreamRead)
      refine Or.inr (Or.inl ⟨not_not.mp ho, hc, ?_⟩)
      exact ⟨hread.log, hread.transaction.trans hwritten.transaction, hread.isConnect, hread.asked,
        hread.count⟩
    · rename_i hc
      exact Or.inr (Or.inr ⟨Bool.eq_false_iff.mpr hc, writeUpstream_turn s env⟩)

theorem handleUpstreamWrite_turn (s : Session L) (o : Outcome) :
    Answers s (s.handleUpstreamWrite o) ∨
      Turn [] Op.upstreamRead.weight s.currentTransaction s (s.handleUpstreamWrite o) := by
  unfold handleUpstreamWrite
  split
  · exact Or.inl (answers_error s _ _)
  · have hdata : Turn [] idle s.currentTransaction s { s with serverData := [] } := .fields rfl rfl rfl rfl
    exact Or.inr (hdata.start_last .upstreamRead)

theorem forwardRequest_turn (s : Session L) : Turn [] idle s.currentTransaction s s.forwardRequest ∨
    Turn [] Op.resolve.weight s.currentTransaction s s.forwardRequest := by
  unfold forwardRequest
  split
  · exact Or.inr ((Turn.aside (Aside.closes.closeServer s)).start_last .resolve)
  · exact Or.inl (.aside (Aside.refl s))

theorem handleDecision_turn (s : Session L) (action : InterceptAction) :
    Turn [] idle s.currentTransaction s (s.handleDecision action) ∨
      Turn [] Op.resolve.weight s.currentTransaction s (s.handleDecision action) ∨
      Answers s (s.handleDecision action) := by
  have htimer := Aside.resetTimer s
  unfold handleDecision
  split
  · cases action with
    | forward =>
      have hforward := forwardRequest_turn s.resetTimer
      rw [htimer.transaction] at hforward
      exact hforward.imp (·.after htimer) fun h => Or.inl (h.after htimer)
    | drop => exact Or.inr (Or.inr ((answers_error _ _ _).after htimer))
  · exact Or.inl (.aside (Aside.refl s))

/-- The transaction of a request that was just taken. -/
def tookTransaction (s : Session L) (env : Env) : HttpTransaction :=
  { s.currentTransaction with id := env.nextId, request := some env.newRef }

theorem took_turn (s : Session L) (env : Env) (req : HttpRequest) :
    Turn [.took env.newRef req] idle (s.tookTransaction env) s
      (({ s with currentTransaction := s.tookTransaction env } : Session L).emit (.took env.newRef req)) :=
  ⟨exchanges_append _ _, rfl, rfl, rfl, fun _ _ => rfl⟩

/-- The response to CONNECT that is reported. -/
def connectResponse : HttpResponse :=
  { version := str "HTTP/1.1", statusCode := 200, statusText := str "Connection Established" }

/-- A CONNECT request is reported before the target is dialled. The client socket goes to a
`MitmSession`, or the session becomes a tunnel. -/
structure Connects (s t : Session L) (tx : HttpTransaction) : Prop where
  request : tx.request = s.currentTransaction.request
  response : tx.response = some connectResponse
  transaction : t.currentTransaction = tx
  asked : t.asked = s.asked
  way : exchanges t.log = exchanges s.log ++ [.reported .generated tx] ∧ t.isConnect = true ∧
      t.clientOpen = s.clientOpen ∧ (∀ k, k ≠ .other → t.io.count k = s.io.count k + Op.resolve.weight k) ∨
    (∃ host port, exchanges t.log = exchanges s.log ++ [.reported .generated tx, .spawned host port]) ∧
      t.isConnect = s.isConnect ∧ ∀ k, k ≠ .other → t.io.count k = s.io.count k

theorem handleConnect_turn (s : Session L) (target : ConnectTarget) :
    ∃ tx, Connects s (s.handleConnect target) tx := by
  let v : Session L := { s with currentTransaction := { s.currentTransaction with
    host := target.host, port := target.portNumber, isHttps := true } }
  let w := v.respond .generated connectResponse
  have hw := Turn.respond v .generated connectResponse
  refine ⟨w.currentTransaction, ?_⟩
  unfold handleConnect
  dsimp only
  split
  · have htimer := Aside.closes.cancelTimer w
    refine ⟨rfl, rfl, rfl, rfl, Or.inr ⟨⟨target.host, UInt16.ofInt target.portNumber, ?_⟩, rfl, ?_⟩⟩
    · refine (exchanges_append _ _).trans ?_
      have hlog := (exchanges_aside htimer.log).trans hw.log
      refine (congrArg (· ++ [_]) hlog).trans ?_
      exact List.append_assoc _ _ _
    · exact htimer.count
  · refine ⟨rfl, rfl, rfl, rfl, Or.inl ⟨hw.log, rfl, rfl, fun k _ => ?_⟩⟩
    exact Io.count_start _ _ _

/-- What becomes of a plain request: the proxy answers it, it goes to the intercept manager, or the
upstream is dialled. -/
def Routes (ref : Ref) (s t : Session L) : Prop :=
  Answers s t ∨ (∃ tx n, (n = idle ∨ n = Op.resolve.weight) ∧ Turn [] n tx s t ∧
      tx.request = s.currentTransaction.request ∧ tx.response = s.currentTransaction.response) ∨
    exchanges t.log = exchanges s.log ∧ t.currentTransaction.request = s.currentTransaction.request ∧
      t.currentTransaction.response = s.currentTransaction.response ∧ t.isConnect = s.isConnect ∧
      t.asked = s.asked ++ [ref] ∧ ∀ k, k ≠ .other → t.io.count k = s.io.count k

theorem handleUpstreamRoute_turn (s : Session L) (env : Env) (host port : Bytes) (k : ℤ) :
    Routes env.newRef s (s.handleUpstreamRoute env host port k) := by
  let v : Session L := { s with
    currentTransaction := { s.currentTransaction with host := host, port := k, isHttps := false }
    upstreamHost := host, upstreamPort := port }
  have hroute : Turn [] idle v.currentTransaction s v := .fields rfl rfl rfl rfl
  have htested := hroute.before (.emit v (e := .tested env.newRef env.interceptEnabled) rfl)
  unfold handleUpstreamRoute
  dsimp only
  split
  · have htimer := htested.before_aside (Aside.closes.cancelTimer _)
    refine Or.inr (Or.inr ⟨?_, rfl, rfl, rfl, rfl, htimer.count⟩)
    refine Eq.trans ?_ (htimer.log.trans (List.append_nil _))
    exact (exchanges_append _ _).trans (List.append_nil _)
  · refine Or.inr (Or.inl ⟨v.currentTransaction, ?_⟩)
    rcases forwardRequest_turn (v.emit (.tested env.newRef env.interceptEnabled)) with h | h
    · exact ⟨idle, Or.inl rfl, htested.first h, rfl, rfl⟩
    · exact ⟨_, Or.inr rfl, htested.first h, rfl, rfl⟩

/-- A request that was read is taken, and then goes its way. -/
theorem handleRequest_turn {env : Env} {req : HttpRequest} (hok : s.handleRequest env req = .ok t) :
    ∃ u, Turn [.took env.newRef req] idle (s.tookTransaction env) s u ∧ u.clientOpen = s.clientOpen ∧
      (req.method = str "CONNECT" ∧ (∃ tx, Connects u t tx) ∨ req.method ≠ str "CONNECT" ∧ Routes env.newRef u t) := by
  refine ⟨_, took_turn s env req, rfl, ?_⟩
  unfold handleRequest at hok
  dsimp only at hok
  split at hok
  · rename_i hmethod
    obtain ⟨target, -, rfl⟩ := ok_of_map hok
    exact Or.inl ⟨hmethod, handleConnect_turn _ target⟩
  · rename_i hmethod
    obtain ⟨route, -, rfl⟩ := ok_of_map hok
    refine Or.inr ⟨hmethod, ?_⟩
    cases route with
    | badRequest => exact Or.inl (answers_error _ _ _)
    | caCert => exact Or.inl (answers_caCert _ env)
    | helpPage => exact Or.inl (answers_page _ _ _)
    | upstream host port k => exact handleUpstreamRoute_turn _ env host port k

theorem handleClientRead_turn {env : Env} {o : Outcome} (hok : s.handleClientRead env o = .ok t) :
    Aside s t ∨ Turn [] Op.clientRead.weight s.currentTransaction s t ∨
      s.isConnect = false ∧ (Answers s t ∨ ∃ data req, o = .bytes data ∧
        (s.parser.feedRequest data).1.takeRequest.1 = some req ∧
        ∃ u, Turn [.took env.newRef req] idle (s.tookTransaction env) s u ∧ u.clientOpen = s.clientOpen ∧
          (req.method = str "CONNECT" ∧ (∃ tx, Connects u t tx) ∨
            req.method ≠ str "CONNECT" ∧ Routes env.newRef u t)) := by
  cases o with
  | bytes data =>
    have hread : Turn [] idle s.currentTransaction s (s.resetTimer.emit (.read data)) :=
      (Turn.emit s.resetTimer (e := .read data) rfl).after (Aside.resetTimer s)
    have hopen : (s.resetTimer.emit (.read data)).clientOpen = s.clientOpen := rfl
    have hparser : (s.resetTimer.emit (.read data)).parser = s.parser := rfl
    unfold handleClientRead at hok
    dsimp only at hok
    generalize s.resetTimer.emit (.read data) = v at hok hread hopen hparser
    split at hok
    · cases hok
      have hpushed := hread.before_aside (Aside.writeServerBlind v data)
      exact Or.inr (Or.inl (hpushed.start_last .clientRead))
    · rename_i hc
      have hc : s.isConnect = false := hread.isConnect ▸ Bool.eq_false_iff.mpr hc
      have hfields (parser : HttpParser L) : Turn [] idle s.currentTransaction s
          { v with clientData := v.clientData ++ data, parser := parser } :=
        hread.before (.fields hread.transaction rfl rfl rfl)
      rw [hparser] at hok
      split at hok
      · split at hok
        · rename_i req parser htake
          -- the record grows by the request before anything else is done with it
          obtain ⟨u, hu, huopen, hway⟩ := handleRequest_turn hok
          have htook := (hfields parser).first hu
          have hsame : tookTransaction { v with clientData := v.clientData ++ data, parser := parser } env =
              s.tookTransaction env := by
            simp only [tookTransaction, hread.transaction]
          rw [hsame] at htook
          refine Or.inr (Or.inr ⟨hc, Or.inr ⟨data, req, rfl, ?_, u, htook, huopen.trans hopen, hway⟩⟩)
          exact congrArg Prod.fst htake
        · cases hok
          exact Or.inr (Or.inl ((hfields _).start_last .clientRead))
      · split at hok
        · cases hok
          exact Or.inr (Or.inl ((hfields _).start_last .clientRead))
        · cases hok
          refine Or.inr (Or.inr ⟨hc, Or.inl ?_⟩)
          have hrest := hfields (v.parser.feedRequest data).1
          obtain ⟨response, bytes, hline, hturn⟩ := answers_error { v with
            clientData := v.clientData ++ data, parser := (v.parser.feedRequest data).1 } 400 (str "Bad Request")
          have hturn := hrest.first hturn
          refine ⟨response, bytes, hline, ?_⟩
          rw [← hread.transaction, ← hparser]
          exact hturn
  | ok => cases hok; exact Or.inl (Aside.closes.close s)
  | eof => cases hok; exact Or.inl (Aside.closes.close s)
  | truncated => cases hok; exact Or.inl (Aside.closes.close s)
  | aborted => cases hok; exact Or.inl (Aside.closes.close s)
  | failed => cases hok; exact Or.inl (Aside.closes.close s)

/-- The response is complete: the next request is awaited, or the session closes when all is written. -/
theorem finishExchange_turn (hc : s.isConnect = false) (htx : s.currentTransaction = tx) (env : Env)
    (res : HttpResponse) : ∃ n tx', Turn [.reported .relayed { tx with response := some res }] n tx' s
        (s.finishExchange env res) ∧
      (n = Op.clientRead.weight ∧ tx' = {} ∨ n = idle ∧ tx' = { tx with response := some res }) := by
  subst htx
  have hreported := Turn.respond s .relayed res
  unfold finishExchange
  dsimp only
  generalize s.respond .relayed res = v at hreported
  split
  · have hreset : Turn [] idle {} v { v with parser := v.parser.reset, clientData := [], serverData := []
                                             currentTransaction := {}, isConnect := false } := by
      refine .fields rfl rfl rfl (Prod.ext ?_ rfl)
      exact (hreported.isConnect.trans hc).symm
    exact ⟨_, _, (hreported.before hreset).start_last .clientRead, Or.inl ⟨rfl, rfl⟩⟩
  · have hflag := hreported.before (.fields (t := { v with closeAfterWrite := true })
      hreported.transaction rfl rfl rfl)
    refine ⟨idle, _, ?_, Or.inr ⟨rfl, rfl⟩⟩
    split
    · exact hflag.before_aside (Aside.closes.close _)
    · exact hflag

/-- What comes from the upstream is relayed; a tunnel and an incomplete response go on. -/
theorem handleUpstreamRead_turn (s : Session L) (env : Env) (data : Bytes) :
    Turn [.received data, .queued .relayed data] Op.upstreamRead.weight s.currentTransaction s
        (s.handleUpstreamRead env (.bytes data)) ∧
        (s.isConnect = true ∨ (s.parser.feedResponse data).2 = false) ∨
      s.isConnect = false ∧ (s.parser.feedResponse data).2 = true ∧ ∃ n tx, ∃ tx' : HttpTransaction,
        tx' = { s.currentTransaction with
          response := some (s.parser.feedResponse data).1.responseParser.collector.message } ∧
        Turn [.received data, .queued .relayed data, .reported .relayed tx'] n tx s
          (s.handleUpstreamRead env (.bytes data)) ∧
        (n = Op.clientRead.weight ∧ tx = {} ∨ n = idle ∧ tx = tx') := by
  have hreceived : Turn [.received data] idle s.currentTransaction s (s.resetTimer.emit (.received data)) := by
    refine Turn.after (t := s.resetTimer) ?_ (Aside.resetTimer s)
    exact ⟨exchanges_append _ _, rfl, rfl, rfl, fun _ _ => rfl⟩
  -- the bytes are passed on before they are parsed
  have hrelayed := hreceived.trans (.writeClient _ .relayed data)
  have hparser : ((s.resetTimer.emit (.received data)).writeClient .relayed data).parser = s.parser :=
    (Aside.writes.writeClient_queued (s.resetTimer.emit (.received data)) .relayed data).parser
  unfold handleUpstreamRead
  dsimp only
  generalize (s.resetTimer.emit (.received data)).writeClient .relayed data = v at hrelayed hparser
  have hv : Turn [.received data, .queued .relayed data] idle s.currentTransaction s v :=
    ⟨hrelayed.log, hrelayed.transaction.trans hreceived.transaction, hrelayed.isConnect, hrelayed.asked,
      hrelayed.count⟩
  rw [hparser]
  split
  · rename_i hc
    exact Or.inl ⟨hv.start_last .upstreamRead, Or.inl (hv.isConnect ▸ hc)⟩
  · rename_i hc
    have hc : v.isConnect = false := Bool.eq_false_iff.mpr hc
    have hfields (parser : HttpParser L) :
        Turn [.received data, .queued .relayed data] idle s.currentTransaction s { v with parser := parser } :=
      hv.before (.fields hv.transaction rfl rfl rfl)
    split
    · rename_i hready
      split
      · rename_i res parser htake
        obtain ⟨-, rfl⟩ := HttpParser.takeResponse_some htake
        obtain ⟨n, tx, hfinish, hway⟩ := finishExchange_turn (s := { v with parser := parser }) hc
          hv.transaction env (s.parser.feedResponse data).1.responseParser.collector.message
        have hall := (hfields parser).trans hfinish
        refine Or.inr ⟨hv.isConnect.symm.trans hc, hready, n, tx, _, rfl, ?_, hway⟩
        refine ⟨hall.log, hall.transaction, hall.isConnect, hall.asked, fun k hk => ?_⟩
        rw [hall.count k hk, idle, Nat.zero_add]
      · rename_i parser htake
        -- a parser that is ready has a message
        have hcomplete := HttpParser.feedResponse_complete hready
        have hnone : ((s.parser.feedResponse data).1.responseParser.take responseOps).1 = none :=
          congrArg Prod.fst htake
        rw [MessageParser.take, if_pos hcomplete] at hnone
        cases hnone
    · rename_i hready
      exact Or.inl ⟨(hfields _).start_last .upstreamRead, Or.inr (Bool.eq_false_iff.mpr hready)⟩

end Session

namespace MitmSession

open Session (idle)

variable {L : Llhttp} {es es' : List Effect} {n n' : OpKind → ℕ} {tx tx' : HttpTransaction}
  {s t u : MitmSession L}

/-- The same for a session over TLS. -/
structure Turn (es : List Effect) (n : OpKind → ℕ) (tx : HttpTransaction) (s t : MitmSession L) : Prop where
  log : exchanges t.log = exchanges s.log ++ es
  transaction : t.currentTransaction = tx
  asked : t.asked = s.asked
  stillOpen : t.isClosed = false → s.isClosed = false
  count : ∀ k, k ≠ .other → t.io.count k = s.io.count k + n k

namespace Turn

theorem trans (h : Turn es n tx s t) (h' : Turn es' n' tx' t u) :
    Turn (es ++ es') (fun k => n k + n' k) tx' s u where
  log := by rw [h'.log, h.log, List.append_assoc]
  transaction := h'.transaction
  asked := h'.asked.trans h.asked
  stillOpen hu := h.stillOpen (h'.stillOpen hu)
  count k hk := by rw [h'.count k hk, h.count k hk, Nat.add_assoc]

theorem aside (h : Aside s t) : Turn [] idle s.currentTransaction s t where
  log := by rw [exchanges_aside h.log, List.append_nil]
  transaction := h.transaction
  asked := h.asked
  stillOpen := h.stillOpen
  count := h.count

theorem first (h : Turn [] idle tx s t) (h' : Turn es n tx' t u) : Turn es n tx' s u := by
  have hturn := h.trans h'
  refine ⟨hturn.log, hturn.transaction, hturn.asked, hturn.stillOpen, fun k hk => ?_⟩
  rw [hturn.count k hk, idle, Nat.zero_add]

theorem before (h : Turn es n tx s t) (h' : Turn [] idle tx' t u) : Turn es n tx' s u := by
  have hturn := h.trans h'
  refine ⟨?_, hturn.transaction, hturn.asked, hturn.stillOpen, hturn.count⟩
  rw [hturn.log, List.append_nil]

theorem after (h' : Turn es n tx t u) (h : Aside s t) : Turn es n tx s u := (aside h).first h'

theorem before_aside (h : Turn es n tx s t) (h' : Aside t u) : Turn es n tx s u :=
  h.transaction ▸ h.before (aside h')

theorem emit (s : MitmSession L) {e : Effect} (he : e.ofExchange = false) :
    Turn [] idle s.currentTransaction s (s.emit e) := by
  refine ⟨?_, rfl, rfl, id, fun _ _ => rfl⟩
  show exchanges (s.log ++ [e]) = _
  rw [exchanges_append]
  simp [exchanges, he]

theorem start (s : MitmSession L) (op : Op) : Turn [] op.weight s.currentTransaction s (s.start op) := by
  refine ⟨by simp [MitmSession.start], rfl, rfl, id, fun k _ => ?_⟩
  rw [MitmSession.start, Io.count_start]

theorem start_last (h : Turn es idle tx s t) (op : Op) : Turn es op.weight tx s (t.start op) := by
  have hturn := h.trans (start t op)
  refine ⟨?_, hturn.transaction.trans h.transaction, hturn.asked, hturn.stillOpen, fun k hk => ?_⟩
  · rw [hturn.log, List.append_nil]
  · rw [hturn.count k hk, idle, Nat.zero_add]

theorem fields (htx : t.currentTransaction = tx) (hlog : t.log = s.log) (hio : t.io = s.io)
    (hsame : (t.asked, t.isClosed) = (s.asked, s.isClosed)) : Turn [] idle tx s t := by
  obtain ⟨hasked, hclosed⟩ := Prod.mk.inj hsame
  exact ⟨by rw [hlog, List.append_nil], htx, hasked, fun ht => hclosed ▸ ht, fun _ _ => by rw [hio]; rfl⟩

theorem writeClient (s : MitmSession L) (hopen : s.isClosed = false) (origin : Origin) (data : Bytes) :
    Turn [.queued origin data] idle s.currentTransaction s (s.writeClient origin data) := by
  have hqueued : Turn [.queued origin data] idle s.currentTransaction s
      (({ s with clientWriteQueue := s.clientWriteQueue ++ [data] } : MitmSession L).emit
        (.queued origin data)) := ⟨exchanges_append _ _, rfl, rfl, id, fun _ _ => rfl⟩
  exact hqueued.before_aside (Aside.writes.writeClient_queued hopen origin data)

theorem respond (s : MitmSession L) (origin : Origin) (response : HttpResponse) :
    Turn [.reported origin { s.currentTransaction with response := some response }] idle
      { s.currentTransaction with response := some response } s (s.respond origin response) :=
  ⟨exchanges_append _ _, rfl, rfl, id, fun _ _ => rfl⟩

end Turn

/-- The proxy answers itself, through the queue or on the raw socket. -/
def Answers (s t : MitmSession L) : Prop := ∃ response data e, statusLine response.statusCode <+: data ∧
  (e = .queued .generated data ∨ e = .answered data) ∧
  Turn [.reported .generated { s.currentTransaction with response := some response }, e] idle
    { s.currentTransaction with response := some response } s t

theorem answers_error (hopen : s.isClosed = false) (statusCode : ℕ) (statusText : Bytes) :
    Answers s (s.sendErrorResponse statusCode statusText) := by
  let response : HttpResponse :=
    { version := str "HTTP/1.1", statusCode := statusCode, statusText := statusText }
  let v : MitmSession L := { s with closeAfterWrite := true }.respond .generated response
  have hreported : Turn [.reported .generated { s.currentTransaction with response := some response }] idle
      { s.currentTransaction with response := some response } s v :=
    ⟨exchanges_append _ _, rfl, rfl, id, fun _ _ => rfl⟩
  have hline : statusLine statusCode <+: errorResponse statusCode statusText := by
    refine ⟨statusText ++ CRLF ++ str "Content-Length: 0" ++ CRLF ++ str "Connection: close" ++ CRLF ++
      CRLF, ?_⟩
    simp only [statusLine, errorResponse, List.append_assoc]
  have hlast {e : Effect} {w : MitmSession L} (h : Turn [e] idle v.currentTransaction v w) :
      Turn [.reported .generated { s.currentTransaction with response := some response }, e] idle
        { s.currentTransaction with response := some response } s w := by
    have hall := hreported.trans h
    exact ⟨hall.log, hall.transaction, hall.asked, hall.stillOpen, hall.count⟩
  unfold sendErrorResponse
  rw [if_neg (by simp [hopen])]
  dsimp only
  split
  · exact ⟨response, _, _, hline, Or.inl rfl, hlast (.writeClient v hopen _ _)⟩
  · refine ⟨response, _, _, hline, Or.inr rfl, hlast ?_⟩
    have hemitted : Turn [.answered (errorResponse statusCode statusText)] idle v.currentTransaction v
        (v.emit (.answered (errorResponse statusCode statusText))) :=
      ⟨exchanges_append _ _, rfl, rfl, id, fun _ _ => rfl⟩
    exact hemitted.before_aside (Aside.start _ rfl)

theorem handleResolve_turn (hopen : s.isClosed = false) (o : Outcome) :
    o = .ok ∧ Turn [] Op.connect.weight s.currentTransaction s (s.handleResolve o) ∨
      o ≠ .ok ∧ Answers s (s.handleResolve o) := by
  unfold handleResolve
  rw [if_neg (by simp [hopen])]
  split
  · rename_i ho
    exact Or.inr ⟨ho, answers_error hopen _ _⟩
  · rename_i ho
    exact Or.inl ⟨not_not.mp ho, .start s .connect⟩

theorem handleConnected_turn (hopen : s.isClosed = false) (o : Outcome) :
    o = .ok ∧ Turn [.answered Session.established] Op.established.weight s.currentTransaction s
        (s.handleConnected o) ∨
      o ≠ .ok ∧ Answers s (s.handleConnected o) := by
  unfold handleConnected
  rw [if_neg (by simp [hopen])]
  split
  · rename_i ho
    exact Or.inr ⟨ho, answers_error hopen _ _⟩
  · rename_i ho
    unfold sendEstablishedResponse
    rw [if_neg (by simp [hopen])]
    have hanswered : Turn [.answered Session.established] idle s.currentTransaction s
        (s.emit (.answered Session.established)) := ⟨exchanges_append _ _, rfl, rfl, id, fun _ _ => rfl⟩
    exact Or.inl ⟨not_not.mp ho, hanswered.start_last .established⟩

/-- These things happen in the exchange, and then at most reads, writes and handshakes are started. -/
def Proceeds (es : List Effect) (tx : HttpTransaction) (s t : MitmSession L) : Prop :=
  ∃ n, Turn es n tx s t ∧ n .dial = 0 ∧ ∀ a, n (.decision a) = 0

namespace Proceeds

theorem of_turn (h : Turn es idle tx s t) : Proceeds es tx s t := ⟨idle, h, rfl, fun _ => rfl⟩

theorem aside (h : Aside s t) : Proceeds [] s.currentTransaction s t := of_turn (.aside h)

theorem start (s : MitmSession L) {op : Op} (hop : op.kind ≠ .dial ∧ ∀ a, op.kind ≠ .decision a) :
    Proceeds [] s.currentTransaction s (s.start op) :=
  ⟨op.weight, .start s op, if_neg hop.1, fun a => if_neg (hop.2 a)⟩

/-- The rest adds nothing to the exchange. -/
theorem trans (h : Proceeds es tx s t) (h' : Proceeds [] t.currentTransaction t u) : Proceeds es tx s u := by
  obtain ⟨n, hturn, hdial, hdecision⟩ := h
  obtain ⟨n', hturn', hdial', hdecision'⟩ := h'
  have hall := hturn.trans hturn'
  refine ⟨fun k => n k + n' k, ⟨?_, hall.transaction.trans hturn.transaction, hall.asked, hall.stillOpen,
    hall.count⟩, ?_, fun a => ?_⟩
  · rw [hall.log, List.append_nil]
  · show n .dial + n' .dial = 0
    rw [hdial, hdial']
  · show n (.decision a) + n' (.decision a) = 0
    rw [hdecision a, hdecision' a]

/-- Nothing happens in the exchange itself. -/
abbrev Onward (s t : MitmSession L) : Prop := Proceeds [] s.currentTransaction s t

theorem chain : Chain (Onward (L := L)) := ⟨fun s => aside (.refl s), trans⟩

theorem readClient (s : MitmSession L) : Onward s s.readClient := startOpen_of chain (start s (by simp [Op.kind]))

theorem readUpstream (s : MitmSession L) : Onward s s.readUpstream :=
  startOpen_of chain (start s (by simp [Op.kind]))

theorem shakes : AllowsHandshake (Onward (L := L)) where
  toChain := chain
  handshakes s := (start s (by simp [Op.kind])).trans (start _ (by simp [Op.kind]))
  clientDone _ := of_turn (.fields rfl rfl rfl rfl)
  upstreamDone _ := of_turn (.fields rfl rfl rfl rfl)
  readClient := readClient

theorem forwards : AllowsForward (Onward (L := L)) where
  toChain := chain
  push _ _ _ := of_turn ⟨exchanges_append _ _, rfl, rfl, id, fun _ _ => rfl⟩
  send s ref data := by
    have hhanded := Turn.emit s (e := .handed ref data) rfl
    have hsent := Turn.emit (s.emit (.handed ref data)) (e := .sent .upstream data) rfl
    exact (of_turn (hhanded.before hsent)).trans (start _ (by simp [Op.kind]))

theorem handleUpstreamWrite (s : MitmSession L) (o : Outcome) : Onward s (s.handleUpstreamWrite o) :=
  forwards.handleUpstreamWrite (fun _ => aside (Aside.closes.close s)) (of_turn (.fields rfl rfl rfl rfl)) readUpstream

end Proceeds

theorem handleDecision_turn (s : MitmSession L) (env : Env) (action : InterceptAction) :
    Proceeds [] s.currentTransaction s (s.handleDecision env action) ∨
      s.isClosed = false ∧ Answers s (s.handleDecision env action) := by
  unfold handleDecision
  split
  · exact Or.inl (.aside (Aside.refl s))
  · rename_i hopen
    have hopen : s.isClosed = false := Bool.eq_false_iff.mpr hopen
    have htimer := Aside.resetTimer s
    cases action with
    | forward => exact Or.inl ((Proceeds.aside htimer).trans (Proceeds.forwards.writeUpstream _ _ _))
    | drop =>
      obtain ⟨response, data, e, hline, he, hturn⟩ := answers_error (s := s.resetTimer) hopen 502
        (str "Request Dropped by BurpTUI")
      exact Or.inr ⟨hopen, response, data, e, hline, he, hturn.after htimer⟩

/-- The transaction of a request that was just taken. -/
def tookTransaction (s : MitmSession L) (env : Env) : HttpTransaction :=
  { s.currentTransaction with
    id := env.nextId, host := s.targetHost, port := s.targetPort.toNat, isHttps := true
    request := some env.newRef }

/-- A request is taken, and goes to the intercept manager or to the upstream. -/
theorem handleRequest_turn (s : MitmSession L) (env : Env) (req : HttpRequest) :
    ∃ u, Turn [.took env.newRef req] idle (s.tookTransaction env) s u ∧
      (Proceeds [] u.currentTransaction u (s.handleRequest env req) ∨
        exchanges (s.handleRequest env req).log = exchanges u.log ∧
        (s.handleRequest env req).currentTransaction = u.currentTransaction ∧
        (s.handleRequest env req).asked = u.asked ++ [env.newRef] ∧
        ((s.handleRequest env req).isClosed = false → u.isClosed = false) ∧
        ∀ k, k ≠ .other → (s.handleRequest env req).io.count k = u.io.count k) := by
  let u : MitmSession L := ({ s with currentTransaction := s.tookTransaction env } : MitmSession L).emit
    (.took env.newRef req)
  have hu : Turn [.took env.newRef req] idle (s.tookTransaction env) s u :=
    ⟨exchanges_append _ _, rfl, rfl, id, fun _ _ => rfl⟩
  have htested := Turn.emit u (e := .tested env.newRef env.interceptEnabled) rfl
  refine ⟨u, hu, ?_⟩
  unfold handleRequest
  dsimp only
  split
  · have htimer := htested.before_aside (Aside.closes.cancelTimer _)
    refine Or.inr ⟨?_, rfl, rfl, id, htimer.count⟩
    refine Eq.trans ?_ (htimer.log.trans (List.append_nil _))
    exact (exchanges_append _ _).trans (List.append_nil _)
  · exact Or.inl ((Proceeds.of_turn htested).trans (Proceeds.forwards.writeUpstream _ _ _))

theorem handleClientRead_turn (s : MitmSession L) (env : Env) (o : Outcome) :
    Proceeds [] s.currentTransaction s (s.handleClientRead env o) ∨
      ∃ req u, Turn [.took env.newRef req] idle (s.tookTransaction env) s u ∧
        (Proceeds [] u.currentTransaction u (s.handleClientRead env o) ∨
          exchanges (s.handleClientRead env o).log = exchanges u.log ∧
          (s.handleClientRead env o).currentTransaction = u.currentTransaction ∧
          (s.handleClientRead env o).asked = u.asked ++ [env.newRef] ∧
          ((s.handleClientRead env o).isClosed = false → u.isClosed = false) ∧
          ∀ k, k ≠ .other → (s.handleClientRead env o).io.count k = u.io.count k) := by
  unfold handleClientRead
  split
  · exact Or.inl (.aside (Aside.refl s))
  · split
    · rename_i data
      have hread : Turn [] idle s.currentTransaction s (s.resetTimer.emit (.read data)) :=
        (Turn.emit s.resetTimer (e := .read data) rfl).after (Aside.resetTimer s)
      have htarget : ((s.resetTimer.emit (.read data)).targetHost,
          (s.resetTimer.emit (.read data)).targetPort) = (s.targetHost, s.targetPort) := rfl
      dsimp only
      generalize s.resetTimer.emit (.read data) = v at hread htarget
      have hfields (parser : HttpParser L) : Turn [] idle s.currentTransaction s { v with
          clientAccumulated := v.clientAccumulated ++ data, clientParser := parser } :=
        hread.before (.fields hread.transaction rfl rfl rfl)
      have hproceeds (parser : HttpParser L) : Proceeds [] s.currentTransaction s { v with
          clientAccumulated := v.clientAccumulated ++ data, clientParser := parser } :=
        .of_turn (hfields parser)
      split
      · split
        · rename_i req parser _
          obtain ⟨u, hu, hway⟩ := handleRequest_turn { v with
            clientAccumulated := v.clientAccumulated ++ data, clientParser := parser } env req
          have htook := (hfields parser).first hu
          obtain ⟨hhost, hport⟩ := Prod.mk.inj htarget
          have hsame : tookTransaction { v with
              clientAccumulated := v.clientAccumulated ++ data, clientParser := parser } env =
                s.tookTransaction env := by
            simp only [tookTransaction, hread.transaction, hhost, hport]
          exact Or.inr ⟨req, u, hsame ▸ htook, hway⟩
        · exact Or.inl ((hproceeds _).trans (Proceeds.readClient _))
      · split
        · exact Or.inl ((hproceeds _).trans (Proceeds.readClient _))
        · exact Or.inl ((hproceeds _).trans (.aside (Aside.closes.close _)))
    · exact Or.inl (.aside (Aside.closes.close s))

/-- The response is complete. -/
theorem finishExchange_turn (htx : s.currentTransaction = tx) (env : Env) (res : HttpResponse) :
    ∃ tx', Proceeds [.reported .relayed { tx with response := some res }] tx' s (s.finishExchange env res) ∧
      (tx' = {} ∨ tx' = { tx with response := some res } ∧
        (s.finishExchange env res).io.count .receive = s.io.count .receive) := by
  subst htx
  have hreported := Turn.respond s .relayed res
  unfold finishExchange
  dsimp only
  generalize s.respond .relayed res = v at hreported
  split
  · have hreset : Turn [] idle {} v { v with clientParser := v.clientParser.reset
                                             upstreamParser := v.upstreamParser.reset
                                             clientAccumulated := [], upstreamAccumulated := []
                                             currentTransaction := {} } := .fields rfl rfl rfl rfl
    exact ⟨{}, (Proceeds.of_turn (hreported.before hreset)).trans (Proceeds.readClient _), Or.inl rfl⟩
  · have hflag := hreported.before (.fields (t := { v with closeAfterWrite := true })
      hreported.transaction rfl rfl rfl)
    split
    · have hclosed := hflag.before_aside (Aside.closes.close _)
      exact ⟨_, .of_turn hclosed, Or.inr ⟨rfl, hclosed.count _ (by simp)⟩⟩
    · exact ⟨_, .of_turn hflag, Or.inr ⟨rfl, hflag.count _ (by simp)⟩⟩

/-- What comes from the upstream is relayed, and an incomplete response goes on. -/
theorem handleUpstreamRead_turn (hopen : s.isClosed = false) (env : Env) (data : Bytes) :
    (s.upstreamParser.feedResponse data).2 = false ∧ Proceeds [.received data, .queued .relayed data]
        s.currentTransaction s (s.handleUpstreamRead env (.bytes data)) ∨
      (s.upstreamParser.feedResponse data).2 = true ∧ ∃ tx, ∃ tx' : HttpTransaction,
        tx' = { s.currentTransaction with
          response := some (s.upstreamParser.feedResponse data).1.responseParser.collector.message } ∧
        Proceeds [.received data, .queued .relayed data, .reported .relayed tx'] tx s
          (s.handleUpstreamRead env (.bytes data)) ∧
        (tx = {} ∨ tx = tx' ∧
          (s.handleUpstreamRead env (.bytes data)).io.count .receive = s.io.count .receive) := by
  have hreceived : Turn [.received data] idle s.currentTransaction s (s.resetTimer.emit (.received data)) := by
    refine Turn.after (t := s.resetTimer) ?_ (Aside.resetTimer s)
    exact ⟨exchanges_append _ _, rfl, rfl, id, fun _ _ => rfl⟩
  have hstill : (s.resetTimer.emit (.received data)).isClosed = false := hopen
  have hrelayed := hreceived.trans (.writeClient _ hstill .relayed data)
  have hparser : ((s.resetTimer.emit (.received data)).writeClient .relayed data).upstreamParser =
      s.upstreamParser :=
    (Aside.writes.writeClient_queued hstill .relayed data).parser
  unfold handleUpstreamRead
  rw [if_neg (by simp [hopen])]
  dsimp only
  generalize (s.resetTimer.emit (.received data)).writeClient .relayed data = v at hrelayed hparser
  have hv : Turn [.received data, .queued .relayed data] idle s.currentTransaction s v :=
    ⟨hrelayed.log, hrelayed.transaction.trans hreceived.transaction, hrelayed.asked, hrelayed.stillOpen,
      hrelayed.count⟩
  have hfields (parser : HttpParser L) :
      Turn [.received data, .queued .relayed data] idle s.currentTransaction s { v with
        upstreamAccumulated := v.upstreamAccumulated ++ data, upstreamParser := parser } :=
    hv.before (.fields hv.transaction rfl rfl rfl)
  rw [hparser]
  split
  · rename_i hready
    split
    · rename_i res parser htake
      obtain ⟨-, rfl⟩ := HttpParser.takeResponse_some htake
      let w : MitmSession L := { v with
        upstreamAccumulated := v.upstreamAccumulated ++ data, upstreamParser := parser }
      obtain ⟨tx, ⟨n, hturn, hn⟩, hway⟩ := finishExchange_turn (s := w) hv.transaction env
        (s.upstreamParser.feedResponse data).1.responseParser.collector.message
      have hall := (hfields parser).trans hturn
      refine Or.inr ⟨hready, tx, _, rfl, ⟨n, ?_, hn⟩, hway.imp_right fun h => ⟨h.1, h.2.trans ?_⟩⟩
      · refine ⟨hall.log, hall.transaction, hall.asked, hall.stillOpen, fun k hk => ?_⟩
        rw [hall.count k hk, idle, Nat.zero_add]
      · exact (hfields parser).count _ (by simp)
    · rename_i parser htake
      -- a parser that is ready has a message
      have hcomplete := HttpParser.feedResponse_complete hready
      have hnone : ((s.upstreamParser.feedResponse data).1.responseParser.take responseOps).1 = none :=
        congrArg Prod.fst htake
      rw [MessageParser.take, if_pos hcomplete] at hnone
      cases hnone
  · rename_i hready
    refine Or.inl ⟨Bool.eq_false_iff.mpr hready, ?_⟩
    exact (Proceeds.of_turn (hfields _)).trans (Proceeds.readUpstream _)

/-- Without data the read from the upstream ends the session, and may report a response. -/
theorem handleUpstreamRead_end (s : MitmSession L) (env : Env) {o : Outcome} (ho : ∀ data, o ≠ .bytes data) :
    Turn [] idle s.currentTransaction s (s.handleUpstreamRead env o) ∨ s.isClosed = false ∧ (o = .eof ∨ o = .truncated) ∧
      s.currentTransaction.response = none ∧ ∃ response,
        (s.upstreamParser.feedResponse s.upstreamAccumulated).1.takeResponse.1 = some response ∧
        Turn [.reported .relayed { s.currentTransaction with response := some response }] idle
          { s.currentTransaction with response := some response } s (s.handleUpstreamRead env o) ∧
        (s.handleUpstreamRead env o).isClosed = true := by
  unfold handleUpstreamRead
  split
  · exact Or.inl (.aside (Aside.refl s))
  · rename_i hopen
    split
    · rename_i data
      exact absurd rfl (ho data)
    · dsimp only
      split
      · rename_i hends
        unfold reportTaken
        split
        · rename_i response parser htake
          refine Or.inr ⟨Bool.eq_false_iff.mpr hopen, hends.1, hends.2.1, response,
            congrArg Prod.fst htake, ?_, close_closed _⟩
          have hfields : Turn [] idle s.currentTransaction s { s with upstreamParser := parser } :=
            .fields rfl rfl rfl rfl
          exact (hfields.first (.respond _ .relayed response)).before_aside (Aside.closes.close _)
        · rename_i parser htake
          have hfields : Turn [] idle s.currentTransaction s { s with upstreamParser := parser } :=
            .fields rfl rfl rfl rfl
          exact Or.inl (hfields.before_aside (Aside.closes.close _))
      · exact Or.inl (.aside (Aside.closes.close s))

end MitmSession

end BurpTUI
