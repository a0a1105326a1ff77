import BurpTUI.Base.Grows
import BurpTUI.Http.ParsedResponse
import BurpTUI.Proxy.Aside
import BurpTUI.Proxy.MitmFlow
import BurpTUI.Proxy.OneAnswer
import BurpTUI.Proxy.ServerData

namespace BurpTUI

/-- What has come from the upstream since the last request was taken. -/
def trackReceived (received : List Bytes) : Effect → List Bytes
  | .took _ _ => []
  | .received data => received ++ [data]
  | _ => received

def receivedFor (log : List Effect) : List Bytes := log.foldl trackReceived []

/-- A response of the upstream is reported as it is in the bytes that the upstream has sent for the
request: all of it, and nothing of what stands behind it. -/
def Truthful (L : Llhttp) (log : List Effect) : Prop :=
  Everywhere (fun before e => ∀ tx, e = .reported .relayed tx → ∃ chunks response,
    tx.response = some response ∧ chunks <+: receivedFor before ∧ ParsedFrom L chunks response) log

/-- Effects that are neither requests nor responses of the upstream. -/
def Effect.neutral : Effect → Prop
  | .took _ _ => False
  | .received _ => False
  | .reported .relayed _ => False
  | _ => True

theorem receivedFor_grows {log log' : List Effect} (h : Grows Effect.neutral log log') :
    receivedFor log' = receivedFor log := by
  refine h.foldl (fun e he received => ?_) []
  cases e with
  | took ref request => exact he.elim
  | received data => exact he.elim
  | _ => rfl

theorem receivedFor_snoc (log : List Effect) (e : Effect) :
    receivedFor (log ++ [e]) = trackReceived (receivedFor log) e := by
  rw [receivedFor, List.foldl_append]
  rfl

theorem neutral_of_aside {log log' : List Effect} (h : LogAside log log') :
    Grows Effect.neutral log log' := by
  obtain ⟨es, hlog, hes⟩ := h
  refine ⟨es, hlog, fun e he => ?_⟩
  have haside := hes e he
  cases e with
  | took ref request => cases haside
  | received data => cases haside
  | reported origin tx => cases haside
  | _ => trivial

/-- The same under the assumption `E`. -/
def TruthfulIf (E : Prop) (L : Llhttp) (log : List Effect) : Prop := E → Truthful L log

namespace TruthfulIf

variable {E : Prop} {L : Llhttp} {log log' : List Effect}

theorem grow (h : TruthfulIf E L log) (hgrows : Grows Effect.neutral log log') : TruthfulIf E L log' := by
  intro hE
  refine Everywhere.grow (h hE) hgrows fun e he before tx heq => ?_
  rw [heq] at he
  exact he.elim

theorem snoc (h : TruthfulIf E L log) {e : Effect} (he : ∀ tx, e ≠ .reported .relayed tx) :
    TruthfulIf E L (log ++ [e]) := fun hE => Everywhere.snoc (h hE) fun tx heq => absurd heq (he tx)

/-- A complete response of a parser that has followed the upstream is reported. -/
theorem report (h : TruthfulIf E L log) {p : MessageParser L HttpResponse}
    (hp : p.Tracks responseOps E (receivedFor log)) (hcomplete : p.collector.messageComplete = true)
    {tx : HttpTransaction} (htx : tx.response = some p.collector.message) :
    TruthfulIf E L (log ++ [.reported .relayed tx]) := by
  intro hE
  refine Everywhere.snoc (h hE) fun tx' heq => ?_
  obtain ⟨-, rfl⟩ := Effect.reported.inj heq
  obtain ⟨chunks, hprefix, hparsed⟩ := ParsedFrom.of_tracks hp hE hcomplete
  exact ⟨chunks, p.collector.message, htx, hprefix, hparsed⟩

end TruthfulIf

namespace Session

open BurpTUI.Flow (Idle Cleared Sound SoundAfter)

variable {L : Llhttp} {E : Prop} {b : Flow} {new ref : Ref} {s t u : Session L} {op : Op}

/-- The response parser and the bytes it has to follow are the same. -/
structure Untouched (s t : Session L) : Prop where
  parser : t.parser.responseParser = s.parser.responseParser
  tunnel : t.isConnect = s.isConnect
  log : Grows Effect.neutral s.log t.log
  read : t.io.count .read = s.io.count .read

namespace Untouched

theorem refl (s : Session L) : Untouched s s := ⟨rfl, rfl, .refl _, rfl⟩

theorem trans (h : Untouched s t) (h' : Untouched t u) : Untouched s u where
  parser := h'.parser.trans h.parser
  tunnel := h'.tunnel.trans h.tunnel
  log := h.log.trans h'.log
  read := h'.read.trans h.read

theorem aside (h : Aside s t) : Untouched s t where
  parser := by rw [h.parser]
  tunnel := h.isConnect
  log := neutral_of_aside h.log
  read := h.count .read (by simp)

theorem emit (s : Session L) {e : Effect} (he : e.neutral) : Untouched s (s.emit e) :=
  ⟨rfl, rfl, .snoc _ he, rfl⟩

theorem start (s : Session L) {op : Op} (hop : op.kind ≠ .read) : Untouched s (s.start op) := by
  refine ⟨rfl, rfl, .refl _, ?_⟩
  rw [Session.start, Io.count_start]
  simp [Op.weight, hop]

theorem fields (hparser : t.parser.responseParser = s.parser.responseParser)
    (hsame : (t.isConnect, t.log, t.io) = (s.isConnect, s.log, s.io)) : Untouched s t := by
  simp only [Prod.mk.injEq] at hsame
  obtain ⟨htunnel, hlog, hio⟩ := hsame
  exact ⟨hparser, htunnel, hlog ▸ .refl _, by rw [hio]⟩

theorem closes : AllowsClose (Untouched (L := L)) where
  refl := refl
  trans := trans
  cancel s p := aside (Aside.cancel s p)
  removed s _ := emit s trivial
  clientGone _ := fields rfl rfl
  closed s := emit s trivial
  serverGone _ := fields rfl rfl

theorem answers : AllowsAnswer (Untouched (L := L)) where
  refl := refl
  trans := trans
  send s data := aside (Aside.writes.send s data)
  sendServer s data := aside (Aside.writes.sendServer s data)
  respond _ _ := ⟨rfl, rfl, .snoc _ trivial, rfl⟩
  queue _ _ := ⟨rfl, rfl, .snoc _ trivial, rfl⟩

theorem writeClient (s : Session L) (origin : Origin) (data : Bytes) :
    Untouched s (s.writeClient origin data) := answers.writeClient ⟨rfl, rfl, .snoc _ trivial, rfl⟩

theorem dials : AllowsDial (Untouched (L := L)) where
  refl := refl
  trans := trans
  error s _ _ _ := answers.sendErrorResponse s _ _
  serverOpen _ := fields rfl rfl
  store _ _ := fields rfl rfl
  handed s _ _ := emit s trivial
  start s op hop := start s fun h => by simp [h] at hop

theorem routes : AllowsRoute (Untouched (L := L)) where
  refl := refl
  trans := trans
  target _ _ _ _ := fields rfl rfl
  route _ _ _ := fields rfl rfl
  tested s _ _ := emit s trivial

theorem handleUpstreamRoute (s : Session L) (env : Env) (host port : Bytes) (k : ℤ) :
    Untouched s (s.handleUpstreamRoute env host port k) :=
  routes.handleUpstreamRoute (fun s _ => (closes.cancelTimer s).trans ⟨rfl, rfl, .snoc _ trivial, rfl⟩)
    (fun t _ => dials.forwardRequest (closes.closeServer t)) env host port k

end Untouched

/-- A request is under way, and `n` is outstanding. -/
def Busy (n : OpKind → ℕ) (s : Session L) : Prop :=
  0 < n .dial ∨ 0 < n .send ∨ 0 < n .receive ∨ s.asked ≠ [] ∨ ∃ a, 0 < n (.decision a)

/-- The response parser is fresh when a request is awaited, and then follows the upstream. A tunnel
does not use it. -/
structure Parsing (E : Prop) (n : OpKind → ℕ) (s : Session L) : Prop where
  truthful : TruthfulIf E L s.log
  fresh : s.isConnect = false → 0 < n .read → s.parser.responseParser = .reset responseOps
  follows : s.isConnect = false → Busy n s →
    s.parser.responseParser.Tracks responseOps E (receivedFor s.log)

namespace Parsing

theorem of_tunnel {n : OpKind → ℕ} (htruthful : TruthfulIf E L s.log) (hc : s.isConnect = true) :
    Parsing E n s := by
  refine ⟨htruthful, fun hnot => ?_, fun hnot => ?_⟩
  · rw [hc] at hnot
    cases hnot
  · rw [hc] at hnot
    cases hnot

theorem of_follows (htruthful : TruthfulIf E L s.log)
    (hfollows : s.parser.responseParser.Tracks responseOps E (receivedFor s.log))
    (hread : s.io.count .read = 0) : Parsing E s.io.count s := by
  refine ⟨htruthful, fun _ hpos => ?_, fun _ _ => hfollows⟩
  omega

/-- Nothing is outstanding. -/
theorem of_idle (htruthful : TruthfulIf E L s.log) (hidle : Idle b new s.flow) : Parsing E s.io.count s := by
  refine ⟨htruthful, fun hc hpos => ?_, fun hc hbusy => ?_⟩
  · have hrest : s.io.count .read + s.io.count .send + s.io.count .receive = 0 := (hidle.plain hc).2
    omega
  · exfalso
    obtain ⟨hdial, hrest⟩ := hidle.plain hc
    have hdial : s.io.count .dial = 0 := hdial
    have hrest : s.io.count .read + s.io.count .send + s.io.count .receive = 0 := hrest
    rcases hbusy with h | h | h | h | ⟨a, h⟩
    · omega
    · omega
    · omega
    · exact h hidle.asked
    · have hdecision : s.io.count (.decision a) = 0 := hidle.decision a
      omega

/-- The client is read, with a fresh parser. -/
theorem of_reading (htruthful : TruthfulIf E L s.log) (hidle : Idle b new s.flow)
    (hfresh : s.isConnect = false → s.parser.responseParser = .reset responseOps) :
    Parsing E s.readClient.io.count s.readClient := by
  refine ⟨htruthful, fun hc _ => hfresh hc, fun hc hbusy => ?_⟩
  refine (of_idle htruthful hidle).follows hc ?_
  simpa [Busy, Session.readClient, Session.start, Op.weight, Op.kind] using hbusy

theorem keep (h : Parsing E s.io.count s) (hq : Quietly s t) (hu : Untouched s t) : Parsing E t.io.count t where
  truthful := h.truthful.grow hu.log
  fresh hc hpos := by
    rw [hu.parser]
    exact h.fresh (hu.tunnel ▸ hc) (hu.read ▸ hpos)
  follows hc hbusy := by
    rw [hu.parser, receivedFor_grows hu.log]
    refine h.follows (hu.tunnel ▸ hc) ?_
    have hdial := hq.count .dial (by simp)
    have hsend := hq.count .send (by simp)
    have hreceive := hq.count .receive (by simp)
    have hdecision (a : InterceptAction) := hq.count (.decision a) (by simp)
    simp only [flow] at hdial hsend hreceive hdecision
    have hasked : t.asked = s.asked := hq.asked
    simpa only [Busy, hdial, hsend, hreceive, hdecision, hasked] using hbusy

theorem drop (h : Parsing E (fun k => s.io.count k + op.weight k) s) : Parsing E s.io.count s where
  truthful := h.truthful
  fresh hc hpos := h.fresh hc (Nat.add_pos_left hpos _)
  follows hc hbusy := by
    refine h.follows hc ?_
    rcases hbusy with hb | hb | hb | hb | ⟨a, hb⟩
    · exact Or.inl (Nat.add_pos_left hb _)
    · exact Or.inr (Or.inl (Nat.add_pos_left hb _))
    · exact Or.inr (Or.inr (Or.inl (Nat.add_pos_left hb _)))
    · exact Or.inr (Or.inr (Or.inr (Or.inl hb)))
    · exact Or.inr (Or.inr (Or.inr (Or.inr ⟨a, Nat.add_pos_left hb _⟩)))

/-- A handler that carries the request on. -/
theorem carried (h : Parsing E (fun k => s.io.count k + op.weight k) s)
    (hop : op.kind = .dial ∨ op.kind = .send ∨ op.kind = .receive ∨ ∃ a, op.kind = .decision a)
    (hc : s.isConnect = false) : s.parser.responseParser.Tracks responseOps E (receivedFor s.log) := by
  refine h.follows hc ?_
  rcases hop with hop | hop | hop | ⟨a, hop⟩
  · exact Or.inl (by simp [Op.weight, hop])
  · exact Or.inr (Or.inl (by simp [Op.weight, hop]))
  · exact Or.inr (Or.inr (Or.inl (by simp [Op.weight, hop])))
  · exact Or.inr (Or.inr (Or.inr (Or.inr ⟨a, by simp [Op.weight, hop]⟩)))

/-- The same, if it leaves the parser alone. -/
theorem carry (h : Parsing E (fun k => s.io.count k + op.weight k) s)
    (hop : op.kind = .dial ∨ op.kind = .send ∨ op.kind = .receive ∨ ∃ a, op.kind = .decision a)
    (hu : Untouched s t) (hread : s.isConnect = false → s.io.count .read = 0) : Parsing E t.io.count t := by
  have htruthful := h.truthful.grow hu.log
  cases hc : s.isConnect with
  | true => exact of_tunnel htruthful (hu.tunnel.trans hc)
  | false =>
    have hfollows := h.carried hop hc
    rw [← receivedFor_grows hu.log, ← hu.parser] at hfollows
    exact of_follows htruthful hfollows (hu.read.trans (hread hc))

end Parsing

theorem idle_read (h : Idle b new s.flow) (hc : s.isConnect = false) : s.io.count .read = 0 := by
  have hrest : s.io.count .read + s.io.count .send + s.io.count .receive = 0 := (h.plain hc).2
  omega

theorem handleConnected_parsing (h : Parsing E (fun k => s.io.count k + Op.weight .connect k) s)
    (hs : SoundAfter b new .connect s.flow) (env : Env) (o : Outcome) :
    Parsing E (s.handleConnected env o).io.count (s.handleConnected env o) := by
  have hread (hc : s.isConnect = false) : s.io.count .read = 0 := by
    rcases hs.dialed rfl with ⟨hidle, -⟩ | ⟨r, hcleared⟩
    · exact idle_read hidle hc
    · exact idle_read hcleared.idle hc
  unfold Session.handleConnected
  split
  · exact h.carry (Or.inl rfl) (Untouched.answers.answer s _ _) hread
  · split
    · rename_i hc
      have hu := Untouched.writeClient s .generated established
      exact .of_tunnel (h.truthful.grow hu.log) (hu.tunnel.trans hc)
    · exact h.carry (Or.inl rfl) (Untouched.dials.writeUpstream s env) hread

/-- A request is taken with a fresh parser. -/
theorem handleRequest_parsing (htruthful : TruthfulIf E L s.log) (hidle : Idle b new s.flow)
    (hc : s.isConnect = false) (hfresh : s.parser.responseParser = .reset responseOps) {env : Env}
    {req : HttpRequest} (hok : s.handleRequest env req = .ok t) : Parsing E t.io.count t := by
  let v : Session L := ({ s with currentTransaction := { s.currentTransaction with
    id := env.nextId, request := some env.newRef } } : Session L).emit (.took env.newRef req)
  have hv : TruthfulIf E L v.log := htruthful.snoc (by simp)
  have hfollows : v.parser.responseParser.Tracks responseOps E (receivedFor v.log) := by
    have hnone : receivedFor v.log = [] := receivedFor_snoc _ _
    have hsame : v.parser.responseParser = .reset responseOps := hfresh
    rw [hnone, hsame]
    exact .reset
  have hread : v.io.count .read = 0 := idle_read (s := s) hidle hc
  -- none of the routes touches the parser of the response
  have hcarry (w : Session L) (hu : Untouched v w) : Parsing E w.io.count w := by
    rw [← receivedFor_grows hu.log, ← hu.parser] at hfollows
    exact .of_follows (hv.grow hu.log) hfollows (hu.read.trans hread)
  unfold Session.handleRequest at hok
  dsimp only at hok
  split at hok
  · obtain ⟨target, -, rfl⟩ := ok_of_map hok
    let w : Session L := ({ v with currentTransaction := { v.currentTransaction with
      host := target.host, port := target.portNumber, isHttps := true } } : Session L).respond .generated
        { version := str "HTTP/1.1", statusCode := 200, statusText := str "Connection Established" }
    have hw : Untouched v w := ⟨rfl, rfl, .snoc _ trivial, rfl⟩
    unfold Session.handleConnect
    dsimp only
    split
    · have hspawned : Untouched w (({ w.cancelTimer with clientOpen := false } : Session L).emit
          (.spawned target.host (UInt16.ofInt target.portNumber))) :=
        (Untouched.closes.cancelTimer w).trans ⟨rfl, rfl, .snoc _ trivial, rfl⟩
      exact hcarry _ (hw.trans hspawned)
    · exact .of_tunnel (hv.grow hw.log) rfl
  · obtain ⟨route, -, rfl⟩ := ok_of_map hok
    cases route with
    | badRequest => exact hcarry _ (Untouched.answers.answer v _ _)
    | caCert => exact hcarry _ (Untouched.answers.serveCaCert v env)
    | helpPage => exact hcarry _ (Untouched.answers.answer v _ _)
    | upstream host port k => exact hcarry _ (Untouched.handleUpstreamRoute v env host port k)

theorem handleClientRead_parsing (h : Parsing E (fun k => s.io.count k + Op.weight .clientRead k) s)
    (hidle : Idle b new s.flow) {env : Env} {o : Outcome} (hok : s.handleClientRead env o = .ok t) :
    Parsing E t.io.count t := by
  have hclosed : Parsing E s.close.io.count s.close :=
    (Parsing.drop h).keep (Quietly.closes.close s) (.aside (Aside.closes.close s))
  cases o with
  | bytes data =>
    have hfresh (hc : s.isConnect = false) : s.parser.responseParser = .reset responseOps :=
      h.fresh hc (Nat.lt_add_left _ Nat.one_pos)
    have hu : Untouched s (s.resetTimer.emit (.read data)) :=
      (Untouched.aside (Aside.resetTimer s)).trans (.emit _ trivial)
    have hidle : Idle b new (s.resetTimer.emit (.read data)).flow :=
      ((Quietly.resetTimer s).trans (Quietly.emit _ rfl)).idle hidle
    have htruthful := h.truthful.grow hu.log
    rw [← hu.parser, ← hu.tunnel] at hfresh
    unfold Session.handleClientRead at hok
    dsimp only at hok
    generalize s.resetTimer.emit (.read data) = v at hok hidle htruthful hfresh
    split at hok
    · rename_i hc
      cases hok
      have hpushed := Untouched.aside (Aside.writeServerBlind v data)
      exact .of_tunnel (htruthful.grow hpushed.log) (hpushed.tunnel.trans hc)
    · rename_i hc
      have hc : v.isConnect = false := Bool.eq_false_iff.mpr hc
      -- feeding a request leaves the other parser alone
      have hfed : (v.parser.feedRequest data).1.responseParser = .reset responseOps := hfresh hc
      split at hok
      · split at hok
        · rename_i req parser htake
          have hparser : parser.responseParser = .reset responseOps :=
            (HttpParser.takeRequest_response htake).trans hfed
          exact handleRequest_parsing (s := { v with clientData := v.clientData ++ data, parser := parser })
            htruthful hidle hc hparser hok
        · rename_i parser htake
          cases hok
          have hparser : parser.responseParser = .reset responseOps :=
            (HttpParser.takeRequest_response htake).trans hfed
          exact Parsing.of_reading (s := { v with clientData := v.clientData ++ data, parser := parser })
            htruthful hidle fun _ => hparser
      · split at hok
        · cases hok
          exact Parsing.of_reading (s := { v with
            clientData := v.clientData ++ data, parser := (v.parser.feedRequest data).1 })
              htruthful hidle fun _ => hfed
        · cases hok
          let w : Session L := { v with
            clientData := v.clientData ++ data, parser := (v.parser.feedRequest data).1 }
          have hw : Idle b new w.flow := hidle
          exact .of_idle (htruthful.grow (Untouched.answers.answer w _ _).log)
            ((Quietly.answers.sendErrorResponse w _ _).idle hw)
  | ok => cases hok; exact hclosed
  | eof => cases hok; exact hclosed
  | truncated => cases hok; exact hclosed
  | aborted => cases hok; exact hclosed
  | failed => cases hok; exact hclosed

/-- The complete response is reported, and then the parser is fresh again. -/
theorem finishExchange_parsing (htruthful : TruthfulIf E L s.log) (hidle : Idle b new s.flow)
    (hc : s.isConnect = false) {p : MessageParser L HttpResponse}
    (hp : p.Tracks responseOps E (receivedFor s.log)) (hcomplete : p.collector.messageComplete = true)
    (env : Env) :
    Parsing E (s.finishExchange env p.collector.message).io.count
      (s.finishExchange env p.collector.message) := by
  have hreported : TruthfulIf E L (s.respond .relayed p.collector.message).log :=
    htruthful.report hp hcomplete rfl
  have hidle := (Quietly.respond s .relayed p.collector.message).idle hidle
  have hplain := hidle.plain hc
  unfold Session.finishExchange
  dsimp only
  generalize s.respond .relayed p.collector.message = v at hreported hidle hplain
  split
  · let w : Session L := { v with
      parser := v.parser.reset, clientData := [], serverData := [], currentTransaction := {}
      isConnect := false }
    have hw : Idle b new w.flow :=
      ⟨hidle.since, hidle.proper, hidle.asked, hidle.decision, fun _ => hplain⟩
    exact Parsing.of_reading (s := w) hreported hw fun _ => rfl
  · let w : Session L := { v with closeAfterWrite := true }
    have hw : Idle b new w.flow := hidle
    split
    · exact .of_idle (hreported.grow (neutral_of_aside (Aside.closes.close w).log)) ((Quietly.closes.close w).idle hw)
    · exact .of_idle hreported hw

/-- A chunk of the upstream is fed to the parser that follows it. -/
theorem received_parsing (htruthful : TruthfulIf E L s.log) (hidle : Idle b new s.flow)
    (hc : s.isConnect = false) {data : Bytes} {received : List Bytes}
    (hreceived : receivedFor s.log = received ++ [data])
    (hfollows : s.parser.responseParser.Tracks responseOps E received)
    (hends : E → s.parser.responseParser.EndsLast data) (env : Env)
    (ht : (let (parser, ready) := s.parser.feedResponse data
      if ready then
        match parser.takeResponse with
        | (some res, parser) => finishExchange { s with parser := parser } env res
        | (none, parser) => readUpstream { s with parser := parser }
      else readUpstream { s with parser := parser }) = t) : Parsing E t.io.count t := by
  have hfed : (s.parser.feedResponse data).1.responseParser.Tracks responseOps E (received ++ [data]) :=
    hfollows.feed hends
  rw [← hreceived] at hfed
  have hread : s.io.count .read = 0 := idle_read hidle hc
  have hcontinue (parser : HttpParser L) (hp : parser.responseParser.Tracks responseOps E (receivedFor s.log)) :
      Parsing E (readUpstream { s with parser := parser }).io.count (readUpstream { s with parser := parser }) := by
    refine .of_follows htruthful hp ?_
    simp [readUpstream, Session.start, Op.weight, Op.kind, hread]
  dsimp only at ht
  split at ht
  · rename_i hready
    have hcomplete := HttpParser.feedResponse_complete hready
    split at ht
    · rename_i res parser htake
      obtain ⟨-, rfl⟩ := HttpParser.takeResponse_some htake
      subst ht
      exact finishExchange_parsing (s := { s with parser := parser }) htruthful hidle hc hfed hcomplete env
    · rename_i parser htake
      rw [HttpParser.takeResponse_none htake] at ht
      subst ht
      exact hcontinue _ hfed
  · subst ht
    exact hcontinue _ hfed

theorem handleUpstreamRead_parsing (h : Parsing E (fun k => s.io.count k + Op.weight .upstreamRead k) s)
    (hidle : Idle b new s.flow) (hdata : s.serverData = []) (env : Env) {o : Outcome}
    (hends : E → ∀ data, o = .bytes data → s.isConnect = false → s.parser.responseParser.EndsLast data)
    (ht : s.handleUpstreamRead env o = t) : Parsing E t.io.count t := by
  have hclosed : Parsing E s.close.io.count s.close :=
    (Parsing.drop h).keep (Quietly.closes.close s) (.aside (Aside.closes.close s))
  cases o with
  | bytes data =>
    let u : Session L := s.resetTimer.emit (.received data)
    have hwrite := Untouched.writeClient u .relayed data
    have hu : TruthfulIf E L u.log := (h.truthful.grow (.refl _)).snoc (by simp)
    have hv := hu.grow hwrite.log
    have hidle : Idle b new (u.writeClient .relayed data).flow :=
      (((Quietly.resetTimer s).trans (Quietly.emit _ rfl)).trans (Quietly.writeClient _ _ _)).idle hidle
    have hreceived : receivedFor (u.writeClient .relayed data).log = receivedFor s.log ++ [data] :=
      (receivedFor_grows hwrite.log).trans (receivedFor_snoc _ _)
    have htunnel : (u.writeClient .relayed data).isConnect = s.isConnect := hwrite.tunnel
    have hparser : (u.writeClient .relayed data).parser.responseParser = s.parser.responseParser :=
      hwrite.parser
    unfold Session.handleUpstreamRead at ht
    dsimp only at ht
    split at ht
    · rename_i hc
      subst ht
      exact .of_tunnel hv hc
    · rename_i hc
      have hc : s.isConnect = false := htunnel ▸ Bool.eq_false_iff.mpr hc
      have hfollows := h.carried (Or.inr (Or.inr (Or.inl rfl))) hc
      have hends (hE : E) := hends hE data rfl hc
      rw [← hparser] at hfollows hends
      exact received_parsing hv hidle (htunnel.trans hc) hreceived hfollows hends env ht
  | eof =>
    unfold Session.handleUpstreamRead at ht
    dsimp only at ht
    -- nothing was kept, so nothing is fed at the end
    rw [if_neg (by simp [hdata])] at ht
    exact ht ▸ hclosed
  | ok => exact ht ▸ hclosed
  | truncated => exact ht ▸ hclosed
  | aborted => exact ht ▸ hclosed
  | failed => exact ht ▸ hclosed

theorem handle_parsing {env : Env} (h : Parsing E (fun k => s.io.count k + op.weight k) s)
    (hs : SoundAfter b new op s.flow) (hdrained : Drained (fun k => s.io.count k + op.weight k) s)
    {o : Outcome} (hends : E → ∀ data, op = .upstreamRead → o = .bytes data → s.isConnect = false →
      s.parser.responseParser.EndsLast data)
    (hok : s.handle env op o = .ok t) : Parsing E t.io.count t := by
  have hread (hop : op.kind = .send ∨ op.kind = .dial ∨ ∃ a, op = .decision a) (hc : s.isConnect = false) :
      s.io.count .read = 0 := by
    rcases hop with hop | hop | ⟨a, rfl⟩
    · exact idle_read (hs.idle (Or.inr (Or.inl hop))) hc
    · rcases hs.dialed hop with ⟨hidle, -⟩ | ⟨r, hcleared⟩
      · exact idle_read hidle hc
      · exact idle_read hcleared.idle hc
    · exact idle_read hs.decided.1 hc
  cases op with
  | timer =>
    cases hok
    exact h.drop.keep (Quietly.handleTimeout s o) (handleTimeout_of Untouched.closes.toChain
      (fun s p _ => Untouched.closes.cancel s p) (fun s => Untouched.answers.sendErrorResponse s _ _)
      (Untouched.closes.close s) o)
  | clientWrite data =>
    cases hok
    exact h.drop.keep (Quietly.handleClientWrite s o) (.aside (Aside.handleClientWrite s o))
  | serverWrite data =>
    cases hok
    exact h.drop.keep (Quietly.handleServerWrite s o) (.aside (Aside.handleServerWrite s o))
  | clientRead => exact handleClientRead_parsing h (hs.idle (Or.inl rfl)) hok
  | resolve =>
    cases hok
    exact h.carry (Or.inl rfl) (Untouched.dials.handleResolve (Untouched.closes.closeServer s) o)
      (hread (Or.inr (Or.inl rfl)))
  | connect => cases hok; exact handleConnected_parsing h hs env o
  | upstreamRead =>
    cases hok
    have hdata : s.serverData = [] := hdrained.empty (Or.inr (Or.inr (Or.inl rfl)))
    exact handleUpstreamRead_parsing h (hs.idle (Or.inr (Or.inr rfl))) hdata env
      (fun hE data ho => hends hE data rfl ho) rfl
  | upstreamWrite data =>
    cases hok
    exact h.carry (Or.inr (Or.inl rfl)) (Untouched.dials.handleUpstreamWrite s o) (hread (Or.inl rfl))
  | decision action =>
    cases hok
    exact h.carry (Or.inr (Or.inr (Or.inr ⟨action, rfl⟩))) (Untouched.dials.handleDecision
      (.aside (Aside.resetTimer s)) (Untouched.closes.closeServer _) action)
      (hread (Or.inr (Or.inr ⟨action, rfl⟩)))
  | rawWrite data => cases hok; exact h.drop
  | established => cases hok; exact h.drop
  | clientHandshake => cases hok; exact h.drop
  | upstreamHandshake => cases hok; exact h.drop

/-- The bytes that a step gives to the handler of a read from the upstream. -/
def Label.upstreamBytes (io : Io) : Label → Option Bytes
  | .dispatch k _ => match io.take k with
    | some ((.upstreamRead, .bytes data), _) => some data
    | _ => none
  | _ => none

/-- Executing what the upstream sends, llhttp reports nothing behind the end of a response. In a tunnel
nothing is executed. -/
def EndsResponse (r : Running L) (a : Label) : Prop :=
  ∀ data ∈ a.upstreamBytes r.session.io, r.session.isConnect = false →
    r.session.parser.responseParser.EndsLast data

instance (r : Running L) (a : Label) : Decidable (EndsResponse r a) :=
  Option.decidableForallMem (a.upstreamBytes r.session.io)

theorem started_parsing (hasCertCache : Bool) :
    let s : Session L := started hasCertCache
    Parsing E s.io.count s := by
  refine ⟨fun _ => Everywhere.nil, fun _ _ => rfl, fun _ hbusy => ?_⟩
  rcases hbusy with h | h | h | h | ⟨a, h⟩
  · cases h
  · cases h
  · cases h
  · exact absurd rfl h
  · cases a <;> cases h

theorem step_parsing {r r' : Running L} {a : Label} (hr : Parsing E r.session.io.count r.session)
    (hs : r.session.flow.Holds) (hdrained : Drained r.session.io.count r.session)
    (hends : E → EndsResponse r a) (hstep : step r a = some r') :
    Parsing E r'.session.io.count r'.session := by
  cases moves_of_step hstep with
  | complete ht => exact hr.keep (complete_quietly ht) (.aside (Aside.complete ht))
  | @handled k env _ _ _ ht =>
    obtain ⟨op, o, io, hio, hhandle⟩ := dispatch_spec ht
    have htaken : Parsing E (fun k => Io.count io k + op.weight k) { r.session with io := io } := by
      rw [Io.count_take hio] at hr
      exact ⟨hr.truthful, hr.fresh, hr.follows⟩
    refine handle_parsing htaken (taken_sound hs hio env.newRef) (hdrained.taken hio) ?_ hhandle
    rintro hE data rfl rfl hc
    exact hends hE data (by simp [Label.upstreamBytes, hio]) hc
  | threw => exact hr
  | @decide ref action href =>
    -- the callback was outstanding, so the session was busy
    have hasked : r.session.asked ≠ [] := List.ne_nil_of_mem href
    have hgrows : Grows Effect.neutral r.session.log (r.session.decided ref action).log :=
      .snoc _ trivial
    refine ⟨hr.truthful.grow hgrows, fun hc hpos => ?_, fun hc _ => ?_⟩
    · refine hr.fresh hc ?_
      simpa [Session.decided, Op.weight, Op.kind] using hpos
    · rw [receivedFor_grows hgrows]
      exact hr.follows hc (Or.inr (Or.inr (Or.inr (Or.inl hasked))))
  | close => exact hr.keep (Quietly.closes.close _) (.aside (Aside.closes.close _))

theorem reached_parsing_of {C : Running L → Label → Prop} (hC : E → ∀ r a, C r a → EndsResponse r a)
    {r : Running L} (h : (system L).ReachedUnder C r) : Parsing E r.session.io.count r.session := by
  refine h.invariant_of (J := fun r => r.session.flow.Holds ∧ Drained r.session.io.count r.session)
    (I := fun r => Parsing E r.session.io.count r.session)
    (fun r hr => ⟨reached_holds hr.reached, reached_drained hr.reached⟩) ?_ ?_
  · rintro _ ⟨hasCertCache, rfl⟩
    exact started_parsing hasCertCache
  · intro r a r' ⟨hs, hdrained⟩ hr ha hstep
    exact step_parsing hr hs hdrained (fun hE => hC hE r a ha) hstep

/-- In every run the parser follows the upstream. -/
theorem reached_parsing {r : Running L} (h : (system L).Reached r) :
    Parsing False r.session.io.count r.session := reached_parsing_of False.elim h

end Session

namespace MitmSession

open BurpTUI.Flow (Idle Cleared)

variable {L : Llhttp} {E : Prop} {b : Flow} {new ref : Ref} {s t u : MitmSession L} {op : Op}

/-- The response parser, the bytes it has to follow and what is outstanding are the same. -/
structure Untouched (s t : MitmSession L) : Prop where
  parser : t.upstreamParser.responseParser = s.upstreamParser.responseParser
  asked : t.asked = s.asked
  stillOpen : t.isClosed = false → s.isClosed = false
  log : Grows Effect.neutral s.log t.log
  count : ∀ k, k ≠ .other → t.io.count k = s.io.count k

namespace Untouched

theorem trans (h : Untouched s t) (h' : Untouched t u) : Untouched s u where
  parser := h'.parser.trans h.parser
  asked := h'.asked.trans h.asked
  stillOpen hu := h.stillOpen (h'.stillOpen hu)
  log := h.log.trans h'.log
  count k hk := (h'.count k hk).trans (h.count k hk)

theorem aside (h : Aside s t) : Untouched s t where
  parser := by rw [h.parser]
  asked := h.asked
  stillOpen := h.stillOpen
  log := neutral_of_aside h.log
  count := h.count

theorem emit (s : MitmSession L) {e : Effect} (he : e.neutral) : Untouched s (s.emit e) :=
  ⟨rfl, rfl, id, .snoc _ he, fun _ _ => rfl⟩

theorem answers : AllowsAnswer (Untouched (L := L)) where
  refl s := aside (Aside.refl s)
  trans := trans
  send s data := aside (Aside.writes.send s data)
  respond _ _ := ⟨rfl, rfl, id, .snoc _ trivial, fun _ _ => rfl⟩
  queue _ _ := ⟨rfl, rfl, id, .snoc _ trivial, fun _ _ => rfl⟩
  raw s _ := (emit s (e := .answered _) trivial).trans (aside (Aside.start _ rfl))

theorem writeClient (s : MitmSession L) (origin : Origin) (data : Bytes) :
    Untouched s (s.writeClient origin data) :=
  answers.writeClient fun _ => ⟨rfl, rfl, id, .snoc _ trivial, fun _ _ => rfl⟩

end Untouched

/-- A request is awaited, or will be when the connections are set up. -/
def Awaiting (n : OpKind → ℕ) : Prop :=
  0 < n .read + n .dial + n .clientHandshake + n .upstreamHandshake

/-- A request is under way, and `n` is outstanding. -/
def Busy (n : OpKind → ℕ) (s : MitmSession L) : Prop :=
  0 < n .send ∨ 0 < n .receive ∨ s.asked ≠ [] ∨ ∃ a, 0 < n (.decision a)

/-- The response parser of an open session is fresh when a request is awaited, and then follows the
upstream. -/
structure Parsing (E : Prop) (n : OpKind → ℕ) (s : MitmSession L) : Prop where
  truthful : TruthfulIf E L s.log
  fresh : s.isClosed = false → Awaiting n → s.upstreamParser.responseParser = .reset responseOps
  follows : s.isClosed = false → Busy n s →
    s.upstreamParser.responseParser.Tracks responseOps E (receivedFor s.log)

namespace Parsing

theorem of_closed {n : OpKind → ℕ} (htruthful : TruthfulIf E L s.log) (hclosed : s.isClosed = true) :
    Parsing E n s := by
  refine ⟨htruthful, fun hopen => ?_, fun hopen => ?_⟩
  · rw [hclosed] at hopen
    cases hopen
  · rw [hclosed] at hopen
    cases hopen

theorem close (h : TruthfulIf E L s.log) : Parsing E s.close.io.count s.close :=
  of_closed (h.grow (neutral_of_aside (Aside.closes.close s).log)) (close_closed s)

theorem keep (h : Parsing E s.io.count s) (hu : Untouched s t) : Parsing E t.io.count t where
  truthful := h.truthful.grow hu.log
  fresh hopen hawaiting := by
    rw [hu.parser]
    refine h.fresh (hu.stillOpen hopen) ?_
    rwa [Awaiting, hu.count .read (by simp), hu.count .dial (by simp), hu.count .clientHandshake (by simp),
      hu.count .upstreamHandshake (by simp)] at hawaiting
  follows hopen hbusy := by
    rw [hu.parser, receivedFor_grows hu.log]
    refine h.follows (hu.stillOpen hopen) ?_
    simpa only [Busy, hu.count .send (by simp), hu.count .receive (by simp), hu.asked,
      fun a => hu.count (.decision a) (by simp)] using hbusy

theorem drop (h : Parsing E (fun k => s.io.count k + op.weight k) s) : Parsing E s.io.count s where
  truthful := h.truthful
  fresh hopen hawaiting := by
    refine h.fresh hopen ?_
    unfold Awaiting at hawaiting ⊢
    dsimp only
    omega
  follows hopen hbusy := by
    refine h.follows hopen ?_
    rcases hbusy with hb | hb | hb | ⟨a, hb⟩
    · exact Or.inl (Nat.add_pos_left hb _)
    · exact Or.inr (Or.inl (Nat.add_pos_left hb _))
    · exact Or.inr (Or.inr (Or.inl hb))
    · exact Or.inr (Or.inr (Or.inr ⟨a, Nat.add_pos_left hb _⟩))

/-- A request is awaited. -/
theorem of_fresh {n : OpKind → ℕ} (htruthful : TruthfulIf E L s.log)
    (hfresh : s.upstreamParser.responseParser = .reset responseOps) (hidle : ¬ Busy n s) : Parsing E n s :=
  ⟨htruthful, fun _ _ => hfresh, fun _ hbusy => absurd hbusy hidle⟩

/-- A request is under way. -/
theorem of_follows {n : OpKind → ℕ} (htruthful : TruthfulIf E L s.log)
    (hfollows : s.upstreamParser.responseParser.Tracks responseOps E (receivedFor s.log))
    (hnone : ¬ Awaiting n) : Parsing E n s :=
  ⟨htruthful, fun _ hawaiting => absurd hawaiting hnone, fun _ _ => hfollows⟩

end Parsing

theorem Ready.not_awaiting (h : Ready b new s) : ¬ Awaiting s.io.count := by
  have hrest : s.io.count .read + s.io.count .send + s.io.count .receive = 0 := (h.idle.plain rfl).2
  have hdial := h.dial
  have hclient := h.clientHandshake
  have hupstream := h.upstreamHandshake
  unfold Awaiting
  omega

theorem Ready.not_busy (h : Ready b new s) : ¬ Busy s.io.count s := by
  have hrest : s.io.count .read + s.io.count .send + s.io.count .receive = 0 := (h.idle.plain rfl).2
  rintro (hbusy | hbusy | hbusy | ⟨a, hbusy⟩)
  · omega
  · omega
  · exact hbusy h.idle.asked
  · have hdecision : s.io.count (.decision a) = 0 := h.idle.decision a
    omega

/-- Before both handshakes are done no request is under way. -/
theorem Setup.not_busy {n : OpKind → ℕ} (h : Setup n s)
    (hearly : s.clientHandshakeDone = false ∨ s.upstreamHandshakeDone = false) : ¬ Busy n s := by
  obtain ⟨hasked, hdecision, hrest⟩ := h.early hearly
  rintro (hbusy | hbusy | hbusy | ⟨a, hbusy⟩)
  · omega
  · omega
  · exact hbusy hasked
  · have hnone := hdecision a
    omega

/-- A request is under way in `t` only if one was in `s`. -/
theorem Busy.mono {n n' : OpKind → ℕ} (h : Busy n' t) (hasked : t.asked = s.asked)
    (hcount : ∀ k, k = .send ∨ k = .receive ∨ (∃ a, k = .decision a) → n' k ≤ n k) : Busy n s := by
  rcases h with h | h | h | ⟨a, h⟩
  · exact Or.inl (h.trans_le (hcount _ (Or.inl rfl)))
  · exact Or.inr (Or.inl (h.trans_le (hcount _ (Or.inr (Or.inl rfl)))))
  · exact Or.inr (Or.inr (Or.inl (hasked ▸ h)))
  · exact Or.inr (Or.inr (Or.inr ⟨a, h.trans_le (hcount _ (Or.inr (Or.inr ⟨a, rfl⟩)))⟩))

theorem Busy.of_start (h : Busy (s.start op).io.count (s.start op))
    (hop : op.kind ≠ .send ∧ op.kind ≠ .receive ∧ ∀ a, op.kind ≠ .decision a) : Busy s.io.count s := by
  refine h.mono rfl fun k hk => ?_
  have hweight : op.weight k = 0 := by
    rcases hk with rfl | rfl | ⟨a, rfl⟩
    · exact if_neg hop.1
    · exact if_neg hop.2.1
    · exact if_neg (hop.2.2 a)
  rw [MitmSession.start, Io.count_start, hweight]
  exact Nat.le_refl _

/-- While the connections are set up, a request is awaited and none is under way. -/
theorem InvAfter.early (hs : InvAfter b new op s)
    (hop : op.kind = .dial ∨ op.kind = .clientHandshake ∨ op.kind = .upstreamHandshake) :
    Awaiting (fun k => s.io.count k + op.weight k) ∧ ¬ Busy s.io.count s := by
  have hclient := hs.setup.client
  have hupstream := hs.setup.upstream
  have hone : Awaiting (fun k => s.io.count k + op.weight k) ∧
      (s.clientHandshakeDone = false ∨ s.upstreamHandshakeDone = false) := by
    unfold Awaiting
    rcases hop with hop | hop | hop
    · have hweight : op.weight .dial = 1 := if_pos hop
      refine ⟨by dsimp only; omega, Or.inl ?_⟩
      cases hc : s.clientHandshakeDone
      · rfl
      · rw [hc, Bool.toNat_true] at hclient
        omega
    · have hweight : op.weight .clientHandshake = 1 := if_pos hop
      refine ⟨by dsimp only; omega, Or.inl ?_⟩
      cases hc : s.clientHandshakeDone
      · rfl
      · rw [hc, Bool.toNat_true] at hclient
        omega
    · have hweight : op.weight .upstreamHandshake = 1 := if_pos hop
      refine ⟨by dsimp only; omega, Or.inr ?_⟩
      cases hc : s.upstreamHandshakeDone
      · rfl
      · rw [hc, Bool.toNat_true] at hupstream
        omega
  refine ⟨hone.1, fun hbusy => ?_⟩
  exact hs.setup.not_busy hone.2 (hbusy.mono rfl fun k _ => Nat.le_add_right _ _)

/-- While the connections are set up the parser is fresh. -/
theorem Parsing.setup (h : Parsing E (fun k => s.io.count k + op.weight k) s) (hs : InvAfter b new op s)
    (hop : op.kind = .dial ∨ op.kind = .clientHandshake ∨ op.kind = .upstreamHandshake)
    (hopen : s.isClosed = false) :
    s.upstreamParser.responseParser = .reset responseOps ∧ ¬ Busy s.io.count s :=
  ⟨h.fresh hopen (hs.early hop).1, (hs.early hop).2⟩

theorem Parsing.readClient (htruthful : TruthfulIf E L s.log)
    (hfresh : s.upstreamParser.responseParser = .reset responseOps) (hidle : ¬ Busy s.io.count s) :
    Parsing E s.readClient.io.count s.readClient := by
  unfold MitmSession.readClient
  split
  · exact of_fresh htruthful hfresh hidle
  · exact of_fresh htruthful hfresh fun hbusy => hidle (hbusy.of_start (by simp [Op.kind]))

theorem handleResolve_parsing (h : Parsing E (fun k => s.io.count k + Op.weight .resolve k) s)
    (hs : InvAfter b new .resolve s) (o : Outcome) :
    Parsing E (s.handleResolve o).io.count (s.handleResolve o) := by
  unfold MitmSession.handleResolve
  split
  · exact h.drop
  · rename_i hopen
    obtain ⟨hfresh, hidle⟩ := h.setup hs (Or.inl rfl) (Bool.eq_false_iff.mpr hopen)
    split
    · exact h.drop.keep (Untouched.answers.sendErrorResponse _ _ _)
    · exact .of_fresh h.truthful hfresh fun hbusy => hidle (hbusy.of_start (by simp [Op.kind]))

theorem handleConnected_parsing (h : Parsing E (fun k => s.io.count k + Op.weight .connect k) s)
    (hs : InvAfter b new .connect s) (o : Outcome) :
    Parsing E (s.handleConnected o).io.count (s.handleConnected o) := by
  unfold MitmSession.handleConnected
  split
  · exact h.drop
  · rename_i hopen
    have hopen : s.isClosed = false := Bool.eq_false_iff.mpr hopen
    obtain ⟨hfresh, hidle⟩ := h.setup hs (Or.inl rfl) hopen
    split
    · exact h.drop.keep (Untouched.answers.sendErrorResponse _ _ _)
    · unfold sendEstablishedResponse
      rw [if_neg (by simp [hopen])]
      have hanswered := Untouched.emit s (e := .answered Session.established) trivial
      refine .of_fresh (h.truthful.grow hanswered.log) hfresh fun hbusy => hidle ?_
      exact hbusy.of_start (s := s.emit (.answered Session.established)) (by simp [Op.kind])

theorem handleEstablished_parsing (h : Parsing E (fun k => s.io.count k + Op.weight .established k) s)
    (hs : InvAfter b new .established s) (env : Env) (o : Outcome) :
    Parsing E (s.handleEstablished env o).io.count (s.handleEstablished env o) := by
  unfold MitmSession.handleEstablished
  split
  · exact h.drop
  · rename_i hopen
    have hopen : s.isClosed = false := Bool.eq_false_iff.mpr hopen
    obtain ⟨hfresh, hidle⟩ := h.setup hs (Or.inl rfl) hopen
    split
    · exact .close h.truthful
    · unfold startTlsHandshakes
      split
      · exact h.drop
      · split
        · exact .close h.truthful
        · refine .of_fresh h.truthful hfresh fun hbusy => hidle ?_
          exact (hbusy.of_start (by simp [Op.kind])).of_start (by simp [Op.kind])

theorem handleClientHandshake_parsing (h : Parsing E (fun k => s.io.count k + Op.weight .clientHandshake k) s)
    (hs : InvAfter b new .clientHandshake s) (o : Outcome) :
    Parsing E (s.handleClientHandshake o).io.count (s.handleClientHandshake o) := by
  unfold MitmSession.handleClientHandshake
  split
  · exact h.drop
  · rename_i hopen
    have hopen : s.isClosed = false := Bool.eq_false_iff.mpr hopen
    obtain ⟨hfresh, hidle⟩ := h.setup hs (Or.inr (Or.inl rfl)) hopen
    split
    · exact .close h.truthful
    · dsimp only
      split
      · unfold onBothHandshakesComplete
        rw [if_neg (by simp [hopen])]
        exact .readClient h.truthful hfresh hidle
      · exact .of_fresh h.truthful hfresh hidle

theorem handleUpstreamHandshake_parsing
    (h : Parsing E (fun k => s.io.count k + Op.weight .upstreamHandshake k) s)
    (hs : InvAfter b new .upstreamHandshake s) (o : Outcome) :
    Parsing E (s.handleUpstreamHandshake o).io.count (s.handleUpstreamHandshake o) := by
  unfold MitmSession.handleUpstreamHandshake
  split
  · exact h.drop
  · rename_i hopen
    have hopen : s.isClosed = false := Bool.eq_false_iff.mpr hopen
    obtain ⟨hfresh, hidle⟩ := h.setup hs (Or.inr (Or.inr rfl)) hopen
    split
    · exact .close h.truthful
    · dsimp only
      split
      · unfold onBothHandshakesComplete
        rw [if_neg (by simp [hopen])]
        exact .readClient h.truthful hfresh hidle
      · exact .of_fresh h.truthful hfresh hidle

/-- `t` goes on from `s` with a request under way. -/
structure Goes (s t : MitmSession L) : Prop where
  parser : t.upstreamParser.responseParser = s.upstreamParser.responseParser
  log : Grows Effect.neutral s.log t.log
  awaiting : Awaiting t.io.count → Awaiting s.io.count

namespace Goes

theorem refl (s : MitmSession L) : Goes s s := ⟨rfl, .refl _, id⟩

theorem trans (h : Goes s t) (h' : Goes t u) : Goes s u where
  parser := h'.parser.trans h.parser
  log := h.log.trans h'.log
  awaiting hu := h.awaiting (h'.awaiting hu)

theorem untouched (h : Untouched s t) : Goes s t := by
  refine ⟨h.parser, h.log, fun hawaiting => ?_⟩
  rwa [Awaiting, h.count .read (by simp), h.count .dial (by simp), h.count .clientHandshake (by simp),
    h.count .upstreamHandshake (by simp)] at hawaiting

theorem emit (s : MitmSession L) {e : Effect} (he : e.neutral) : Goes s (s.emit e) := ⟨rfl, .snoc _ he, id⟩

theorem start (s : MitmSession L) (hop : op.kind = .send ∨ op.kind = .receive) : Goes s (s.start op) := by
  refine ⟨rfl, .refl _, fun hawaiting => ?_⟩
  rcases hop with hop | hop <;> simpa [Awaiting, MitmSession.start, Op.weight, hop] using hawaiting

theorem forwards : AllowsForward (Goes (L := L)) where
  refl := refl
  trans := trans
  push _ _ _ := ⟨rfl, .snoc _ trivial, id⟩
  send s ref data :=
    ((emit s (e := .handed ref data) trivial).trans (emit _ (e := .sent .upstream data) trivial)).trans
      (start _ (.inl rfl))

theorem readUpstream (s : MitmSession L) : Goes s s.readUpstream :=
  startOpen_of forwards.toChain (start s (.inr rfl))

/-- The parser follows the upstream as before. -/
theorem parsing (h : Goes s t) (htruthful : TruthfulIf E L s.log)
    (hfollows : s.upstreamParser.responseParser.Tracks responseOps E (receivedFor s.log))
    (hnone : ¬ Awaiting s.io.count) : Parsing E t.io.count t := by
  refine .of_follows (htruthful.grow h.log) ?_ fun hawaiting => hnone (h.awaiting hawaiting)
  rwa [h.parser, receivedFor_grows h.log]

end Goes

/-- A request is taken with a fresh parser. -/
theorem handleRequest_parsing (htruthful : TruthfulIf E L s.log) (hready : Ready b new s)
    (hfresh : s.upstreamParser.responseParser = .reset responseOps) (env : Env) (req : HttpRequest) :
    Parsing E (s.handleRequest env req).io.count (s.handleRequest env req) := by
  let v : MitmSession L := ({ s with currentTransaction := { s.currentTransaction with
    id := env.nextId, host := s.targetHost, port := s.targetPort.toNat, isHttps := true
    request := some env.newRef } } : MitmSession L).emit (.took env.newRef req)
  have hv : TruthfulIf E L v.log := htruthful.snoc (by simp)
  have hfollows : v.upstreamParser.responseParser.Tracks responseOps E (receivedFor v.log) := by
    have hnone : receivedFor v.log = [] := receivedFor_snoc _ _
    have hsame : v.upstreamParser.responseParser = .reset responseOps := hfresh
    rw [hnone, hsame]
    exact .reset
  have hnone : ¬ Awaiting v.io.count := hready.not_awaiting
  have htested : Goes v (v.emit (.tested env.newRef env.interceptEnabled)) := .emit v trivial
  unfold MitmSession.handleRequest
  dsimp only
  split
  · have htimer := htested.trans (.untouched (.aside (Aside.closes.cancelTimer _)))
    have hasked (item : InterceptedRequest Ref) (w : MitmSession L) : Goes w (w.intercept item) :=
      ⟨rfl, .snoc _ trivial, id⟩
    exact (htimer.trans (hasked _ _)).parsing hv hfollows hnone
  · exact (htested.trans (Goes.forwards.writeUpstream _ _ _)).parsing hv hfollows hnone

theorem handleClientRead_parsing (h : Parsing E (fun k => s.io.count k + Op.weight .clientRead k) s)
    (hs : InvAfter b new .clientRead s) (env : Env) (o : Outcome) :
    Parsing E (s.handleClientRead env o).io.count (s.handleClientRead env o) := by
  unfold MitmSession.handleClientRead
  split
  · exact h.drop
  · rename_i hopen
    split
    · rename_i data
      have hawaiting : Awaiting (fun k => s.io.count k + Op.clientRead.weight k) := by
        have hweight : Op.clientRead.weight .read = 1 := rfl
        unfold Awaiting
        dsimp only
        omega
      have hfresh := h.fresh (Bool.eq_false_iff.mpr hopen) hawaiting
      have hu : Untouched s (s.resetTimer.emit (.read data)) :=
        (Untouched.aside (Aside.resetTimer s)).trans (.emit _ trivial)
      have hready : Ready b new (s.resetTimer.emit (.read data)) :=
        ((Calmly.resetTimer s).trans (Calmly.emit _ rfl)).ready (hs.ready_read (Or.inl rfl))
      have htruthful := h.truthful.grow hu.log
      rw [← hu.parser] at hfresh
      dsimp only
      generalize s.resetTimer.emit (.read data) = v at hready htruthful hfresh
      have hfields (parser : HttpParser L) : Ready b new { v with
          clientAccumulated := v.clientAccumulated ++ data, clientParser := parser } := by
        have hsame : Calmly v { v with
            clientAccumulated := v.clientAccumulated ++ data, clientParser := parser } :=
          .same rfl rfl rfl rfl rfl rfl
        exact hsame.ready hready
      have hread (parser : HttpParser L) := Parsing.readClient (s := { v with
        clientAccumulated := v.clientAccumulated ++ data, clientParser := parser }) htruthful hfresh
          (hfields parser).not_busy
      split
      · split
        · rename_i req parser _
          exact handleRequest_parsing (s := { v with
            clientAccumulated := v.clientAccumulated ++ data, clientParser := parser })
              htruthful (hfields parser) hfresh env req
        · exact hread _
      · split
        · exact hread _
        · exact .close htruthful
    · exact .close h.truthful

theorem handleDecision_goes (s : MitmSession L) (env : Env) (a : InterceptAction) :
    Goes s (s.handleDecision env a) :=
  Goes.forwards.handleDecision (.untouched (.aside (Aside.resetTimer s)))
    (.untouched (Untouched.answers.sendErrorResponse _ _ _)) env a

theorem handleDecision_parsing {a : InterceptAction}
    (h : Parsing E (fun k => s.io.count k + (Op.decision a).weight k) s)
    (hs : InvAfter b new (.decision a) s) (env : Env) :
    Parsing E (s.handleDecision env a).io.count (s.handleDecision env a) := by
  cases hclosed : s.isClosed with
  | true =>
    have hsame : s.handleDecision env a = s := if_pos hclosed
    rw [hsame]
    exact h.drop
  | false =>
    have hfollows := h.follows hclosed (Or.inr (Or.inr (Or.inr ⟨a, by simp [Op.weight, Op.kind]⟩)))
    have hnone := (hs.ready_read (Or.inr (Or.inr ⟨a, rfl⟩))).not_awaiting
    exact (handleDecision_goes s env a).parsing h.truthful hfollows hnone

theorem handleUpstreamWrite_goes (s : MitmSession L) (o : Outcome) : Goes s (s.handleUpstreamWrite o) :=
  Goes.forwards.handleUpstreamWrite (fun _ => .untouched (.aside (Aside.closes.close s))) ⟨rfl, .refl _, id⟩
    Goes.readUpstream

theorem handleUpstreamWrite_parsing {data : Bytes}
    (h : Parsing E (fun k => s.io.count k + (Op.upstreamWrite data).weight k) s)
    (hs : InvAfter b new (.upstreamWrite data) s) (o : Outcome) :
    Parsing E (s.handleUpstreamWrite o).io.count (s.handleUpstreamWrite o) := by
  cases hclosed : s.isClosed with
  | true =>
    have hsame : s.handleUpstreamWrite o = s := if_pos hclosed
    rw [hsame]
    exact h.drop
  | false =>
    have hfollows := h.follows hclosed (Or.inl (by simp [Op.weight, Op.kind]))
    have hnone : ¬ Awaiting s.io.count := (hs.ready (Or.inr (Or.inl rfl))).not_awaiting
    exact (handleUpstreamWrite_goes s o).parsing h.truthful hfollows hnone

/-- The complete response is reported, and then the parser is fresh again. -/
theorem finishExchange_parsing (htruthful : TruthfulIf E L s.log) (hready : Ready b new s)
    {p : MessageParser L HttpResponse} (hp : p.Tracks responseOps E (receivedFor s.log))
    (hcomplete : p.collector.messageComplete = true) (env : Env) :
    Parsing E (s.finishExchange env p.collector.message).io.count
      (s.finishExchange env p.collector.message) := by
  have hreported : TruthfulIf E L (s.respond .relayed p.collector.message).log :=
    htruthful.report hp hcomplete rfl
  have hready := (Calmly.respond s .relayed p.collector.message).ready hready
  unfold MitmSession.finishExchange
  dsimp only
  split
  · refine Parsing.readClient hreported rfl ?_
    exact hready.not_busy
  · split
    · exact .close hreported
    · let v : MitmSession L :=
        { s.respond .relayed p.collector.message with closeAfterWrite := true }
      have hv : ¬ Awaiting v.io.count := hready.not_awaiting
      have hidle : ¬ Busy v.io.count v := hready.not_busy
      exact ⟨hreported, fun _ h => absurd h hv, fun _ h => absurd h hidle⟩

/-- The bytes kept would make a message for the parser, which has executed them once already. -/
def refeeds (s : MitmSession L) : Bool :=
  s.currentTransaction.response.isNone && !s.upstreamAccumulated.isEmpty &&
    !s.upstreamParser.responseParser.collector.messageComplete &&
    (s.upstreamParser.feedResponse s.upstreamAccumulated).1.responseParser.collector.messageComplete

theorem reportTaken_truthful (h : TruthfulIf E L s.log)
    (hfollows : s.upstreamParser.responseParser.Tracks responseOps E (receivedFor s.log))
    (hresponse : s.currentTransaction.response = none) (hkept : s.upstreamAccumulated ≠ [])
    (hnot : E → s.refeeds = false) : TruthfulIf E L (s.reportTaken s.upstreamAccumulated).log := by
  intro hE
  unfold reportTaken
  split
  · rename_i res parser htake
    obtain ⟨hcomplete, rfl⟩ := HttpParser.takeResponse_some htake
    -- the parser had a message before
    have hbefore : s.upstreamParser.responseParser.collector.messageComplete = true := by
      simpa [refeeds, hresponse, hkept, hcomplete] using hnot hE
    have hsame : (s.upstreamParser.feedResponse s.upstreamAccumulated).1.responseParser =
        s.upstreamParser.responseParser := by
      unfold HttpParser.feedResponse MessageParser.feed
      rw [if_pos hbefore]
    refine h.report hfollows hbefore ?_ hE
    rw [hsame]
  · exact h hE

/-- A chunk of the upstream is fed to the parser that follows it. -/
theorem received_parsing (htruthful : TruthfulIf E L s.log) (hready : Ready b new s) {data : Bytes}
    {received : List Bytes} (hreceived : receivedFor s.log = received ++ [data])
    (hfollows : s.upstreamParser.responseParser.Tracks responseOps E received)
    (hends : E → s.upstreamParser.responseParser.EndsLast data) (env : Env)
    (ht : (let u : MitmSession L := { s with upstreamAccumulated := s.upstreamAccumulated ++ data }
      let (parser, ready) := u.upstreamParser.feedResponse data
      if ready then
        match parser.takeResponse with
        | (some res, parser) => finishExchange { u with upstreamParser := parser } env res
        | (none, parser) => readUpstream { u with upstreamParser := parser }
      else readUpstream { u with upstreamParser := parser }) = t) : Parsing E t.io.count t := by
  have hfed : (s.upstreamParser.feedResponse data).1.responseParser.Tracks responseOps E
      (received ++ [data]) := hfollows.feed hends
  rw [← hreceived] at hfed
  let w (parser : HttpParser L) : MitmSession L := { s with
    upstreamAccumulated := s.upstreamAccumulated ++ data, upstreamParser := parser }
  have hw (parser : HttpParser L) : Ready b new (w parser) := by
    have hsame : Calmly s (w parser) := .same rfl rfl rfl rfl rfl rfl
    exact hsame.ready hready
  -- without a whole response the session reads on
  have hcontinue (parser : HttpParser L)
      (hp : parser.responseParser.Tracks responseOps E (receivedFor s.log)) :
      Parsing E (w parser).readUpstream.io.count (w parser).readUpstream :=
    (Goes.readUpstream _).parsing htruthful hp (hw parser).not_awaiting
  dsimp only at ht
  split at ht
  · rename_i hdone
    have hcomplete := HttpParser.feedResponse_complete hdone
    split at ht
    · rename_i res parser htake
      obtain ⟨-, rfl⟩ := HttpParser.takeResponse_some htake
      subst ht
      exact finishExchange_parsing (s := w parser) htruthful (hw parser) hfed hcomplete env
    · rename_i parser htake
      rw [HttpParser.takeResponse_none htake] at ht
      subst ht
      exact hcontinue _ hfed
  · subst ht
    exact hcontinue _ hfed

theorem handleUpstreamRead_parsing (h : Parsing E (fun k => s.io.count k + Op.weight .upstreamRead k) s)
    (hs : InvAfter b new .upstreamRead s) {o : Outcome}
    (hends : E → s.isClosed = false → ∀ data, o = .bytes data → s.upstreamParser.responseParser.EndsLast data)
    (hnot : E → s.isClosed = false → o = .eof ∨ o = .truncated → s.refeeds = false) (env : Env) :
    Parsing E (s.handleUpstreamRead env o).io.count (s.handleUpstreamRead env o) := by
  unfold MitmSession.handleUpstreamRead
  split
  · exact h.drop
  · rename_i hopen
    have hopen : s.isClosed = false := Bool.eq_false_iff.mpr hopen
    have hfollows := h.follows hopen (Or.inr (Or.inl (by simp [Op.weight, Op.kind])))
    split
    · rename_i data
      let u : MitmSession L := s.resetTimer.emit (.received data)
      have hwrite := Untouched.writeClient u .relayed data
      have hu : TruthfulIf E L u.log := (h.truthful.grow (.refl _)).snoc (by simp)
      have hv := hu.grow hwrite.log
      have hready : Ready b new (u.writeClient .relayed data) :=
        (((Calmly.resetTimer s).trans (Calmly.emit _ rfl)).trans (Calmly.writeClient _ _ _)).ready
          (hs.ready_read (Or.inr (Or.inl rfl)))
      have hends (hE : E) := hends hE hopen data rfl
      have hreceived : receivedFor (u.writeClient .relayed data).log = receivedFor s.log ++ [data] :=
        (receivedFor_grows hwrite.log).trans (receivedFor_snoc _ _)
      have hparser : (u.writeClient .relayed data).upstreamParser.responseParser =
          s.upstreamParser.responseParser := hwrite.parser
      dsimp only
      generalize u.writeClient .relayed data = v at hv hready hreceived hparser
      rw [← hparser] at hfollows hends
      exact received_parsing hv hready hreceived hfollows hends env rfl
    · rename_i o hbytes
      dsimp only
      split
      · rename_i hends
        obtain ⟨hend, hresponse, hkept⟩ := hends
        exact .close (reportTaken_truthful h.truthful hfollows hresponse hkept fun hE =>
          hnot hE hopen hend)
      · exact .close h.truthful

theorem handle_parsing {env : Env} {o : Outcome} (h : Parsing E (fun k => s.io.count k + op.weight k) s)
    (hs : InvAfter b new op s)
    (hends : E → op = .upstreamRead → s.isClosed = false → ∀ data, o = .bytes data →
      s.upstreamParser.responseParser.EndsLast data)
    (hnot : E → op = .upstreamRead → s.isClosed = false → o = .eof ∨ o = .truncated → s.refeeds = false) :
    Parsing E (s.handle env op o).io.count (s.handle env op o) := by
  cases op with
  | timer => exact h.drop.keep (.aside (Aside.handleTimeout s o))
  | clientWrite data => exact h.drop.keep (.aside (Aside.handleClientWrite s o))
  | rawWrite data => exact .close h.truthful
  | serverWrite data => exact h.drop
  | resolve => exact handleResolve_parsing h hs o
  | connect => exact handleConnected_parsing h hs o
  | established => exact handleEstablished_parsing h hs env o
  | clientHandshake => exact handleClientHandshake_parsing h hs o
  | upstreamHandshake => exact handleUpstreamHandshake_parsing h hs o
  | clientRead => exact handleClientRead_parsing h hs env o
  | upstreamRead =>
    exact handleUpstreamRead_parsing h hs (fun hE => hends hE rfl) (fun hE => hnot hE rfl) env
  | upstreamWrite data => exact handleUpstreamWrite_parsing h hs o
  | decision a => exact handleDecision_parsing h hs env

/-- The upstream ends while what it has sent would not make a message if it came twice. -/
def FedOnce (s : MitmSession L) : Session.Label → Prop
  | .dispatch k _ => match s.io.take k with
    | some ((.upstreamRead, .eof), _) => s.isClosed = false → s.refeeds = false
    | some ((.upstreamRead, .truncated), _) => s.isClosed = false → s.refeeds = false
    | _ => True
  | _ => True

theorem fedOnce_dispatch (s : MitmSession L) (k : ℕ) (env : Env) :
    (((s.io.take k).any fun e => e.1.1 = .upstreamRead ∧ (e.1.2 = .eof ∨ e.1.2 = .truncated)) = true →
      s.isClosed = false → s.refeeds = false) ↔ FedOnce s (.dispatch k env) := by
  rcases h : s.io.take k with _ | ⟨⟨op, o⟩, io⟩
  · simp [FedOnce, h]
  · cases op <;> cases o <;> simp [FedOnce, h]

instance (s : MitmSession L) (a : Session.Label) : Decidable (FedOnce s a) :=
  match a with
  | .dispatch k env => decidable_of_iff _ (fedOnce_dispatch s k env)
  | .complete _ _ | .decide _ _ | .close => inferInstanceAs (Decidable True)

theorem FedOnce.taken {k : ℕ} {env : Env} (h : FedOnce s (.dispatch k env)) {io : Io} {o : Outcome}
    (hio : s.io.take k = some ((.upstreamRead, o), io)) (hopen : s.isClosed = false)
    (ho : o = .eof ∨ o = .truncated) : s.refeeds = false := by
  unfold FedOnce at h
  rcases ho with rfl | rfl
  · simp only [hio] at h
    exact h hopen
  · simp only [hio] at h
    exact h hopen

/-- Executing what the upstream sends, llhttp reports nothing behind the end of a response. -/
def EndsResponse (s : MitmSession L) (a : Session.Label) : Prop :=
  ∀ data ∈ a.upstreamBytes s.io, s.isClosed = false → s.upstreamParser.responseParser.EndsLast data

instance (s : MitmSession L) (a : Session.Label) : Decidable (EndsResponse s a) :=
  Option.decidableForallMem (a.upstreamBytes s.io)

/-- A step in which nothing is parsed twice and nothing behind a response. -/
def ParsesOnce (s : MitmSession L) (a : Session.Label) : Prop := EndsResponse s a ∧ FedOnce s a

instance (s : MitmSession L) (a : Session.Label) : Decidable (ParsesOnce s a) :=
  inferInstanceAs (Decidable (_ ∧ _))

theorem started_parsing (targetHost : Bytes) (targetPort : UInt16) :
    let s : MitmSession L := started targetHost targetPort
    Parsing E s.io.count s := by
  refine .of_fresh (fun _ => Everywhere.nil) rfl ?_
  rintro (hbusy | hbusy | hbusy | ⟨a, hbusy⟩)
  · cases hbusy
  · cases hbusy
  · exact hbusy rfl
  · cases a <;> cases hbusy

theorem step_parsing {a : Session.Label} (h : Parsing E s.io.count s) (hs : Holds s)
    (honce : E → ParsesOnce s a) (hstep : step s a = some t) : Parsing E t.io.count t := by
  cases moves_of_step hstep with
  | complete ht => exact h.keep (.aside (Aside.complete ht))
  | @handled _ env _ _ ht =>
    obtain ⟨op, o, io, hio, rfl⟩ := dispatch_spec ht
    have htaken : Parsing E (fun k => Io.count io k + op.weight k) { s with io := io } := by
      rw [Io.count_take hio] at h
      exact ⟨h.truthful, h.fresh, h.follows⟩
    refine handle_parsing htaken (taken_inv hs hio env.newRef) ?_ fun hE hop hopen ho => ?_
    · rintro hE rfl hopen data rfl
      exact (honce hE).1 data (by simp [Session.Label.upstreamBytes, hio]) hopen
    · subst hop
      exact (honce hE).2.taken hio hopen ho
  | @decide ref action href =>
    have hasked : s.asked ≠ [] := List.ne_nil_of_mem href
    have hgrows : Grows Effect.neutral s.log (s.decided ref action).log := .snoc _ trivial
    refine ⟨h.truthful.grow hgrows, fun hopen hawaiting => h.fresh hopen ?_, fun hopen _ => ?_⟩
    · simpa [Awaiting, MitmSession.decided, Op.weight, Op.kind] using hawaiting
    · rw [receivedFor_grows hgrows]
      exact h.follows hopen (Or.inr (Or.inr (Or.inl hasked)))
  | close => exact .close h.truthful

theorem reached_parsing_of {C : MitmSession L → Session.Label → Prop}
    (hC : E → ∀ s a, C s a → ParsesOnce s a) (h : (system L).ReachedUnder C s) : Parsing E s.io.count s := by
  refine h.invariant_of (J := Holds) (I := fun s => Parsing E s.io.count s)
    (fun s hs => reached_holds hs.reached) ?_ ?_
  · rintro _ ⟨targetHost, targetPort, rfl⟩
    exact started_parsing targetHost targetPort
  · intro s a t hs hr ha hstep
    exact step_parsing hr hs (fun hE => hC hE s a ha) hstep

/-- In every run the parser follows the upstream. -/
theorem reached_parsing (h : (system L).Reached s) : Parsing False s.io.count s :=
  reached_parsing_of False.elim h

/-- Without data the read from the upstream closes the session. -/
theorem handleUpstreamRead_closes (s : MitmSession L) (env : Env) {o : Outcome}
    (ho : ∀ data, o ≠ .bytes data) : (s.handleUpstreamRead env o).isClosed = true := by
  unfold MitmSession.handleUpstreamRead
  split
  · assumption
  · split
    · rename_i data
      exact absurd rfl (ho data)
    · exact close_closed _

end MitmSession

/-- Every response of an upstream in the history is complete, and parsed from what the upstream has
sent, if nothing behind a response comes in the read that ends it, and over TLS an end of the upstream does
not make a response of bytes that are fed a second time. -/
theorem history_is_truthful {L : Llhttp} :
    (∀ r, (Session.system L).ReachedUnder Session.EndsResponse r → Truthful L r.session.log) ∧
    ∀ s, (MitmSession.system L).ReachedUnder MitmSession.ParsesOnce s → Truthful L s.log :=
  ⟨fun _ hr => (Session.reached_parsing_of (fun _ _ _ h => h) hr).truthful trivial,
    fun _ hs => (MitmSession.reached_parsing_of (fun _ _ _ h => h) hs).truthful trivial⟩

section Examples

open Session (started env1 sentRun)

/-- The connections are set up, and the request is sent to the upstream. -/
def sentTlsRun : List Session.Label :=
  [.complete 1 .ok, .dispatch 0 {}, .complete 1 .ok, .dispatch 0 {}, .complete 1 .ok, .dispatch 0 {},
    .complete 1 .ok, .complete 1 .ok, .dispatch 0 {}, .dispatch 0 {},
    .complete 1 (.bytes simpleGet.message.wire), .dispatch 0 {}, .complete 1 .ok, .dispatch 1 env1]

/-- The head of a response announces as many bytes of body as it has itself. -/
def cutHead : Bytes := str "HTTP/1.1 200 OK" ++ CRLF ++ str "Content-Length: 39" ++ CRLF ++ CRLF

def cutResponse : ResponseMessage :=
  { statusCode := 200, statusText := str "OK"
    fields := [{ name := str "Content-Length", value := str "39" }], body := .plain cutHead }

/-- The response comes in two parts, and then the upstream ends. -/
def wholeResponse : List Session.Label :=
  [.complete 1 (.bytes cutHead), .dispatch 1 env1, .complete 2 (.bytes cutHead), .dispatch 2 env1]

def Effect.isRelayed : Effect → Bool
  | .reported .relayed _ => true
  | _ => false

theorem history_is_truthful_wholeResponse :
    (∃ r, (Session.system (answering cutResponse.message.pieces)).runUnder Session.EndsResponse
      { session := started false } (sentRun ++ wholeResponse) = some r ∧
        r.session.log.any Effect.isRelayed = true ∧
        Truthful (answering cutResponse.message.pieces) r.session.log) ∧
    ∃ s, (MitmSession.system (answering cutResponse.message.pieces)).runUnder MitmSession.ParsesOnce
      (MitmSession.started [] 443) (sentTlsRun ++ wholeResponse) = some s ∧
        s.log.any Effect.isRelayed = true ∧ Truthful (answering cutResponse.message.pieces) s.log := by
  have hrun : ((Session.system (answering cutResponse.message.pieces)).runUnder Session.EndsResponse
      { session := started false } (sentRun ++ wholeResponse)).any (fun r =>
        r.session.log.any Effect.isRelayed) = true := by decide
  have htls : ((MitmSession.system (answering cutResponse.message.pieces)).runUnder MitmSession.ParsesOnce
      (MitmSession.started [] 443) (sentTlsRun ++ wholeResponse)).any (fun s =>
        s.log.any Effect.isRelayed) = true := by decide
  obtain ⟨r, hr, hreported⟩ := (Option.any_eq_true _ _).mp hrun
  obtain ⟨s, hs, hreported'⟩ := (Option.any_eq_true _ _).mp htls
  exact ⟨⟨r, hr, hreported, history_is_truthful.1 r (.runUnder (.init ⟨false, rfl⟩) hr)⟩,
    ⟨s, hs, hreported', history_is_truthful.2 s (.runUnder (.init ⟨[], 443, rfl⟩) hs)⟩⟩

/-- The upstream ends after the head. -/
def cutRun : List Session.Label := sentTlsRun ++
  [.complete 1 (.bytes cutHead), .dispatch 1 env1, .complete 2 .eof, .dispatch 2 env1]

/-- An interim response, and a final one of which the last byte is missing. -/
def interimResponse : ResponseMessage :=
  { statusCode := 100, statusText := str "Continue", fields := [], body := .plain [] }

def finalResponse : ResponseMessage :=
  { statusCode := 200, statusText := str "OK"
    fields := [{ name := str "Content-Length", value := str "3" }], body := .plain (str "hi!") }

def mergedChunk : Bytes := interimResponse.message.wire ++ finalResponse.message.wire.dropLast

def mergedPieces : List Piece := interimResponse.message.pieces ++ finalResponse.message.pieces

/-- Both come in one read. -/
def mergedRead : List Session.Label := [.complete 1 (.bytes mergedChunk), .dispatch 1 env1]

/-- A relayed response with this status text. -/
def Effect.relays (statusText : Bytes) : Effect → Bool
  | .reported .relayed tx => tx.response.any fun response => response.statusText == statusText
  | _ => false

/-- One chunk was received, and a response was reported that is not parsed from it. -/
theorem not_truthful {L : Llhttp} {log : List Effect} {statusText data : Bytes} (n : ℕ)
    (h : ((log.drop n).head?.any (Effect.relays statusText) && receivedFor (log.take n) == [data]) = true)
    (hnot : ∀ response, response.statusText = statusText → ¬ ParsedFrom L [data] response) :
    ¬ Truthful L log := by
  intro htruthful
  rw [Bool.and_eq_true, beq_iff_eq] at h
  obtain ⟨e, he, hrelays⟩ := (Option.any_eq_true _ _).mp h.1
  obtain ⟨rest, hrest⟩ := List.head?_eq_some_iff.mp he
  have hsplit : log = log.take n ++ e :: rest := by
    rw [← hrest]
    exact (List.take_append_drop n log).symm
  unfold Effect.relays at hrelays
  split at hrelays
  · rename_i tx
    obtain ⟨chunks, response, htx, hprefix, hparsed⟩ := htruthful _ _ _ hsplit tx rfl
    rw [htx, Option.any_some, beq_iff_eq] at hrelays
    rw [h.2] at hprefix
    cases chunks with
    | nil =>
      obtain ⟨front, p, rest, htrace, -⟩ := hparsed
      cases front <;> cases htrace
    | cons chunk chunks =>
      obtain ⟨rfl, hnil⟩ := List.cons_prefix_cons.mp hprefix
      rw [List.prefix_nil.mp hnil] at hparsed
      exact hnot response hrelays hparsed
  · cases hrelays

/-- llhttp does not see the end of a message in the head. -/
theorem cutHead_unparsed (response : HttpResponse) :
    ¬ ParsedFrom (answering cutResponse.message.pieces) [cutHead] response := by
  rintro ⟨front, p, rest, htrace, -⟩
  have hend : .messageComplete p ∈
      (answering cutResponse.message.pieces).trace cutResponse.message.pieces [cutHead] := by
    rw [show (answering cutResponse.message.pieces).trace cutResponse.message.pieces [cutHead] = _ from htrace]
    simp
  have hcallbacks : (answering cutResponse.message.pieces).trace cutResponse.message.pieces [cutHead] =
      [.span .status (str "OK"), .span .headerField (str "Content-Length"),
        .span .headerValue (str "39")] := by decide
  rw [hcallbacks] at hend
  simp at hend

/-- The first message of the merged chunk has its own status text only. -/
theorem mergedChunk_unparsed {response : HttpResponse} (hstatus : response.statusText = str "ContinueOK") :
    ¬ ParsedFrom (answering mergedPieces) [mergedChunk] response := by
  rintro ⟨front, p, rest, htrace, hfront, hparse⟩
  have hcallbacks : (answering mergedPieces).trace mergedPieces [mergedChunk] =
      [.span .status (str "Continue"), .span .body []] ++ .messageComplete interimResponse.parser ::
        [.span .status (str "OK"), .span .headerField (str "Content-Length"),
          .span .headerValue (str "3"), .span .body (str "hi")] := by decide
  -- the first end of a message is that of the interim response
  obtain rfl := front_unique (by simp [NoCompletion]) hfront (hcallbacks.symm.trans htrace)
  have hspanned := hparse.statusText
  rw [hstatus] at hspanned
  revert hspanned
  decide

/-- A head is reported as the response that it begins, and two responses are reported as one. -/
theorem responses_misreported :
    (¬ ∀ r, (Session.system (answering mergedPieces)).Reached r →
      Truthful (answering mergedPieces) r.session.log) ∧
    (¬ ∀ s, (MitmSession.system (answering mergedPieces)).Reached s →
      Truthful (answering mergedPieces) s.log) ∧
    ¬ ∀ s, (MitmSession.system (answering cutResponse.message.pieces)).Reached s →
      Truthful (answering cutResponse.message.pieces) s.log := by
  refine ⟨fun hall => ?_, fun hall => ?_, fun hall => ?_⟩
  · have hrun : ((Session.system (answering mergedPieces)).run { session := started false }
        (sentRun ++ mergedRead)).any (fun r =>
          (r.session.log.drop 7).head?.any (Effect.relays (str "ContinueOK")) &&
            receivedFor (r.session.log.take 7) == [mergedChunk]) = true := by decide
    obtain ⟨r, hr, hlast⟩ := (Option.any_eq_true _ _).mp hrun
    exact not_truthful 7 hlast (fun _ => mergedChunk_unparsed) (hall r (.run (.init ⟨false, rfl⟩) hr))
  · have hrun : ((MitmSession.system (answering mergedPieces)).run (MitmSession.started [] 443)
        (sentTlsRun ++ mergedRead)).any (fun s =>
          (s.log.drop 10).head?.any (Effect.relays (str "ContinueOK")) &&
            receivedFor (s.log.take 10) == [mergedChunk]) = true := by decide
    obtain ⟨s, hs, hlast⟩ := (Option.any_eq_true _ _).mp hrun
    exact not_truthful 10 hlast (fun _ => mergedChunk_unparsed) (hall s (.run (.init ⟨[], 443, rfl⟩) hs))
  · have hrun : ((MitmSession.system (answering cutResponse.message.pieces)).run
        (MitmSession.started [] 443) cutRun).any (fun s =>
          (s.log.drop 11).head?.any (Effect.relays (str "OK")) &&
            receivedFor (s.log.take 11) == [cutHead]) = true := by decide
    obtain ⟨s, hs, hlast⟩ := (Option.any_eq_true _ _).mp hrun
    exact not_truthful 11 hlast (fun response _ => cutHead_unparsed response)
      (hall s (.run (.init ⟨[], 443, rfl⟩) hs))

end Examples

end BurpTUI
