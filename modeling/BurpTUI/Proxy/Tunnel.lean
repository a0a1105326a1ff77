import BurpTUI.Base.Grows
import BurpTUI.Proxy.CompleteHistory
import BurpTUI.Proxy.WriteQueues

namespace BurpTUI

/-- What was read from the client since the last request was taken. -/
def trackRead (reads : List Bytes) : Effect → List Bytes
  | .took _ _ => []
  | .read data => reads ++ [data]
  | _ => reads

def readSince (log : List Effect) : List Bytes := log.foldl trackRead []

/-- What was queued for the client since then. -/
def trackQueued (queued : List Bytes) : Effect → List Bytes
  | .took _ _ => []
  | .queued _ data => queued ++ [data]
  | _ => queued

def queuedSince (log : List Effect) : List Bytes := log.foldl trackQueued []

/-- Effects by which bytes go from the client to the server of a tunnel. -/
def Effect.pipes : Effect → Bool
  | .took _ _ => true
  | .read _ => true
  | .pushed _ => true
  | _ => false

variable {log log' es : List Effect}

theorem readSince_append (log es : List Effect) :
    readSince (log ++ es) = es.foldl trackRead (readSince log) := List.foldl_append

theorem readSince_grows (h : Grows (fun e => e.pipes = false) log log') : readSince log' = readSince log := by
  refine h.foldl (fun e he reads => ?_) []
  cases e <;> first | rfl | cases he

theorem pushed_grows (h : Grows (fun e => e.pipes = false) log log') :
    queuedTo .upstream log' = queuedTo .upstream log := by
  obtain ⟨es, rfl, hes⟩ := h
  have hnone : queuedTo .upstream es = [] := by
    rw [queuedTo, List.filterMap_eq_nil_iff]
    intro e he
    have hpipes := hes e he
    cases e <;> first | rfl | cases hpipes
  rw [queuedTo_append, hnone, List.append_nil]

theorem queuedSince_exchanges (log : List Effect) : queuedSince (exchanges log) = queuedSince log := by
  refine foldl_exchanges (fun e he queued => ?_) [] log
  cases e <;> first | rfl | cases he

theorem queuedSince_of_exchanges (h : exchanges log' = exchanges log ++ es) :
    queuedSince log' = es.foldl trackQueued (queuedSince log) := by
  rw [← queuedSince_exchanges, h, ← queuedSince_exchanges log]
  exact List.foldl_append

theorem receivedFor_of_exchanges (h : exchanges log' = exchanges log ++ es) :
    receivedFor log' = es.foldl trackReceived (receivedFor log) := by
  rw [← receivedFor_exchanges, h, ← receivedFor_exchanges log]
  exact List.foldl_append

theorem lastTaken_of_exchanges (h : exchanges log' = exchanges log ++ es)
    (hes : ∀ e ∈ es, ∀ ref req, e ≠ .took ref req) : lastTaken log' = lastTaken log := by
  rw [← lastTaken_exchanges, h, lastTaken_append hes, lastTaken_exchanges]

namespace Session

open BurpTUI.Flow (Idle SoundAfter)

variable {L : Llhttp} {b : Flow} {n m : OpKind → ℕ} {s t u : Session L} {op : Op}

/-- From `s` to `t` nothing goes from the client to the server. -/
def Mute (s t : Session L) : Prop := Grows (fun e => e.pipes = false) s.log t.log

namespace Mute

theorem refl (s : Session L) : Mute s s := Grows.refl _

theorem trans (h : Mute s t) (h' : Mute t u) : Mute s u := Grows.trans h h'

theorem same (h : t.log = s.log) : Mute s t := by
  unfold Mute
  rw [h]
  exact Grows.refl _

theorem emit (s : Session L) {e : Effect} (he : e.pipes = false) : Mute s (s.emit e) := Grows.snoc _ he

theorem closes : AllowsClose (Mute (L := L)) where
  refl := refl
  trans := trans
  cancel _ _ := same rfl
  removed s _ := emit s rfl
  clientGone _ := same rfl
  closed s := emit s rfl
  serverGone _ := same rfl

theorem answers : AllowsAnswer (Mute (L := L)) where
  refl := refl
  trans := trans
  send _ _ := Grows.snoc _ rfl
  sendServer _ _ := Grows.snoc _ rfl
  respond _ _ := Grows.snoc _ rfl
  queue _ _ := Grows.snoc _ rfl

theorem dials : AllowsDial (Mute (L := L)) where
  refl := refl
  trans := trans
  error s _ _ _ := answers.sendErrorResponse s _ _
  serverOpen _ := same rfl
  store _ _ := same rfl
  handed s _ _ := emit s rfl
  start _ _ _ := same rfl

theorem finishes : AllowsFinish (Mute (L := L)) where
  refl := refl
  trans := trans
  respond _ _ := Grows.snoc _ rfl
  parser _ _ := same rfl
  renew _ := same rfl
  flag _ := same rfl
  readClient _ := same rfl
  readUpstream _ := same rfl

theorem takes : AllowsTake (Mute (L := L)) where
  refl := refl
  trans := trans
  target _ _ _ _ := same rfl
  route _ _ _ := same rfl
  tested s _ _ := emit s rfl
  connected _ _ := Grows.snoc _ rfl
  spawn _ _ _ := Grows.snoc _ rfl
  tunnel _ := same rfl
  resolve _ := same rfl

theorem handleTimeout (s : Session L) (o : Outcome) : Mute s (s.handleTimeout o) :=
  handleTimeout_of closes.toChain (fun s p _ => closes.cancel s p) (fun s => answers.sendErrorResponse s _ _)
    (closes.close s) o

theorem handleResolve (s : Session L) (o : Outcome) : Mute s (s.handleResolve o) :=
  dials.handleResolve (closes.closeServer s) o

theorem handleConnected (s : Session L) (env : Env) (o : Outcome) : Mute s (s.handleConnected env o) :=
  dials.handleConnected (answers.writeClient (Grows.snoc _ rfl)) finishes.readClient env o

theorem handleUpstreamRead (s : Session L) (env : Env) (o : Outcome) :
    Mute s (s.handleUpstreamRead env o) := by
  refine finishes.handleUpstreamRead closes.close (fun data => ?_) env o
  have hreceived : Mute s (s.resetTimer.emit (.received data)) := Grows.snoc _ rfl
  exact hreceived.trans (answers.writeClient (Grows.snoc _ rfl))

theorem handleClientWrite (s : Session L) (o : Outcome) : Mute s (s.handleClientWrite o) :=
  answers.handleClientWrite closes.close (same rfl) o

theorem handleServerWrite (s : Session L) (o : Outcome) : Mute s (s.handleServerWrite o) :=
  answers.handleServerWrite (fun _ _ => closes.close s) (same rfl)

theorem handleDecision (s : Session L) (action : InterceptAction) : Mute s (s.handleDecision action) :=
  dials.handleDecision (same rfl) (closes.closeServer _) action

theorem handleUpstreamRoute (s : Session L) (env : Env) (host port : Bytes) (k : ℤ) :
    Mute s (s.handleUpstreamRoute env host port k) :=
  takes.handleUpstreamRoute (fun _ _ => Grows.snoc _ rfl)
    (fun t _ => dials.forwardRequest (closes.closeServer t)) env host port k

end Mute

/-- What the client of a tunnel gets when the server cannot be reached. -/
def badGateway : Bytes :=
  ownResponse (str "HTTP/1.1 " ++ decimal 502 ++ str " " ++ str "Bad Gateway")
    (str "Content-Type: text/html" ++ CRLF) (errorBody 502 (str "Bad Gateway"))

theorem answer_turn (s : Session L) (response : HttpResponse) (data : Bytes) : ∃ tx tx',
    Turn [.reported .generated tx, .queued .generated data] idle tx' s
      ({ s.respond .generated response with closeAfterWrite := true }.writeClient .generated data) := by
  have hreported := Turn.respond s .generated response
  have hflag := hreported.before (.fields (t := { s.respond .generated response with closeAfterWrite := true })
    hreported.transaction rfl rfl rfl)
  have hwritten := hflag.trans (.writeClient _ .generated data)
  exact ⟨_, _, hwritten.log, hwritten.transaction, hwritten.isConnect, hwritten.asked, hwritten.count⟩

theorem badGateway_turn (s : Session L) : ∃ tx tx', Turn [.reported .generated tx,
    .queued .generated badGateway] idle tx' s (s.sendErrorResponse 502 (str "Bad Gateway")) :=
  answer_turn s _ _

/-- How far a tunnel is, with `n` operations of each kind outstanding. Before the server is reached
nothing is read from either end. -/
inductive Passage (n : OpKind → ℕ) (log : List Effect) : Prop
  | dialling (queued : queuedSince log = []) (reads : readSince log = []) (received : receivedFor log = [])
    (dial : n .dial ≤ 1) (rest : n .read + n .receive = 0)
  | refused (queued : queuedSince log = [badGateway]) (reads : readSince log = [])
    (received : receivedFor log = []) (rest : n .dial + n .read + n .receive = 0)
  | opened (queued : queuedSince log = established :: receivedFor log) (dial : n .dial = 0)

/-- A tunnel passes on what it reads, and does nothing else. -/
structure Passing (n : OpKind → ℕ) (s : Session L) : Prop where
  connect : ∃ ref req, lastTaken s.log = some (ref, req) ∧ req.method = str "CONNECT"
  up : queuedTo .upstream s.log = readSince s.log
  passage : Passage n s.log
  asked : s.asked = []
  decision : ∀ a, n (.decision a) = 0
  send : n .send = 0

/-- The invariant: without a tunnel nothing enters its queue. -/
structure Piped (n : OpKind → ℕ) (s : Session L) : Prop where
  plain : s.isConnect = false → queuedTo .upstream s.log = []
  tunnel : s.isConnect = true → Passing n s

abbrev PipedAfter (op : Op) (s : Session L) : Prop := Piped (fun k => s.io.count k + op.weight k) s

theorem Passage.mono (h : Passage n log) (hqueued : queuedSince log' = queuedSince log)
    (hreads : readSince log' = readSince log) (hreceived : receivedFor log' = receivedFor log)
    (hle : ∀ k, k ≠ .other → m k ≤ n k) : Passage m log' := by
  have hdial := hle .dial (by simp)
  have hread := hle .read (by simp)
  have hreceive := hle .receive (by simp)
  cases h with
  | dialling queued reads received dial rest =>
    exact .dialling (hqueued.trans queued) (hreads.trans reads) (hreceived.trans received) (by omega) (by omega)
  | refused queued reads received rest =>
    exact .refused (hqueued.trans queued) (hreads.trans reads) (hreceived.trans received) (by omega)
  | opened queued dial => exact .opened (by rw [hqueued, hreceived, queued]) (by omega)

namespace Piped

/-- Outside of a tunnel nothing enters its queue. -/
theorem outside (h : Piped n s) (hc : s.isConnect = false) (hc' : t.isConnect = false) (hmute : Mute s t) :
    Piped m t := by
  refine ⟨fun _ => (pushed_grows hmute).trans (h.plain hc), fun htunnel => ?_⟩
  rw [hc'] at htunnel
  cases htunnel

/-- Nothing happens that the tunnel is about. -/
theorem rests (h : Piped n s) (haside : Aside s t) (hmute : Mute s t)
    (hle : ∀ k, k ≠ .other → s.io.count k ≤ n k) : Piped t.io.count t := by
  refine ⟨fun hc => (pushed_grows hmute).trans (h.plain (haside.isConnect ▸ hc)), fun hc => ?_⟩
  have htunnel := h.tunnel (haside.isConnect ▸ hc)
  have hlog : exchanges t.log = exchanges s.log ++ [] := by rw [exchanges_aside haside.log, List.append_nil]
  have hcount (k : OpKind) (hk : k ≠ .other) : t.io.count k ≤ n k := (haside.count k hk).trans_le (hle k hk)
  refine ⟨?_, ?_, ?_, haside.asked.trans htunnel.asked, fun a => ?_, ?_⟩
  · rw [lastTaken_of_exchanges hlog (by simp)]
    exact htunnel.connect
  · rw [pushed_grows hmute, readSince_grows hmute]
    exact htunnel.up
  · exact htunnel.passage.mono (queuedSince_of_exchanges hlog) (readSince_grows hmute)
      (receivedFor_of_exchanges hlog) hcount
  · exact Nat.le_zero.mp (htunnel.decision a ▸ hcount _ (by simp))
  · exact Nat.le_zero.mp (htunnel.send ▸ hcount _ (by simp))

/-- A step of a tunnel that takes no request and reads nothing from the client. -/
theorem goes_on {es : List Effect} {tx : HttpTransaction} {l : OpKind → ℕ} (h : Piped n s)
    (hc : s.isConnect = true) (hturn : Turn es l tx s t) (hmute : Mute s t)
    (hes : ∀ e ∈ es, ∀ ref req, e ≠ .took ref req) (hpassage : Passage t.io.count t.log)
    (hle : ∀ k, k ≠ .other → s.io.count k ≤ n k)
    (hl : (∀ a, l (.decision a) = 0) ∧ l .send = 0) : Piped t.io.count t := by
  have htunnel := h.tunnel hc
  refine ⟨fun hplain => ?_, fun _ => ⟨?_, ?_, hpassage, hturn.asked.trans htunnel.asked, fun a => ?_, ?_⟩⟩
  · rw [hturn.isConnect, hc] at hplain
    cases hplain
  · rw [lastTaken_of_exchanges hturn.log hes]
    exact htunnel.connect
  · rw [pushed_grows hmute, readSince_grows hmute]
    exact htunnel.up
  · have hdecision := hle (.decision a) (by simp)
    rw [htunnel.decision a] at hdecision
    rw [hturn.count _ (by simp), hl.1 a]
    omega
  · have hsend := hle .send (by simp)
    rw [htunnel.send] at hsend
    rw [hturn.count _ (by simp), hl.2]
    omega

/-- The server cannot be reached. -/
theorem refuse (h : PipedAfter op s) (hop : op.kind = .dial) (hc : s.isConnect = true) :
    Piped (s.sendErrorResponse 502 (str "Bad Gateway")).io.count
      (s.sendErrorResponse 502 (str "Bad Gateway")) := by
  obtain ⟨response, tx, hturn⟩ := badGateway_turn s
  have hmute : Mute s (s.sendErrorResponse 502 (str "Bad Gateway")) := Mute.answers.sendErrorResponse s _ _
  have hcount (k : OpKind) (hk : k ≠ .other) :
      (s.sendErrorResponse 502 (str "Bad Gateway")).io.count k = s.io.count k := hturn.count k hk
  refine h.goes_on hc hturn hmute (by simp) ?_ (fun _ _ => Nat.le_add_right _ _) ⟨fun _ => rfl, rfl⟩
  cases (h.tunnel hc).passage with
  | dialling queued reads received dial rest =>
    simp only [Op.weight, hop, if_true, reduceCtorEq, if_false] at dial rest
    refine .refused ?_ ((readSince_grows hmute).trans reads) ?_ ?_
    · rw [queuedSince_of_exchanges hturn.log, queued]
      rfl
    · rw [receivedFor_of_exchanges hturn.log, received]
      rfl
    · rw [hcount _ (by simp), hcount _ (by simp), hcount _ (by simp)]
      omega
  | refused queued reads received rest => simp [Op.weight, hop] at rest
  | opened queued dial => simp [Op.weight, hop] at dial

end Piped

theorem handleResolve_piped (h : PipedAfter .resolve s) (o : Outcome) :
    Piped (s.handleResolve o).io.count (s.handleResolve o) := by
  have hmute := Mute.handleResolve s o
  rcases handleResolve_turn s o with ⟨-, hturn⟩ | ⟨ho, response, data, -, hturn⟩
  · cases hc : s.isConnect with
    | false => exact h.outside hc (hturn.isConnect.trans hc) hmute
    | true =>
      refine h.goes_on hc hturn hmute (by simp) ?_ (fun _ _ => Nat.le_add_right _ _) ⟨fun _ => rfl, rfl⟩
      refine (h.tunnel hc).passage.mono (queuedSince_of_exchanges hturn.log) (readSince_grows hmute)
        (receivedFor_of_exchanges hturn.log) fun k hk => ?_
      rw [hturn.count k hk]
      exact Nat.le_refl _
  · cases hc : s.isConnect with
    | false => exact h.outside hc (hturn.isConnect.trans hc) hmute
    | true =>
      rw [handleResolve, if_neg ho]
      exact h.refuse rfl hc

theorem handleConnected_piped (h : PipedAfter .connect s) (env : Env) (o : Outcome) :
    Piped (s.handleConnected env o).io.count (s.handleConnected env o) := by
  have hmute := Mute.handleConnected s env o
  rcases handleConnected_turn s env o with ⟨ho, response, data, -, hturn⟩ | ⟨-, hc, hturn⟩ | ⟨hc, data, hturn⟩
  · cases hc : s.isConnect with
    | false => exact h.outside hc (hturn.isConnect.trans hc) hmute
    | true =>
      rw [handleConnected, if_pos ho]
      exact h.refuse rfl hc
  · refine h.goes_on hc hturn hmute (by simp) ?_ (fun _ _ => Nat.le_add_right _ _) ⟨fun _ => rfl, rfl⟩
    cases (h.tunnel hc).passage with
    | dialling queued reads received dial rest =>
      simp only [Op.weight, Op.kind, if_true] at dial
      refine .opened ?_ ?_
      · rw [queuedSince_of_exchanges hturn.log, receivedFor_of_exchanges hturn.log, queued, received]
        rfl
      · rw [hturn.count _ (by simp)]
        simp only [Op.weight, Op.kind, reduceCtorEq, if_false]
        omega
    | refused queued reads received rest => simp [Op.weight, Op.kind] at rest
    | opened queued dial => simp [Op.weight, Op.kind] at dial
  · exact h.outside hc (hturn.isConnect.trans hc) hmute

theorem handleUpstreamRead_piped (h : PipedAfter .upstreamRead s) (hdata : s.serverData = []) (env : Env)
    (o : Outcome) : Piped (s.handleUpstreamRead env o).io.count (s.handleUpstreamRead env o) := by
  have hmute := Mute.handleUpstreamRead s env o
  by_cases ho : ∃ data, o = .bytes data
  · obtain ⟨data, rfl⟩ := ho
    rcases handleUpstreamRead_turn s env data with ⟨hturn, -⟩ | ⟨hc, -, n, tx, tx', -, hturn, -⟩
    · cases hc : s.isConnect with
      | false => exact h.outside hc (hturn.isConnect.trans hc) hmute
      | true =>
        refine h.goes_on hc hturn hmute (by simp) ?_ (fun _ _ => Nat.le_add_right _ _) ⟨fun _ => rfl, rfl⟩
        cases (h.tunnel hc).passage with
        | dialling queued reads received dial rest => simp [Op.weight, Op.kind] at rest
        | refused queued reads received rest => simp [Op.weight, Op.kind] at rest
        | opened queued dial =>
          refine .opened ?_ ?_
          · rw [queuedSince_of_exchanges hturn.log, receivedFor_of_exchanges hturn.log, queued]
            rfl
          · rw [hturn.count _ (by simp)]
            exact dial
    · exact h.outside hc (hturn.isConnect.trans hc) hmute
  · have haside := handleUpstreamRead_aside hdata env (o := o) fun data heq => ho ⟨data, heq⟩
    exact h.rests haside hmute fun _ _ => Nat.le_add_right _ _

theorem handleTimeout_piped (h : Piped n s) (hle : ∀ k, k ≠ .other → s.io.count k ≤ n k) (o : Outcome) :
    Piped (s.handleTimeout o).io.count (s.handleTimeout o) := by
  have hmute := Mute.handleTimeout s o
  rcases handleTimeout_turn s o with haside | ⟨-, -, -, hc, response, data, -, hturn⟩
  · exact h.rests haside hmute hle
  · exact h.outside hc (hturn.isConnect.trans hc) hmute

/-- A tunnel has no request to write. -/
theorem handleUpstreamWrite_piped {data : Bytes} (h : PipedAfter (.upstreamWrite data) s) (o : Outcome) :
    Piped (s.handleUpstreamWrite o).io.count (s.handleUpstreamWrite o) := by
  cases hc : s.isConnect with
  | true =>
    have hsend := (h.tunnel hc).send
    simp [Op.weight, Op.kind] at hsend
  | false =>
    have hmute := Mute.dials.handleUpstreamWrite s o
    rcases handleUpstreamWrite_turn s o with ⟨response, data, -, hturn⟩ | hturn
    · exact h.outside hc (hturn.isConnect.trans hc) hmute
    · exact h.outside hc (hturn.isConnect.trans hc) hmute

/-- No request of a tunnel is held. -/
theorem handleDecision_piped {a : InterceptAction} (h : PipedAfter (.decision a) s) :
    Piped (s.handleDecision a).io.count (s.handleDecision a) := by
  cases hc : s.isConnect with
  | true =>
    have hdecision := (h.tunnel hc).decision a
    simp [Op.weight, Op.kind] at hdecision
  | false =>
    have hmute := Mute.handleDecision s a
    rcases handleDecision_turn s a with hturn | hturn | ⟨response, data, -, hturn⟩
    · exact h.outside hc (hturn.isConnect.trans hc) hmute
    · exact h.outside hc (hturn.isConnect.trans hc) hmute
    · exact h.outside hc (hturn.isConnect.trans hc) hmute

/-- What a tunnel reads from the client enters the queue to the server. -/
theorem writeServerBlind_pipes (s : Session L) (data : Bytes) :
    Aside s (s.writeServerBlind data) ∧
      readSince (s.writeServerBlind data).log = readSince s.log ∧
      queuedTo .upstream (s.writeServerBlind data).log = queuedTo .upstream s.log ++ [data] := by
  have hpushed : readSince (s.log ++ [.pushed data]) = readSince s.log ∧
      queuedTo .upstream (s.log ++ [.pushed data]) = queuedTo .upstream s.log ++ [data] :=
    ⟨readSince_append _ _, queuedTo_append _ _ _⟩
  refine ⟨Aside.writeServerBlind s data, ?_⟩
  unfold writeServerBlind
  dsimp only
  split
  · have hmute := Mute.answers.doServerWrite (({ s with writeServerQueue := s.writeServerQueue ++ [data] } :
      Session L).emit (.pushed data))
    exact ⟨(readSince_grows hmute).trans hpushed.1, (pushed_grows hmute).trans hpushed.2⟩
  · exact hpushed

theorem readClient_piped (h : PipedAfter .clientRead s) (hc : s.isConnect = true) (data : Bytes) :
    Piped ((s.resetTimer.emit (.read data)).writeServerBlind data).readClient.io.count
      ((s.resetTimer.emit (.read data)).writeServerBlind data).readClient := by
  have hturn : Turn [] idle s.currentTransaction s (s.resetTimer.emit (.read data)) :=
    (Turn.emit s.resetTimer (e := .read data) rfl).after (Aside.resetTimer s)
  obtain ⟨hblind, hreads, hpushed⟩ := writeServerBlind_pipes (s.resetTimer.emit (.read data)) data
  have hread : Turn [] Op.clientRead.weight s.currentTransaction s
      ((s.resetTimer.emit (.read data)).writeServerBlind data).readClient :=
    (hturn.before_aside hblind).start_last .clientRead
  have hreads : readSince ((s.resetTimer.emit (.read data)).writeServerBlind data).readClient.log =
      readSince s.log ++ [data] := hreads.trans (readSince_append _ _)
  have hpushed : queuedTo .upstream ((s.resetTimer.emit (.read data)).writeServerBlind data).readClient.log =
      queuedTo .upstream s.log ++ [data] := by
    refine hpushed.trans (congrArg (· ++ [data]) ?_)
    exact (queuedTo_append _ _ _).trans (List.append_nil _)
  have htunnel := h.tunnel hc
  refine ⟨fun hplain => ?_, fun _ => ⟨?_, ?_, ?_, hread.asked.trans htunnel.asked, fun a => ?_, ?_⟩⟩
  · rw [hread.isConnect, hc] at hplain
    cases hplain
  · rw [lastTaken_of_exchanges hread.log (by simp)]
    exact htunnel.connect
  · rw [hpushed, hreads, htunnel.up]
  · cases htunnel.passage with
    | dialling queued reads received dial rest => simp [Op.weight, Op.kind] at rest
    | refused queued reads received rest => simp [Op.weight, Op.kind] at rest
    | opened queued dial =>
      refine .opened ?_ ?_
      · rw [queuedSince_of_exchanges hread.log, receivedFor_of_exchanges hread.log, queued]
        rfl
      · exact (hread.count _ (by simp)).trans dial
  · exact (hread.count _ (by simp)).trans (htunnel.decision a)
  · exact (hread.count _ (by simp)).trans htunnel.send

/-- A CONNECT request that was just taken. What was read with it goes to nobody. -/
theorem Connects.piped {tx : HttpTransaction} (hplain : queuedTo .upstream s.log = [])
    (hread : readSince s.log = []) (hqueued : queuedSince s.log = []) (hreceived : receivedFor s.log = [])
    (htaken : ∃ ref req, lastTaken s.log = some (ref, req) ∧ req.method = str "CONNECT")
    (hsettled : Settled s.io.count s) (hrest : s.io.count .read + s.io.count .receive = 0)
    (hc : s.isConnect = false) (h : Connects s t tx) (hmute : Mute s t) : Piped t.io.count t := by
  refine ⟨fun _ => (pushed_grows hmute).trans hplain, fun htunnel => ?_⟩
  rcases h.way with ⟨hlog, -, -, hcount⟩ | ⟨-, hconnect, -⟩
  · refine ⟨?_, ?_, .dialling ?_ ((readSince_grows hmute).trans hread) ?_ ?_ ?_,
      h.asked.trans hsettled.asked, fun a => ?_, ?_⟩
    · rw [lastTaken_of_exchanges hlog (by simp)]
      exact htaken
    · rw [pushed_grows hmute, readSince_grows hmute, hplain, hread]
    · rw [queuedSince_of_exchanges hlog, hqueued]
      rfl
    · rw [receivedFor_of_exchanges hlog, hreceived]
      rfl
    · rw [hcount _ (by simp), hsettled.dial]
      exact Nat.le_refl 1
    · rw [hcount _ (by simp), hcount _ (by simp)]
      exact hrest
    · exact (hcount _ (by simp)).trans (hsettled.decision a)
    · exact (hcount _ (by simp)).trans hsettled.send
  · rw [hconnect, hc] at htunnel
    cases htunnel

theorem handleRequest_piped {env : Env} {req : HttpRequest} (hplain : queuedTo .upstream s.log = [])
    (hc : s.isConnect = false) (hsettled : Settled s.io.count s)
    (hrest : s.io.count .read + s.io.count .receive = 0) (hok : s.handleRequest env req = .ok t) :
    Piped t.io.count t := by
  let v : Session L := ({ s with currentTransaction := s.tookTransaction env } : Session L).emit
    (.took env.newRef req)
  have hv (f : List Bytes → Effect → List Bytes) (hf : ∀ bytes, f bytes (.took env.newRef req) = []) :
      v.log.foldl f [] = [] := by
    show (s.log ++ [Effect.took env.newRef req]).foldl f [] = []
    rw [List.foldl_append]
    exact hf _
  have hpushed : queuedTo .upstream v.log = [] := (queuedTo_append _ _ _).trans (by rw [hplain]; rfl)
  have htaken : lastTaken v.log = some (env.newRef, req) := by
    show lastTaken (s.log ++ [.took env.newRef req]) = _
    rw [lastTaken, List.foldl_append]
    rfl
  have houtside (hmute : Mute v t) (hct : t.isConnect = false) : Piped t.io.count t := by
    refine ⟨fun _ => (pushed_grows hmute).trans hpushed, fun htunnel => ?_⟩
    rw [hct] at htunnel
    cases htunnel
  unfold handleRequest at hok
  dsimp only at hok
  split at hok
  · rename_i hmethod
    obtain ⟨target, -, rfl⟩ := ok_of_map hok
    obtain ⟨tx, hconnects⟩ := handleConnect_turn v target
    refine hconnects.piped hpushed (hv _ fun _ => rfl) (hv _ fun _ => rfl) (hv _ fun _ => rfl)
      ⟨_, _, htaken, hmethod⟩ ?_ hrest hc (Mute.takes.handleConnect v target)
    exact ⟨hsettled.1, hsettled.2, hsettled.3, hsettled.4⟩
  · obtain ⟨route, -, rfl⟩ := ok_of_map hok
    cases route with
    | badRequest =>
      exact houtside (Mute.answers.sendErrorResponse v _ _) ((Quietly.answers.sendErrorResponse v _ _).tunnel.trans hc)
    | caCert => exact houtside (Mute.answers.serveCaCert v env) ((Quietly.answers.serveCaCert v env).tunnel.trans hc)
    | helpPage =>
      exact houtside (Mute.answers.serveBurpHelpPage v env) ((Quietly.answers.serveBurpHelpPage v env).tunnel.trans hc)
    | upstream host port k =>
      exact houtside (.handleUpstreamRoute v env host port k)
        ((handleUpstreamRoute_isConnect v env host port k).trans hc)

/-- Outside of a tunnel the next request is read. -/
theorem readRequest_piped {env : Env} {data : Bytes} {new : Ref} (h : PipedAfter .clientRead s)
    (hs : SoundAfter b new .clientRead s.flow) (hc : s.isConnect = false)
    (hok : s.handleClientRead env (.bytes data) = .ok t) : Piped t.io.count t := by
  have hquiet : Quietly s (s.resetTimer.emit (.read data)) :=
    (Quietly.resetTimer s).trans (Quietly.emit _ rfl)
  have hidle := hquiet.idle (hs.idle (Or.inl rfl))
  have hpushed : queuedTo .upstream (s.resetTimer.emit (.read data)).log = [] :=
    (queuedTo_append .upstream s.log [.read data]).trans (by rw [h.plain hc]; rfl)
  have hconnect : (s.resetTimer.emit (.read data)).isConnect = false := hc
  unfold handleClientRead at hok
  dsimp only at hok
  generalize s.resetTimer.emit (.read data) = v at hok hidle hpushed hconnect
  have houtside {w : Session L} (hmute : Mute v w) (hcw : w.isConnect = false) : Piped w.io.count w := by
    refine ⟨fun _ => (pushed_grows hmute).trans hpushed, fun htunnel => ?_⟩
    rw [hcw] at htunnel
    cases htunnel
  have hfields (parser : HttpParser L) :
      Mute v { v with clientData := v.clientData ++ data, parser := parser } := .same rfl
  rw [if_neg (by simp [hconnect])] at hok
  split at hok
  · split at hok
    · rename_i req parser _
      let w : Session L := { v with clientData := v.clientData ++ data, parser := parser }
      have hidle : Idle b new w.flow := hidle
      obtain ⟨hsettled, hread, hreceive⟩ := settled_of_idle hidle hconnect
      refine handleRequest_piped (s := w) hpushed hconnect hsettled ?_ hok
      rw [hread, hreceive]
    · cases hok
      exact houtside ((hfields _).trans (Mute.finishes.readClient _)) hconnect
  · split at hok
    · cases hok
      exact houtside ((hfields _).trans (Mute.finishes.readClient _)) hconnect
    · cases hok
      exact houtside ((hfields _).trans (Mute.answers.answer _ _ _))
        ((Quietly.answers.answer _ _ _).tunnel.trans hconnect)

theorem handleClientRead_piped {env : Env} {o : Outcome} {new : Ref} (h : PipedAfter .clientRead s)
    (hs : SoundAfter b new .clientRead s.flow) (hok : s.handleClientRead env o = .ok t) :
    Piped t.io.count t := by
  have hclose : Piped s.close.io.count s.close :=
    h.rests (Aside.closes.close s) (Mute.closes.close s) fun _ _ => Nat.le_add_right _ _
  cases o with
  | bytes data =>
    cases hc : s.isConnect with
    | false => exact readRequest_piped h hs hc hok
    | true =>
      have htunnel : (s.resetTimer.emit (.read data)).isConnect = true := hc
      unfold handleClientRead at hok
      dsimp only at hok
      rw [if_pos htunnel] at hok
      cases hok
      exact readClient_piped h hc data
  | ok => cases hok; exact hclose
  | eof => cases hok; exact hclose
  | truncated => cases hok; exact hclose
  | aborted => cases hok; exact hclose
  | failed => cases hok; exact hclose

theorem handle_piped {env : Env} {o : Outcome} {new : Ref} (h : PipedAfter op s)
    (hs : SoundAfter b new op s.flow) (hdrained : Drained (fun k => s.io.count k + op.weight k) s)
    (hok : s.handle env op o = .ok t) : Piped t.io.count t := by
  have hle (k : OpKind) (_ : k ≠ .other) : s.io.count k ≤ s.io.count k + op.weight k := Nat.le_add_right _ _
  cases op with
  | timer => cases hok; exact handleTimeout_piped h hle o
  | resolve => cases hok; exact handleResolve_piped h o
  | connect => cases hok; exact handleConnected_piped h env o
  | clientRead => exact handleClientRead_piped h hs hok
  | upstreamRead =>
    cases hok
    exact handleUpstreamRead_piped h (hdrained.empty (Or.inr (Or.inr (Or.inl rfl)))) env o
  | upstreamWrite data => cases hok; exact handleUpstreamWrite_piped h o
  | decision a => cases hok; exact handleDecision_piped h
  | clientWrite data => cases hok; exact h.rests (.handleClientWrite s o) (.handleClientWrite s o) hle
  | serverWrite data => cases hok; exact h.rests (.handleServerWrite s o) (.handleServerWrite s o) hle
  | rawWrite data => cases hok; exact h.rests (.refl s) (.refl s) hle
  | established => cases hok; exact h.rests (.refl s) (.refl s) hle
  | clientHandshake => cases hok; exact h.rests (.refl s) (.refl s) hle
  | upstreamHandshake => cases hok; exact h.rests (.refl s) (.refl s) hle

/-! The steps of a session. -/

theorem complete_mute {k : ℕ} {o : Outcome} (hok : s.complete k o = some t) : Mute s t := by
  obtain ⟨op, io, hio, -, rfl⟩ := complete_spec hok
  refine ⟨_, rfl, fun e he => ?_⟩
  rcases Op.mem_completion he with ⟨data, -, -, rfl⟩ | ⟨-, -, rfl⟩ | ⟨-, -, rfl⟩ <;> rfl

theorem taken_piped (h : Piped s.io.count s) {k : ℕ} {o : Outcome} {io : Io}
    (hio : s.io.take k = some ((op, o), io)) : PipedAfter op { s with io := io } := by
  rw [Io.count_take hio] at h
  refine ⟨h.plain, fun hc => ?_⟩
  obtain ⟨hconnect, hup, hpassage, hasked, hdecision, hsend⟩ := h.tunnel hc
  exact ⟨hconnect, hup, hpassage, hasked, hdecision, hsend⟩

theorem decided_piped (h : Piped s.io.count s) {ref : Ref} (href : ref ∈ s.asked) (action : InterceptAction) :
    Piped (s.decided ref action).io.count (s.decided ref action) := by
  have hc : s.isConnect = false := by
    rw [← Bool.not_eq_true]
    intro hc
    rw [(h.tunnel hc).asked] at href
    cases href
  exact h.outside hc hc (Grows.snoc _ rfl)

theorem reached_piped {r : Running L} (h : (system L).Reached r) : Piped r.session.io.count r.session := by
  refine h.invariant_of (J := fun r => r.session.flow.Holds ∧ Drained r.session.io.count r.session)
    (I := fun r => Piped r.session.io.count r.session)
    (fun r hr => ⟨reached_holds hr, reached_drained hr⟩) ?_ ?_
  · rintro _ ⟨hasCertCache, rfl⟩
    exact ⟨fun _ => rfl, fun hc => by cases hc⟩
  · intro r a r' ⟨hs, hdrained⟩ hr _ hstep
    cases moves_of_step hstep with
    | complete ht => exact hr.rests (.complete ht) (complete_mute ht) fun _ _ => Nat.le_refl _
    | @handled _ env _ _ _ ht =>
      obtain ⟨op, o, io, hio, hhandle⟩ := dispatch_spec ht
      exact handle_piped (taken_piped hr hio) (taken_sound hs hio env.newRef) (hdrained.taken hio) hhandle
    | threw => exact hr
    | decide href => exact decided_piped hr href _
    | close => exact hr.rests (Aside.closes.close _) (Mute.closes.close _) fun _ _ => Nat.le_refl _

/-- What a tunnel has done with the bytes of both ends since its CONNECT request: of what it has put into
a queue all but the rest of the queue behind its first string was handed on. -/
structure Transparent (s : Session L) : Prop where
  connect : ∃ ref req, lastTaken s.log = some (ref, req) ∧ req.method = str "CONNECT"
  up : readSince s.log = sentTo .upstream s.log ++ s.writeServerQueue.tail
  down : queuedSince s.log = established :: receivedFor s.log ∨
    (queuedSince s.log = [] ∨ queuedSince s.log = [badGateway]) ∧ readSince s.log = [] ∧ receivedFor s.log = []
  order : queuedTo .client s.log = sentTo .client s.log ++ s.writeQueue.tail

end Session

/-- In every state of a run a session that has become a tunnel has written to the server exactly what it has
read from the client since, in order, but for what waits in its queue. Its client is told that the server was
reached and then gets exactly what came from the server, or it is told that the server was not reached, and
then nothing was read from either end. -/
theorem tunnel_transparent {L : Llhttp} {r : Session.Running L} (h : (Session.system L).Reached r)
    (hc : r.session.isConnect = true) : r.session.Transparent := by
  obtain ⟨hconnect, hup, hpassage, -, -, -⟩ := (Session.reached_piped h).tunnel hc
  have hone := Session.reached_oneAtATime h
  have hsplit {queue done : List Bytes} : done ++ queue = done ++ queue.take 1 ++ queue.tail := by
    rw [List.append_assoc]
    cases queue <;> rfl
  obtain ⟨done, hqueued, hsent⟩ := hone.serverOrder
  obtain ⟨done', hqueued', hsent'⟩ := hone.clientOrder
  refine ⟨hconnect, ?_, ?_, ?_⟩
  · rw [← hup, hqueued, hsent]
    exact hsplit
  · cases hpassage with
    | dialling queued reads received => exact .inr ⟨.inl queued, reads, received⟩
    | refused queued reads received => exact .inr ⟨.inr queued, reads, received⟩
    | opened queued => exact .inl queued
  · rw [hqueued', hsent']
    exact hsplit

section Examples

open Session (started env1)
open Connection (connecting connectMessage)

/-- The server is reached, and a byte comes from each end. -/
def tunnelRun : List Session.Label :=
  [.complete 1 (.bytes connectMessage.message.wire), .dispatch 0 {}, .complete 1 .ok, .dispatch 1 env1,
    .complete 1 .ok, .dispatch 1 env1, .complete 2 (.bytes [104]), .dispatch 1 env1,
    .complete 1 (.bytes [105])]

theorem tunnel_transparent_tunnelRun : ∃ r, (Session.system connecting).run { session := started false }
    tunnelRun = some r ∧ r.session.isConnect = true ∧ r.session.Transparent := by
  have hrun : ((Session.system connecting).run { session := started false } tunnelRun).any
      (fun r => r.session.isConnect) = true := by decide
  obtain ⟨r, hr, hc⟩ := (Option.any_eq_true _ _).mp hrun
  exact ⟨r, hr, hc, tunnel_transparent (.run (.init ⟨false, rfl⟩) hr) hc⟩

end Examples

end BurpTUI
