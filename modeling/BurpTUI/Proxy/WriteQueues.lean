import BurpTUI.Base.SerialWriter
import BurpTUI.Proxy.Aside
import BurpTUI.Proxy.MitmFlow
import BurpTUI.Proxy.SessionFlow

namespace BurpTUI

/-- The string that an effect puts into the queue of a stream. -/
def Effect.queuedTo : Side → Effect → Option Bytes
  | .client, .queued _ data => some data
  | .upstream, .pushed data => some data
  | _, _ => none

def Effect.sentTo : Side → Effect → Option Bytes
  | .client, .sent .client data => some data
  | .upstream, .sent .upstream data => some data
  | _, _ => none

/-- The strings that were put into the queue of a stream, in order. -/
def queuedTo (side : Side) (log : List Effect) : List Bytes := log.filterMap (Effect.queuedTo side)

/-- The strings that were handed to a stream, in order. -/
def sentTo (side : Side) (log : List Effect) : List Bytes := log.filterMap (Effect.sentTo side)

/-- The writes that take their string from a queue. The request of a plain session does not. -/
def Op.writesTo : Side → Op → Bool
  | .client, .clientWrite _ => true
  | .upstream, .serverWrite _ => true
  | _, _ => false

def Io.writes (io : Io) (side : Side) : ℕ := io.outstanding (Op.writesTo side)

@[simp] theorem Io.writes_start (io : Io) (op : Op) (side : Side) :
    Io.writes (io.start op) side = io.writes side + (op.writesTo side).toNat :=
  Executor.outstanding_start io op _

@[simp] theorem Io.writes_post (io : Io) (op : Op) (o : Outcome) (side : Side) :
    Io.writes (io.post op o) side = io.writes side + (op.writesTo side).toNat :=
  Executor.outstanding_post io op o _

@[simp] theorem Io.writes_cancel (io : Io) (p : Op → Bool) (o : Outcome) (side : Side) :
    Io.writes (io.cancel p o) side = io.writes side := Executor.outstanding_cancel io p o _

theorem Io.writes_complete {io io' : Io} {k : ℕ} {o : Outcome} {op : Op}
    (h : io.complete k o = some (op, io')) : io'.writes = io.writes :=
  funext fun side => Executor.outstanding_complete h (Op.writesTo side)

theorem Io.writes_take {io io' : Io} {k : ℕ} {op : Op} {o : Outcome}
    (h : io.take k = some ((op, o), io')) :
    io.writes = fun side => io'.writes side + (op.writesTo side).toNat :=
  funext fun side => Executor.outstanding_take h (Op.writesTo side)

theorem Op.writesTo_of_kind {op : Op} (hop : op.kind ≠ .other) (side : Side) : op.writesTo side = false := by
  cases side <;> cases op <;> first | rfl | exact absurd rfl hop

/-- Effects that concern a write queue. -/
def Effect.queueing : Effect → Bool
  | .queued _ _ => true
  | .pushed _ => true
  | .sent _ _ => true
  | _ => false

@[simp] theorem queuedTo_append (side : Side) (log es : List Effect) :
    queuedTo side (log ++ es) = queuedTo side log ++ queuedTo side es := List.filterMap_append

@[simp] theorem sentTo_append (side : Side) (log es : List Effect) :
    sentTo side (log ++ es) = sentTo side log ++ sentTo side es := List.filterMap_append

@[simp] theorem queuedTo_nil (side : Side) : queuedTo side [] = [] := rfl

@[simp] theorem sentTo_nil (side : Side) : sentTo side [] = [] := rfl

@[simp] theorem queuedTo_cons (side : Side) (e : Effect) (es : List Effect) :
    queuedTo side (e :: es) = (e.queuedTo side).toList ++ queuedTo side es := by
  unfold queuedTo
  cases h : e.queuedTo side <;> simp [h]

@[simp] theorem sentTo_cons (side : Side) (e : Effect) (es : List Effect) :
    sentTo side (e :: es) = (e.sentTo side).toList ++ sentTo side es := by
  unfold sentTo
  cases h : e.sentTo side <;> simp [h]

theorem queuedTo_silent {es : List Effect} (hes : ∀ e ∈ es, e.queueing = false) (side : Side) :
    queuedTo side es = [] := by
  rw [queuedTo, List.filterMap_eq_nil_iff]
  intro e he
  have hsilent := hes e he
  cases side <;> cases e <;> first | rfl | cases hsilent

theorem sentTo_silent {es : List Effect} (hes : ∀ e ∈ es, e.queueing = false) (side : Side) :
    sentTo side es = [] := by
  rw [sentTo, List.filterMap_eq_nil_iff]
  intro e he
  have hsilent := hes e he
  cases side <;> cases e <;> first | rfl | cases hsilent

theorem Op.completion_queueing (op : Op) (o : Outcome) : ∀ e ∈ op.completion o, e.queueing = false := by
  intro e he
  rcases Op.mem_completion he with ⟨data, -, -, rfl⟩ | ⟨-, -, rfl⟩ | ⟨-, -, rfl⟩ <;> rfl

namespace Session

open BurpTUI.Flow (Idle Cleared Sound SoundAfter)

variable {L : Llhttp} {b : Flow} {new ref : Ref} {s t u : Session L} {op : Op} {m : Side → ℕ}

/-- Both write queues work, with `m side` writes outstanding. Only when everything is closed is the
write of a tunnel aborted. -/
structure Queues (m : Side → ℕ) (s : Session L) : Prop where
  client : SerialWriter (s.clientOpen = true) s.writeQueue (m .client)
    (queuedTo .client s.log) (sentTo .client s.log)
  server : SerialWriter (s.clientOpen = true) s.writeServerQueue (m .upstream)
    (queuedTo .upstream s.log) (sentTo .upstream s.log)
  aborted : s.clientOpen = true → ∀ data, (Op.serverWrite data, Outcome.aborted) ∉ s.io.ready

/-- The queue of the tunnel is not used. -/
structure Untunnelled (m : Side → ℕ) (s : Session L) : Prop where
  queue : s.writeServerQueue = []
  writes : m .upstream = 0

/-- Whatever is done to the queues from `s` to `t` is done properly, and not to that of the tunnel.
`d` counts writes whose handler runs. -/
structure Keeps (s t : Session L) : Prop where
  queues : ∀ d : Side → ℕ, Queues (fun side => s.io.writes side + d side) s →
    Queues (fun side => t.io.writes side + d side) t
  untunnelled : Untunnelled s.io.writes s → Untunnelled t.io.writes t

namespace Keeps

theorem refl (s : Session L) : Keeps s s := ⟨fun _ => id, id⟩

theorem trans (h : Keeps s t) (h' : Keeps t u) : Keeps s u :=
  ⟨fun d hs => h'.queues d (h.queues d hs), fun hs => h'.untunnelled (h.untunnelled hs)⟩

/-- The queues are left alone. -/
theorem silent (hqueue : t.writeQueue = s.writeQueue) (hserver : t.writeServerQueue = s.writeServerQueue)
    (hopen : t.clientOpen = true → s.clientOpen = true) (hwrites : t.io.writes = s.io.writes)
    (hready : t.clientOpen = true →
      ∀ data, (Op.serverWrite data, Outcome.aborted) ∈ t.io.ready → (Op.serverWrite data, .aborted) ∈ s.io.ready)
    (hlog : ∃ es, t.log = s.log ++ es ∧ ∀ e ∈ es, e.queueing = false) : Keeps s t := by
  obtain ⟨es, hlog, hes⟩ := hlog
  have hqueued (side : Side) : queuedTo side t.log = queuedTo side s.log := by
    rw [hlog, queuedTo_append, queuedTo_silent hes, List.append_nil]
  have hsent (side : Side) : sentTo side t.log = sentTo side s.log := by
    rw [hlog, sentTo_append, sentTo_silent hes, List.append_nil]
  refine ⟨fun d h => ⟨?_, ?_, fun ho data hmem => ?_⟩, fun h => ⟨?_, ?_⟩⟩
  · rw [hqueue, hwrites, hqueued, hsent]
    exact h.client.mono hopen
  · rw [hserver, hwrites, hqueued, hsent]
    exact h.server.mono hopen
  · exact h.aborted (hopen ho) data (hready ho data hmem)
  · rw [hserver]
    exact h.queue
  · rw [hwrites]
    exact h.writes

theorem emit (s : Session L) {e : Effect} (he : e.queueing = false) : Keeps s (s.emit e) :=
  silent rfl rfl id rfl (fun _ _ => id) ⟨[e], rfl, by simpa using he⟩

theorem start (s : Session L) {op : Op} (hop : ∀ side, op.writesTo side = false) :
    Keeps s (s.start op) := by
  refine silent rfl rfl id ?_ (fun _ _ => id) ⟨[], (List.append_nil _).symm, by simp⟩
  funext side
  rw [Session.start, Io.writes_start, hop]
  rfl

theorem cancel (s : Session L) {p : Op → Bool} (hp : ∀ data, p (.serverWrite data) = false) :
    Keeps s (s.cancel p) := by
  refine silent rfl rfl id ?_ (fun _ data hmem => ?_) ⟨[], (List.append_nil _).symm, by simp⟩
  · funext side
    exact Io.writes_cancel s.io p .aborted side
  · rcases List.mem_append.mp hmem with hmem | hmem
    · exact hmem
    · obtain ⟨op, hop, heq⟩ := List.mem_map.mp hmem
      cases heq
      simp [hp] at hop

/-- The socket of the server is used by no tunnel, or the client is gone. -/
theorem cancelServer (s : Session L) (h : Untunnelled s.io.writes s ∨ s.clientOpen = false) :
    Keeps s (s.cancel Op.onServerSocket) := by
  refine silent rfl rfl id ?_ (fun ho data hmem => ?_) ⟨[], (List.append_nil _).symm, by simp⟩
  · funext side
    exact Io.writes_cancel s.io _ .aborted side
  · rcases List.mem_append.mp hmem with hmem | hmem
    · exact hmem
    · obtain ⟨op, hop, heq⟩ := List.mem_map.mp hmem
      cases heq
      have hpending : .serverWrite data ∈ s.io.pending := (List.mem_filter.mp hop).1
      rcases h with h | h
      · have hzero : s.io.pending.countP (Op.writesTo .upstream) = 0 := by
          have hwrites := h.writes
          simp only [Io.writes, Executor.outstanding] at hwrites
          omega
        have hnot := List.countP_eq_zero.mp hzero _ hpending
        exact absurd rfl hnot
      · exact absurd (show s.clientOpen = true from ho) (by simp [h])

theorem cancelTimer (s : Session L) : Keeps s s.cancelTimer := cancel s fun _ => rfl

theorem resetTimer (s : Session L) : Keeps s s.resetTimer :=
  (cancelTimer s).trans (start _ fun side => by cases side <;> rfl)

theorem closeClient (s : Session L) : Keeps s s.closeClient := by
  unfold Session.closeClient
  split
  · have hfield : Keeps s { s with clientOpen := false } :=
      silent rfl rfl (fun h => by cases h) rfl (fun _ _ => id) ⟨[], (List.append_nil _).symm, by simp⟩
    exact (hfield.trans (cancel _ fun _ => rfl)).trans (emit _ rfl)
  · exact refl s

theorem closeServer (s : Session L) (h : Untunnelled s.io.writes s ∨ s.clientOpen = false) :
    Keeps s s.closeServer := by
  unfold Session.closeServer
  split
  · have hfield : Keeps s { s with serverOpen := false } :=
      silent rfl rfl id rfl (fun _ _ => id) ⟨[], (List.append_nil _).symm, by simp⟩
    refine hfield.trans (cancelServer _ (h.imp_left fun h => ?_))
    exact ⟨h.queue, h.writes⟩
  · exact refl s

theorem removeFromQueue (s : Session L) : Keeps s s.removeFromQueue := by
  unfold Session.removeFromQueue
  split
  · exact emit s rfl
  · exact refl s

theorem closeClient_closed (s : Session L) : s.closeClient.clientOpen = false := by
  unfold Session.closeClient
  split
  · rfl
  · rename_i h
    simpa using h

theorem close (s : Session L) : Keeps s s.close :=
  (((cancelTimer s).trans (removeFromQueue _)).trans (closeClient _)).trans
    (closeServer _ (Or.inr (closeClient_closed _)))

theorem respond (s : Session L) (origin : Origin) (response : HttpResponse) :
    Keeps s (s.respond origin response) :=
  silent rfl rfl id rfl (fun _ _ => id) ⟨[_], rfl, by simp [Effect.queueing]⟩

theorem writeClient (s : Session L) (origin : Origin) (data : Bytes) :
    Keeps s (s.writeClient origin data) := by
  unfold Session.writeClient
  dsimp only
  cases hqueue : s.writeQueue with
  | nil =>
    rw [List.isEmpty_nil, if_pos rfl]
    refine ⟨fun d h => ⟨?_, ?_, h.aborted⟩, fun h => ⟨h.queue, ?_⟩⟩
    · have hclient := h.client
      rw [hqueue] at hclient
      have hfirst := hclient.first data
      rw [Nat.add_right_comm] at hfirst
      simpa [Session.doClientWrite, Session.emit, Session.start, Effect.queuedTo, Effect.sentTo,
        Op.writesTo] using hfirst
    · simpa [Session.doClientWrite, Session.emit, Session.start, Effect.queuedTo, Effect.sentTo,
        Op.writesTo] using h.server
    · simpa [Session.doClientWrite, Session.emit, Session.start, Op.writesTo] using h.writes
  | cons first rest =>
    rw [List.isEmpty_cons, if_neg (by simp)]
    refine ⟨fun d h => ⟨?_, ?_, h.aborted⟩, fun h => ⟨h.queue, h.writes⟩⟩
    · have hbehind := h.client.behind (by simp [hqueue]) data
      simpa [Session.emit, Effect.queuedTo, Effect.sentTo, hqueue] using hbehind
    · simpa [Session.emit, Effect.queuedTo, Effect.sentTo] using h.server

/-- Every response of the proxy itself is made in this way. -/
theorem answer (s : Session L) (response : HttpResponse) (data : Bytes) :
    Keeps s ({ s.respond .generated response with closeAfterWrite := true }.writeClient
      .generated data) := by
  have hflag : Keeps (s.respond .generated response)
      { s.respond .generated response with closeAfterWrite := true } :=
    silent rfl rfl id rfl (fun _ _ => id) ⟨[], (List.append_nil _).symm, by simp⟩
  exact ((respond s _ _).trans hflag).trans (writeClient _ _ _)

theorem fields (hqueue : t.writeQueue = s.writeQueue) (hserver : t.writeServerQueue = s.writeServerQueue)
    (hopen : t.clientOpen = s.clientOpen) (hio : t.io = s.io) (hlog : t.log = s.log) : Keeps s t :=
  silent hqueue hserver (fun h => hopen ▸ h) (by rw [hio]) (fun _ _ => by rw [hio]; exact id)
    ⟨[], by rw [hlog, List.append_nil], by simp⟩

/-- An operation that carries an exchange is started. -/
theorem start_kind (s : Session L) (op : Op) (hop : op.kind ≠ .other) : Keeps s (s.start op) :=
  start s (Op.writesTo_of_kind hop)

theorem handleTimeout (h : s.isConnect = false → Untunnelled s.io.writes s) (o : Outcome) :
    Keeps s (s.handleTimeout o) := by
  unfold Session.handleTimeout
  split
  · exact refl s
  · split
    · rename_i hexpired
      have hcancel : Keeps s (s.cancel (· == .resolve)) := cancel s fun _ => rfl
      have hserver := cancelServer (s.cancel (· == .resolve))
        (Or.inl (hcancel.untunnelled (h hexpired.2.2)))
      dsimp only
      split
      · exact (hcancel.trans hserver).trans (answer _ _ _)
      · exact hcancel.trans (answer _ _ _)
    · exact close s

theorem dials : AllowsDial (Keeps (L := L)) where
  refl := refl
  trans := trans
  error s _ _ _ := answer s _ _
  serverOpen _ := fields rfl rfl rfl rfl rfl
  store _ _ := fields rfl rfl rfl rfl rfl
  handed s _ _ := emit s rfl
  start s op hop := start_kind s op fun h => by simp [h] at hop

theorem finishes : AllowsFinish (Keeps (L := L)) where
  refl := refl
  trans := trans
  respond s response := respond s _ response
  parser _ _ := fields rfl rfl rfl rfl rfl
  renew _ := fields rfl rfl rfl rfl rfl
  flag _ := fields rfl rfl rfl rfl rfl
  readClient s := start_kind s _ (by simp [Op.kind])
  readUpstream s := start_kind s _ (by simp [Op.kind])

theorem takes : AllowsTake (Keeps (L := L)) where
  refl := refl
  trans := trans
  target _ _ _ _ := fields rfl rfl rfl rfl rfl
  route _ _ _ := fields rfl rfl rfl rfl rfl
  tested s _ _ := emit s rfl
  connected s response := respond s _ response
  -- the socket of the client goes to another session
  spawn s _ _ := (cancelTimer s).trans <|
    silent rfl rfl (fun h => by cases h) rfl (fun _ _ => id) ⟨[_], rfl, by simp [Effect.queueing]⟩
  tunnel _ := fields rfl rfl rfl rfl rfl
  resolve s := start_kind s _ (by simp [Op.kind])

theorem forwardRequest (h : Untunnelled s.io.writes s) : Keeps s s.forwardRequest :=
  dials.forwardRequest (closeServer s (.inl h))

theorem handleConnected (s : Session L) (env : Env) (o : Outcome) : Keeps s (s.handleConnected env o) :=
  dials.handleConnected (writeClient s _ _) finishes.readClient env o

theorem handleUpstreamRead (s : Session L) (env : Env) (o : Outcome) :
    Keeps s (s.handleUpstreamRead env o) :=
  finishes.handleUpstreamRead close
    (fun _ => ((resetTimer s).trans (emit _ rfl)).trans (writeClient _ _ _)) env o

theorem handleDecision (h : Untunnelled s.io.writes s) (action : InterceptAction) :
    Keeps s (s.handleDecision action) :=
  dials.handleDecision (resetTimer s) (closeServer _ (.inl ((resetTimer s).untunnelled h))) action

theorem handleUpstreamRoute (h : Untunnelled s.io.writes s) (env : Env) (host port : Bytes) (k : ℤ) :
    Keeps s (s.handleUpstreamRoute env host port k) := by
  refine takes.handleUpstreamRoute (fun s _ => (cancelTimer s).trans ?_)
    (fun t ht => forwardRequest (ht.untunnelled h)) env host port k
  exact silent rfl rfl id rfl (fun _ _ => id) ⟨[_], rfl, by simp [Effect.queueing]⟩

theorem handleRequest (h : Untunnelled s.io.writes s) {env : Env} {req : HttpRequest}
    (hok : s.handleRequest env req = .ok t) : Keeps s t := by
  refine handleRequest_of takes.toChain ?_ takes.handleConnect (fun s => answer s _ _)
    (fun s => serveCaCert_of (answer s) env) (fun s => answer s _ _)
    (fun t ht => handleUpstreamRoute (ht.untunnelled h) env) hok
  exact silent rfl rfl id rfl (fun _ _ => id) ⟨[_], rfl, by simp [Effect.queueing]⟩

end Keeps

/-- In a tunnel reading goes on in both directions at once. -/
structure Tunnel (m : Side → ℕ) (n : OpKind → ℕ) (s : Session L) : Prop where
  read : n .dial + n .read ≤ 1
  receive : n .dial + n .receive ≤ 1
  send : n .send = 0
  dial : 0 < n .dial → Untunnelled m s

/-- The invariant, with `m side` queued writes and `n k` operations of each kind outstanding. -/
structure Orderly (m : Side → ℕ) (n : OpKind → ℕ) (s : Session L) : Prop where
  queues : Queues m s
  plain : s.isConnect = false → Untunnelled m s
  tunnel : s.isConnect = true → Tunnel m n s

/-- The invariant while the handler of `op` runs. -/
abbrev OrderlyAfter (op : Op) (s : Session L) : Prop :=
  Orderly (fun side => s.io.writes side + (op.writesTo side).toNat)
    (fun k => s.io.count k + op.weight k) s

namespace Orderly

variable {n n' : OpKind → ℕ}

/-- The queues are used properly, and in a tunnel no more is outstanding than before. -/
theorem keep (h : Orderly s.io.writes n s) (hk : Keeps s t) (hc : t.isConnect = s.isConnect)
    (hn : s.isConnect = true → ∀ k, k ≠ .other → n' k ≤ n k) : Orderly t.io.writes n' t := by
  refine ⟨hk.queues (fun _ => 0) h.queues, fun hplain => hk.untunnelled (h.plain (hc ▸ hplain)), fun htunnel => ?_⟩
  rw [hc] at htunnel
  obtain ⟨hread, hreceive, hsend, hdial⟩ := h.tunnel htunnel
  have hle := hn htunnel
  have hd := hle .dial (by simp)
  have hr := hle .read (by simp)
  have hv := hle .receive (by simp)
  have hs := hle .send (by simp)
  exact ⟨by omega, by omega, by omega, fun hpos => hk.untunnelled (hdial (by omega))⟩

theorem quietly (h : Orderly s.io.writes n s) (hk : Keeps s t) (hq : Quietly s t)
    (hn : ∀ k, s.io.count k ≤ n k) : Orderly t.io.writes t.io.count t := by
  refine h.keep hk hq.tunnel fun _ k hk => ?_
  rw [show t.io.count k = s.io.count k from hq.count k hk]
  exact hn k

/-- Another operation of the same kind is started. -/
theorem again (h : Orderly s.io.writes (fun k => s.io.count k + op.weight k) s) (hk : Keeps s t)
    (hq : Quietly s t) {p : Op} (hop : op.kind ≠ .other) (hkind : p.kind = op.kind) :
    Orderly (t.start p).io.writes (t.start p).io.count (t.start p) := by
  have hother : p.kind ≠ .other := hkind ▸ hop
  refine h.keep (hk.trans (Keeps.start_kind t _ hother)) hq.tunnel fun _ k hk => ?_
  rw [Session.start, Io.count_start, show t.io.count k = s.io.count k from hq.count k hk]
  simp [Op.weight, hkind]

end Orderly

theorem Tunnel.keep {n n' : OpKind → ℕ} (h : Tunnel m n s) (hn : ∀ k, k ≠ .other → n' k ≤ n k)
    {m' : Side → ℕ} (hu : Untunnelled m s → Untunnelled m' t) : Tunnel m' n' t := by
  have hd := hn .dial (by simp)
  have hr := hn .read (by simp)
  have hv := hn .receive (by simp)
  have hs := hn .send (by simp)
  obtain ⟨hread, hreceive, hsend, hdial⟩ := h
  exact ⟨by omega, by omega, by omega, fun hpos => hu (hdial (by omega))⟩

/-- The write of the first string in the queue is over. -/
theorem handleClientWrite_orderly {data : Bytes} (h : OrderlyAfter (.clientWrite data) s) (o : Outcome) :
    Orderly (s.handleClientWrite o).io.writes (s.handleClientWrite o).io.count (s.handleClientWrite o) := by
  have hq := Quietly.handleClientWrite s o
  have hclose := Keeps.close s
  -- the tunnel is not concerned
  suffices hqueues : Queues (s.handleClientWrite o).io.writes (s.handleClientWrite o) ∧
      (Untunnelled s.io.writes s → Untunnelled (s.handleClientWrite o).io.writes (s.handleClientWrite o)) by
    obtain ⟨hqueues, hu⟩ := hqueues
    refine ⟨hqueues, fun hc => ?_, fun hc => ?_⟩
    · rw [show (s.handleClientWrite o).isConnect = s.isConnect from hq.tunnel] at hc
      exact hu ⟨(h.plain hc).queue, (h.plain hc).writes⟩
    · rw [show (s.handleClientWrite o).isConnect = s.isConnect from hq.tunnel] at hc
      refine (h.tunnel hc).keep (fun k hk => ?_) fun hs => hu ⟨hs.queue, hs.writes⟩
      rw [show (s.handleClientWrite o).io.count k = s.io.count k from hq.count k hk]
      exact Nat.le_add_right _ _
  unfold Session.handleClientWrite
  split
  · have hclosed := hclose.queues _ h.queues
    refine ⟨⟨?_, hclosed.server, hclosed.aborted⟩, hclose.untunnelled⟩
    exact hclosed.client.fail (by simp [close_closed])
  · have hclient : SerialWriter (s.clientOpen = true) s.writeQueue (s.io.writes .client + 1)
        (queuedTo .client s.log) (sentTo .client s.log) := h.queues.client
    dsimp only
    -- the write that is over was the only one
    cases htail : s.writeQueue.tail with
    | nil =>
      let v : Session L := { s with writeQueue := [] }
      have hv : Queues v.io.writes v := ⟨hclient.last htail, h.queues.server, h.queues.aborted⟩
      have hu (hs : Untunnelled s.io.writes s) : Untunnelled v.io.writes v := ⟨hs.queue, hs.writes⟩
      rw [if_neg (by simp)]
      split
      · exact ⟨(Keeps.close v).queues (fun _ => 0) hv, fun hs => (Keeps.close v).untunnelled (hu hs)⟩
      · exact ⟨hv, hu⟩
    | cons first rest =>
      have hnext := hclient.next htail
      rw [if_pos (by simp)]
      refine ⟨⟨?_, ?_, h.queues.aborted⟩, fun hs => ⟨hs.queue, ?_⟩⟩
      · simpa [Session.doClientWrite, Session.emit, Session.start, Effect.queuedTo, Effect.sentTo,
          Op.writesTo] using hnext
      · simpa [Session.doClientWrite, Session.emit, Session.start, Effect.queuedTo, Effect.sentTo,
          Op.writesTo] using h.queues.server
      · simpa [Session.doClientWrite, Session.emit, Session.start, Op.writesTo] using hs.writes

/-- The same in the tunnel. An aborted write leaves the queue of a closed session as it is. -/
theorem handleServerWrite_orderly {data : Bytes} (h : OrderlyAfter (.serverWrite data) s) {o : Outcome}
    (haborted : o = .aborted → s.clientOpen = false) :
    Orderly (s.handleServerWrite o).io.writes (s.handleServerWrite o).io.count (s.handleServerWrite o) := by
  have hq := Quietly.handleServerWrite s o
  have hclose := Keeps.close s
  have hserver : SerialWriter (s.clientOpen = true) s.writeServerQueue (s.io.writes .upstream + 1)
      (queuedTo .upstream s.log) (sentTo .upstream s.log) := h.queues.server
  -- a write of the tunnel is outstanding, so that this is one, and the server has been reached
  have hc : s.isConnect = true := by
    by_contra hplain
    have hnone := (h.plain (by simpa using hplain)).writes
    simp [Op.writesTo] at hnone
  have hdialed : s.io.count .dial = 0 := by
    by_contra hpos
    have hnone := ((h.tunnel hc).dial (by omega)).writes
    simp [Op.writesTo] at hnone
  suffices hqueues : Queues (s.handleServerWrite o).io.writes (s.handleServerWrite o) by
    have hcount (k : OpKind) (hk : k ≠ .other) : (s.handleServerWrite o).io.count k = s.io.count k :=
      hq.count k hk
    have htunnel := h.tunnel hc
    refine ⟨hqueues, fun hplain => ?_, fun _ => ⟨?_, ?_, ?_, fun hd => ?_⟩⟩
    · rw [show (s.handleServerWrite o).isConnect = s.isConnect from hq.tunnel, hc] at hplain
      cases hplain
    · rw [hcount _ (by simp), hcount _ (by simp)]
      exact htunnel.read
    · rw [hcount _ (by simp), hcount _ (by simp)]
      exact htunnel.receive
    · rw [hcount _ (by simp)]
      exact htunnel.send
    · rw [hcount _ (by simp)] at hd
      omega
  unfold Session.handleServerWrite
  split
  · dsimp only
    cases htail : s.writeServerQueue.tail with
    | nil =>
      rw [if_neg (by simp)]
      exact ⟨h.queues.client, hserver.last htail, h.queues.aborted⟩
    | cons first rest =>
      have hnext := hserver.next htail
      rw [if_pos (by simp)]
      refine ⟨?_, ?_, h.queues.aborted⟩
      · simpa [Session.doServerWrite, Session.emit, Session.start, Effect.queuedTo, Effect.sentTo,
          Op.writesTo] using h.queues.client
      · simpa [Session.doServerWrite, Session.emit, Session.start, Effect.queuedTo, Effect.sentTo,
          Op.writesTo] using hnext
  · split
    · rename_i ho
      have hclosed := haborted ho
      exact ⟨h.queues.client, hserver.fail (by simp [hclosed]), h.queues.aborted⟩
    · have hclosed := hclose.queues _ h.queues
      refine ⟨hclosed.client, ?_, hclosed.aborted⟩
      exact hclosed.server.fail (by simp [close_closed])

theorem writeServerBlind_queues {d : Side → ℕ} (h : Queues (fun side => s.io.writes side + d side) s)
    (data : Bytes) : Queues (fun side => (s.writeServerBlind data).io.writes side + d side)
      (s.writeServerBlind data) := by
  unfold Session.writeServerBlind
  dsimp only
  cases hqueue : s.writeServerQueue with
  | nil =>
    have hserver := h.server
    rw [hqueue] at hserver
    have hfirst := hserver.first data
    rw [Nat.add_right_comm] at hfirst
    rw [List.isEmpty_nil, if_pos rfl]
    refine ⟨?_, ?_, h.aborted⟩
    · simpa [Session.doServerWrite, Session.emit, Session.start, Effect.queuedTo, Effect.sentTo,
        Op.writesTo] using h.client
    · simpa [Session.doServerWrite, Session.emit, Session.start, Effect.queuedTo, Effect.sentTo,
        Op.writesTo] using hfirst
  | cons first rest =>
    have hbehind := h.server.behind (by simp [hqueue]) data
    rw [List.isEmpty_cons, if_neg (by simp)]
    refine ⟨?_, ?_, h.aborted⟩
    · simpa [Session.emit, Effect.queuedTo, Effect.sentTo] using h.client
    · simpa [Session.emit, Effect.queuedTo, Effect.sentTo, hqueue] using hbehind

namespace OrderlyAfter

/-- The handlers of operations that take nothing from a queue. -/
theorem unqueued (h : OrderlyAfter op s) (hop : ∀ side, op.writesTo side = false) :
    Orderly s.io.writes (fun k => s.io.count k + op.weight k) s := by
  have hwrites : (fun side => s.io.writes side + (op.writesTo side).toNat) = s.io.writes := by
    funext side
    rw [hop]
    rfl
  unfold OrderlyAfter at h
  rwa [hwrites] at h

theorem untunnelled (h : Orderly s.io.writes (fun k => s.io.count k + op.weight k) s)
    (hop : op.kind = .dial) : Untunnelled s.io.writes s := by
  cases hc : s.isConnect with
  | false => exact h.plain hc
  | true =>
    apply (h.tunnel hc).dial
    simp [Op.weight, hop]

end OrderlyAfter

/-- Outside of a tunnel only the queues count. -/
theorem Orderly.outside {n l : OpKind → ℕ} (h : Orderly s.io.writes n s) (hk : Keeps s t)
    (hc : s.isConnect = false) (hc' : t.isConnect = false) : Orderly t.io.writes l t := by
  refine ⟨hk.queues (fun _ => 0) h.queues, fun _ => hk.untunnelled (h.plain hc), fun htunnel => ?_⟩
  rw [hc'] at htunnel
  cases htunnel

theorem handleResolve_orderly (h : OrderlyAfter .resolve s) (o : Outcome) :
    Orderly (s.handleResolve o).io.writes (s.handleResolve o).io.count (s.handleResolve o) := by
  have hplain := OrderlyAfter.unqueued h (Op.writesTo_of_kind (by simp [Op.kind]))
  have hu := OrderlyAfter.untunnelled hplain rfl
  have hle (k : OpKind) : s.io.count k ≤ s.io.count k + Op.resolve.weight k := Nat.le_add_right _ _
  unfold Session.handleResolve handleUpstreamConnect
  split
  · have hopened : Quietly s { s.closeServer with serverOpen := true } := by
      have hfield : Quietly s.closeServer { s.closeServer with serverOpen := true } := .of_flow rfl
      exact (Quietly.closes.closeServer s).trans hfield
    have hkeeps : Keeps s { s.closeServer with serverOpen := true } :=
      (Keeps.closeServer s (Or.inl hu)).trans (Keeps.fields rfl rfl rfl rfl rfl)
    exact hplain.again hkeeps hopened (p := .connect) (by simp [Op.kind]) rfl
  · exact hplain.quietly (Keeps.answer s _ _) (Quietly.answers.sendErrorResponse s _ _) hle

theorem handleConnected_orderly (h : OrderlyAfter .connect s) (env : Env) (o : Outcome) :
    Orderly (s.handleConnected env o).io.writes (s.handleConnected env o).io.count
      (s.handleConnected env o) := by
  have hplain := OrderlyAfter.unqueued h (Op.writesTo_of_kind (by simp [Op.kind]))
  have hle (k : OpKind) : s.io.count k ≤ s.io.count k + Op.connect.weight k := Nat.le_add_right _ _
  have hkeeps := Keeps.handleConnected s env o
  unfold Session.handleConnected at hkeeps ⊢
  by_cases ho : o ≠ .ok
  · rw [if_pos ho]
    exact hplain.quietly (Keeps.answer s _ _) (Quietly.answers.sendErrorResponse s _ _) hle
  · rw [if_neg ho] at hkeeps ⊢
    by_cases hc : s.isConnect = true
    · -- the tunnel starts to read from both sides
      rw [if_pos hc] at hkeeps ⊢
      have hq := Quietly.writeClient s .generated established
      have hcount (k : OpKind) (hk : k ≠ .other) :
          (s.writeClient .generated established).readClient.readUpstream.io.count k =
            s.io.count k + Op.clientRead.weight k + Op.upstreamRead.weight k := by
        rw [Session.readUpstream, Session.start, Io.count_start, Session.readClient, Session.start,
          Io.count_start, show (s.writeClient .generated established).io.count k = s.io.count k from
            hq.count k hk]
      obtain ⟨hread, hreceive, hsend, -⟩ := hplain.tunnel hc
      simp only [Op.weight, Op.kind, if_true, reduceCtorEq, if_false] at hread hreceive hsend
      have hdial := OrderlyAfter.untunnelled hplain rfl
      refine ⟨hkeeps.queues (fun _ => 0) hplain.queues, fun _ => hkeeps.untunnelled hdial,
        fun _ => ⟨?_, ?_, ?_, fun _ => hkeeps.untunnelled hdial⟩⟩
      · rw [hcount _ (by simp), hcount _ (by simp)]
        simp only [Op.weight, Op.kind, if_true, reduceCtorEq, if_false]
        omega
      · rw [hcount _ (by simp), hcount _ (by simp)]
        simp only [Op.weight, Op.kind, if_true, reduceCtorEq, if_false]
        omega
      · rw [hcount _ (by simp)]
        simp only [Op.weight, Op.kind, reduceCtorEq, if_false]
        omega
    · rw [if_neg hc] at hkeeps ⊢
      have hc : s.isConnect = false := by simpa using hc
      exact hplain.outside hkeeps hc hc

theorem handleUpstreamWrite_orderly {data : Bytes} (h : OrderlyAfter (.upstreamWrite data) s) (o : Outcome) :
    Orderly (s.handleUpstreamWrite o).io.writes (s.handleUpstreamWrite o).io.count
      (s.handleUpstreamWrite o) := by
  have hplain := OrderlyAfter.unqueued h (Op.writesTo_of_kind (by simp [Op.kind]))
  have hle (k : OpKind) : s.io.count k ≤ s.io.count k + (Op.upstreamWrite data).weight k :=
    Nat.le_add_right _ _
  have hkeeps := Keeps.dials.handleUpstreamWrite s o
  have hc : s.isConnect = false := by
    by_contra hc
    have hsend := (hplain.tunnel (by simpa using hc)).send
    simp [Op.weight, Op.kind] at hsend
  unfold Session.handleUpstreamWrite at hkeeps ⊢
  split
  · exact hplain.quietly (Keeps.answer s _ _) (Quietly.answers.sendErrorResponse s _ _) hle
  · rename_i ho
    rw [if_neg ho] at hkeeps
    exact hplain.outside hkeeps hc hc

theorem finishes_outside :
    AllowsFinish fun s t : Session L => s.isConnect = false → t.isConnect = false where
  toChain := .keeps _
  respond _ _ := id
  parser _ _ := id
  renew _ _ := rfl
  flag _ := id
  readClient _ := id
  readUpstream _ := id

theorem handleUpstreamRead_outside (hc : s.isConnect = false) (env : Env) (o : Outcome) :
    (s.handleUpstreamRead env o).isConnect = false := by
  refine finishes_outside.handleUpstreamRead (fun s hc => ?_) (fun data hc => ?_) env o hc
  · exact (Quietly.closes.close s).tunnel.trans hc
  · have hq : Quietly s ((s.resetTimer.emit (.received data)).writeClient .relayed data) :=
      ((Quietly.resetTimer s).trans (Quietly.emit _ rfl)).trans (Quietly.writeClient _ _ _)
    exact hq.tunnel.trans hc

theorem handleUpstreamRead_orderly (h : OrderlyAfter .upstreamRead s) (env : Env) (o : Outcome) :
    Orderly (s.handleUpstreamRead env o).io.writes (s.handleUpstreamRead env o).io.count
      (s.handleUpstreamRead env o) := by
  have hplain := OrderlyAfter.unqueued h (Op.writesTo_of_kind (by simp [Op.kind]))
  have hle (k : OpKind) : s.io.count k ≤ s.io.count k + Op.upstreamRead.weight k := Nat.le_add_right _ _
  have hclose := hplain.quietly (Keeps.close s) (Quietly.closes.close s) hle
  cases o with
  | bytes data =>
    by_cases hc : s.isConnect = true
    · -- the tunnel reads on
      have hq : Quietly s ((s.resetTimer.emit (.received data)).writeClient .relayed data) :=
        ((Quietly.resetTimer s).trans (Quietly.emit _ rfl)).trans (Quietly.writeClient _ _ _)
      have hk : Keeps s ((s.resetTimer.emit (.received data)).writeClient .relayed data) :=
        ((Keeps.resetTimer s).trans (Keeps.emit _ rfl)).trans (Keeps.writeClient _ _ _)
      unfold Session.handleUpstreamRead
      dsimp only
      generalize (s.resetTimer.emit (.received data)).writeClient .relayed data = v at hq hk
      have htunnel : v.isConnect = true := (show v.isConnect = s.isConnect from hq.tunnel).trans hc
      rw [if_pos htunnel]
      exact hplain.again hk hq (p := .upstreamRead) (by simp [Op.kind]) rfl
    · have hc : s.isConnect = false := by simpa using hc
      exact hplain.outside (Keeps.handleUpstreamRead s env _) hc
        (handleUpstreamRead_outside hc env _)
  | eof =>
    unfold Session.handleUpstreamRead
    dsimp only
    split
    · exact hplain.quietly ((Keeps.finishes.reportTaken s _).trans (Keeps.close _))
        ((Quietly.reportTaken s _).trans (Quietly.closes.close _)) hle
    · exact hclose
  | ok => exact hclose
  | truncated => exact hclose
  | aborted => exact hclose
  | failed => exact hclose

theorem forwardRequest_isConnect (s : Session L) : s.forwardRequest.isConnect = s.isConnect := by
  unfold Session.forwardRequest
  split
  · exact (Quietly.closes.closeServer s).tunnel
  · rfl

theorem handleDecision_orderly {a : InterceptAction} (h : OrderlyAfter (.decision a) s)
    (hs : SoundAfter b new (.decision a) s.flow) :
    Orderly (s.handleDecision a).io.writes (s.handleDecision a).io.count (s.handleDecision a) := by
  have hplain := OrderlyAfter.unqueued h (Op.writesTo_of_kind (by simp [Op.kind]))
  have hle (k : OpKind) : s.io.count k ≤ s.io.count k + (Op.decision a).weight k :=
    Nat.le_add_right _ _
  obtain ⟨-, hforward⟩ := hs.decided
  cases a with
  | forward =>
    obtain ⟨r, hcleared⟩ := hforward rfl
    have hc : s.isConnect = false := hcleared.tunnel
    apply hplain.outside (Keeps.handleDecision (hplain.plain hc) .forward) hc
    unfold Session.handleDecision
    split
    · exact (forwardRequest_isConnect _).trans hc
    · exact hc
  | drop =>
    unfold Session.handleDecision
    split
    · exact hplain.quietly ((Keeps.resetTimer s).trans (Keeps.answer _ _ _))
        ((Quietly.resetTimer s).trans (Quietly.answers.sendErrorResponse _ _ _)) hle
    · exact hplain.quietly (Keeps.refl s) (Quietly.refl s) hle

/-- A CONNECT that is not handed to a TLS session starts the tunnel, by dialling. -/
theorem handleConnect_orderly {n : OpKind → ℕ} (h : Orderly s.io.writes n s) (hc : s.isConnect = false)
    (hidle : Idle b new s.flow) (target : ConnectTarget) :
    Orderly (s.handleConnect target).io.writes (s.handleConnect target).io.count
      (s.handleConnect target) := by
  have hkeeps := Keeps.takes.handleConnect s target
  have hu := hkeeps.untunnelled (h.plain hc)
  obtain ⟨hdial, hrest⟩ := hidle.plain hc
  have hdial : s.io.count .dial = 0 := hdial
  have hrest : s.io.count .read + s.io.count .send + s.io.count .receive = 0 := hrest
  unfold Session.handleConnect at hkeeps hu ⊢
  dsimp only at hkeeps hu ⊢
  by_cases hcert : s.hasCertCache = true
  · rw [if_pos (by exact hcert)] at hkeeps hu ⊢
    exact h.outside hkeeps hc hc
  · rw [if_neg (by exact hcert)] at hkeeps hu ⊢
    have hcount (k : OpKind) : Io.count (s.io.start .resolve) k = s.io.count k + Op.resolve.weight k :=
      Io.count_start s.io .resolve k
    refine ⟨hkeeps.queues (fun _ => 0) h.queues, fun _ => hu, fun _ => ⟨?_, ?_, ?_, fun _ => hu⟩⟩
    · show Io.count (s.io.start .resolve) .dial + Io.count (s.io.start .resolve) .read ≤ 1
      rw [hcount, hcount]
      simp only [Op.weight, Op.kind, if_true, reduceCtorEq, if_false]
      omega
    · show Io.count (s.io.start .resolve) .dial + Io.count (s.io.start .resolve) .receive ≤ 1
      rw [hcount, hcount]
      simp only [Op.weight, Op.kind, if_true, reduceCtorEq, if_false]
      omega
    · show Io.count (s.io.start .resolve) .send = 0
      rw [hcount]
      simp only [Op.weight, Op.kind, reduceCtorEq, if_false]
      omega

theorem handleUpstreamRoute_isConnect (s : Session L) (env : Env) (host port : Bytes) (k : ℤ) :
    (s.handleUpstreamRoute env host port k).isConnect = s.isConnect := by
  unfold Session.handleUpstreamRoute
  dsimp only
  split
  · rfl
  · exact forwardRequest_isConnect _

theorem handleRequest_orderly {n : OpKind → ℕ} (h : Orderly s.io.writes n s) (hc : s.isConnect = false)
    {env : Env} (hidle : Idle b env.newRef s.flow) {req : HttpRequest}
    (hok : s.handleRequest env req = .ok t) : Orderly t.io.writes t.io.count t := by
  have hkeeps := Keeps.handleRequest (h.plain hc) hok
  let v : Session L := ({ s with currentTransaction := { s.currentTransaction with
    id := env.nextId, request := some env.newRef } } : Session L).emit (.took env.newRef req)
  have htook : Keeps s v := Keeps.silent rfl rfl id rfl (fun _ _ => id) ⟨[_], rfl, by simp [Effect.queueing]⟩
  have hv : Orderly v.io.writes n v := h.outside htook hc hc
  have hquiet (w : Session L) (hw : Quietly v w) : w.isConnect = false := hw.tunnel.trans hc
  unfold Session.handleRequest at hok
  dsimp only at hok
  split at hok
  · obtain ⟨target, -, rfl⟩ := ok_of_map hok
    have hfield : Idle b env.newRef ({ s with currentTransaction := { s.currentTransaction with
        id := env.nextId, request := some env.newRef } } : Session L).flow :=
      ⟨hidle.since, hidle.proper, hidle.asked, hidle.decision, hidle.plain⟩
    exact handleConnect_orderly hv hc (hfield.take req) target
  · obtain ⟨route, -, rfl⟩ := ok_of_map hok
    refine h.outside hkeeps hc ?_
    cases route with
    | badRequest => exact hquiet _ (Quietly.answers.sendErrorResponse v _ _)
    | caCert => exact hquiet _ (Quietly.answers.serveCaCert v env)
    | helpPage => exact hquiet _ (Quietly.answers.serveBurpHelpPage v env)
    | upstream host port k => exact (handleUpstreamRoute_isConnect v env host port k).trans hc

theorem handleClientRead_orderly {env : Env} (h : OrderlyAfter .clientRead s)
    (hs : SoundAfter b env.newRef .clientRead s.flow) {o : Outcome} (hok : s.handleClientRead env o = .ok t) :
    Orderly t.io.writes t.io.count t := by
  have hplain := OrderlyAfter.unqueued h (Op.writesTo_of_kind (by simp [Op.kind]))
  have hle (k : OpKind) : s.io.count k ≤ s.io.count k + Op.clientRead.weight k := Nat.le_add_right _ _
  have hclose := hplain.quietly (Keeps.close s) (Quietly.closes.close s) hle
  have hidle := hs.idle (Or.inl rfl)
  cases o with
  | bytes data =>
    have hq : Quietly s (s.resetTimer.emit (.read data)) :=
      (Quietly.resetTimer s).trans (Quietly.emit _ rfl)
    have hk : Keeps s (s.resetTimer.emit (.read data)) := (Keeps.resetTimer s).trans (Keeps.emit _ rfl)
    unfold Session.handleClientRead at hok
    dsimp only at hok
    generalize s.resetTimer.emit (.read data) = v at hq hk hok
    have hv := hplain.keep hk hq.tunnel fun _ k _ => Nat.le_refl (s.io.count k + Op.clientRead.weight k)
    have hidle := hq.idle hidle
    split at hok
    · -- the tunnel: what was read goes to the server
      rename_i hc
      cases hok
      have htunnel := hv.tunnel hc
      have hblind := writeServerBlind_queues (d := fun _ => 0) hv.queues data
      have hread := Keeps.start_kind (v.writeServerBlind data) .clientRead (by simp [Op.kind])
      have hcount (k : OpKind) (hk : k ≠ .other) :
          (v.writeServerBlind data).readClient.io.count k = s.io.count k + Op.clientRead.weight k := by
        rw [Session.readClient, Session.start, Io.count_start,
          show (v.writeServerBlind data).io.count k = v.io.count k from
            (Quietly.writeServerBlind v data).count k hk,
          show v.io.count k = s.io.count k from hq.count k hk]
      refine ⟨hread.queues (fun _ => 0) hblind, fun hplain => ?_, fun _ => ⟨?_, ?_, ?_, fun hd => ?_⟩⟩
      · have hsame : (v.writeServerBlind data).isConnect = v.isConnect :=
          (Quietly.writeServerBlind v data).tunnel
        rw [show (v.writeServerBlind data).readClient.isConnect = v.isConnect from hsame, hc] at hplain
        cases hplain
      · rw [hcount _ (by simp), hcount _ (by simp)]
        exact htunnel.read
      · rw [hcount _ (by simp), hcount _ (by simp)]
        exact htunnel.receive
      · rw [hcount _ (by simp)]
        exact htunnel.send
      · -- the server has been reached
        rw [hcount _ (by simp)] at hd
        have hone := htunnel.read
        simp only [Op.weight, Op.kind, reduceCtorEq, if_false, if_true] at hone hd
        omega
    · rename_i hc
      have hc : v.isConnect = false := by simpa using hc
      have hfields (clientData : Bytes) (parser : HttpParser L) :
          Keeps v { v with clientData := clientData, parser := parser } :=
        Keeps.fields rfl rfl rfl rfl rfl
      have hmore (clientData : Bytes) (parser : HttpParser L) :
          let w : Session L := readClient { v with clientData := clientData, parser := parser }
          Orderly w.io.writes w.io.count w :=
        hv.outside ((hfields clientData parser).trans (Keeps.start_kind _ _ (by simp [Op.kind]))) hc hc
      split at hok
      · split at hok
        · rename_i req parser _
          exact handleRequest_orderly (hv.outside (l := v.io.count) (hfields _ parser) hc hc) hc hidle hok
        · rename_i parser _
          cases hok
          exact hmore _ parser
      · split at hok
        · cases hok
          exact hmore _ _
        · cases hok
          exact hv.outside ((hfields _ _).trans (Keeps.answer _ _ _)) hc
            ((Quietly.answers.answer _ _ _).tunnel.trans hc)
  | ok => cases hok; exact hclose
  | eof => cases hok; exact hclose
  | truncated => cases hok; exact hclose
  | aborted => cases hok; exact hclose
  | failed => cases hok; exact hclose

theorem handle_orderly {env : Env} (h : OrderlyAfter op s) (hs : SoundAfter b env.newRef op s.flow)
    {o : Outcome} (haborted : ∀ data, op = .serverWrite data → o = .aborted → s.clientOpen = false)
    (hok : s.handle env op o = .ok t) : Orderly t.io.writes t.io.count t := by
  have hkeep (hop : ∀ side, op.writesTo side = false) : Orderly s.io.writes s.io.count s :=
    (OrderlyAfter.unqueued h hop).quietly (Keeps.refl s) (Quietly.refl s) fun _ => Nat.le_add_right _ _
  cases op with
  | clientRead => exact handleClientRead_orderly h hs hok
  | timer =>
    cases hok
    have hplain := OrderlyAfter.unqueued h fun side => by cases side <;> rfl
    exact hplain.quietly (Keeps.handleTimeout hplain.plain o) (Quietly.handleTimeout s o)
      fun _ => Nat.le_add_right _ _
  | clientWrite data => cases hok; exact handleClientWrite_orderly h o
  | serverWrite data => cases hok; exact handleServerWrite_orderly h (haborted data rfl)
  | resolve => cases hok; exact handleResolve_orderly h o
  | connect => cases hok; exact handleConnected_orderly h env o
  | upstreamRead => cases hok; exact handleUpstreamRead_orderly h env o
  | upstreamWrite data => cases hok; exact handleUpstreamWrite_orderly h o
  | decision action => cases hok; exact handleDecision_orderly h hs
  | rawWrite data => cases hok; exact hkeep fun side => by cases side <;> rfl
  | established => cases hok; exact hkeep fun side => by cases side <;> rfl
  | clientHandshake => cases hok; exact hkeep fun side => by cases side <;> rfl
  | upstreamHandshake => cases hok; exact hkeep fun side => by cases side <;> rfl

/-! The steps of a session. -/

theorem complete_orderly (h : Orderly s.io.writes s.io.count s) {k : ℕ} {o : Outcome}
    (hok : s.complete k o = some t) : Orderly t.io.writes t.io.count t := by
  have hq := complete_quietly hok
  obtain ⟨op, io, hio, hcan, rfl⟩ := complete_spec hok
  refine h.quietly (Keeps.silent rfl rfl id (Io.writes_complete hio) (fun _ data hmem => ?_)
    ⟨_, rfl, op.completion_queueing o⟩) hq fun _ => Nat.le_refl _
  -- no operation aborts itself
  obtain ⟨-, rfl⟩ := Executor.complete_spec hio
  rcases List.mem_append.mp hmem with hmem | hmem
  · exact hmem
  · cases List.mem_singleton.mp hmem
    simp [canComplete, Op.allows] at hcan

theorem taken_orderly (h : Orderly s.io.writes s.io.count s) {k : ℕ} {o : Outcome} {io : Io}
    (hio : s.io.take k = some ((op, o), io)) : OrderlyAfter op { s with io := io } := by
  have hready (hopen : s.clientOpen = true) (data : Bytes) :
      (Op.serverWrite data, Outcome.aborted) ∉ io.ready := by
    intro hmem
    apply h.queues.aborted hopen data
    obtain ⟨-, rfl⟩ := Executor.take_spec hio
    exact List.mem_of_mem_eraseIdx hmem
  rw [Io.writes_take hio, Io.count_take hio] at h
  exact ⟨⟨h.queues.client, h.queues.server, hready⟩,
    fun hc => ⟨(h.plain hc).queue, (h.plain hc).writes⟩,
    fun hc => ⟨(h.tunnel hc).read, (h.tunnel hc).receive, (h.tunnel hc).send,
      fun hd => ⟨((h.tunnel hc).dial hd).queue, ((h.tunnel hc).dial hd).writes⟩⟩⟩

theorem dispatch_orderly {env : Env} (h : Orderly s.io.writes s.io.count s) (hs : s.flow.Holds) {k : ℕ}
    (hok : s.dispatch k env = some (.ok t)) : Orderly t.io.writes t.io.count t := by
  obtain ⟨op, o, io, hio, hhandle⟩ := dispatch_spec hok
  have haborted (data : Bytes) (hop : op = .serverWrite data) (ho : o = .aborted) :
      s.clientOpen = false := by
    by_contra hopen
    apply h.queues.aborted (by simpa using hopen) data
    rw [← hop, ← ho]
    exact List.mem_of_getElem? (Executor.take_spec hio).1
  exact handle_orderly (taken_orderly h hio) (taken_sound hs hio env.newRef) haborted hhandle

theorem decided_orderly (h : Orderly s.io.writes s.io.count s) (ref : Ref) (action : InterceptAction) :
    Orderly (s.decided ref action).io.writes (s.decided ref action).io.count (s.decided ref action) := by
  have hwrites : (s.decided ref action).io.writes = s.io.writes := by
    funext side
    exact (Io.writes_post s.io _ _ side).trans (by cases side <;> rfl)
  have hk : Keeps s (s.decided ref action) := by
    refine Keeps.silent rfl rfl id hwrites (fun _ data hmem => ?_)
      ⟨[_], rfl, by simp [Effect.queueing]⟩
    rcases List.mem_append.mp hmem with hmem | hmem
    · exact hmem
    · cases List.mem_singleton.mp hmem
  have hcount (k : OpKind) (hne : ∀ a, k ≠ .decision a) : (s.decided ref action).io.count k = s.io.count k := by
    refine (Io.count_post s.io _ _ k).trans ?_
    simp [Op.weight, Op.kind, (hne action).symm]
  refine ⟨hk.queues (fun _ => 0) h.queues, fun hc => hk.untunnelled (h.plain hc), fun hc => ?_⟩
  obtain ⟨hread, hreceive, hsend, hdial⟩ := h.tunnel hc
  refine ⟨?_, ?_, ?_, fun hd => hk.untunnelled (hdial ?_)⟩
  · rw [hcount _ (by simp), hcount _ (by simp)]
    exact hread
  · rw [hcount _ (by simp), hcount _ (by simp)]
    exact hreceive
  · rw [hcount _ (by simp)]
    exact hsend
  · rw [hcount _ (by simp)] at hd
    exact hd

theorem started_orderly (hasCertCache : Bool) :
    Orderly (started hasCertCache : Session L).io.writes (started hasCertCache : Session L).io.count
      (started hasCertCache : Session L) :=
  ⟨⟨.empty _, .empty _, fun _ _ hmem => by cases hmem⟩, fun _ => ⟨rfl, rfl⟩, fun hc => by cases hc⟩

theorem reached_orderly {r : Running L} (h : (system L).Reached r) :
    Orderly r.session.io.writes r.session.io.count r.session := by
  refine h.invariant_of (J := fun r => r.session.flow.Holds)
    (I := fun r => Orderly r.session.io.writes r.session.io.count r.session)
    (fun r hr => reached_holds hr) ?_ ?_
  · rintro _ ⟨hasCertCache, rfl⟩
    exact started_orderly hasCertCache
  · intro r a r' hs hr _ hstep
    cases moves_of_step hstep with
    | complete ht => exact complete_orderly hr ht
    | handled _ _ ht => exact dispatch_orderly hr hs ht
    | threw => exact hr
    | decide => exact decided_orderly hr _ _
    | close => exact hr.quietly (Keeps.close _) (Quietly.closes.close _) fun _ => Nat.le_refl _

/-- What a session may have outstanding on its two streams, and what it has handed to them. -/
structure OneAtATime (s : Session L) : Prop where
  clientReads : s.io.count .read ≤ 1
  clientWrites : s.io.writes .client ≤ 1
  serverReads : s.io.count .receive ≤ 1
  serverWrites : s.io.count .send + s.io.writes .upstream ≤ 1
  client : s.clientOpen = true → (s.io.writes .client = 1 ↔ s.writeQueue ≠ [])
  server : s.clientOpen = true → (s.io.writes .upstream = 1 ↔ s.writeServerQueue ≠ [])
  clientOrder : ∃ done, queuedTo .client s.log = done ++ s.writeQueue ∧
    sentTo .client s.log = done ++ s.writeQueue.take 1
  serverOrder : ∃ done, queuedTo .upstream s.log = done ++ s.writeServerQueue ∧
    sentTo .upstream s.log = done ++ s.writeServerQueue.take 1

theorem reached_oneAtATime {r : Running L} (h : (system L).Reached r) : OneAtATime r.session := by
  have hr := reached_orderly h
  obtain ⟨st, -, hfits⟩ := reached_holds h
  have hcounts : r.session.io.count .read ≤ 1 ∧ r.session.io.count .receive ≤ 1 ∧
      r.session.io.count .send + r.session.io.writes .upstream ≤ 1 := by
    cases hc : r.session.isConnect with
    | true =>
      obtain ⟨hread, hreceive, hsend, -⟩ := hr.tunnel hc
      have hwrites := hr.queues.server.one
      omega
    | false =>
      have hwrites := (hr.plain hc).writes
      have hsum : r.session.io.count .read + r.session.io.count .send + r.session.io.count .receive ≤ 1 := by
        cases st with
        | quiet => exact (hfits.2.2 hc).2
        | asked ref => exact Nat.le_of_eq hfits.2.2.2.2.2 |>.trans (Nat.zero_le 1)
        | ruled ref a => exact Nat.le_of_eq hfits.2.2.2.2.2 |>.trans (Nat.zero_le 1)
        | cleared ref => exact Nat.le_of_eq hfits.2.2.2.2.2 |>.trans (Nat.zero_le 1)
      omega
  exact ⟨hcounts.1, hr.queues.client.one, hcounts.2.1, hcounts.2.2, hr.queues.client.busy_iff,
    hr.queues.server.busy_iff, hr.queues.client.order, hr.queues.server.order⟩

end Session

end BurpTUI
