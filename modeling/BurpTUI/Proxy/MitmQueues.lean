import BurpTUI.Proxy.MitmAnswer
import BurpTUI.Proxy.WriteQueues

namespace BurpTUI

namespace MitmSession

variable {L : Llhttp} {b : Flow} {new ref : Ref} {s t u : MitmSession L} {op : Op} {d₁ d₂ d₃ : ℕ}

/-- What may only be outstanding before the handshake of the client is done. -/
def early : Op → Bool
  | .resolve => true
  | .connect => true
  | .established => true
  | .rawWrite _ => true
  | .clientHandshake => true
  | _ => false

/-- The invariant. `d₁` writes to the client, `d₂` writes to the upstream and `d₃` operations of
the setup are counted as well, whose handler runs. -/
structure Orderly (d₁ d₂ d₃ : ℕ) (s : MitmSession L) : Prop where
  client : SerialWriter (s.isClosed = false) s.clientWriteQueue (s.io.writes .client + d₁)
    (queuedTo .client s.log) (sentTo .client s.log)
  upstream : SerialWriter (s.isClosed = false) (s.upstreamWriteQueue.map Prod.snd)
    (s.io.count .send + d₂) (queuedTo .upstream s.log) (sentTo .upstream s.log)
  setup : s.io.outstanding early + d₃ + s.clientHandshakeDone.toNat ≤ 1

/-- Whatever is done to the queues from `s` to `t` is done properly. -/
def Keeps (s t : MitmSession L) : Prop := ∀ d₁ d₂ d₃, Orderly d₁ d₂ d₃ s → Orderly d₁ d₂ d₃ t

namespace Keeps

theorem refl (s : MitmSession L) : Keeps s s := fun _ _ _ => id

theorem trans (h : Keeps s t) (h' : Keeps t u) : Keeps s u :=
  fun d₁ d₂ d₃ hs => h' d₁ d₂ d₃ (h d₁ d₂ d₃ hs)

/-- The queues are left alone. -/
theorem silent (hclient : t.clientWriteQueue = s.clientWriteQueue)
    (hupstream : t.upstreamWriteQueue = s.upstreamWriteQueue)
    (hopen : t.isClosed = false → s.isClosed = false)
    (hdone : t.clientHandshakeDone = s.clientHandshakeDone)
    (hwrites : t.io.writes .client = s.io.writes .client) (hsend : t.io.count .send = s.io.count .send)
    (hearly : t.io.outstanding early = s.io.outstanding early)
    (hlog : ∃ es, t.log = s.log ++ es ∧ ∀ e ∈ es, e.queueing = false) : Keeps s t := by
  obtain ⟨es, hlog, hes⟩ := hlog
  have hqueued (side : Side) : queuedTo side t.log = queuedTo side s.log := by
    rw [hlog, queuedTo_append, queuedTo_silent hes, List.append_nil]
  have hsent (side : Side) : sentTo side t.log = sentTo side s.log := by
    rw [hlog, sentTo_append, sentTo_silent hes, List.append_nil]
  intro d₁ d₂ d₃ h
  refine ⟨?_, ?_, ?_⟩
  · rw [hclient, hwrites, hqueued, hsent]
    exact h.client.mono hopen
  · rw [hupstream, hsend, hqueued, hsent]
    exact h.upstream.mono hopen
  · rw [hearly, hdone]
    exact h.setup

theorem emit (s : MitmSession L) {e : Effect} (he : e.queueing = false) : Keeps s (s.emit e) :=
  silent rfl rfl id rfl rfl rfl rfl ⟨[e], rfl, by simpa using he⟩

theorem fields (hclient : t.clientWriteQueue = s.clientWriteQueue)
    (hupstream : t.upstreamWriteQueue = s.upstreamWriteQueue)
    (hopen : t.isClosed = false → s.isClosed = false)
    (hdone : t.clientHandshakeDone = s.clientHandshakeDone) (hio : t.io = s.io) (hlog : t.log = s.log) :
    Keeps s t :=
  silent hclient hupstream hopen hdone (by rw [hio]) (by rw [hio]) (by rw [hio])
    ⟨[], by rw [hlog, List.append_nil], by simp⟩

theorem start (s : MitmSession L) {op : Op} (hwrites : op.writesTo .client = false)
    (hsend : op.kind ≠ .send) (hearly : early op = false) : Keeps s (s.start op) := by
  refine silent rfl rfl id rfl ?_ ?_ ?_ ⟨[], (List.append_nil _).symm, by simp⟩
  · rw [MitmSession.start, Io.writes_start, hwrites]
    rfl
  · rw [MitmSession.start, Io.count_start]
    simp [Op.weight, hsend]
  · rw [MitmSession.start, Executor.outstanding_start, hearly]
    rfl

theorem cancel (s : MitmSession L) (p : Op → Bool) : Keeps s (s.cancel p) :=
  silent rfl rfl id rfl (Io.writes_cancel s.io p .aborted _) (Io.count_cancel s.io p .aborted _)
    (Executor.outstanding_cancel s.io p .aborted _) ⟨[], (List.append_nil _).symm, by simp⟩

theorem closes : AllowsClose (Keeps (L := L)) where
  refl := refl
  trans := trans
  cancel := cancel
  removed s _ := emit s rfl
  gone _ := fields rfl rfl (fun h => by cases h) rfl rfl rfl
  closed s := emit s rfl

theorem resetTimer (s : MitmSession L) : Keeps s s.resetTimer :=
  closes.resetTimer (fun s => start s rfl (by simp [Op.kind]) rfl) s

theorem respond (s : MitmSession L) (origin : Origin) (response : HttpResponse) :
    Keeps s (s.respond origin response) :=
  silent rfl rfl id rfl rfl rfl rfl ⟨[_], rfl, by simp [Effect.queueing]⟩

theorem writeClient (s : MitmSession L) (origin : Origin) (data : Bytes) :
    Keeps s (s.writeClient origin data) := by
  intro d₁ d₂ d₃ h
  unfold MitmSession.writeClient
  split
  · exact h
  · rename_i hopen
    dsimp only
    cases hqueue : s.clientWriteQueue with
    | nil =>
      have hclient := h.client
      rw [hqueue] at hclient
      have hfirst := hclient.first data
      rw [Nat.add_right_comm] at hfirst
      have hsetup := h.setup
      rw [List.isEmpty_nil, if_pos rfl]
      unfold MitmSession.doClientWrite
      rw [if_neg (by exact hopen)]
      refine ⟨?_, ?_, ?_⟩
      · simpa [MitmSession.emit, MitmSession.start, Effect.queuedTo, Effect.sentTo, Op.writesTo] using hfirst
      · simpa [MitmSession.emit, MitmSession.start, Effect.queuedTo, Effect.sentTo, Op.weight, Op.kind]
          using h.upstream
      · simpa [MitmSession.emit, MitmSession.start, early] using hsetup
    | cons first rest =>
      have hbehind := h.client.behind (by simp [hqueue]) data
      rw [List.isEmpty_cons, if_neg (by simp)]
      refine ⟨?_, ?_, h.setup⟩
      · simpa [MitmSession.emit, Effect.queuedTo, Effect.sentTo, hqueue] using hbehind
      · simpa [MitmSession.emit, Effect.queuedTo, Effect.sentTo] using h.upstream

theorem writeUpstream (s : MitmSession L) (ref : Ref) (data : Bytes) :
    Keeps s (s.writeUpstream ref data) := by
  intro d₁ d₂ d₃ h
  unfold MitmSession.writeUpstream
  split
  · exact h
  · rename_i hopen
    dsimp only
    cases hqueue : s.upstreamWriteQueue with
    | nil =>
      have hupstream := h.upstream
      rw [hqueue] at hupstream
      have hfirst := hupstream.first data
      rw [Nat.add_right_comm] at hfirst
      rw [List.isEmpty_nil, if_pos rfl]
      unfold MitmSession.doUpstreamWrite
      rw [if_neg (by exact hopen)]
      refine ⟨?_, ?_, ?_⟩
      · simpa [MitmSession.emit, MitmSession.start, Effect.queuedTo, Effect.sentTo, Op.writesTo] using h.client
      · simpa [MitmSession.emit, MitmSession.start, Effect.queuedTo, Effect.sentTo, Op.weight, Op.kind]
          using hfirst
      · simpa [MitmSession.emit, MitmSession.start, early] using h.setup
    | cons first rest =>
      have hbehind := h.upstream.behind (by simp [hqueue]) data
      rw [List.isEmpty_cons, if_neg (by simp)]
      refine ⟨?_, ?_, h.setup⟩
      · simpa [MitmSession.emit, Effect.queuedTo, Effect.sentTo] using h.client
      · simpa [MitmSession.emit, Effect.queuedTo, Effect.sentTo, hqueue] using hbehind

theorem readClient (s : MitmSession L) : Keeps s s.readClient :=
  startOpen_of closes.toChain (start s rfl (by simp [Op.kind]) rfl)

theorem readUpstream (s : MitmSession L) : Keeps s s.readUpstream :=
  startOpen_of closes.toChain (start s rfl (by simp [Op.kind]) rfl)

theorem finishes : AllowsFinish (Keeps (L := L)) where
  refl := refl
  trans := trans
  respond s response := respond s _ response
  parser _ _ _ := fields rfl rfl id rfl rfl rfl
  renew _ := fields rfl rfl id rfl rfl rfl
  flag _ := fields rfl rfl id rfl rfl rfl
  readClient := readClient
  readUpstream := readUpstream

theorem handleRequest (s : MitmSession L) (env : Env) (req : HttpRequest) :
    Keeps s (s.handleRequest env req) := by
  refine handleRequest_of closes.toChain ?_ (fun s => emit s rfl)
    (fun s _ => (closes.cancelTimer s).trans ?_) writeUpstream
  · exact silent rfl rfl id rfl rfl rfl rfl ⟨[_], rfl, by simp [Effect.queueing]⟩
  · exact silent rfl rfl id rfl rfl rfl rfl ⟨[_], rfl, by simp [Effect.queueing]⟩

theorem handleClientRead (s : MitmSession L) (env : Env) (o : Outcome) :
    Keeps s (s.handleClientRead env o) :=
  handleClientRead_any closes.toChain (fun _ _ => (resetTimer s).trans (emit _ rfl))
    (fun _ _ _ => fields rfl rfl id rfl rfl rfl) readClient closes.close (handleRequest · env) o

theorem handleUpstreamRead (s : MitmSession L) (env : Env) (o : Outcome) :
    Keeps s (s.handleUpstreamRead env o) :=
  finishes.handleUpstreamRead closes.close
    (fun _ _ => ((resetTimer s).trans (emit _ rfl)).trans (writeClient _ _ _)) env o

end Keeps

namespace Orderly

/-- A closed session forgets what was outstanding. -/
theorem closed (h : Orderly d₁ d₂ d₃ s) (hclosed : s.isClosed = true) : Orderly 0 0 0 s := by
  have hsetup := h.setup
  refine ⟨h.client.fail (by simp [hclosed]), h.upstream.fail (by simp [hclosed]), by omega⟩

theorem drop (h : Orderly 0 0 d₃ s) : Orderly 0 0 0 s := by
  have hsetup := h.setup
  exact ⟨h.client, h.upstream, by omega⟩

theorem close (h : Orderly d₁ d₂ d₃ s) : Orderly 0 0 0 s.close :=
  (Keeps.closes.close s d₁ d₂ d₃ h).closed (close_closed s)

/-- The next operation of the setup is started. -/
theorem start_early (h : Orderly 0 0 1 s) {op : Op} (hwrites : op.writesTo .client = false)
    (hsend : op.kind ≠ .send) (hearly : early op = true) : Orderly 0 0 0 (s.start op) := by
  refine ⟨?_, ?_, ?_⟩
  · rw [MitmSession.start, Io.writes_start, hwrites]
    exact h.client
  · rw [MitmSession.start, Io.count_start, Op.weight, if_neg hsend]
    exact h.upstream
  · rw [MitmSession.start, Executor.outstanding_start, hearly]
    exact h.setup

/-- The response goes to the queue, or straight to the socket when nothing else does. -/
theorem sendErrorResponse (h : Orderly 0 0 0 s)
    (hroom : s.clientHandshakeDone = false → s.io.outstanding early = 0) (statusCode : ℕ)
    (statusText : Bytes) : Orderly 0 0 0 (s.sendErrorResponse statusCode statusText) := by
  let v : MitmSession L := { s with closeAfterWrite := true }.respond .generated
    { version := str "HTTP/1.1", statusCode := statusCode, statusText := statusText }
  have hflag : Keeps s { s with closeAfterWrite := true } := Keeps.fields rfl rfl id rfl rfl rfl
  have hv : Orderly 0 0 0 v := (hflag.trans (Keeps.respond _ _ _)) 0 0 0 h
  unfold MitmSession.sendErrorResponse
  split
  · exact h
  · dsimp only
    split
    · exact Keeps.writeClient v _ _ 0 0 0 hv
    · rename_i hdone
      have hdone : v.clientHandshakeDone = false := by simpa using hdone
      have hanswered := Keeps.emit v (e := .answered (errorResponse statusCode statusText)) rfl 0 0 0 hv
      refine start_early ⟨hanswered.client, hanswered.upstream, ?_⟩ rfl (by simp [Op.kind]) rfl
      show s.io.outstanding early + 1 + v.clientHandshakeDone.toNat ≤ 1
      rw [hdone, hroom hdone]
      decide

end Orderly

theorem handleResolve_orderly (h : Orderly 0 0 1 s) (o : Outcome) : Orderly 0 0 0 (s.handleResolve o) := by
  have hsetup := h.setup
  unfold MitmSession.handleResolve
  split
  · exact h.drop
  · split
    · exact h.drop.sendErrorResponse (fun _ => by omega) _ _
    · exact h.start_early rfl (by simp [Op.kind]) rfl

theorem handleConnected_orderly (h : Orderly 0 0 1 s) (o : Outcome) :
    Orderly 0 0 0 (s.handleConnected o) := by
  have hsetup := h.setup
  unfold MitmSession.handleConnected
  split
  · exact h.drop
  · split
    · exact h.drop.sendErrorResponse (fun _ => by omega) _ _
    · unfold sendEstablishedResponse
      split
      · exact h.drop
      · have hanswered := Keeps.emit s (e := .answered Session.established) rfl 0 0 1 h
        exact hanswered.start_early rfl (by simp [Op.kind]) rfl

theorem handleEstablished_orderly (h : Orderly 0 0 1 s) (env : Env) (o : Outcome) :
    Orderly 0 0 0 (s.handleEstablished env o) := by
  unfold MitmSession.handleEstablished
  split
  · exact h.drop
  · split
    · exact h.close
    · unfold startTlsHandshakes
      split
      · exact h.drop
      · split
        · exact h.close
        · have hclient : Orderly 0 0 0 (s.start .clientHandshake) :=
            h.start_early rfl (by simp [Op.kind]) rfl
          exact Keeps.start _ rfl (by simp [Op.kind]) rfl 0 0 0 hclient

theorem onBothHandshakesComplete_keeps (s : MitmSession L) : Keeps s s.onBothHandshakesComplete := by
  unfold MitmSession.onBothHandshakesComplete
  split
  · exact Keeps.refl s
  · exact Keeps.readClient s

theorem handleClientHandshake_orderly (h : Orderly 0 0 1 s) (o : Outcome) :
    Orderly 0 0 0 (s.handleClientHandshake o) := by
  have hsetup := h.setup
  have hdone : Orderly 0 0 0 { s with clientHandshakeDone := true } := by
    refine ⟨h.client, h.upstream, ?_⟩
    show s.io.outstanding early + 0 + true.toNat ≤ 1
    rw [Bool.toNat_true]
    omega
  unfold MitmSession.handleClientHandshake
  split
  · exact h.drop
  · split
    · exact h.close
    · dsimp only
      split
      · exact onBothHandshakesComplete_keeps _ 0 0 0 hdone
      · exact hdone

theorem handleUpstreamHandshake_keeps (s : MitmSession L) (o : Outcome) :
    Keeps s (s.handleUpstreamHandshake o) := by
  have hflag : Keeps s { s with upstreamHandshakeDone := true } := Keeps.fields rfl rfl id rfl rfl rfl
  unfold MitmSession.handleUpstreamHandshake
  split
  · exact Keeps.refl s
  · split
    · exact Keeps.closes.close s
    · dsimp only
      split
      · exact hflag.trans (onBothHandshakesComplete_keeps _)
      · exact hflag

/-- The write of the first string in the queue is over. -/
theorem handleClientWrite_orderly (h : Orderly 1 0 0 s) (o : Outcome) :
    Orderly 0 0 0 (s.handleClientWrite o) := by
  unfold MitmSession.handleClientWrite
  split
  · rename_i hclosed
    exact h.closed hclosed
  · rename_i hopen
    split
    · exact h.close
    · dsimp only
      cases htail : s.clientWriteQueue.tail with
      | nil =>
        have hpopped : Orderly 0 0 0 { s with clientWriteQueue := [] } :=
          ⟨h.client.last htail, h.upstream, h.setup⟩
        rw [if_neg (by simp)]
        split
        · exact hpopped.close
        · exact hpopped
      | cons first rest =>
        have hnext := h.client.next htail
        rw [if_pos (by simp)]
        unfold MitmSession.doClientWrite
        rw [if_neg (by exact hopen)]
        refine ⟨?_, ?_, ?_⟩
        · simpa [MitmSession.emit, MitmSession.start, Effect.queuedTo, Effect.sentTo, Op.writesTo] using hnext
        · simpa [MitmSession.emit, MitmSession.start, Effect.queuedTo, Effect.sentTo, Op.weight, Op.kind]
            using h.upstream
        · simpa [MitmSession.emit, MitmSession.start, early] using h.setup

theorem handleUpstreamWrite_orderly (h : Orderly 0 1 0 s) (o : Outcome) :
    Orderly 0 0 0 (s.handleUpstreamWrite o) := by
  unfold MitmSession.handleUpstreamWrite
  split
  · rename_i hclosed
    exact h.closed hclosed
  · rename_i hopen
    split
    · exact h.close
    · dsimp only
      cases htail : s.upstreamWriteQueue.tail with
      | nil =>
        have hpopped : Orderly 0 0 0 { s with upstreamWriteQueue := [] } := by
          refine ⟨h.client, h.upstream.last ?_, h.setup⟩
          rw [← List.map_tail, htail]
          rfl
        rw [if_neg (by simp)]
        exact Keeps.readUpstream _ 0 0 0 hpopped
      | cons first rest =>
        obtain ⟨ref, data⟩ := first
        have htails : (s.upstreamWriteQueue.map Prod.snd).tail = data :: rest.map Prod.snd := by
          rw [← List.map_tail, htail]
          rfl
        have hnext := h.upstream.next htails
        rw [if_pos (by simp)]
        unfold MitmSession.doUpstreamWrite
        rw [if_neg (by exact hopen)]
        refine ⟨?_, ?_, ?_⟩
        · simpa [MitmSession.emit, MitmSession.start, Effect.queuedTo, Effect.sentTo, Op.writesTo]
            using h.client
        · simpa [MitmSession.emit, MitmSession.start, Effect.queuedTo, Effect.sentTo, Op.weight, Op.kind]
            using hnext
        · simpa [MitmSession.emit, MitmSession.start, early] using h.setup

theorem handleDecision_orderly (h : Orderly 0 0 0 s) (hdone : s.clientHandshakeDone = true) (env : Env)
    (action : InterceptAction) : Orderly 0 0 0 (s.handleDecision env action) := by
  have hreset := Keeps.resetTimer s 0 0 0 h
  unfold MitmSession.handleDecision
  split
  · exact h
  · cases action with
    | forward => exact Keeps.writeUpstream _ _ _ 0 0 0 hreset
    | drop =>
      apply hreset.sendErrorResponse
      intro hnot
      exact absurd (hdone.symm.trans hnot) (by simp)

theorem handle_orderly {env : Env} (h : Orderly (op.writesTo .client).toNat (op.weight .send)
    (early op).toNat s) (hs : InvAfter b env.newRef op s) (o : Outcome) :
    Orderly 0 0 0 (s.handle env op o) := by
  cases op with
  | timer => exact handleTimeout_of Keeps.closes.toChain (fun _ => Keeps.closes.close s) 0 0 0 h
  | clientWrite data => exact handleClientWrite_orderly h o
  | rawWrite data => exact h.close
  | serverWrite data => exact h
  | resolve => exact handleResolve_orderly h o
  | connect => exact handleConnected_orderly h o
  | established => exact handleEstablished_orderly h env o
  | clientHandshake => exact handleClientHandshake_orderly h o
  | upstreamHandshake => exact handleUpstreamHandshake_keeps s o 0 0 0 h
  | clientRead => exact Keeps.handleClientRead s env o 0 0 0 h
  | upstreamRead => exact Keeps.handleUpstreamRead s env o 0 0 0 h
  | upstreamWrite data => exact handleUpstreamWrite_orderly h o
  | decision a => exact handleDecision_orderly h (hs.done (Or.inr (Or.inr (Or.inr ⟨a, rfl⟩)))).1 env a

/-! The steps of a session. -/

theorem complete_orderly (h : Orderly 0 0 0 s) {k : ℕ} {o : Outcome} (hok : s.complete k o = some t) :
    Orderly 0 0 0 t := by
  obtain ⟨op, io, hio, -, rfl⟩ := complete_spec hok
  have hk : Keeps s { s with io := io, log := s.log ++ op.completion o } := by
    refine Keeps.silent rfl rfl id rfl ?_ ?_ ?_ ⟨_, rfl, op.completion_queueing o⟩
    · exact congrFun (Io.writes_complete hio) .client
    · exact congrFun (Io.count_complete hio) .send
    · exact Executor.outstanding_complete hio early
  exact hk 0 0 0 h

theorem taken_orderly (h : Orderly 0 0 0 s) {k : ℕ} {o : Outcome} {io : Io}
    (hio : s.io.take k = some ((op, o), io)) :
    Orderly (op.writesTo .client).toNat (op.weight .send) (early op).toNat { s with io := io } := by
  have hclient := h.client
  have hupstream := h.upstream
  have hsetup := h.setup
  rw [Io.writes_take hio] at hclient
  rw [Io.count_take hio] at hupstream
  rw [Executor.outstanding_take hio] at hsetup
  exact ⟨hclient, hupstream, hsetup⟩

theorem dispatch_orderly {env : Env} (h : Orderly 0 0 0 s) (hs : Holds s) {k : ℕ}
    (hok : s.dispatch k env = some t) : Orderly 0 0 0 t := by
  obtain ⟨op, o, io, hio, rfl⟩ := dispatch_spec hok
  exact handle_orderly (taken_orderly h hio) (taken_inv hs hio env.newRef) o

theorem decided_orderly (h : Orderly 0 0 0 s) (ref : Ref) (action : InterceptAction) :
    Orderly 0 0 0 (s.decided ref action) := by
  have hk : Keeps s (s.decided ref action) := by
    refine Keeps.silent rfl rfl id rfl ?_ ?_ ?_ ⟨[.decided ref action], rfl, by simp [Effect.queueing]⟩
    · exact Io.writes_post s.io _ _ .client
    · exact Io.count_post s.io _ _ .send
    · exact Executor.outstanding_post s.io _ _ early
  exact hk 0 0 0 h

theorem started_orderly (targetHost : Bytes) (targetPort : UInt16) :
    Orderly 0 0 0 (started targetHost targetPort : MitmSession L) :=
  ⟨.empty _, .empty _, Nat.le_refl 1⟩

theorem reached_orderly (h : (system L).Reached s) : Orderly 0 0 0 s := by
  refine h.invariant_of (J := Holds) (I := Orderly 0 0 0) (fun s hs => reached_holds hs) ?_ ?_
  · rintro _ ⟨targetHost, targetPort, rfl⟩
    exact started_orderly targetHost targetPort
  · intro s a t hs hr _ hstep
    cases moves_of_step hstep with
    | complete ht => exact complete_orderly hr ht
    | handled _ ht => exact dispatch_orderly hr hs ht
    | decide => exact decided_orderly hr _ _
    | close => exact hr.close

/-- What a session may have outstanding on its two streams, and what it has handed to them. After
the handshakes nothing goes past the queue to the client. -/
structure OneAtATime (s : MitmSession L) : Prop where
  clientReads : s.io.count .read ≤ 1
  clientWrites : s.io.writes .client ≤ 1
  setup : s.clientHandshakeDone = true → s.io.outstanding early = 0
  upstreamReads : s.io.count .receive ≤ 1
  upstreamWrites : s.io.count .send ≤ 1
  client : s.isClosed = false → (s.io.writes .client = 1 ↔ s.clientWriteQueue ≠ [])
  upstream : s.isClosed = false → (s.io.count .send = 1 ↔ s.upstreamWriteQueue ≠ [])
  clientOrder : ∃ done, queuedTo .client s.log = done ++ s.clientWriteQueue ∧
    sentTo .client s.log = done ++ s.clientWriteQueue.take 1
  upstreamOrder : ∃ done, queuedTo .upstream s.log = done ++ s.upstreamWriteQueue.map Prod.snd ∧
    sentTo .upstream s.log = done ++ (s.upstreamWriteQueue.map Prod.snd).take 1

theorem reached_oneAtATime (h : (system L).Reached s) : OneAtATime s := by
  obtain ⟨hclient, hupstream, hsetup⟩ := reached_orderly h
  obtain ⟨st, -, hfits⟩ := (reached_holds h).flow
  have hsum : s.io.count .read + s.io.count .send + s.io.count .receive ≤ 1 := by
    cases st with
    | quiet => exact (hfits.2.2 rfl).2
    | asked ref => exact (Nat.le_of_eq hfits.2.2.2.2.2).trans (Nat.zero_le 1)
    | ruled ref a => exact (Nat.le_of_eq hfits.2.2.2.2.2).trans (Nat.zero_le 1)
    | cleared ref => exact (Nat.le_of_eq hfits.2.2.2.2.2).trans (Nat.zero_le 1)
  have hmap : s.upstreamWriteQueue.map Prod.snd ≠ [] ↔ s.upstreamWriteQueue ≠ [] := by simp
  refine ⟨by omega, hclient.one, fun hdone => ?_, by omega, by omega, hclient.busy_iff,
    fun hopen => (hupstream.busy_iff hopen).trans hmap, hclient.order, hupstream.order⟩
  rw [hdone, Bool.toNat_true] at hsetup
  omega

end MitmSession

/-- In every state of a session and of a TLS session at most one read and one write are outstanding
on each stream, an open session writes exactly when a queue is not empty, and the strings of a
queue are written in order and without repetition. -/
theorem streams_one_at_a_time {L : Llhttp} :
    (∀ r, (Session.system L).Reached r → r.session.OneAtATime) ∧
      ∀ s, (MitmSession.system L).Reached s → s.OneAtATime :=
  ⟨fun _ hr => Session.reached_oneAtATime hr, fun _ hs => MitmSession.reached_oneAtATime hs⟩

section Examples

open Session (started env1 sentRun)

/-- The second byte of the upstream is read while the first one is on the way to the client. -/
def twoChunks : List Session.Label :=
  [.complete 1 (.bytes [104]), .dispatch 1 env1, .complete 2 (.bytes [105]), .dispatch 2 env1]

/-- The same over TLS, from the start. -/
def twoTlsChunks : List Session.Label :=
  MitmSession.requestRun simpleGet ++ [.dispatch 0 {}, .complete 1 .ok, .dispatch 1 env1] ++ twoChunks

theorem streams_one_at_a_time_twoChunks :
    (∃ r, (Session.system (answering [])).run { session := started false } (sentRun ++ twoChunks) = some r ∧
      r.session.writeQueue = [[104], [105]] ∧ r.session.OneAtATime) ∧
    ∃ s, (MitmSession.system (answering [])).run (.started [] 443) twoTlsChunks = some s ∧
      s.clientWriteQueue = [[104], [105]] ∧ s.OneAtATime := by
  have hrun : ((Session.system (answering [])).run { session := started false } (sentRun ++ twoChunks)).any
      (fun r => r.session.writeQueue = [[104], [105]]) = true := by decide
  have htls : ((MitmSession.system (answering [])).run (.started [] 443) twoTlsChunks).any
      (fun s => s.clientWriteQueue = [[104], [105]]) = true := by decide
  obtain ⟨r, hr, hqueue⟩ := (Option.any_eq_true _ _).mp hrun
  obtain ⟨s, hs, hqueue'⟩ := (Option.any_eq_true _ _).mp htls
  exact ⟨⟨r, hr, of_decide_eq_true hqueue, streams_one_at_a_time.1 r (.run (.init ⟨false, rfl⟩) hr)⟩,
    ⟨s, hs, of_decide_eq_true hqueue', streams_one_at_a_time.2 s (.run (.init ⟨[], 443, rfl⟩) hs)⟩⟩

end Examples

end BurpTUI
