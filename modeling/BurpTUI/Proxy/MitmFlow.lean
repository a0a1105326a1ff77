import BurpTUI.Proxy.Chores
import BurpTUI.Proxy.ExchangeFlow

namespace BurpTUI.MitmSession

open BurpTUI.Flow (Idle Cleared Sound SoundAfter)

variable {L : Llhttp} {b : Flow} {new ref : Ref} {s t u : MitmSession L} {op : Op}

/-- The upstream is dialled before the first exchange, so that is not part of one. -/
def flow (s : MitmSession L) : Flow where
  log := s.log
  asked := s.asked
  request := s.currentTransaction.request
  tunnel := false
  count k := if k = .dial then 0 else s.io.count k

/-- What holds while the connections are set up: each handshake is started once, and nothing is
read before both are done. Afterwards the queue to the upstream has one entry for each write. -/
structure Setup (n : OpKind → ℕ) (s : MitmSession L) : Prop where
  client : n .dial + n .clientHandshake + s.clientHandshakeDone.toNat ≤ 1
  upstream : n .dial + n .upstreamHandshake + s.upstreamHandshakeDone.toNat ≤ 1
  early : s.clientHandshakeDone = false ∨ s.upstreamHandshakeDone = false →
    s.asked = [] ∧ (∀ a, n (.decision a) = 0) ∧ n .read + n .send + n .receive = 0
  queue : s.isClosed = false → s.upstreamWriteQueue.length = n .send

/-- The invariant of a session. -/
structure Holds (s : MitmSession L) : Prop where
  flow : s.flow.Holds
  setup : Setup s.io.count s

/-- The invariant at the end of a handler that started at `b`. -/
structure Inv (b : Flow) (new : Ref) (s : MitmSession L) : Prop where
  sound : Sound b new s.flow
  setup : Setup s.io.count s

/-- Both handshakes are done, and nothing is outstanding but timers and client writes. -/
structure Ready (b : Flow) (new : Ref) (s : MitmSession L) : Prop where
  idle : Idle b new s.flow
  clientDone : s.clientHandshakeDone = true
  upstreamDone : s.upstreamHandshakeDone = true
  dial : s.io.count .dial = 0
  clientHandshake : s.io.count .clientHandshake = 0
  upstreamHandshake : s.io.count .upstreamHandshake = 0
  queue : s.isClosed = false → s.upstreamWriteQueue = []

/-- `t` is `s` but for timers, client writes, the parsers and being closed. -/
structure Calmly (s t : MitmSession L) : Prop where
  log : ∃ es, t.log = s.log ++ es ∧ ∀ e ∈ es, e.subject = none
  asked : t.asked = s.asked
  request : t.currentTransaction.request = s.currentTransaction.request
  count : ∀ k, k ≠ .other → t.io.count k = s.io.count k
  clientDone : t.clientHandshakeDone = s.clientHandshakeDone
  upstreamDone : t.upstreamHandshakeDone = s.upstreamHandshakeDone
  queue : t.isClosed = false → s.isClosed = false ∧ t.upstreamWriteQueue = s.upstreamWriteQueue

namespace Calmly

theorem refl (s : MitmSession L) : Calmly s s :=
  ⟨⟨[], by simp, by simp⟩, rfl, rfl, fun _ _ => rfl, rfl, rfl, fun h => ⟨h, rfl⟩⟩

/-- Only fields differ that the relation does not look at. -/
theorem same (hlog : t.log = s.log) (hasked : t.asked = s.asked)
    (hrequest : t.currentTransaction.request = s.currentTransaction.request) (hio : t.io = s.io)
    (hflags : (t.clientHandshakeDone, t.upstreamHandshakeDone, t.isClosed) =
      (s.clientHandshakeDone, s.upstreamHandshakeDone, s.isClosed))
    (hqueue : t.upstreamWriteQueue = s.upstreamWriteQueue) : Calmly s t := by
  simp only [Prod.mk.injEq] at hflags
  refine ⟨⟨[], by simp [hlog], by simp⟩, hasked, hrequest, fun _ _ => by rw [hio], hflags.1,
    hflags.2.1, fun ht => ⟨hflags.2.2 ▸ ht, hqueue⟩⟩

theorem trans (h : Calmly s t) (h' : Calmly t u) : Calmly s u := by
  obtain ⟨es, hes, hsilent⟩ := h.log
  obtain ⟨es', hes', hsilent'⟩ := h'.log
  refine ⟨⟨es ++ es', ?_, ?_⟩, h'.asked.trans h.asked, h'.request.trans h.request,
    fun k hk => (h'.count k hk).trans (h.count k hk), h'.clientDone.trans h.clientDone,
    h'.upstreamDone.trans h.upstreamDone, fun hu => ?_⟩
  · rw [hes', hes, List.append_assoc]
  · intro e he
    rcases List.mem_append.mp he with he | he
    · exact hsilent e he
    · exact hsilent' e he
  · obtain ⟨ht, htq⟩ := h'.queue hu
    obtain ⟨hs, hsq⟩ := h.queue ht
    exact ⟨hs, htq.trans hsq⟩

theorem flow (h : Calmly s t) : Flow.Quietly s.flow t.flow := by
  refine ⟨h.log, h.asked, h.request, rfl, fun k hk => ?_⟩
  show (if k = .dial then 0 else t.io.count k) = if k = .dial then 0 else s.io.count k
  rw [h.count k hk]

theorem setup (h : Calmly s t) (hs : Setup s.io.count s) : Setup t.io.count t := by
  have hcount (k : OpKind) (hk : k ≠ .other) := h.count k hk
  refine ⟨?_, ?_, ?_, fun ht => ?_⟩
  · rw [hcount _ (by simp), hcount _ (by simp), h.clientDone]
    exact hs.client
  · rw [hcount _ (by simp), hcount _ (by simp), h.upstreamDone]
    exact hs.upstream
  · rw [h.clientDone, h.upstreamDone, h.asked, hcount .read (by simp), hcount .send (by simp),
      hcount .receive (by simp)]
    intro hnot
    obtain ⟨hasked, hd, hrest⟩ := hs.early hnot
    exact ⟨hasked, fun a => (hcount _ (by simp)).trans (hd a), hrest⟩
  · obtain ⟨hopen, hqueue⟩ := h.queue ht
    rw [hqueue, hcount _ (by simp)]
    exact hs.queue hopen

theorem inv (h : Calmly s t) (hs : Inv b new s) : Inv b new t := ⟨h.flow.sound hs.sound, h.setup hs.setup⟩

theorem ready (h : Calmly s t) (hs : Ready b new s) : Ready b new t where
  idle := h.flow.idle hs.idle
  clientDone := h.clientDone.trans hs.clientDone
  upstreamDone := h.upstreamDone.trans hs.upstreamDone
  dial := (h.count _ (by simp)).trans hs.dial
  clientHandshake := (h.count _ (by simp)).trans hs.clientHandshake
  upstreamHandshake := (h.count _ (by simp)).trans hs.upstreamHandshake
  queue ht := by
    obtain ⟨hopen, hqueue⟩ := h.queue ht
    exact hqueue.trans (hs.queue hopen)

theorem emit (s : MitmSession L) {e : Effect} (he : e.subject = none) : Calmly s (s.emit e) :=
  ⟨⟨[e], rfl, by simp [he]⟩, rfl, rfl, fun _ _ => rfl, rfl, rfl, fun h => ⟨h, rfl⟩⟩

theorem cancel (s : MitmSession L) (p : Op → Bool) : Calmly s (s.cancel p) :=
  ⟨⟨[], by simp [MitmSession.cancel], by simp⟩, rfl, rfl,
    fun k _ => Io.count_cancel s.io p .aborted k, rfl, rfl, fun h => ⟨h, rfl⟩⟩

theorem start (s : MitmSession L) {op : Op} (hop : op.kind = .other) : Calmly s (s.start op) := by
  refine ⟨⟨[], by simp [MitmSession.start], by simp⟩, rfl, rfl, fun k hk => ?_, rfl, rfl,
    fun h => ⟨h, rfl⟩⟩
  show Io.count (s.io.start op) k = s.io.count k
  simp [Op.weight, hop, hk.symm]

theorem closes : AllowsClose (Calmly (L := L)) where
  refl := refl
  trans := trans
  cancel := cancel
  removed s _ := emit s rfl
  gone _ := ⟨⟨[], by simp, by simp⟩, rfl, rfl, fun _ _ => rfl, rfl, rfl, fun h => by cases h⟩
  closed s := emit s rfl

theorem queued (s : MitmSession L) (origin : Origin) (data : Bytes) :
    Calmly s ({ s with clientWriteQueue := s.clientWriteQueue ++ [data] }.emit (.queued origin data)) :=
  ⟨⟨[_], rfl, by simp [Effect.subject]⟩, rfl, rfl, fun _ _ => rfl, rfl, rfl, fun h => ⟨h, rfl⟩⟩

theorem respond (s : MitmSession L) (origin : Origin) (response : HttpResponse) :
    Calmly s (s.respond origin response) :=
  ⟨⟨[_], rfl, by simp [Effect.subject]⟩, rfl, rfl, fun _ _ => rfl, rfl, rfl, fun h => ⟨h, rfl⟩⟩

theorem answers : AllowsAnswer (Calmly (L := L)) where
  refl := refl
  trans := trans
  send s _ := (emit s rfl).trans (start _ rfl)
  respond _ _ := ⟨⟨[_], rfl, by simp [Effect.subject]⟩, rfl, rfl, fun _ _ => rfl, rfl, rfl, fun h => ⟨h, rfl⟩⟩
  queue s data := queued s _ data
  raw s _ := (emit s rfl).trans (start _ rfl)

theorem resetTimer (s : MitmSession L) : Calmly s s.resetTimer := closes.resetTimer (fun s => start s rfl) s

theorem handleTimeout (s : MitmSession L) (o : Outcome) : Calmly s (s.handleTimeout o) :=
  handleTimeout_of closes.toChain fun _ => closes.close s

theorem writeClient (s : MitmSession L) (origin : Origin) (data : Bytes) :
    Calmly s (s.writeClient origin data) := answers.writeClient fun _ => queued s origin data

theorem reportTaken (s : MitmSession L) (data : Bytes) : Calmly s (s.reportTaken data) :=
  reportTaken_of closes.toChain (fun _ => same rfl rfl rfl rfl rfl rfl) (fun s => respond s _) data

theorem handleClientWrite (s : MitmSession L) (o : Outcome) : Calmly s (s.handleClientWrite o) :=
  answers.handleClientWrite closes.close (same rfl rfl rfl rfl rfl rfl) o

end Calmly

theorem Ready.setup (h : Ready b new s) : Setup s.io.count s := by
  have hrest : s.io.count .read + s.io.count .send + s.io.count .receive = 0 := (h.idle.plain rfl).2
  refine ⟨?_, ?_, fun hnot => ?_, fun hopen => ?_⟩
  · rw [h.dial, h.clientHandshake, h.clientDone]
    decide
  · rw [h.dial, h.upstreamHandshake, h.upstreamDone]
    decide
  · rcases hnot with hnot | hnot
    · simp [h.clientDone] at hnot
    · simp [h.upstreamDone] at hnot
  · rw [h.queue hopen, List.length_nil]
    omega

theorem Ready.inv (h : Ready b new s) : Inv b new s := ⟨h.idle.sound, h.setup⟩

theorem flow_start (s : MitmSession L) (hop : op.kind ≠ .dial) :
    (s.start op).flow = s.flow.start op := by
  simp only [flow, Flow.start, MitmSession.start, Flow.mk.injEq, true_and]
  funext k
  by_cases hk : k = .dial
  · simp [hk, Op.weight, hop]
  · simp [hk]

/-- Reading from either side. -/
theorem Ready.start (h : Ready b new s) (hop : op.kind = .read ∨ op.kind = .receive) :
    Inv b new (s.start op) := by
  have hsetup := h.setup
  have hrest : s.io.count .read + s.io.count .send + s.io.count .receive = 0 := (h.idle.plain rfl).2
  refine ⟨?_, ?_, ?_, fun hnot => ?_, fun hopen => ?_⟩
  · rw [flow_start s (by rcases hop with hop | hop <;> simp [hop])]
    apply h.idle.start
    rcases hop with hop | hop <;> simp [hop]
  · have hclient := hsetup.client
    rcases hop with hop | hop <;> simpa [MitmSession.start, Op.weight, hop] using hclient
  · have hupstream := hsetup.upstream
    rcases hop with hop | hop <;> simpa [MitmSession.start, Op.weight, hop] using hupstream
  · rcases hnot with hnot | hnot
    · simp [MitmSession.start, h.clientDone] at hnot
    · simp [MitmSession.start, h.upstreamDone] at hnot
  · have hqueue := hsetup.queue hopen
    rcases hop with hop | hop <;> simpa [MitmSession.start, Op.weight, hop] using hqueue

theorem Ready.readClient (h : Ready b new s) : Inv b new s.readClient := by
  unfold MitmSession.readClient
  split
  · exact h.inv
  · exact h.start (Or.inl rfl)

theorem Ready.readUpstream (h : Ready b new s) : Inv b new s.readUpstream := by
  unfold MitmSession.readUpstream
  split
  · exact h.inv
  · exact h.start (Or.inr rfl)

/-- The queue is empty, so that the request is handed over at once. -/
theorem Ready.writeUpstream (h : Ready b new s) (hc : Cleared b new ref s.flow) (data : Bytes) :
    Inv b new (s.writeUpstream ref data) := by
  have hrest : s.io.count .read + s.io.count .send + s.io.count .receive = 0 := (h.idle.plain rfl).2
  unfold MitmSession.writeUpstream
  split
  · exact h.inv
  · rename_i hopen
    have hopen : s.isClosed = false := by simpa using hopen
    have hqueue := h.queue hopen
    let u : MitmSession L := ({ s with
      upstreamWriteQueue := [(ref, data)] } : MitmSession L).emit (.pushed data)
    have hwrite : u.doUpstreamWrite =
        ((u.emit (.handed ref data)).emit (.sent .upstream data)).start (.upstreamWrite data) := by
      unfold doUpstreamWrite
      exact if_neg (by simp [u, emit, hopen])
    simp only [hqueue, List.isEmpty_nil, if_true, List.nil_append]
    rw [hwrite]
    refine ⟨?_, ?_, ?_, fun hnot => ?_, fun _ => ?_⟩
    · rw [flow_start _ (by simp [Op.kind])]
      have hpushed : Cleared b new ref (s.flow.emit (.pushed data)) := (Flow.Quietly.emit _ rfl).cleared hc
      have hsent : Idle b new (((s.flow.emit (.pushed data)).emit (.handed ref data)).emit
          (.sent .upstream data)) := (Flow.Quietly.emit _ rfl).idle (hpushed.hand data)
      exact hsent.start (Or.inr (Or.inl rfl))
    · simpa [u, MitmSession.start, MitmSession.emit, Op.weight, Op.kind] using h.setup.client
    · simpa [u, MitmSession.start, MitmSession.emit, Op.weight, Op.kind] using h.setup.upstream
    · rcases hnot with hnot | hnot
      · simp [u, MitmSession.start, MitmSession.emit, h.clientDone] at hnot
      · simp [u, MitmSession.start, MitmSession.emit, h.upstreamDone] at hnot
    · simp [u, MitmSession.start, MitmSession.emit, Op.weight, Op.kind]
      omega

/-! What is known when a handler starts. -/

/-- The invariant while the handler of `op` runs. -/
structure InvAfter (b : Flow) (new : Ref) (op : Op) (s : MitmSession L) : Prop where
  sound : if op.kind = .dial then Sound b new s.flow else SoundAfter b new op s.flow
  setup : Setup (fun k => s.io.count k + op.weight k) s

/-- Losing a handler does no harm. -/
theorem SoundAfter.drop {f : Flow} (h : SoundAfter b new op f) (hop : op.kind ≠ .dial) :
    Sound b new f := by
  cases hk : op.kind with
  | read => exact (h.idle (Or.inl hk)).sound
  | send => exact (h.idle (Or.inr (Or.inl hk))).sound
  | receive => exact (h.idle (Or.inr (Or.inr hk))).sound
  | dial => exact absurd hk hop
  | clientHandshake => exact h.other (Or.inr (Or.inl hk))
  | upstreamHandshake => exact h.other (Or.inr (Or.inr hk))
  | other => exact h.other (Or.inl hk)
  | decision a =>
    have hdecision : op = .decision a := by
      cases op <;> simp_all [Op.kind]
    subst hdecision
    exact h.decided.1.sound

theorem Setup.drop (h : Setup (fun k => s.io.count k + op.weight k) s)
    (hopen : s.isClosed = false → op.kind ≠ .send) : Setup s.io.count s := by
  have hclient := h.client
  have hupstream := h.upstream
  refine ⟨by omega, by omega, fun hnot => ?_, fun ho => ?_⟩
  · obtain ⟨hasked, hd, hrest⟩ := h.early hnot
    refine ⟨hasked, fun a => ?_, by omega⟩
    have := hd a
    omega
  · have hqueue := h.queue ho
    have hsend := hopen ho
    simpa [Op.weight, hsend] using hqueue

namespace InvAfter

theorem drop (h : InvAfter b new op s) (hopen : s.isClosed = false → op.kind ≠ .send) : Inv b new s := by
  refine ⟨?_, Setup.drop h.setup hopen⟩
  have hsound := h.sound
  split at hsound
  · exact hsound
  · rename_i hop
    exact SoundAfter.drop hsound hop

theorem drop_closed (h : InvAfter b new op s) (hclosed : s.isClosed = true) : Inv b new s :=
  h.drop fun hopen => by simp [hclosed] at hopen

theorem close (h : InvAfter b new op s) : Inv b new s.close := by
  unfold MitmSession.close
  split
  · rename_i hclosed
    exact h.drop_closed hclosed
  · have hclosed : InvAfter b new op { s with isClosed := true } := by
      refine ⟨h.sound, h.setup.client, h.setup.upstream, h.setup.early, fun hopen => ?_⟩
      cases hopen
    have hcalm := ((Calmly.closes.removeFromQueue { s with isClosed := true }).trans
      (Calmly.closes.cancelTimer _)).trans (Calmly.cancel _ fun op => op.onClientSocket || op.onServerSocket)
    exact (hcalm.trans (Calmly.emit _ rfl)).inv (hclosed.drop_closed rfl)

/-- An exchange needs both handshakes. -/
theorem done (h : InvAfter b new op s) (hop : op.kind = .read ∨ op.kind = .send ∨ op.kind = .receive ∨
    ∃ a, op.kind = .decision a) :
    s.clientHandshakeDone = true ∧ s.upstreamHandshakeDone = true := by
  by_contra hnot
  have hnot : s.clientHandshakeDone = false ∨ s.upstreamHandshakeDone = false := by
    cases hc : s.clientHandshakeDone
    · exact Or.inl rfl
    · cases hu : s.upstreamHandshakeDone
      · exact Or.inr rfl
      · simp [hc, hu] at hnot
  obtain ⟨-, hd, hrest⟩ := h.setup.early hnot
  rcases hop with hop | hop | hop | ⟨a, hop⟩
  · simp [Op.weight, hop] at hrest
  · simp [Op.weight, hop] at hrest
  · simp [Op.weight, hop] at hrest
  · have := hd a
    simp [Op.weight, hop] at this

theorem idle (h : InvAfter b new op s) (hop : op.kind = .read ∨ op.kind = .send ∨ op.kind = .receive ∨
    ∃ a, op.kind = .decision a) : Idle b new s.flow := by
  have hsound := h.sound
  rw [if_neg (by rcases hop with hop | hop | hop | ⟨a, hop⟩ <;> simp [hop])] at hsound
  rcases hop with hop | hop | hop | ⟨a, hop⟩
  · exact hsound.idle (Or.inl hop)
  · exact hsound.idle (Or.inr (Or.inl hop))
  · exact hsound.idle (Or.inr (Or.inr hop))
  · have hdecision : op = .decision a := by
      cases op <;> simp_all [Op.kind]
    subst hdecision
    exact hsound.decided.1

/-- The entry of a finished write is taken off the queue. -/
theorem ready (h : InvAfter b new op s) (hop : op.kind = .read ∨ op.kind = .send ∨ op.kind = .receive ∨
    ∃ a, op.kind = .decision a) :
    Ready b new { s with upstreamWriteQueue := s.upstreamWriteQueue.drop (op.weight .send) } := by
  have hidle := h.idle hop
  obtain ⟨hclient, hupstream⟩ := h.done hop
  have hrest : s.io.count .read + s.io.count .send + s.io.count .receive = 0 := (hidle.plain rfl).2
  have hc := h.setup.client
  have hu := h.setup.upstream
  rw [hclient, Bool.toNat_true] at hc
  rw [hupstream, Bool.toNat_true] at hu
  refine ⟨hidle, hclient, hupstream, ?_, ?_, ?_, fun hopen => ?_⟩
  · show s.io.count .dial = 0
    omega
  · show s.io.count .clientHandshake = 0
    omega
  · show s.io.count .upstreamHandshake = 0
    omega
  · have hqueue := h.setup.queue hopen
    apply List.drop_eq_nil_of_le
    omega

/-- The same for the handlers that leave the queue alone. -/
theorem ready_read (h : InvAfter b new op s) (hop : op.kind = .read ∨ op.kind = .receive ∨
    ∃ a, op.kind = .decision a) : Ready b new s := by
  have hweight : op.weight .send = 0 := by
    rcases hop with hop | hop | ⟨a, hop⟩ <;> simp [Op.weight, hop]
  have hready := h.ready (by
    rcases hop with hop | hop | hop
    · exact Or.inl hop
    · exact Or.inr (Or.inr (Or.inl hop))
    · exact Or.inr (Or.inr (Or.inr hop)))
  rw [hweight, List.drop_zero] at hready
  exact hready

theorem emit (h : InvAfter b new op s) {e : Effect} (he : e.subject = none) :
    InvAfter b new op (s.emit e) := by
  have hquiet : Flow.Quietly s.flow (s.emit e).flow := (Calmly.emit s he).flow
  refine ⟨?_, h.setup.client, h.setup.upstream, h.setup.early, h.setup.queue⟩
  have hsound := h.sound
  split at hsound
  · rename_i hop
    rw [if_pos hop]
    exact hquiet.sound hsound
  · rename_i hop
    rw [if_neg hop]
    exact hquiet.soundAfter hsound

theorem redial (h : InvAfter b new op s) (hop : op.kind = .dial) {op' : Op} (hop' : op'.kind = .dial) :
    Inv b new (s.start op') := by
  have hsound := h.sound
  rw [if_pos hop] at hsound
  have hweight : op'.weight = op.weight := by
    funext k
    simp [Op.weight, hop, hop']
  have hflow : (s.start op').flow = s.flow := by
    simp only [flow, MitmSession.start, Flow.mk.injEq, true_and]
    funext k
    by_cases hk : k = .dial
    · simp [hk]
    · simp [hk, Op.weight, hop', Ne.symm hk]
  have hcount : (s.start op').io.count = fun k => s.io.count k + op.weight k := by
    funext k
    rw [← hweight]
    exact Io.count_start s.io op' k
  refine ⟨hflow ▸ hsound, ?_⟩
  rw [hcount]
  exact ⟨h.setup.client, h.setup.upstream, h.setup.early, h.setup.queue⟩

end InvAfter

/-! One lemma for each handler that does more than what `Calmly` allows. -/

theorem handleResolve_inv (h : InvAfter b new .resolve s) (o : Outcome) : Inv b new (s.handleResolve o) := by
  have hdrop := h.drop (by simp [Op.kind])
  unfold MitmSession.handleResolve
  split
  · exact hdrop
  · split
    · exact (Calmly.answers.sendErrorResponse s _ _).inv hdrop
    · exact h.redial rfl rfl

theorem handleConnected_inv (h : InvAfter b new .connect s) (o : Outcome) :
    Inv b new (s.handleConnected o) := by
  have hdrop := h.drop (by simp [Op.kind])
  unfold MitmSession.handleConnected
  split
  · exact hdrop
  · split
    · exact (Calmly.answers.sendErrorResponse s _ _).inv hdrop
    · unfold sendEstablishedResponse
      split
      · exact hdrop
      · have hemit : InvAfter b new .connect (s.emit (.answered Session.established)) := h.emit rfl
        exact hemit.redial rfl rfl

theorem handleEstablished_inv (h : InvAfter b new .established s) (env : Env) (o : Outcome) :
    Inv b new (s.handleEstablished env o) := by
  have hdrop := h.drop (by simp [Op.kind])
  unfold MitmSession.handleEstablished
  split
  · exact hdrop
  · split
    · exact (Calmly.closes.close s).inv hdrop
    · unfold startTlsHandshakes
      split
      · exact hdrop
      · split
        · exact (Calmly.closes.close s).inv hdrop
        · have hclient := h.setup.client
          have hupstream := h.setup.upstream
          have hweight : Op.established.weight .dial = 1 := rfl
          refine ⟨?_, ?_, ?_, ?_, ?_⟩
          · rw [flow_start _ (by simp [Op.kind]), flow_start _ (by simp [Op.kind])]
            exact (hdrop.sound.start_handshake (Or.inl rfl)).start_handshake (Or.inr rfl)
          · simp [MitmSession.start, Op.weight, Op.kind] at hclient ⊢
            omega
          · simp [MitmSession.start, Op.weight, Op.kind] at hupstream ⊢
            omega
          · simpa [MitmSession.start, Op.weight, Op.kind] using hdrop.setup.early
          · simpa [MitmSession.start, Op.weight, Op.kind] using hdrop.setup.queue

/-- After the second handshake nothing is outstanding. -/
theorem both_done (h : Inv b new s) (hearly : s.clientHandshakeDone = false ∨ s.upstreamHandshakeDone = false)
    (hdial : s.io.count .dial = 0) (hc : s.io.count .clientHandshake = 0)
    (hu : s.io.count .upstreamHandshake = 0) :
    Ready b new { s with clientHandshakeDone := true, upstreamHandshakeDone := true } := by
  obtain ⟨hasked, hd, hrest⟩ := h.setup.early hearly
  obtain ⟨⟨st, hp, -⟩, hsince⟩ := h.sound
  refine ⟨⟨hsince, hp.giveUp, hasked, hd, fun _ => ⟨rfl, hrest⟩⟩, rfl, rfl, hdial, hc, hu, fun hopen => ?_⟩
  have hlength : s.upstreamWriteQueue.length = 0 := by
    rw [h.setup.queue hopen]
    omega
  exact List.eq_nil_of_length_eq_zero hlength

theorem Ready.onBothHandshakesComplete (h : Ready b new s) : Inv b new s.onBothHandshakesComplete := by
  unfold MitmSession.onBothHandshakesComplete
  split
  · exact h.inv
  · exact h.readClient

theorem handleClientHandshake_inv (h : InvAfter b new .clientHandshake s) (o : Outcome) :
    Inv b new (s.handleClientHandshake o) := by
  have hdrop := h.drop (by simp [Op.kind])
  have hclient := h.setup.client
  have hupstream := h.setup.upstream
  have hweight : Op.clientHandshake.weight .clientHandshake = 1 := rfl
  have hnot : s.clientHandshakeDone = false := by
    cases hc : s.clientHandshakeDone
    · rfl
    · rw [hc, Bool.toNat_true] at hclient
      omega
  unfold MitmSession.handleClientHandshake
  split
  · exact hdrop
  · split
    · exact (Calmly.closes.close s).inv hdrop
    · dsimp only
      split
      · rename_i hup
        have hup : s.upstreamHandshakeDone = true := hup
        rw [hup, Bool.toNat_true] at hupstream
        have hready := both_done hdrop (Or.inl hnot) (by omega) (by omega) (by omega)
        rw [hup]
        exact hready.onBothHandshakesComplete
      · rename_i hup
        have hup : s.upstreamHandshakeDone = false := by simpa using hup
        refine ⟨hdrop.sound, ?_, hdrop.setup.upstream, fun _ => hdrop.setup.early (Or.inl hnot),
          hdrop.setup.queue⟩
        show s.io.count .dial + s.io.count .clientHandshake + true.toNat ≤ 1
        rw [Bool.toNat_true]
        omega

theorem handleUpstreamHandshake_inv (h : InvAfter b new .upstreamHandshake s) (o : Outcome) :
    Inv b new (s.handleUpstreamHandshake o) := by
  have hdrop := h.drop (by simp [Op.kind])
  have hclient := h.setup.client
  have hupstream := h.setup.upstream
  have hweight : Op.upstreamHandshake.weight .upstreamHandshake = 1 := rfl
  have hnot : s.upstreamHandshakeDone = false := by
    cases hc : s.upstreamHandshakeDone
    · rfl
    · rw [hc, Bool.toNat_true] at hupstream
      omega
  unfold MitmSession.handleUpstreamHandshake
  split
  · exact hdrop
  · split
    · exact (Calmly.closes.close s).inv hdrop
    · dsimp only
      split
      · rename_i hcl
        have hcl : s.clientHandshakeDone = true := hcl
        rw [hcl, Bool.toNat_true] at hclient
        have hready := both_done hdrop (Or.inr hnot) (by omega) (by omega) (by omega)
        rw [hcl]
        exact hready.onBothHandshakesComplete
      · rename_i hcl
        refine ⟨hdrop.sound, hdrop.setup.client, ?_, fun _ => hdrop.setup.early (Or.inr hnot),
          hdrop.setup.queue⟩
        show s.io.count .dial + s.io.count .upstreamHandshake + true.toNat ≤ 1
        rw [Bool.toNat_true]
        omega

/-- The request is new, and it is tested before it goes anywhere. -/
theorem Ready.handleRequest {env : Env} (h : Ready b env.newRef s)
    (hfresh : env.newRef ∉ tookRefs s.log) (req : HttpRequest) :
    Inv b env.newRef (s.handleRequest env req) := by
  have hsetup := h.setup
  unfold MitmSession.handleRequest
  dsimp only
  split
  · -- the callback is registered, the timer is off
    rename_i hon
    have hcount (k : OpKind) : Io.count (s.io.cancel (· == .timer) .aborted) k = s.io.count k :=
      Io.count_cancel s.io _ _ k
    refine ⟨?_, ?_, ?_, fun hnot => ?_, fun hopen => ?_⟩
    · let item : InterceptedRequest Ref :=
        { id := env.nextId, isHttps := true, host := s.targetHost, port := s.targetPort
          request := some env.newRef, onDecision := env.newRef }
      have hasked := h.idle.ask rfl hfresh req (show item.onDecision = env.newRef from rfl)
      refine Flow.Quietly.sound ?_ hasked
      refine ⟨⟨[], ?_, by simp⟩, rfl, rfl, rfl, fun k _ => ?_⟩
      · simp [flow, intercept, emit, MitmSession.cancelTimer, MitmSession.cancel, hon, item]
      · show (if k = .dial then 0 else Io.count (s.io.cancel (· == .timer) .aborted) k) =
          if k = .dial then 0 else s.io.count k
        rw [hcount]
    · simpa [intercept, emit, MitmSession.cancelTimer, MitmSession.cancel] using hsetup.client
    · simpa [intercept, emit, MitmSession.cancelTimer, MitmSession.cancel] using hsetup.upstream
    · simp only [intercept, emit, MitmSession.cancelTimer, MitmSession.cancel, h.clientDone, h.upstreamDone,
        Bool.true_eq_false, or_self] at hnot
    · have hopen : s.isClosed = false := by
        simpa only [intercept, emit, MitmSession.cancelTimer, MitmSession.cancel] using hopen
      simpa [intercept, emit, MitmSession.cancelTimer, MitmSession.cancel] using hsetup.queue hopen
  · rename_i hoff
    have hoff : env.interceptEnabled = false := by simpa using hoff
    have hcleared := h.idle.pass rfl hfresh req
    rw [List.append_cons] at hcleared
    rw [hoff]
    refine Ready.writeUpstream ?_ hcleared _
    exact ⟨hcleared.idle, h.clientDone, h.upstreamDone, h.dial, h.clientHandshake,
      h.upstreamHandshake, h.queue⟩

theorem handleClientRead_inv {env : Env} (h : InvAfter b env.newRef .clientRead s)
    (hfresh : env.newRef ∉ tookRefs s.log) (o : Outcome) :
    Inv b env.newRef (s.handleClientRead env o) := by
  have hready := h.ready_read (Or.inl rfl)
  unfold MitmSession.handleClientRead
  split
  · exact hready.inv
  · split
    · rename_i data
      have hcalm : Calmly s (s.resetTimer.emit (.read data)) :=
        (Calmly.resetTimer s).trans (Calmly.emit _ rfl)
      have hfresh : env.newRef ∉ tookRefs (s.resetTimer.emit (.read data)).log := by
        simpa [MitmSession.resetTimer, MitmSession.cancelTimer, MitmSession.cancel,
          MitmSession.start, MitmSession.emit, tookRefs] using hfresh
      dsimp only
      generalize s.resetTimer.emit (.read data) = u at hcalm hfresh
      have hready := hcalm.ready hready
      have hfields (parser : HttpParser L) : Ready b env.newRef { u with
          clientAccumulated := u.clientAccumulated ++ data, clientParser := parser } := by
        have hsame : Calmly u { u with
            clientAccumulated := u.clientAccumulated ++ data, clientParser := parser } :=
          .same rfl rfl rfl rfl rfl rfl
        exact hsame.ready hready
      split
      · split
        · rename_i req parser _
          exact (hfields parser).handleRequest hfresh req
        · rename_i parser _
          exact (hfields parser).readClient
      · split
        · exact (hfields _).readClient
        · exact ((Calmly.closes.close _).ready (hfields _)).inv
    · exact ((Calmly.closes.close s).ready hready).inv

theorem handleDecision_inv {a : InterceptAction} (h : InvAfter b new (.decision a) s) (env : Env) :
    Inv b new (s.handleDecision env a) := by
  have hready := h.ready_read (Or.inr (Or.inr ⟨a, rfl⟩))
  have hsound := h.sound
  rw [if_neg (by simp [Op.kind])] at hsound
  have hcalm := Calmly.resetTimer s
  unfold MitmSession.handleDecision
  split
  · exact hready.inv
  · cases a with
    | forward =>
      obtain ⟨r, hcleared⟩ := hsound.decided.2 rfl
      have hrequest : s.resetTimer.currentTransaction.request.getD 0 = r := by
        rw [hcalm.request, show s.currentTransaction.request = some r from hcleared.request]
        rfl
      dsimp only
      rw [hrequest]
      exact (hcalm.ready hready).writeUpstream (hcalm.flow.cleared hcleared) _
    | drop => exact ((hcalm.trans (Calmly.answers.sendErrorResponse _ _ _)).ready hready).inv

theorem handleUpstreamWrite_inv {data : Bytes} (h : InvAfter b new (.upstreamWrite data) s)
    (o : Outcome) : Inv b new (s.handleUpstreamWrite o) := by
  unfold MitmSession.handleUpstreamWrite
  split
  · rename_i hclosed
    exact h.drop_closed hclosed
  · split
    · exact h.close
    · have hready := h.ready (Or.inr (Or.inl rfl))
      rename_i hopen _
      have hqueue := hready.queue (by simpa using hopen)
      rw [show (Op.upstreamWrite data).weight .send = 1 from rfl, List.drop_one] at hready hqueue
      dsimp only at hqueue ⊢
      rw [hqueue] at hready ⊢
      simpa using hready.readUpstream

theorem Ready.finishExchange (h : Ready b new s) (env : Env) (res : HttpResponse) :
    Inv b new (s.finishExchange env res) := by
  have hready := (Calmly.respond s .relayed res).ready h
  unfold MitmSession.finishExchange
  dsimp only
  split
  · exact Ready.readClient ⟨⟨hready.idle.since, hready.idle.proper, hready.idle.asked,
      hready.idle.decision, hready.idle.plain⟩, hready.clientDone, hready.upstreamDone, hready.dial,
      hready.clientHandshake, hready.upstreamHandshake, hready.queue⟩
  · have hflag : Calmly (s.respond .relayed res)
        { s.respond .relayed res with closeAfterWrite := true } := .same rfl rfl rfl rfl rfl rfl
    split
    · exact ((hflag.trans (Calmly.closes.close _)).ready hready).inv
    · exact (hflag.ready hready).inv

theorem handleUpstreamRead_inv (h : InvAfter b new .upstreamRead s) (env : Env) (o : Outcome) :
    Inv b new (s.handleUpstreamRead env o) := by
  have hready := h.ready_read (Or.inr (Or.inl rfl))
  unfold MitmSession.handleUpstreamRead
  split
  · exact hready.inv
  · split
    · rename_i data
      have hcalm : Calmly s ((s.resetTimer.emit (.received data)).writeClient .relayed data) :=
        ((Calmly.resetTimer s).trans (Calmly.emit _ rfl)).trans (Calmly.writeClient _ _ _)
      dsimp only
      generalize (s.resetTimer.emit (.received data)).writeClient .relayed data = u at hcalm
      have hready := hcalm.ready hready
      have hfields (parser : HttpParser L) : Ready b new { u with
          upstreamAccumulated := u.upstreamAccumulated ++ data, upstreamParser := parser } := by
        have hsame : Calmly u { u with
            upstreamAccumulated := u.upstreamAccumulated ++ data, upstreamParser := parser } :=
          .same rfl rfl rfl rfl rfl rfl
        exact hsame.ready hready
      split
      · split
        · rename_i res parser _
          exact (hfields parser).finishExchange env res
        · rename_i parser _
          exact (hfields parser).readUpstream
      · exact (hfields _).readUpstream
    · dsimp only
      split
      · exact (((Calmly.reportTaken s _).trans (Calmly.closes.close _)).ready hready).inv
      · exact ((Calmly.closes.close s).ready hready).inv

theorem handle_inv {env : Env} (h : InvAfter b env.newRef op s)
    (hfresh : env.newRef ∉ tookRefs s.log) (o : Outcome) :
    Inv b env.newRef (s.handle env op o) := by
  cases op with
  | timer => exact (Calmly.handleTimeout s o).inv (h.drop (by simp [Op.kind]))
  | clientWrite data => exact (Calmly.handleClientWrite s o).inv (h.drop (by simp [Op.kind]))
  | rawWrite data => exact (Calmly.closes.close s).inv (h.drop (by simp [Op.kind]))
  | serverWrite data => exact h.drop (by simp [Op.kind])
  | resolve => exact handleResolve_inv h o
  | connect => exact handleConnected_inv h o
  | established => exact handleEstablished_inv h env o
  | clientHandshake => exact handleClientHandshake_inv h o
  | upstreamHandshake => exact handleUpstreamHandshake_inv h o
  | clientRead => exact handleClientRead_inv h hfresh o
  | upstreamRead => exact handleUpstreamRead_inv h env o
  | upstreamWrite data => exact handleUpstreamWrite_inv h o
  | decision a => exact handleDecision_inv h env

/-! The steps of a session. -/

theorem Calmly.holds (h : Calmly s t) (hs : Holds s) : Holds t :=
  ⟨h.flow.holds hs.flow, h.setup hs.setup⟩

theorem complete_calmly {k : ℕ} {o : Outcome} (hok : s.complete k o = some t) : Calmly s t := by
  obtain ⟨op, io, hio, -, rfl⟩ := complete_spec hok
  exact ⟨⟨_, rfl, op.completion_subject o⟩, rfl, rfl,
    fun k _ => congrFun (Io.count_complete hio) k, rfl, rfl, fun hopen => ⟨hopen, rfl⟩⟩

/-- Taking out a handler for dialling leaves the flow as it is. -/
theorem flow_taken {io : Io} {k : ℕ} {o : Outcome} (hio : s.io.take k = some ((op, o), io)) :
    s.flow.count = fun kind => (flow { s with io := io }).count kind +
      if op.kind = .dial then 0 else op.weight kind := by
  funext kind
  show (if kind = .dial then 0 else s.io.count kind) =
    (if kind = .dial then 0 else Io.count io kind) + if op.kind = .dial then 0 else op.weight kind
  rw [Io.count_take hio]
  by_cases hk : kind = .dial
  · simp [hk, Op.weight]
  · by_cases hop : op.kind = .dial
    · simp [hk, hop, Op.weight, Ne.symm hk]
    · simp [hk, hop]

theorem taken_inv (h : Holds s) {k : ℕ} {o : Outcome} {io : Io}
    (hio : s.io.take k = some ((op, o), io)) (new : Ref) :
    InvAfter s.flow new op { s with io := io } := by
  refine ⟨?_, ?_⟩
  · obtain ⟨st, hp, hfits⟩ := h.flow
    rw [flow_taken hio] at hfits
    split
    · rename_i hop
      simp only [hop, if_true, Nat.add_zero] at hfits
      refine ⟨⟨st, hp, ?_⟩, Flow.Since.refl s.flow⟩
      cases st <;> exact hfits
    · rename_i hop
      simp only [hop, if_false] at hfits
      refine ⟨⟨st, hp, ?_⟩, Flow.Since.refl s.flow⟩
      cases st <;> exact hfits
  · have hsetup := h.setup
    rw [Io.count_take hio] at hsetup
    exact ⟨hsetup.client, hsetup.upstream, hsetup.early, hsetup.queue⟩

theorem dispatch_inv (h : Holds s) {k : ℕ} {env : Env} (hfresh : env.newRef ∉ tookRefs s.log)
    (hok : s.dispatch k env = some t) : Inv s.flow env.newRef t := by
  obtain ⟨op, o, io, hio, rfl⟩ := dispatch_spec hok
  exact handle_inv (taken_inv h hio env.newRef) hfresh o

theorem decided_holds (h : Holds s) (href : ref ∈ s.asked) (a : InterceptAction) :
    Holds (s.decided ref a) := by
  have hflow : (s.decided ref a).flow = { s.flow with
      log := s.log ++ [.decided ref a]
      asked := s.asked.erase ref
      count := fun k => s.flow.count k + (Op.decision a).weight k } := by
    simp only [flow, MitmSession.decided, Flow.mk.injEq, true_and]
    funext k
    by_cases hk : k = .dial
    · simp [hk, Op.weight, Op.kind]
    · simp [hk]
  refine ⟨?_, ?_, ?_, fun hnot => ?_, fun hopen => ?_⟩
  · rw [hflow]
    exact h.flow.decide href a
  · simpa [MitmSession.decided, Op.weight, Op.kind] using h.setup.client
  · simpa [MitmSession.decided, Op.weight, Op.kind] using h.setup.upstream
  · obtain ⟨hasked, -, -⟩ := h.setup.early hnot
    simp [hasked] at href
  · simpa [MitmSession.decided, Op.weight, Op.kind] using h.setup.queue hopen

theorem started_holds (targetHost : Bytes) (targetPort : UInt16) :
    Holds (started targetHost targetPort : MitmSession L) := by
  refine ⟨⟨.quiet, .nil, rfl, fun a => ?_, fun _ => ⟨rfl, Nat.zero_le 1⟩⟩, Nat.le_refl 1,
    Nat.le_refl 1, fun _ => ⟨rfl, fun a => ?_, rfl⟩, fun _ => rfl⟩
  · cases a <;> rfl
  · cases a <;> rfl

/-- The invariant holds in every state of a session. -/
theorem reached_holds (h : (system L).Reached s) : Holds s := by
  refine h.invariant (I := Holds) ?_ ?_
  · rintro _ ⟨targetHost, targetPort, rfl⟩
    exact started_holds targetHost targetPort
  · intro s a t hs _ hstep
    cases moves_of_step hstep with
    | complete ht => exact (complete_calmly ht).holds hs
    | handled hfresh ht =>
      have hinv := dispatch_inv hs hfresh ht
      exact ⟨hinv.sound.holds, hinv.setup⟩
    | decide href => exact decided_holds hs href _
    | close => exact (Calmly.closes.close s).holds hs

end BurpTUI.MitmSession
