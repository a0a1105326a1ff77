import BurpTUI.Http.Script
import BurpTUI.Proxy.Answer
import BurpTUI.Proxy.SessionFlow

namespace BurpTUI.Session

open BurpTUI.Flow (Idle Cleared Sound SoundAfter)

variable {L : Llhttp} {s t u : Session L} {op : Op}

/-- No read from the upstream that is outstanding will bring data. -/
structure Dead (s : Session L) : Prop where
  ready : ∀ data, (.upstreamRead, .bytes data) ∉ s.io.ready
  pending : .upstreamRead ∈ s.io.pending → s.serverOpen = false

/-- What is cancelled brings no data. -/
theorem ready_of_cancel {p : Op → Bool} {data : Bytes}
    (hmem : (op, .bytes data) ∈ (s.cancel p).io.ready) : (op, .bytes data) ∈ s.io.ready := by
  rcases List.mem_append.mp hmem with hmem | hmem
  · exact hmem
  · obtain ⟨op', -, hop⟩ := List.mem_map.mp hmem
    cases hop

/-- `t` is `s` as far as answers go, unless it is closed. -/
structure Still (s t : Session L) : Prop where
  flow : Flow.Quietly s.flow t.flow
  answer : openAnswer answersTo t.log = openAnswer answersTo s.log ∨ openAnswer answersTo t.log = none
  once : AnsweredOnce answersTo s.log → AnsweredOnce answersTo t.log
  response : t.currentTransaction.response = s.currentTransaction.response
  dead : Dead s → Dead t

namespace Still

theorem refl (s : Session L) : Still s s := ⟨.refl _, Or.inl rfl, id, rfl, id⟩

theorem trans (h : Still s t) (h' : Still t u) : Still s u := by
  refine ⟨h.flow.trans h'.flow, ?_, fun hs => h'.once (h.once hs), h'.response.trans h.response,
    fun hs => h'.dead (h.dead hs)⟩
  rcases h'.answer with ha | ha
  · rw [ha]
    exact h.answer
  · exact Or.inr ha

theorem emit (s : Session L) {e : Effect} (he : e.subject = none)
    (htrack : ∀ a, trackAnswer answersTo a e = a) : Still s (s.emit e) := by
  have happend (hs : AnsweredOnce answersTo s.log) := hs.append (fun e' he' => by
    rw [List.mem_singleton.mp he']
    exact htrack)
  refine ⟨Quietly.emit s he, Or.inl ?_, fun hs => (happend hs).1, rfl, fun hd => ⟨hd.1, hd.2⟩⟩
  show openAnswer answersTo (s.log ++ [e]) = openAnswer answersTo s.log
  rw [openAnswer_append]
  exact htrack _

theorem cancel (s : Session L) (p : Op → Bool) : Still s (s.cancel p) := by
  refine ⟨Quietly.cancel s p, Or.inl rfl, id, rfl, fun hd => ⟨fun data hmem => ?_, fun hmem => ?_⟩⟩
  · exact hd.ready data (ready_of_cancel hmem)
  · exact hd.pending (List.mem_of_mem_filter hmem)

theorem start (s : Session L) {op : Op} (hop : op.kind = .other) : Still s (s.start op) := by
  refine ⟨Quietly.start s hop, Or.inl rfl, id, rfl, fun hd => ⟨hd.ready, fun hmem => ?_⟩⟩
  rcases List.mem_append.mp hmem with hmem | hmem
  · exact hd.pending hmem
  · rw [← List.mem_singleton.mp hmem] at hop
    cases hop

/-- When the socket of the client is closed the answer ends. -/
theorem closed (s : Session L) : Still s (s.emit .closed) := by
  refine ⟨Quietly.emit s rfl, Or.inr ?_, fun hs => ?_, rfl, fun hd => ⟨hd.1, hd.2⟩⟩
  · show openAnswer answersTo (s.log ++ [.closed]) = none
    rw [openAnswer_append]
    cases openAnswer answersTo s.log <;> rfl
  · apply hs.fresh
    cases openAnswer answersTo s.log <;> exact Or.inl rfl

theorem closes : AllowsClose (Still (L := L)) where
  refl := refl
  trans := trans
  cancel := cancel
  removed s _ := emit s rfl fun a => by cases a <;> rfl
  clientGone s := ⟨.refl s.flow, Or.inl rfl, id, rfl, fun hd => ⟨hd.ready, hd.pending⟩⟩
  closed := closed
  serverGone s := ⟨.refl s.flow, Or.inl rfl, id, rfl, fun hd => ⟨hd.ready, fun _ => rfl⟩⟩

theorem writes : AllowsWrite (Still (L := L)) where
  refl := refl
  trans := trans
  send s _ := (emit s rfl fun a => by cases a <;> rfl).trans (start _ rfl)
  sendServer s _ := (emit s rfl fun a => by cases a <;> rfl).trans (start _ rfl)

theorem resetTimer (s : Session L) : Still s s.resetTimer := closes.resetTimer (fun s => start s rfl) s

theorem fields (hflow : t.flow = s.flow) (hresponse : t.currentTransaction.response = s.currentTransaction.response)
    (hdead : (t.io, t.serverOpen) = (s.io, s.serverOpen)) : Still s t := by
  obtain ⟨hio, hopen⟩ := Prod.mk.inj hdead
  have hlog : t.log = s.log := congrArg Flow.log hflow
  exact ⟨hflow ▸ .refl _, Or.inl (by rw [hlog]), by rw [hlog]; exact id, hresponse,
    fun hd => ⟨hio ▸ hd.ready, by rw [hio, hopen]; exact hd.pending⟩⟩

theorem writeServerBlind (s : Session L) (data : Bytes) : Still s (s.writeServerBlind data) := by
  have hfield : Still s { s with writeServerQueue := s.writeServerQueue ++ [data] } := fields rfl rfl rfl
  exact writes.writeServerBlind (hfield.trans (emit _ rfl fun a => by cases a <;> rfl))

theorem handleClientWrite (s : Session L) (o : Outcome) : Still s (s.handleClientWrite o) :=
  writes.handleClientWrite closes.close (fields rfl rfl rfl) o

theorem handleServerWrite (s : Session L) (o : Outcome) : Still s (s.handleServerWrite o) :=
  writes.handleServerWrite (fun _ _ => closes.close s) (fields rfl rfl rfl)

end Still

/-- The request is neither with the intercept manager nor on its way to the upstream. -/
structure Settled (n : OpKind → ℕ) (s : Session L) : Prop where
  asked : s.asked = []
  decision : ∀ a, n (.decision a) = 0
  dial : n .dial = 0
  send : n .send = 0

/-- How far a request is, by its answer and the outstanding operations `n`. -/
inductive Phase (n : OpKind → ℕ) (s : Session L) (a : Answer) : Prop
  | unanswered (empty : a = {}) (response : s.currentTransaction.response = none)
      (read : n .read = 0)
  | relaying (relayed : a.Relayed) (response : s.currentTransaction.response = none)
      (settled : Settled n s) (read : n .read = 0)
  | generated (one : a.queued.map Prod.fst = [.generated])
      (response : s.currentTransaction.response ≠ none) (settled : Settled n s) (read : n .read = 0)
      (dead : Dead s)
  | complete (relayed : a.Relayed)
      (finished : s.currentTransaction.request = none ∨ s.currentTransaction.response ≠ none)
      (settled : Settled n s) (receive : n .receive = 0)

/-- The invariant. While the session waits for a request it has no transaction. -/
structure Answering (n : OpKind → ℕ) (s : Session L) : Prop where
  once : AnsweredOnce answersTo s.log
  phase : ∀ a, openAnswer answersTo s.log = some a → s.isConnect = false ∧ Phase n s a
  reading : s.isConnect = false → 0 < n .read →
    s.currentTransaction.request = none ∧ s.currentTransaction.response = none

theorem Still.settled (h : Still s t) (hs : Settled s.io.count s) : Settled t.io.count t where
  asked := h.flow.asked.trans hs.asked
  decision a := (h.flow.count _ (by simp)).trans (hs.decision a)
  dial := (h.flow.count _ (by simp)).trans hs.dial
  send := (h.flow.count _ (by simp)).trans hs.send

theorem Still.answering (h : Still s t) (hs : Answering s.io.count s) : Answering t.io.count t := by
  have hrequest : t.currentTransaction.request = s.currentTransaction.request := h.flow.request
  have hconnect : t.isConnect = s.isConnect := h.flow.tunnel
  have hread : t.io.count .read = s.io.count .read := h.flow.count _ (by simp)
  refine ⟨h.once hs.once, fun a ha => ?_, fun hc hpos => ?_⟩
  · rcases h.answer with hsame | hnone
    · obtain ⟨hc, hphase⟩ := hs.phase a (hsame ▸ ha)
      refine ⟨hconnect.trans hc, ?_⟩
      cases hphase with
      | unanswered empty response read =>
        exact .unanswered empty (h.response.trans response) (hread.trans read)
      | relaying relayed response settled read =>
        exact .relaying relayed (h.response.trans response) (h.settled settled) (hread.trans read)
      | generated one response settled read dead =>
        exact .generated one (h.response ▸ response) (h.settled settled) (hread.trans read)
          (h.dead dead)
      | complete relayed finished settled receive =>
        have hreceive : t.io.count .receive = s.io.count .receive := h.flow.count _ (by simp)
        exact .complete relayed (by rw [hrequest, h.response]; exact finished) (h.settled settled)
          (hreceive.trans receive)
    · rw [hnone] at ha
      cases ha
  · rw [hrequest, h.response]
    exact hs.reading (hconnect ▸ hc) (hread ▸ hpos)

/-- What an idle session that is no tunnel has outstanding. -/
theorem settled_of_idle {b : Flow} {new : Ref} (h : Idle b new s.flow) (hc : s.isConnect = false) :
    Settled s.io.count s ∧ s.io.count .read = 0 ∧ s.io.count .receive = 0 := by
  obtain ⟨hdial, hrest⟩ := h.plain hc
  have hdial : s.io.count .dial = 0 := hdial
  have hrest : s.io.count .read + s.io.count .send + s.io.count .receive = 0 := hrest
  exact ⟨⟨h.asked, h.decision, hdial, by omega⟩, by omega, by omega⟩

/-- With no read from the upstream outstanding none can bring data. -/
theorem dead_of_count (h : s.io.count .receive = 0) : Dead s := by
  obtain ⟨hp, hr⟩ := Nat.add_eq_zero_iff.mp h
  rw [List.countP_eq_zero] at hp hr
  refine ⟨fun data hmem => ?_, fun hmem => ?_⟩
  · exact absurd rfl (hr _ hmem)
  · exact absurd rfl (hp _ hmem)

/-- What is zero for `n` is zero for less. -/
theorem Answering.mono {m n : OpKind → ℕ} (h : Answering n s) (hle : ∀ k, m k ≤ n k) :
    Answering m s := by
  have hzero (k : OpKind) (hk : n k = 0) : m k = 0 := Nat.le_zero.mp (hk ▸ hle k)
  have hsettled (hs : Settled n s) : Settled m s :=
    ⟨hs.asked, fun a => hzero _ (hs.decision a), hzero _ hs.dial, hzero _ hs.send⟩
  refine ⟨h.once, fun a ha => ?_, fun hc hpos => h.reading hc (hpos.trans_le (hle _))⟩
  obtain ⟨hc, hphase⟩ := h.phase a ha
  refine ⟨hc, ?_⟩
  cases hphase with
  | unanswered empty response read => exact .unanswered empty response (hzero _ read)
  | relaying relayed response settled read =>
    exact .relaying relayed response (hsettled settled) (hzero _ read)
  | generated one response settled read dead =>
    exact .generated one response (hsettled settled) (hzero _ read) dead
  | complete relayed finished settled receive =>
    exact .complete relayed finished (hsettled settled) (hzero _ receive)

/-- The invariant while the handler of `op` runs. -/
abbrev AnsweringAfter (op : Op) (s : Session L) : Prop :=
  Answering (fun k => s.io.count k + op.weight k) s

theorem AnsweringAfter.answering (h : AnsweringAfter op s) : Answering s.io.count s :=
  h.mono fun _ => Nat.le_add_right _ _

/-- Nothing has been queued for the request at hand, and nothing has come from the upstream. -/
structure Unanswered (s : Session L) : Prop where
  once : AnsweredOnce answersTo s.log
  empty : ∀ a, openAnswer answersTo s.log = some a →
    s.isConnect = false ∧ a = {} ∧ s.currentTransaction.response = none
  read : s.isConnect = false → s.io.count .read = 0

namespace Unanswered

theorem answering (h : Unanswered s) : Answering s.io.count s := by
  refine ⟨h.once, fun a ha => ?_, fun hc hpos => ?_⟩
  · obtain ⟨hc, hempty, hresponse⟩ := h.empty a ha
    exact ⟨hc, .unanswered hempty hresponse (h.read hc)⟩
  · have hzero := h.read hc
    omega

theorem of_still (h : Unanswered s) (hst : Still s t) : Unanswered t := by
  have hconnect : t.isConnect = s.isConnect := hst.flow.tunnel
  refine ⟨hst.once h.once, fun a ha => ?_, fun hc => ?_⟩
  · rcases hst.answer with hsame | hnone
    · obtain ⟨hc, hempty, hresponse⟩ := h.empty a (hsame ▸ ha)
      exact ⟨hconnect.trans hc, hempty, hst.response.trans hresponse⟩
    · rw [hnone] at ha
      cases ha
  · have hread : t.io.count .read = s.io.count .read := hst.flow.count _ (by simp)
    exact hread.trans (h.read (hconnect ▸ hc))

theorem start (h : Unanswered s) {op : Op} (hop : op.kind ≠ .read) : Unanswered (s.start op) := by
  refine ⟨h.once, h.empty, fun hc => ?_⟩
  have hread := h.read hc
  rw [Session.start, Io.count_start, hread]
  simp [Op.weight, hop]

/-- Effects that are no part of an answer. -/
theorem emit (h : Unanswered s) {e : Effect} (he : ∀ a, trackAnswer answersTo a e = a) :
    Unanswered (s.emit e) := by
  have happend := h.once.append fun e' he' => by
    rw [List.mem_singleton.mp he']
    exact he
  refine ⟨happend.1, fun a ha => h.empty a ?_, h.read⟩
  rw [← happend.2]
  exact ha

theorem intercept (h : Unanswered s) (item : InterceptedRequest Ref) :
    Unanswered (s.intercept item) := by
  have hemit := h.emit (e := .intercepted item) fun a => by cases a <;> rfl
  exact ⟨hemit.once, hemit.empty, hemit.read⟩

end Unanswered

/-- While a request is dialled for, sent, or decided on, it is not answered. -/
theorem AnsweringAfter.unanswered {b : Flow} {new : Ref} (h : AnsweringAfter op s)
    (hidle : Idle b new s.flow) (hop : op.kind = .dial ∨ op.kind = .send ∨ ∃ a, op.kind = .decision a) :
    Unanswered s := by
  have hnot (hs : Settled (fun k => s.io.count k + op.weight k) s) : False := by
    have hdial := hs.dial
    have hsend := hs.send
    rcases hop with hop | hop | ⟨a, hop⟩
    · simp [Op.weight, hop] at hdial
    · simp [Op.weight, hop] at hsend
    · have hdecision := hs.decision a
      simp [Op.weight, hop] at hdecision
  refine ⟨h.once, fun a ha => ?_, fun hc => (settled_of_idle hidle hc).2.1⟩
  obtain ⟨hc, hphase⟩ := h.phase a ha
  cases hphase with
  | unanswered empty response read => exact ⟨hc, empty, response⟩
  | relaying relayed response settled read => exact (hnot settled).elim
  | generated one response settled read dead => exact (hnot settled).elim
  | complete relayed finished settled receive => exact (hnot settled).elim

/-- A response of the proxy itself, to a request that has got nothing yet and gets nothing else. -/
theorem answer_answering (honce : AnsweredOnce answersTo s.log)
    (hopen : ∀ a, openAnswer answersTo s.log = some a →
      s.isConnect = false ∧ a = {} ∧ Settled s.io.count s ∧ Dead s)
    (hread : s.isConnect = false → s.io.count .read = 0) (response : HttpResponse) (data : Bytes) :
    let t := { s.respond .generated response with closeAfterWrite := true }.writeClient .generated data
    Answering t.io.count t := by
  -- the state before the write is started
  let u : Session L := { s.respond .generated response with
    closeAfterWrite := true, writeQueue := s.writeQueue ++ [data] }.emit (.queued .generated data)
  let reported : Effect :=
    .reported .generated { s.currentTransaction with response := some response }
  have htrack (a : Option Answer) : trackAnswer answersTo a reported = a := by cases a <;> rfl
  have hreported := honce.append fun e he => by
    rw [List.mem_singleton.mp he]
    exact htrack
  have hlog : openAnswer answersTo u.log = (openAnswer answersTo s.log).map fun a => a.add .generated data := by
    show openAnswer answersTo ((s.log ++ [reported]) ++ [_]) = _
    rw [openAnswer_append, hreported.2]
    cases openAnswer answersTo s.log <;> rfl
  have hu : Answering u.io.count u := by
    refine ⟨hreported.1.emit fun a ha => ?_, fun a ha => ?_, fun hc hpos => ?_⟩
    · have ha : openAnswer answersTo u.log = some a := ha
      rw [hlog, Option.map_eq_some_iff] at ha
      obtain ⟨a', ha', rfl⟩ := ha
      obtain ⟨-, rfl, -⟩ := hopen a' ha'
      exact Or.inr rfl
    · rw [hlog, Option.map_eq_some_iff] at ha
      obtain ⟨a', ha', rfl⟩ := ha
      obtain ⟨hc, rfl, hsettled, hdead⟩ := hopen a' ha'
      exact ⟨hc, .generated rfl (Option.some_ne_none response)
        ⟨hsettled.asked, hsettled.decision, hsettled.dial, hsettled.send⟩ (hread hc)
        ⟨hdead.ready, hdead.pending⟩⟩
    · have hzero := hread hc
      have hpos : 0 < s.io.count .read := hpos
      omega
  exact (Still.writes.writeClient_queued { s.respond .generated response with closeAfterWrite := true } .generated
    data).answering hu

theorem Unanswered.answer {b : Flow} {new : Ref} (h : Unanswered s) (hidle : Idle b new s.flow)
    (response : HttpResponse) (data : Bytes) :
    let t := { s.respond .generated response with closeAfterWrite := true }.writeClient .generated data
    Answering t.io.count t := by
  apply answer_answering h.once _ h.read
  intro a ha
  obtain ⟨hc, hempty, -⟩ := h.empty a ha
  obtain ⟨hsettled, -, hreceive⟩ := settled_of_idle hidle hc
  exact ⟨hc, hempty, hsettled, dead_of_count hreceive⟩

/-- In a tunnel there is nothing to answer. -/
theorem answering_tunnel {n : OpKind → ℕ} (honce : AnsweredOnce answersTo s.log)
    (hnone : openAnswer answersTo s.log = none) (hc : s.isConnect = true) : Answering n s := by
  refine ⟨honce, fun a ha => ?_, fun hfalse => ?_⟩
  · rw [hnone] at ha
    cases ha
  · rw [hc] at hfalse
    cases hfalse

/-! One lemma for each handler that does more than what `Still` allows. -/

theorem handleResolve_answering {b : Flow} {new : Ref} (h : AnsweringAfter .resolve s)
    (hs : SoundAfter b new .resolve s.flow) (o : Outcome) :
    Answering (s.handleResolve o).io.count (s.handleResolve o) := by
  have hidle : Idle b new s.flow := by
    rcases hs.dialed rfl with ⟨hidle, -⟩ | ⟨r, hcleared⟩
    · exact hidle
    · exact hcleared.idle
  have hun := h.unanswered hidle (Or.inl rfl)
  unfold Session.handleResolve handleUpstreamConnect
  split
  · have hclosed := hun.of_still (Still.closes.closeServer s)
    have hopened : Unanswered { s.closeServer with serverOpen := true } :=
      ⟨hclosed.once, hclosed.empty, hclosed.read⟩
    exact (hopened.start (by simp [Op.kind])).answering
  · exact hun.answer hidle _ _

theorem writeUpstream_unanswered (h : Unanswered s) (env : Env) : Unanswered (s.writeUpstream env) := by
  have hdata : Unanswered { s with serverData := (s.request env).serialize } :=
    ⟨h.once, h.empty, h.read⟩
  have hhanded := hdata.emit (e := .handed (s.currentTransaction.request.getD 0)
    (s.request env).serialize) fun a => by cases a <;> rfl
  exact hhanded.start (by simp [Op.kind])

theorem handleConnected_answering {b : Flow} {new : Ref} (h : AnsweringAfter .connect s)
    (hs : SoundAfter b new .connect s.flow) (env : Env) (o : Outcome) :
    Answering (s.handleConnected env o).io.count (s.handleConnected env o) := by
  have hidle : Idle b new s.flow := by
    rcases hs.dialed rfl with ⟨hidle, -⟩ | ⟨r, hcleared⟩
    · exact hidle
    · exact hcleared.idle
  have hun := h.unanswered hidle (Or.inl rfl)
  unfold Session.handleConnected
  split
  · exact hun.answer hidle _ _
  · split
    · rename_i hc
      have hnone : openAnswer answersTo s.log = none := by
        by_contra hne
        obtain ⟨a, ha⟩ := Option.ne_none_iff_exists'.mp hne
        rw [(hun.empty a ha).1] at hc
        cases hc
      have hqueued : AnsweredOnce answersTo (s.log ++ [.queued .generated established]) ∧
          openAnswer answersTo (s.log ++ [.queued .generated established]) = none := by
        have hopen : openAnswer answersTo (s.log ++ [.queued .generated established]) = none := by
          rw [openAnswer_append, hnone]
          rfl
        refine ⟨hun.once.emit fun a ha => ?_, hopen⟩
        rw [hopen] at ha
        cases ha
      have hstill := Still.writes.writeClient_queued s .generated established
      have hlog : openAnswer answersTo (s.writeClient .generated established).log = none := by
        rcases hstill.answer with hsame | hclosed
        · exact hsame.trans hqueued.2
        · exact hclosed
      exact answering_tunnel (hstill.once hqueued.1) hlog (hstill.flow.tunnel.trans hc)
    · exact (writeUpstream_unanswered hun env).answering

theorem handleUpstreamWrite_answering {b : Flow} {new : Ref} {data : Bytes}
    (h : AnsweringAfter (.upstreamWrite data) s)
    (hs : SoundAfter b new (.upstreamWrite data) s.flow) (o : Outcome) :
    Answering (s.handleUpstreamWrite o).io.count (s.handleUpstreamWrite o) := by
  have hidle := hs.idle (Or.inr (Or.inl rfl))
  have hun := h.unanswered hidle (Or.inr (Or.inl rfl))
  unfold Session.handleUpstreamWrite
  split
  · exact hun.answer hidle _ _
  · have hcleared : Unanswered { s with serverData := [] } := ⟨hun.once, hun.empty, hun.read⟩
    exact (hcleared.start (by simp [Op.kind])).answering

theorem forwardRequest_unanswered (h : Unanswered s) : Unanswered s.forwardRequest := by
  unfold Session.forwardRequest
  split
  · exact (h.of_still (Still.closes.closeServer s)).start (by simp [Op.kind])
  · exact h

theorem handleDecision_answering {b : Flow} {new : Ref} {action : InterceptAction}
    (h : AnsweringAfter (.decision action) s) (hs : SoundAfter b new (.decision action) s.flow) :
    Answering (s.handleDecision action).io.count (s.handleDecision action) := by
  obtain ⟨hidle, -⟩ := hs.decided
  have hun := h.unanswered hidle (Or.inr (Or.inr ⟨action, rfl⟩))
  have hreset := hun.of_still (Still.resetTimer s)
  unfold Session.handleDecision
  split
  · cases action with
    | forward => exact (forwardRequest_unanswered hreset).answering
    | drop => exact hreset.answer ((Quietly.resetTimer s).idle hidle) _ _
  · exact hun.answering

/-- What was received for the request at hand has been relayed, and the response is not complete. -/
structure Relaying (s : Session L) : Prop where
  once : AnsweredOnce answersTo s.log
  relayed : ∀ a, openAnswer answersTo s.log = some a →
    s.isConnect = false ∧ a.Relayed ∧ s.currentTransaction.response = none

namespace Relaying

theorem of_still (h : Relaying s) (hst : Still s t) : Relaying t := by
  refine ⟨hst.once h.once, fun a ha => ?_⟩
  rcases hst.answer with hsame | hnone
  · obtain ⟨hc, hrelayed, hresponse⟩ := h.relayed a (hsame ▸ ha)
    exact ⟨Eq.trans hst.flow.tunnel hc, hrelayed, hst.response.trans hresponse⟩
  · rw [hnone] at ha
    cases ha

theorem relay (h : Relaying s) (data : Bytes) :
    Relaying ((s.resetTimer.emit (.received data)).writeClient .relayed data) := by
  have hreset := h.of_still (Still.resetTimer s)
  refine of_still ⟨?_, fun a ha => ?_⟩ (Still.writes.writeClient_queued _ _ _)
  · have hreceived : AnsweredOnce answersTo (s.log ++ [.received data]) := by
      refine h.once.emit fun a ha => ?_
      obtain ⟨a', hopen, rfl⟩ := openAnswer_received ha
      exact Answer.one_received (h.relayed a' hopen).2.1.one data
    refine hreceived.emit fun a ha => ?_
    obtain ⟨a', hopen, rfl⟩ := openAnswer_relayed ha
    exact ((h.relayed a' hopen).2.1.chunk data).one
  · obtain ⟨a', hopen, rfl⟩ := openAnswer_relayed ha
    obtain ⟨hc, hrelayed, hresponse⟩ := h.relayed a' hopen
    exact ⟨hc, hrelayed.chunk data, hresponse⟩

/-- More is read. -/
theorem readUpstream {b : Flow} {new : Ref} (h : Relaying s) (hidle : Idle b new s.flow) :
    Answering s.readUpstream.io.count s.readUpstream := by
  have hread : s.readUpstream.io.count .read = s.io.count .read := by
    rw [Session.readUpstream, Session.start, Io.count_start]
    rfl
  refine ⟨h.once, fun a ha => ?_, fun hc hpos => ?_⟩
  · obtain ⟨hc, hrelayed, hresponse⟩ := h.relayed a ha
    obtain ⟨hsettled, hzero, -⟩ := settled_of_idle hidle hc
    refine ⟨hc, .relaying hrelayed hresponse ⟨hsettled.asked, fun a => ?_, ?_, ?_⟩
      (hread.trans hzero)⟩
    · rw [Session.readUpstream, Session.start, Io.count_start, hsettled.decision a]
      rfl
    · rw [Session.readUpstream, Session.start, Io.count_start, hsettled.dial]
      rfl
    · rw [Session.readUpstream, Session.start, Io.count_start, hsettled.send]
      rfl
  · obtain ⟨-, hzero, -⟩ := settled_of_idle hidle hc
    omega

/-- The response is complete: the session reads the next request, or closes when it has written. -/
theorem finishExchange {b : Flow} {new : Ref} (h : Relaying s) (hidle : Idle b new s.flow)
    (hc : s.isConnect = false) (env : Env) (res : HttpResponse) :
    Answering (s.finishExchange env res).io.count (s.finishExchange env res) := by
  obtain ⟨hsettled, hread, hreceive⟩ := settled_of_idle hidle hc
  let reported : Effect := .reported .relayed { s.currentTransaction with response := some res }
  have htrack (a : Option Answer) : trackAnswer answersTo a reported = a := by cases a <;> rfl
  have hreported := h.once.append fun e he => by
    rw [List.mem_singleton.mp he]
    exact htrack
  have hrelayed (a : Answer) (ha : openAnswer answersTo (s.respond .relayed res).log = some a) : a.Relayed := by
    have ha : openAnswer answersTo (s.log ++ [reported]) = some a := ha
    rw [hreported.2] at ha
    exact (h.relayed a ha).2.1
  unfold Session.finishExchange
  dsimp only
  split
  · refine ⟨hreported.1, fun a ha => ⟨rfl, ?_⟩, fun _ _ => ⟨rfl, rfl⟩⟩
    refine .complete (hrelayed a ha) (Or.inl rfl) ⟨hsettled.asked, fun a => ?_, ?_, ?_⟩ ?_
    · exact (Io.count_start s.io .clientRead _).trans (by rw [hsettled.decision a]; rfl)
    · exact (Io.count_start s.io .clientRead _).trans (by rw [hsettled.dial]; rfl)
    · exact (Io.count_start s.io .clientRead _).trans (by rw [hsettled.send]; rfl)
    · exact (Io.count_start s.io .clientRead _).trans (by rw [hreceive]; rfl)
  · have hdone : Answering s.io.count { s.respond .relayed res with closeAfterWrite := true } := by
      refine ⟨hreported.1, fun a ha => ⟨hc, ?_⟩, fun _ hpos => ?_⟩
      · exact .complete (hrelayed a ha) (Or.inr (Option.some_ne_none res))
          ⟨hsettled.asked, hsettled.decision, hsettled.dial, hsettled.send⟩ hreceive
      · omega
    split
    · exact (Still.closes.close _).answering hdone
    · exact hdone

end Relaying

theorem count_pos_of_ready {o : Outcome} (hmem : (op, o) ∈ s.io.ready) : 0 < s.io.count op.kind := by
  have hpos : 0 < s.io.ready.countP fun e => e.1.kind == op.kind :=
    List.countP_pos_iff.mpr ⟨_, hmem, beq_self_eq_true op.kind⟩
  exact Nat.add_pos_right _ hpos

/-- When bytes arrive from the upstream, what came before has been relayed. -/
theorem Answering.relaying (h : Answering s.io.count s) {data : Bytes}
    (hmem : (.upstreamRead, .bytes data) ∈ s.io.ready) : Relaying s := by
  have hpos : 0 < s.io.count .receive := count_pos_of_ready hmem
  refine ⟨h.once, fun a ha => ?_⟩
  obtain ⟨hc, hphase⟩ := h.phase a ha
  cases hphase with
  | unanswered empty response read =>
    subst empty
    exact ⟨hc, ⟨by simp, by simp⟩, response⟩
  | relaying relayed response settled read => exact ⟨hc, relayed, response⟩
  | generated one response settled read dead => exact absurd hmem (dead.ready data)
  | complete relayed finished settled receive => omega

/-- The response that the parser has at the end of the upstream's data. -/
theorem Answering.respond {b : Flow} {new : Ref} {n : OpKind → ℕ} (h : Answering n s)
    (hidle : Idle b new s.flow) (origin : Origin) (res : HttpResponse) :
    Answering (s.respond origin res).io.count (s.respond origin res) := by
  let reported : Effect := .reported origin { s.currentTransaction with response := some res }
  have htrack (a : Option Answer) : trackAnswer answersTo a reported = a := by cases a <;> rfl
  have hreported := h.once.append fun e he => by
    rw [List.mem_singleton.mp he]
    exact htrack
  have hsome : some res ≠ none := Option.some_ne_none res
  refine ⟨hreported.1, fun a ha => ?_, fun hc hpos => ?_⟩
  · have ha : openAnswer answersTo (s.log ++ [reported]) = some a := ha
    rw [hreported.2] at ha
    obtain ⟨hc, hphase⟩ := h.phase a ha
    obtain ⟨⟨hasked, hdecision, hdial, hsend⟩, hread, hreceive⟩ := settled_of_idle hidle hc
    have hsettled : Settled s.io.count (s.respond origin res) := ⟨hasked, hdecision, hdial, hsend⟩
    refine ⟨hc, ?_⟩
    cases hphase with
    | unanswered empty response read =>
      subst empty
      exact .complete ⟨by simp, by simp⟩ (Or.inr hsome) hsettled hreceive
    | relaying relayed response settled read => exact .complete relayed (Or.inr hsome) hsettled hreceive
    | generated one response settled read dead =>
      exact .generated one hsome hsettled hread ⟨dead.ready, dead.pending⟩
    | complete relayed finished settled receive => exact .complete relayed (Or.inr hsome) hsettled hreceive
  · obtain ⟨-, hread, -⟩ := settled_of_idle hidle hc
    have hpos : 0 < s.io.count .read := hpos
    omega

theorem reportTaken_answering {b : Flow} {new : Ref} {n : OpKind → ℕ} (h : Answering n s)
    (hn : s.io.count ≤ n) (hidle : Idle b new s.flow) (data : Bytes) :
    Answering (s.reportTaken data).io.count (s.reportTaken data) := by
  have hparser (parser : HttpParser L) : Still s { s with parser := parser } :=
    ⟨.refl s.flow, Or.inl rfl, id, rfl, fun hd => ⟨hd.1, hd.2⟩⟩
  have hcount := h.mono hn
  unfold Session.reportTaken
  split
  · exact ((hparser _).answering hcount).respond ((hparser _).flow.idle hidle) _ _
  · exact (hparser _).answering hcount

theorem handleUpstreamRead_answering {b : Flow} {new : Ref} (h : AnsweringAfter .upstreamRead s)
    (hs : SoundAfter b new .upstreamRead s.flow) (env : Env) {o : Outcome}
    (hbytes : ∀ data, o = .bytes data → Relaying s) :
    Answering (s.handleUpstreamRead env o).io.count (s.handleUpstreamRead env o) := by
  have hidle := hs.idle (Or.inr (Or.inr rfl))
  have hclose := (Still.closes.close s).answering h.answering
  cases o with
  | bytes data =>
    have hquiet : Quietly s ((s.resetTimer.emit (.received data)).writeClient .relayed data) :=
      ((Quietly.resetTimer s).trans (Quietly.emit _ rfl)).trans (Quietly.writeClient _ _ _)
    have hrelay := (hbytes data rfl).relay data
    unfold Session.handleUpstreamRead
    dsimp only
    generalize (s.resetTimer.emit (.received data)).writeClient .relayed data = u at hquiet hrelay
    have hidle := hquiet.idle hidle
    have hparser (parser : HttpParser L) : Still u { u with parser := parser } :=
      ⟨.refl u.flow, Or.inl rfl, id, rfl, fun hd => ⟨hd.1, hd.2⟩⟩
    split
    · exact hrelay.readUpstream hidle
    · rename_i hc
      have hc : u.isConnect = false := by simpa using hc
      split
      · split
        · rename_i res parser _
          have hstill := hparser parser
          exact (hrelay.of_still hstill).finishExchange (hstill.flow.idle hidle) hc env res
        · rename_i parser _
          have hstill := hparser parser
          exact (hrelay.of_still hstill).readUpstream (hstill.flow.idle hidle)
      · exact (hrelay.of_still (hparser _)).readUpstream ((hparser _).flow.idle hidle)
  | eof =>
    unfold Session.handleUpstreamRead
    dsimp only
    split
    · apply (Still.closes.close _).answering
      exact reportTaken_answering h (fun _ => Nat.le_add_right _ _) hidle _
    · exact hclose
  | ok => exact hclose
  | truncated => exact hclose
  | aborted => exact hclose
  | failed => exact hclose

/-- The answer to a request that was just read. -/
theorem took_unanswered {b : Flow} {new : Ref} (honce : AnsweredOnce answersTo s.log)
    (hidle : Idle b new s.flow) (hc : s.isConnect = false)
    (hresponse : s.currentTransaction.response = none) {req : HttpRequest}
    (hplain : req.method ≠ str "CONNECT") (ref : Ref) (id : ℤ) :
    Unanswered (({ s with currentTransaction := { s.currentTransaction with
      id := id, request := some ref } } : Session L).emit (.took ref req)) := by
  have hopen (o : Option Answer) : trackAnswer answersTo o (.took ref req) = some {} := by
    simp [trackAnswer, Session.answersTo, hplain]
  refine ⟨honce.fresh (Or.inr (hopen _)), fun a ha => ⟨hc, ?_, hresponse⟩,
    fun _ => (settled_of_idle hidle hc).2.1⟩
  have ha : openAnswer answersTo (s.log ++ [.took ref req]) = some a := ha
  rw [openAnswer_append] at ha
  have ha : trackAnswer answersTo (openAnswer answersTo s.log) (.took ref req) = some a := ha
  rw [hopen] at ha
  exact (Option.some.inj ha).symm

theorem handleUpstreamRoute_answering (h : Unanswered s) (env : Env) (host port : Bytes) (n : ℤ) :
    Answering (s.handleUpstreamRoute env host port n).io.count (s.handleUpstreamRoute env host port n) := by
  unfold Session.handleUpstreamRoute
  dsimp only
  have hrouted : Unanswered ({ s with
      currentTransaction := { s.currentTransaction with host := host, port := n, isHttps := false }
      upstreamHost := host, upstreamPort := port } : Session L) := ⟨h.once, h.empty, h.read⟩
  have htested := hrouted.emit (e := .tested env.newRef env.interceptEnabled) fun a => by cases a <;> rfl
  split
  · exact ((htested.of_still (Still.closes.cancelTimer _)).intercept _).answering
  · exact (forwardRequest_unanswered htested).answering

/-- Without an open answer only what is read next matters. -/
theorem answering_of_none {n : OpKind → ℕ} (honce : AnsweredOnce answersTo s.log)
    (hnone : openAnswer answersTo s.log = none) (hreading : s.isConnect = false → 0 < n .read →
      s.currentTransaction.request = none ∧ s.currentTransaction.response = none) :
    Answering n s := by
  refine ⟨honce, fun a ha => ?_, hreading⟩
  rw [hnone] at ha
  cases ha

theorem handleConnect_answering {b : Flow} {new : Ref} (honce : AnsweredOnce answersTo s.log)
    (hnone : openAnswer answersTo s.log = none) (hidle : Idle b new s.flow) (hc : s.isConnect = false)
    (target : ConnectTarget) :
    Answering (s.handleConnect target).io.count (s.handleConnect target) := by
  let u : Session L := { s with currentTransaction := { s.currentTransaction with
    host := target.host, port := target.portNumber, isHttps := true } }
  let res : HttpResponse :=
    { version := str "HTTP/1.1", statusCode := 200, statusText := str "Connection Established" }
  have hu : Answering s.io.count u := answering_of_none honce hnone fun _ hpos => by
    have hread := (settled_of_idle hidle hc).2.1
    omega
  have hu_idle : Idle b new u.flow := hidle
  have hrespond := hu.respond hu_idle .generated res
  have hlog : openAnswer answersTo (u.respond .generated res).log = none := by
    show openAnswer answersTo (s.log ++ [_]) = none
    rw [openAnswer_append, hnone]
    rfl
  unfold Session.handleConnect
  dsimp only
  split
  · have hspawned : Still (u.respond .generated res) (({ (u.respond .generated res).cancelTimer with
        clientOpen := false } : Session L).emit
          (.spawned target.host (UInt16.ofInt target.portNumber))) := by
      have hfield : Still (u.respond .generated res).cancelTimer
          { (u.respond .generated res).cancelTimer with clientOpen := false } :=
        ⟨.refl _, Or.inl rfl, id, rfl, fun hd => ⟨hd.1, hd.2⟩⟩
      exact ((Still.closes.cancelTimer _).trans hfield).trans
        (Still.emit _ rfl fun a => by cases a <;> rfl)
    exact hspawned.answering hrespond
  · exact answering_tunnel hrespond.once hlog rfl

theorem handleRequest_answering {b : Flow} {env : Env} (honce : AnsweredOnce answersTo s.log)
    (hidle : Idle b env.newRef s.flow) (hc : s.isConnect = false)
    (hresponse : s.currentTransaction.response = none) {req : HttpRequest}
    (hok : s.handleRequest env req = .ok t) : Answering t.io.count t := by
  have htook : Idle b env.newRef ({ s with currentTransaction := { s.currentTransaction with
      id := env.nextId, request := some env.newRef } }.emit (.took env.newRef req)).flow := by
    have hfield : Idle b env.newRef { s with currentTransaction := { s.currentTransaction with
        id := env.nextId, request := some env.newRef } }.flow :=
      ⟨hidle.since, hidle.proper, hidle.asked, hidle.decision, hidle.plain⟩
    exact hfield.take req
  unfold Session.handleRequest at hok
  dsimp only at hok
  split at hok
  · rename_i hmethod
    -- a CONNECT request opens no answer
    have htrack : trackAnswer answersTo (openAnswer answersTo s.log) (.took env.newRef req) = none := by
      simp [trackAnswer, Session.answersTo, hmethod]
    obtain ⟨target, -, rfl⟩ := ok_of_map hok
    apply handleConnect_answering (honce.fresh (Or.inl htrack)) _ htook hc
    show openAnswer answersTo (s.log ++ [_]) = none
    rw [openAnswer_append]
    exact htrack
  · rename_i hplain
    have hun := took_unanswered honce hidle hc hresponse hplain env.newRef env.nextId
    obtain ⟨route, -, rfl⟩ := ok_of_map hok
    cases route with
    | badRequest => exact hun.answer htook _ _
    | caCert =>
      dsimp only
      unfold Session.serveCaCert
      split
      · exact hun.answer htook _ _
      · exact hun.answer htook _ _
    | helpPage => exact hun.answer htook _ _
    | upstream host port n => exact handleUpstreamRoute_answering hun env host port n

theorem handleClientRead_answering {b : Flow} {env : Env} (h : AnsweringAfter .clientRead s)
    (hs : SoundAfter b env.newRef .clientRead s.flow) {o : Outcome}
    (hok : s.handleClientRead env o = .ok t) : Answering t.io.count t := by
  have hidle := hs.idle (Or.inl rfl)
  have hclose := (Still.closes.close s).answering h.answering
  have hreading (hc : s.isConnect = false) := h.reading hc (Nat.add_pos_right _ Nat.one_pos)
  cases o with
  | bytes data =>
    have hreset := Still.resetTimer s
    have honce : AnsweredOnce answersTo (s.log ++ [.read data]) := h.once.fresh (Or.inl (by
      cases openAnswer answersTo s.log <;> rfl))
    have hnone : openAnswer answersTo (s.log ++ [.read data]) = none := by
      rw [openAnswer_append]
      cases openAnswer answersTo s.log <;> rfl
    have hidle := ((Quietly.resetTimer s).trans (Quietly.emit _ (e := .read data) rfl)).idle hidle
    unfold Session.handleClientRead at hok
    dsimp only at hok
    change AnsweredOnce answersTo (s.resetTimer.emit (.read data)).log at honce
    change openAnswer answersTo (s.resetTimer.emit (.read data)).log = none at hnone
    change (s.resetTimer.emit (.read data)).isConnect = false →
      (s.resetTimer.emit (.read data)).currentTransaction.request = none ∧
      (s.resetTimer.emit (.read data)).currentTransaction.response = none at hreading
    generalize s.resetTimer.emit (.read data) = u at honce hnone hidle hreading hok
    split at hok
    · rename_i hc
      cases hok
      have hstill := Still.writeServerBlind u data
      have hnone : openAnswer answersTo (u.writeServerBlind data).log = none := by
        rcases hstill.answer with hsame | hclosed
        · exact hsame.trans hnone
        · exact hclosed
      exact answering_tunnel (hstill.once honce) hnone (hstill.flow.tunnel.trans hc)
    · rename_i hc
      have hc : u.isConnect = false := by simpa using hc
      obtain ⟨hrequest, hresponse⟩ := hreading hc
      have hfields (clientData : Bytes) (parser : HttpParser L) :
          Idle b env.newRef { u with clientData := clientData, parser := parser }.flow := hidle
      split at hok
      · split at hok
        · rename_i req parser _
          exact handleRequest_answering (s := { u with clientData := _, parser := parser }) honce
            (hfields _ parser) hc hresponse hok
        · cases hok
          exact answering_of_none honce hnone fun _ _ => ⟨hrequest, hresponse⟩
      · split at hok
        · cases hok
          exact answering_of_none honce hnone fun _ _ => ⟨hrequest, hresponse⟩
        · cases hok
          -- what is too large is answered before it is a request
          have hun (clientData : Bytes) (parser : HttpParser L) :
              Unanswered { u with clientData := clientData, parser := parser } := by
            refine ⟨honce, fun a ha => ?_, fun _ => (settled_of_idle hidle hc).2.1⟩
            have ha : openAnswer answersTo u.log = some a := ha
            rw [hnone] at ha
            cases ha
          exact (hun _ _).answer (hfields _ _) _ _
  | ok => cases hok; exact hclose
  | eof => cases hok; exact hclose
  | truncated => cases hok; exact hclose
  | aborted => cases hok; exact hclose
  | failed => cases hok; exact hclose

/-- The handler is about to get bytes from the upstream. -/
def bringsData : Op × Outcome → Bool
  | (.upstreamRead, .bytes _) => true
  | _ => false

/-- The request has been written to the upstream, and no byte of a response has come yet. -/
def AwaitsResponse (s : Session L) : Prop :=
  openAnswer answersTo s.log = some {} ∧ s.asked = [] ∧ s.io.count (.decision .forward) = 0 ∧
    s.io.count (.decision .drop) = 0 ∧ s.io.count .dial = 0 ∧ s.io.count .send = 0 ∧
    ∀ e ∈ s.io.ready, bringsData e = false

instance (s : Session L) : Decidable s.AwaitsResponse := inferInstanceAs (Decidable (_ ∧ _))

/-- The timeout ends the read that waits for the response. -/
theorem dead_of_timeout (hready : ∀ data, (.upstreamRead, .bytes data) ∉ s.io.ready) :
    Dead (if s.serverOpen then s.cancel Op.onServerSocket else s) := by
  split
  · refine ⟨fun data hmem => hready data (ready_of_cancel hmem), fun hmem => ?_⟩
    have hfilter := (List.mem_filter.mp hmem).2
    cases hfilter
  · rename_i hclosed
    exact ⟨hready, fun _ => by simpa using hclosed⟩

theorem handleTimeout_answering {o : Outcome} (h : AnsweringAfter .timer s)
    (htimely : o ≠ .aborted → s.currentTransaction.request.isSome →
      s.currentTransaction.response = none → s.isConnect = false →
      openAnswer answersTo s.log = none ∨ s.AwaitsResponse) :
    Answering (s.handleTimeout o).io.count (s.handleTimeout o) := by
  have hs := h.answering
  unfold Session.handleTimeout
  split
  · exact hs
  · rename_i ho
    split
    · rename_i hexpired
      obtain ⟨hrequest, hresponse, hc⟩ := hexpired
      let u : Session L := s.cancel (· == .resolve)
      let v : Session L := if u.serverOpen then u.cancel Op.onServerSocket else u
      have hstill : Still s v := by
        have hu : Still s u := Still.cancel s _
        by_cases hopen : u.serverOpen = true
        · have hv : v = u.cancel Op.onServerSocket := if_pos hopen
          rw [hv]
          exact hu.trans (Still.cancel u _)
        · have hv : v = u := if_neg hopen
          rw [hv]
          exact hu
      have hv := hstill.answering hs
      -- the client is not read while a request is there
      have hread : s.io.count .read = 0 := by
        by_contra hne
        rw [(hs.reading hc (Nat.pos_of_ne_zero hne)).1] at hrequest
        cases hrequest
      apply answer_answering hv.once _ fun _ => (hstill.flow.count _ (by simp)).trans hread
      intro a ha
      have hsame : openAnswer answersTo v.log = openAnswer answersTo s.log := by
        rcases hstill.answer with hsame | hnone
        · exact hsame
        · rw [hnone] at ha
          cases ha
      rw [hsame] at ha
      rcases htimely ho hrequest hresponse hc with hnone | hawaits
      · rw [hnone] at ha
        cases ha
      · obtain ⟨hempty, hasked, hforward, hdrop, hdial, hsend, hready⟩ := hawaits
        have hsettled : Settled s.io.count s := by
          refine ⟨hasked, fun action => ?_, hdial, hsend⟩
          cases action
          · exact hforward
          · exact hdrop
        refine ⟨hstill.flow.tunnel.trans hc, Option.some.inj (ha.symm.trans hempty),
          hstill.settled hsettled, dead_of_timeout fun data hmem => ?_⟩
        have hbrings := hready _ (ready_of_cancel hmem)
        cases hbrings
    · exact (Still.closes.close s).answering hs

theorem handle_answering {b : Flow} {env : Env} (h : AnsweringAfter op s)
    (hs : SoundAfter b env.newRef op s.flow) {o : Outcome}
    (htimely : op = .timer → o ≠ .aborted → s.currentTransaction.request.isSome →
      s.currentTransaction.response = none → s.isConnect = false →
      openAnswer answersTo s.log = none ∨ s.AwaitsResponse)
    (hbytes : op = .upstreamRead → ∀ data, o = .bytes data → Relaying s)
    (hok : s.handle env op o = .ok t) : Answering t.io.count t := by
  have hquiet := h.answering
  cases op with
  | clientRead => exact handleClientRead_answering h hs hok
  | timer => cases hok; exact handleTimeout_answering h (htimely rfl)
  | resolve => cases hok; exact handleResolve_answering h hs o
  | connect => cases hok; exact handleConnected_answering h hs env o
  | upstreamRead => cases hok; exact handleUpstreamRead_answering h hs env (hbytes rfl)
  | upstreamWrite data => cases hok; exact handleUpstreamWrite_answering h hs o
  | decision action => cases hok; exact handleDecision_answering h hs
  | clientWrite data => cases hok; exact (Still.handleClientWrite s o).answering hquiet
  | serverWrite data => cases hok; exact (Still.handleServerWrite s o).answering hquiet
  | rawWrite data => cases hok; exact hquiet
  | established => cases hok; exact hquiet
  | clientHandshake => cases hok; exact hquiet
  | upstreamHandshake => cases hok; exact hquiet

/-! The steps of a session. -/

theorem complete_still {k : ℕ} {o : Outcome} (hok : s.complete k o = some t) : Still s t := by
  have hquiet := complete_quietly hok
  obtain ⟨op, io, hio, hcan, rfl⟩ := complete_spec hok
  obtain ⟨hop, rfl⟩ := Executor.complete_spec hio
  have htrack : ∀ e ∈ op.completion o, ∀ a, trackAnswer answersTo a e = a :=
    fun e he => trackAnswer_completion he
  refine ⟨hquiet, Or.inl (openAnswer_silent htrack), fun hs => (hs.append htrack).1, rfl,
    fun hd => ⟨fun data hmem => ?_, fun hmem => ?_⟩⟩
  · rcases List.mem_append.mp hmem with hmem | hmem
    · exact hd.ready data hmem
    · -- a read can only bring data while the socket is open
      rw [List.mem_singleton] at hmem
      cases hmem
      have hclosed := hd.pending (List.mem_of_getElem? hop)
      simp [canComplete, hclosed, Op.onServerSocket] at hcan
  · exact hd.pending (List.mem_of_mem_eraseIdx hmem)

theorem decided_answering (h : Answering s.io.count s) {ref : Ref} (href : ref ∈ s.asked)
    (action : InterceptAction) : Answering (s.decided ref action).io.count (s.decided ref action) := by
  have hnot (hs : Settled s.io.count s) : False := by
    rw [hs.asked] at href
    cases href
  have hread : (s.decided ref action).io.count .read = s.io.count .read := by
    rw [Session.decided, Io.count_post]
    rfl
  have htrack (a : Option Answer) : trackAnswer answersTo a (.decided ref action) = a := by cases a <;> rfl
  have happend := h.once.append fun e he => by
    rw [List.mem_singleton.mp he]
    exact htrack
  refine ⟨happend.1, fun a ha => ?_, fun hc hpos => h.reading hc (hread ▸ hpos)⟩
  obtain ⟨hc, hphase⟩ := h.phase a (happend.2.symm.trans ha)
  refine ⟨hc, ?_⟩
  cases hphase with
  | unanswered empty response read => exact .unanswered empty response (hread.trans read)
  | relaying relayed response settled read => exact (hnot settled).elim
  | generated one response settled read dead => exact (hnot settled).elim
  | complete relayed finished settled receive => exact (hnot settled).elim

theorem started_answering (hasCertCache : Bool) :
    let s : Session L := started hasCertCache
    Answering s.io.count s :=
  answering_of_none answeredOnce_nil rfl fun _ _ => ⟨rfl, rfl⟩

/-- The handler that is about to run is that of the expired timer, for a request that has no
response. -/
def expires (s : Session L) (k : ℕ) : Bool :=
  match s.io.ready[k]? with
  | some (.timer, o) => o != .aborted && s.currentTransaction.request.isSome &&
      s.currentTransaction.response.isNone && !s.isConnect
  | _ => false

/-- The timer only runs out on a request that is open when the session waits for the first bytes
of the response. -/
def Timely (r : Running L) : Label → Prop
  | .dispatch k _ => r.session.expires k →
      openAnswer answersTo r.session.log = none ∨ r.session.AwaitsResponse
  | _ => True

instance (r : Running L) (a : Label) : Decidable (Timely r a) := by
  cases a <;> unfold Timely <;> infer_instance

/-- A handler is taken out to be run. -/
theorem Answering.taken (h : Answering s.io.count s) {k : ℕ} {o : Outcome} {io : Io}
    (hio : s.io.take k = some ((op, o), io)) :
    AnsweringAfter op { s with io := io } ∧ s.io.ready[k]? = some (op, o) := by
  have hcount := Io.count_take hio
  obtain ⟨he, rfl⟩ := Executor.take_spec hio
  refine ⟨⟨h.once, fun a ha => ?_, ?_⟩, he⟩
  · obtain ⟨hc, hphase⟩ := h.phase a ha
    refine ⟨hc, ?_⟩
    rw [hcount] at hphase
    cases hphase with
    | unanswered empty response read => exact .unanswered empty response read
    | relaying relayed response settled read =>
      exact .relaying relayed response ⟨settled.1, settled.2, settled.3, settled.4⟩ read
    | generated one response settled read dead =>
      exact .generated one response ⟨settled.1, settled.2, settled.3, settled.4⟩ read
        ⟨fun data hmem => dead.ready data (List.mem_of_mem_eraseIdx hmem), dead.pending⟩
    | complete relayed finished settled receive =>
      exact .complete relayed finished ⟨settled.1, settled.2, settled.3, settled.4⟩ receive
  · rw [hcount] at h
    exact h.reading

theorem AwaitsResponse.taken (h : s.AwaitsResponse) {k : ℕ} {o : Outcome} {io : Io}
    (hio : s.io.take k = some ((op, o), io)) : AwaitsResponse { s with io := io } := by
  have hcount := Io.count_take hio
  obtain ⟨-, rfl⟩ := Executor.take_spec hio
  obtain ⟨hempty, hasked, hforward, hdrop, hdial, hsend, hready⟩ := h
  simp only [hcount, Nat.add_eq_zero_iff] at hforward hdrop hdial hsend
  exact ⟨hempty, hasked, hforward.1, hdrop.1, hdial.1, hsend.1,
    fun e he => hready e (List.mem_of_mem_eraseIdx he)⟩

theorem dispatch_answering (h : Answering s.io.count s) (hs : s.flow.Holds) {k : ℕ} {env : Env}
    (htimely : s.expires k → openAnswer answersTo s.log = none ∨ s.AwaitsResponse)
    (hok : s.dispatch k env = some (.ok t)) : Answering t.io.count t := by
  obtain ⟨op, o, io, hio, hhandle⟩ := dispatch_spec hok
  obtain ⟨hafter, hready⟩ := h.taken hio
  refine handle_answering hafter (taken_sound hs hio env.newRef) (fun hop ho hrequest hresponse hc => ?_)
    (fun hop data ho => ?_) hhandle
  · subst hop
    have hexpires : s.expires k := by
      simp [expires, hready, ho, show s.currentTransaction.request.isSome from hrequest,
        show s.currentTransaction.response = none from hresponse, show s.isConnect = false from hc]
    exact (htimely hexpires).imp_right fun hawaits => hawaits.taken hio
  · subst hop ho
    have hrelaying := h.relaying (List.mem_of_getElem? hready)
    exact ⟨hrelaying.once, hrelaying.relayed⟩

/-- The invariant holds as long as the timer is timely. -/
theorem reached_answering {r : Running L} (h : (system L).ReachedUnder Timely r) :
    Answering r.session.io.count r.session := by
  refine h.invariant_of (J := fun r => r.session.flow.Holds)
    (I := fun r => Answering r.session.io.count r.session) (fun r hr => reached_holds hr.reached) ?_ ?_
  · rintro _ ⟨hasCertCache, rfl⟩
    exact started_answering hasCertCache
  · intro r a r' hs hr htimely hstep
    cases moves_of_step hstep with
    | complete ht => exact (complete_still ht).answering hr
    | handled _ _ ht => exact dispatch_answering hr hs htimely ht
    | threw => exact hr
    | decide href => exact decided_answering hr href _
    | close => exact (Still.closes.close _).answering hr

/-- In a run where the timer is timely, every request has one answer at every moment: a prefix of
what the upstream sent for it, or one response of the proxy. -/
theorem one_request_one_answer {r : Running L} (h : (system L).ReachedUnder Timely r) :
    AnsweredOnce answersTo r.session.log := (reached_answering h).once

section Examples

/-- The next request would get another address. -/
def env1 : Env := { newRef := 1 }

/-- The request is read, the upstream is dialled and gets it. -/
def sentRun : List Label :=
  [.complete 1 (.bytes simpleGet.message.wire), .dispatch 0 {}, .complete 1 .ok, .dispatch 1 env1,
    .complete 1 .ok, .dispatch 1 env1, .complete 1 .ok, .dispatch 1 env1]

/-- The upstream does not answer within the 30 seconds. -/
def silentUpstreamRun : List Label := sentRun ++ [.complete 0 .ok, .dispatch 1 env1, .dispatch 1 env1]

theorem one_request_one_answer_silentUpstreamRun : ∃ r,
    (system (answering [])).runUnder Timely { session := started false } silentUpstreamRun = some r ∧
      AnsweredOnce answersTo r.session.log := by
  have hrun : ((system (answering [])).runUnder Timely { session := started false }
      silentUpstreamRun).isSome = true := by decide
  obtain ⟨r, hr⟩ := Option.isSome_iff_exists.mp hrun
  exact ⟨r, hr, one_request_one_answer (.runUnder (.init ⟨false, rfl⟩) hr)⟩

/-- The timer runs out while the name is resolved: the handler of the cancelled resolution answers
as well. -/
def slowResolverRun : List Label :=
  [.complete 1 (.bytes simpleGet.message.wire), .dispatch 0 {}, .complete 0 .ok, .dispatch 1 env1,
    .dispatch 1 env1]

theorem slow_resolver_answered_twice :
    ¬ ∀ r, (system (answering [])).Reached r → AnsweredOnce answersTo r.session.log := by
  intro hall
  have hrun : ((system (answering [])).run { session := started false } slowResolverRun).any
      (fun r => (openAnswer answersTo r.session.log).any fun a => !decide a.One) = true := by decide
  obtain ⟨r, hr, htwice⟩ := (Option.any_eq_true _ _).mp hrun
  obtain ⟨a, ha, hnot⟩ := (Option.any_eq_true _ _).mp htwice
  have hone := hall r (.run (.init ⟨false, rfl⟩) hr) _ (List.prefix_refl _) a ha
  simp [hone] at hnot

end Examples

end BurpTUI.Session
