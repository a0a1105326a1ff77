import BurpTUI.Proxy.MitmFlow
import BurpTUI.Proxy.OneAnswer

namespace BurpTUI.MitmSession

open BurpTUI.Flow (Idle SoundAfter)

variable {L : Llhttp} {b : Flow} {new : Ref} {s t u : MitmSession L} {op : Op}

/-- The only answer of the proxy itself to a request that has come over TLS. -/
def dropped : Answer where
  queued := [(.generated, errorResponse 502 (str "Request Dropped by BurpTUI"))]

/-- The kinds of operations that an answer depends on. -/
def Exchanging (k : OpKind) : Prop := k = .send ∨ k = .receive ∨ ∃ a, k = .decision a

/-- `t` adds nothing to the answer that is open, or ends it. -/
structure Mute (s t : MitmSession L) : Prop where
  log : s.log ⊆ t.log
  answer : openAnswer answersTo t.log = openAnswer answersTo s.log ∨ openAnswer answersTo t.log = none
  once : AnsweredOnce answersTo s.log → AnsweredOnce answersTo t.log

namespace Mute

theorem refl (s : MitmSession L) : Mute s s := ⟨List.Subset.refl _, .inl rfl, id⟩

theorem trans (h : Mute s t) (h' : Mute t u) : Mute s u := by
  refine ⟨List.Subset.trans h.log h'.log, ?_, fun hs => h'.once (h.once hs)⟩
  rcases h'.answer with hsame | hnone
  · rw [hsame]
    exact h.answer
  · exact .inr hnone

theorem of_log (hlog : t.log = s.log) : Mute s t :=
  ⟨by simp [hlog], .inl (by rw [hlog]), by rw [hlog]; exact id⟩

theorem append {es : List Effect} (hlog : t.log = s.log ++ es)
    (hes : ∀ e ∈ es, ∀ a, trackAnswer answersTo a e = a) : Mute s t := by
  refine ⟨?_, .inl ?_, fun hs => ?_⟩
  · rw [hlog]
    exact List.subset_append_left _ _
  · rw [hlog]
    exact openAnswer_silent hes
  · rw [hlog]
    exact (hs.append hes).1

theorem emit (s : MitmSession L) {e : Effect} (he : ∀ a, trackAnswer answersTo a e = a) :
    Mute s (s.emit e) := by
  refine append rfl fun e' he' => ?_
  rw [List.mem_singleton.mp he']
  exact he

/-- What ends an answer. -/
theorem ends (s : MitmSession L) {e : Effect} (he : ∀ a, trackAnswer answersTo a e = none) :
    Mute s (s.emit e) := by
  have hnone : openAnswer answersTo (s.log ++ [e]) = none := by
    rw [openAnswer_append]
    exact he _
  refine ⟨List.subset_append_left _ _, .inr hnone, fun hs => hs.fresh (.inl (he _))⟩

end Mute

/-- And nothing changes of the operations that an answer depends on. -/
structure Still (s t : MitmSession L) : Prop extends Mute s t where
  asked : t.asked = s.asked
  count : ∀ k, Exchanging k → t.io.count k = s.io.count k

namespace Still

theorem refl (s : MitmSession L) : Still s s := ⟨.refl s, rfl, fun _ _ => rfl⟩

theorem trans (h : Still s t) (h' : Still t u) : Still s u :=
  ⟨h.toMute.trans h'.toMute, h'.asked.trans h.asked, fun k hk => (h'.count k hk).trans (h.count k hk)⟩

/-- Only fields differ that the relation does not look at. -/
theorem same (hlog : t.log = s.log) (hasked : t.asked = s.asked) (hio : t.io = s.io) : Still s t :=
  ⟨.of_log hlog, hasked, fun _ _ => by rw [hio]⟩

theorem emit (s : MitmSession L) {e : Effect} (he : ∀ a, trackAnswer answersTo a e = a) :
    Still s (s.emit e) :=
  ⟨.emit s he, rfl, fun _ _ => rfl⟩

theorem cancel (s : MitmSession L) (p : Op → Bool) : Still s (s.cancel p) :=
  ⟨.of_log rfl, rfl, fun k _ => Io.count_cancel s.io p .aborted k⟩

theorem start (s : MitmSession L) (hop : ¬ Exchanging op.kind) : Still s (s.start op) := by
  refine ⟨.of_log rfl, rfl, fun k hk => ?_⟩
  have hne : op.kind ≠ k := fun h => hop (h ▸ hk)
  show Io.count (s.io.start op) k = s.io.count k
  rw [Io.count_start, Op.weight, if_neg hne, Nat.add_zero]

theorem closes : AllowsClose (Still (L := L)) where
  refl := refl
  trans := trans
  cancel := cancel
  removed s _ := emit s fun a => by cases a <;> rfl
  gone _ := same rfl rfl rfl
  closed s := ⟨.ends s fun a => by cases a <;> rfl, rfl, fun _ _ => rfl⟩

theorem writes : AllowsWrite (Still (L := L)) where
  refl := refl
  trans := trans
  send s _ := (emit s fun a => by cases a <;> rfl).trans (start _ (by simp [Exchanging, Op.kind]))

theorem resetTimer (s : MitmSession L) : Still s s.resetTimer :=
  closes.resetTimer (fun s => start s (by simp [Exchanging, Op.kind])) s

theorem handleTimeout (s : MitmSession L) (o : Outcome) : Still s (s.handleTimeout o) :=
  handleTimeout_of closes.toChain fun _ => closes.close s

theorem handleClientWrite (s : MitmSession L) (o : Outcome) : Still s (s.handleClientWrite o) :=
  writes.handleClientWrite closes.close (same rfl rfl rfl) o

theorem respond (s : MitmSession L) (origin : Origin) (response : HttpResponse) :
    Still s (s.respond origin response) := by
  refine ⟨.append rfl fun e he => ?_, rfl, fun _ _ => rfl⟩
  rw [List.mem_singleton.mp he]
  intro a
  cases a <;> rfl

theorem reportTaken (s : MitmSession L) (data : Bytes) : Still s (s.reportTaken data) :=
  reportTaken_of closes.toChain (fun _ => same rfl rfl rfl) (fun s => respond s _) data

/-- Before the handshake of the client nothing is queued. -/
theorem sendErrorResponse (hdone : s.clientHandshakeDone = false) (statusCode : ℕ) (statusText : Bytes) :
    Still s (s.sendErrorResponse statusCode statusText) := by
  unfold MitmSession.sendErrorResponse
  split
  · exact refl s
  · have hflag : Still s { s with closeAfterWrite := true } := same rfl rfl rfl
    dsimp only
    split
    · rename_i hother
      exact absurd (hdone.symm.trans hother) Bool.false_ne_true
    · exact ((hflag.trans (respond _ _ _)).trans (emit _ fun a => by cases a <;> rfl)).trans
        (start _ (by simp [Exchanging, Op.kind]))

theorem readClient (s : MitmSession L) : Still s s.readClient :=
  startOpen_of closes.toChain (start s (by simp [Exchanging, Op.kind]))

theorem sets : AllowsSetup (Still (L := L)) where
  refl := refl
  trans := trans
  connect s := start s (by simp [Exchanging, Op.kind])
  established s := (emit s fun a => by cases a <;> rfl).trans (start _ (by simp [Exchanging, Op.kind]))
  handshakes s := (start s (by simp [Exchanging, Op.kind])).trans (start _ (by simp [Exchanging, Op.kind]))
  clientDone _ := same rfl rfl rfl
  upstreamDone _ := same rfl rfl rfl
  readClient := readClient

end Still

/-- How far an answer is, by the outstanding operations `n`. -/
inductive Phase (n : OpKind → ℕ) (s : MitmSession L) (a : Answer) : Prop
  | unanswered (empty : a = {})
  | relaying (relayed : a.Relayed) (asked : s.asked = []) (decision : ∀ d, n (.decision d) = 0)
  | dropped (answer : a = MitmSession.dropped) (decided : ∃ ref, .decided ref .drop ∈ s.log) (asked : s.asked = [])
      (decision : ∀ d, n (.decision d) = 0) (send : n .send = 0) (receive : n .receive = 0)

structure Answering (n : OpKind → ℕ) (s : MitmSession L) : Prop where
  once : AnsweredOnce answersTo s.log
  phase : ∀ a, openAnswer answersTo s.log = some a → Phase n s a

/-- The invariant while the handler of `op` runs. -/
abbrev AnsweringAfter (op : Op) (s : MitmSession L) : Prop :=
  Answering (fun k => s.io.count k + op.weight k) s

theorem Answering.mono {m n : OpKind → ℕ} (h : Answering n s) (hle : ∀ k, Exchanging k → m k ≤ n k) :
    Answering m s := by
  have hzero (k : OpKind) (hk : Exchanging k) (hn : n k = 0) : m k = 0 := Nat.le_zero.mp (hn ▸ hle k hk)
  refine ⟨h.once, fun a ha => ?_⟩
  cases h.phase a ha with
  | unanswered empty => exact .unanswered empty
  | relaying relayed asked decision =>
    exact .relaying relayed asked fun d => hzero _ (.inr (.inr ⟨d, rfl⟩)) (decision d)
  | dropped answer decided asked decision send receive =>
    exact .dropped answer decided asked (fun d => hzero _ (.inr (.inr ⟨d, rfl⟩)) (decision d))
      (hzero _ (.inl rfl) send) (hzero _ (.inr (.inl rfl)) receive)

theorem AnsweringAfter.answering (h : AnsweringAfter op s) : Answering s.io.count s :=
  h.mono fun _ _ => Nat.le_add_right _ _

theorem Still.answering (hst : Still s t) (h : Answering s.io.count s) : Answering t.io.count t := by
  refine Answering.mono (n := s.io.count) ⟨hst.once h.once, fun a ha => ?_⟩ fun k hk => (hst.count k hk).le
  rcases hst.answer with hsame | hnone
  · cases h.phase a (hsame ▸ ha) with
    | unanswered empty => exact .unanswered empty
    | relaying relayed asked decision => exact .relaying relayed (hst.asked.trans asked) decision
    | dropped answer decided asked decision send receive =>
      obtain ⟨ref, href⟩ := decided
      exact .dropped answer ⟨ref, hst.log href⟩ (hst.asked.trans asked) decision send receive
  · rw [hnone] at ha
    cases ha

/-- Nothing has been queued for the request at hand, and nothing has come from the upstream. -/
structure Unanswered (s : MitmSession L) : Prop where
  once : AnsweredOnce answersTo s.log
  empty : ∀ a, openAnswer answersTo s.log = some a → a = {}

namespace Unanswered

theorem answering (h : Unanswered s) (n : OpKind → ℕ) : Answering n s :=
  ⟨h.once, fun a ha => .unanswered (h.empty a ha)⟩

theorem of_mute (h : Unanswered s) (hm : Mute s t) : Unanswered t := by
  refine ⟨hm.once h.once, fun a ha => ?_⟩
  rcases hm.answer with hsame | hnone
  · exact h.empty a (hsame ▸ ha)
  · rw [hnone] at ha
    cases ha

theorem of_none (honce : AnsweredOnce answersTo s.log) (hnone : openAnswer answersTo s.log = none) : Unanswered s :=
  ⟨honce, fun a ha => by rw [hnone] at ha; cases ha⟩

end Unanswered

/-- What was received for the request at hand has been relayed, and the user has no part in it any more. -/
structure Relaying (s : MitmSession L) : Prop where
  once : AnsweredOnce answersTo s.log
  relayed : ∀ a, openAnswer answersTo s.log = some a → a.Relayed
  asked : s.asked = []
  decision : ∀ d, s.io.count (.decision d) = 0

namespace Relaying

theorem answering (h : Relaying s) : Answering s.io.count s :=
  ⟨h.once, fun a ha => .relaying (h.relayed a ha) h.asked h.decision⟩

theorem of_still (h : Relaying s) (hst : Still s t) : Relaying t := by
  refine ⟨hst.once h.once, fun a ha => ?_, hst.asked.trans h.asked,
    fun d => (hst.count _ (.inr (.inr ⟨d, rfl⟩))).trans (h.decision d)⟩
  rcases hst.answer with hsame | hnone
  · exact h.relayed a (hsame ▸ ha)
  · rw [hnone] at ha
    cases ha

theorem readUpstream (h : Relaying s) : Relaying s.readUpstream := by
  unfold MitmSession.readUpstream
  split
  · exact h
  · refine ⟨h.once, h.relayed, h.asked, fun d => ?_⟩
    show Io.count (s.io.start .upstreamRead) (.decision d) = 0
    rw [Io.count_start, h.decision d]
    rfl

/-- A chunk is relayed. -/
theorem relay (h : Relaying s) (hopen : s.isClosed = false) (data : Bytes) :
    Relaying ((s.emit (.received data)).writeClient .relayed data) := by
  have hreceived : AnsweredOnce answersTo (s.log ++ [.received data]) := by
    refine h.once.emit fun a ha => ?_
    obtain ⟨a', ha', rfl⟩ := openAnswer_received ha
    exact Answer.one_received (h.relayed a' ha').one data
  let u : MitmSession L := ({ s.emit (.received data) with
    clientWriteQueue := s.clientWriteQueue ++ [data] } : MitmSession L).emit (.queued .relayed data)
  have hqueued : Relaying u := by
    refine ⟨hreceived.emit fun a ha => ?_, fun a ha => ?_, h.asked, h.decision⟩
    · obtain ⟨a', ha', rfl⟩ := openAnswer_relayed ha
      exact ((h.relayed a' ha').chunk data).one
    · obtain ⟨a', ha', rfl⟩ := openAnswer_relayed ha
      exact (h.relayed a' ha').chunk data
  have hwrite : (s.emit (.received data)).writeClient .relayed data =
      if s.clientWriteQueue.isEmpty then u.doClientWrite else u := by
    unfold MitmSession.writeClient
    exact if_neg (by simp [MitmSession.emit, hopen])
  rw [hwrite]
  split
  · exact hqueued.of_still (Still.writes.doClientWrite u)
  · exact hqueued

theorem finishExchange (h : Relaying s) (env : Env) (res : HttpResponse) :
    Relaying (s.finishExchange env res) := by
  have hrespond := h.of_still (Still.respond s .relayed res)
  unfold MitmSession.finishExchange
  dsimp only
  generalize s.respond .relayed res = u at hrespond
  split
  · refine of_still ?_ (Still.readClient _)
    exact ⟨hrespond.once, hrespond.relayed, hrespond.asked, hrespond.decision⟩
  · have hflag : Still u { u with closeAfterWrite := true } := .same rfl rfl rfl
    split
    · exact hrespond.of_still (hflag.trans (Still.closes.close _))
    · exact hrespond.of_still hflag

end Relaying

/-! What is known when the handler of an operation of an exchange starts. -/

theorem relaying_of_idle (h : AnsweringAfter op s) (hidle : Idle b new s.flow)
    (hop : op.kind = .send ∨ op.kind = .receive) : Relaying s := by
  refine ⟨h.once, fun a ha => ?_, hidle.asked, hidle.decision⟩
  cases h.phase a ha with
  | unanswered empty =>
    rw [empty]
    exact ⟨by simp, rfl⟩
  | relaying relayed => exact relayed
  | dropped _ _ _ _ send receive =>
    -- after the proxy's own answer nothing goes to the upstream or comes from it
    rcases hop with hop | hop
    · simp [Op.weight, hop] at send
    · simp [Op.weight, hop] at receive

/-- A decision that is delivered was made. -/
theorem decision_logged {f : Flow} {d : InterceptAction} (h : SoundAfter b new (.decision d) f) :
    ∃ ref, .decided ref d ∈ f.log := by
  obtain ⟨⟨st, hp, hfits⟩, -⟩ := h
  have hself : (Op.decision d).weight (.decision d) = 1 := by simp [Op.weight, Op.kind]
  cases st with
  | quiet =>
    simp only [Flow.Fits] at hfits
    have := hfits.2.1 d
    omega
  | asked r =>
    simp only [Flow.Fits] at hfits
    have := hfits.2.2.2.1 d
    omega
  | cleared r =>
    simp only [Flow.Fits] at hfits
    have := hfits.2.2.2.1 d
    omega
  | ruled r d' =>
    simp only [Flow.Fits] at hfits
    have hone := hfits.2.2.2.1 d
    have hsame : d = d' := by
      by_contra hne
      rw [if_neg hne] at hone
      omega
    exact ⟨r, hsame ▸ hp.agrees.1⟩

theorem unanswered_of_decision {d : InterceptAction} (h : AnsweringAfter (.decision d) s) : Unanswered s := by
  refine ⟨h.once, fun a ha => ?_⟩
  have hnot (hzero : ∀ d', s.io.count (.decision d') + (Op.decision d).weight (.decision d') = 0) : False := by
    have hd := hzero d
    simp [Op.weight, Op.kind] at hd
  cases h.phase a ha with
  | unanswered empty => exact empty
  | relaying _ _ decision => exact (hnot decision).elim
  | dropped _ _ _ decision => exact (hnot decision).elim

theorem Mute.forwards : AllowsForward (Mute (L := L)) where
  refl := refl
  trans := trans
  push _ _ _ := .append rfl fun e he a => by rw [List.mem_singleton.mp he]; cases a <;> rfl
  send _ _ _ := .append (List.append_assoc _ _ _) fun e he a => by
    rcases List.mem_pair.mp he with rfl | rfl <;> cases a <;> rfl

/-- A new request has no answer yet. -/
theorem Unanswered.handleRequest (h : AnsweredOnce answersTo s.log) (env : Env) (req : HttpRequest) :
    Unanswered (s.handleRequest env req) := by
  have htook : Unanswered (({ s with currentTransaction := { s.currentTransaction with
      id := env.nextId, host := s.targetHost, port := s.targetPort.toNat, isHttps := true
      request := some env.newRef } } : MitmSession L).emit (.took env.newRef req)) := by
    have hopen (o : Option Answer) : trackAnswer answersTo o (.took env.newRef req) = some {} := rfl
    refine ⟨h.fresh (.inr (hopen _)), fun a ha => ?_⟩
    have ha : trackAnswer answersTo (openAnswer answersTo s.log) (.took env.newRef req) = some a := by
      rw [← ha]
      exact Eq.symm (@openAnswer_append answersTo s.log [.took env.newRef req])
    exact (Option.some.inj ((hopen _).symm.trans ha)).symm
  unfold MitmSession.handleRequest
  dsimp only
  generalize ({ s with currentTransaction := { s.currentTransaction with
    id := env.nextId, host := s.targetHost, port := s.targetPort.toNat, isHttps := true
    request := some env.newRef } } : MitmSession L).emit (.took env.newRef req) = u at htook
  have htested := htook.of_mute (Mute.emit u (e := .tested env.newRef env.interceptEnabled)
    fun a => by cases a <;> rfl)
  split
  · exact htested.of_mute ((Still.closes.cancelTimer _).toMute.trans (.append rfl fun e he a => by
      rw [List.mem_singleton.mp he]; cases a <;> rfl))
  · exact htested.of_mute (Mute.forwards.writeUpstream _ _ _)

theorem handleClientRead_answering (h : AnsweringAfter .clientRead s) (env : Env) (o : Outcome) :
    Answering (s.handleClientRead env o).io.count (s.handleClientRead env o) := by
  unfold MitmSession.handleClientRead
  split
  · exact h.answering
  · split
    · rename_i data
      have hread : Mute s (s.resetTimer.emit (.read data)) :=
        (Still.resetTimer s).toMute.trans (.ends _ fun a => by cases a <;> rfl)
      have hnone : openAnswer answersTo (s.resetTimer.emit (.read data)).log = none := by
        show openAnswer answersTo (s.log ++ [.read data]) = none
        rw [openAnswer_append]
        cases openAnswer answersTo s.log <;> rfl
      have honce := hread.once h.once
      dsimp only
      generalize s.resetTimer.emit (.read data) = u at hnone honce
      have hfields (parser : HttpParser L) : Unanswered { u with
          clientAccumulated := u.clientAccumulated ++ data, clientParser := parser } :=
        .of_none honce hnone
      split
      · split
        · exact (Unanswered.handleRequest (hfields _).once env _).answering _
        · exact ((hfields _).of_mute (Still.readClient _).toMute).answering _
      · split
        · exact ((hfields _).of_mute (Still.readClient _).toMute).answering _
        · exact ((hfields _).of_mute (Still.closes.close _).toMute).answering _
    · exact (Still.closes.close s).answering h.answering

theorem openAnswer_queued {log : List Effect} {origin : Origin} {data : Bytes} {a : Answer}
    (ha : openAnswer answersTo (log ++ [.queued origin data]) = some a) :
    ∃ a', openAnswer answersTo log = some a' ∧ a = a'.add origin data := by
  rw [openAnswer_append] at ha
  cases hopen : openAnswer answersTo log with
  | none =>
    rw [hopen] at ha
    cases ha
  | some a' =>
    rw [hopen] at ha
    exact ⟨a', rfl, (Option.some.inj ha).symm⟩

/-- The user drops a request, and the proxy answers. -/
theorem sendDropped (h : Unanswered s) (hidle : Idle b new s.flow) (hdone : s.clientHandshakeDone = true)
    (hdecided : ∃ ref, .decided ref .drop ∈ s.log) :
    Answering (s.sendErrorResponse 502 (str "Request Dropped by BurpTUI")).io.count
      (s.sendErrorResponse 502 (str "Request Dropped by BurpTUI")) := by
  let data := errorResponse 502 (str "Request Dropped by BurpTUI")
  unfold sendErrorResponse
  split
  · exact h.answering _
  · rename_i hopen
    have hflag : Still s { s with closeAfterWrite := true } := .same rfl rfl rfl
    have hstill := hflag.trans (Still.respond _ .generated { version := str "HTTP/1.1", statusCode := 502
                                                             statusText := str "Request Dropped by BurpTUI" })
    dsimp only
    generalize hu : ({ s with closeAfterWrite := true } : MitmSession L).respond .generated _ = u at hstill
    have hopen : u.isClosed = false := by
      rw [← hu]
      exact Bool.eq_false_iff.mpr hopen
    have hdone : u.clientHandshakeDone = true := by
      rw [← hu]
      exact hdone
    rw [if_pos hdone]
    have hempty := h.of_mute hstill.toMute
    let v : MitmSession L := ({ u with
      clientWriteQueue := u.clientWriteQueue ++ [data] } : MitmSession L).emit (.queued .generated data)
    have hanswer (a : Answer) (ha : openAnswer answersTo v.log = some a) : a = dropped := by
      obtain ⟨a', ha', rfl⟩ := openAnswer_queued ha
      rw [hempty.empty a' ha']
      rfl
    have hcount (k : OpKind) (hk : Exchanging k) (hzero : s.flow.count k = 0) (hdial : k ≠ .dial) :
        v.io.count k = 0 := by
      have hsame : s.flow.count k = s.io.count k := if_neg hdial
      exact (hstill.count k hk).trans (hsame.symm.trans hzero)
    have hplain : s.flow.count .read + s.flow.count .send + s.flow.count .receive = 0 := (hidle.plain rfl).2
    have hv : Answering v.io.count v := by
      refine ⟨hempty.once.emit fun a ha => ?_, fun a ha => ?_⟩
      · rw [hanswer a ha]
        exact .inr rfl
      · obtain ⟨ref, href⟩ := hdecided
        exact .dropped (hanswer a ha) ⟨ref, List.mem_append_left _ (hstill.log href)⟩
          (hstill.asked.trans hidle.asked) (fun d => hcount _ (.inr (.inr ⟨d, rfl⟩)) (hidle.decision d) (by simp))
          (hcount _ (.inl rfl) (by omega) (by simp)) (hcount _ (.inr (.inl rfl)) (by omega) (by simp))
    have hwrite : u.writeClient .generated data = if u.clientWriteQueue.isEmpty then v.doClientWrite else v := by
      unfold MitmSession.writeClient
      exact if_neg (by simp [hopen])
    rw [hwrite]
    split
    · exact (Still.writes.doClientWrite v).answering hv
    · exact hv

/-! One lemma for each handler. -/

theorem handleDecision_answering {d : InterceptAction} (h : AnsweringAfter (.decision d) s)
    (hinv : InvAfter b new (.decision d) s) (env : Env) :
    Answering (s.handleDecision env d).io.count (s.handleDecision env d) := by
  have hready := (Calmly.resetTimer s).ready (hinv.ready_read (.inr (.inr ⟨d, rfl⟩)))
  have hempty := (unanswered_of_decision h).of_mute (Still.resetTimer s).toMute
  have hdecided : ∃ ref, .decided ref d ∈ s.resetTimer.log := by
    have hsound : SoundAfter b new (.decision d) s.flow := by
      have hsound := hinv.sound
      rwa [if_neg (by simp [Op.kind])] at hsound
    obtain ⟨ref, href⟩ := decision_logged hsound
    exact ⟨ref, (Still.resetTimer s).log href⟩
  unfold MitmSession.handleDecision
  split
  · exact h.answering
  · cases d with
    | forward => exact (hempty.of_mute (Mute.forwards.writeUpstream _ _ _)).answering _
    | drop => exact sendDropped hempty hready.idle hready.clientDone hdecided

theorem handleUpstreamWrite_answering {data : Bytes} (h : AnsweringAfter (.upstreamWrite data) s)
    (hinv : InvAfter b new (.upstreamWrite data) s) (o : Outcome) :
    Answering (s.handleUpstreamWrite o).io.count (s.handleUpstreamWrite o) := by
  have hready := hinv.ready (.inr (.inl rfl))
  have hrelaying := relaying_of_idle h (hinv.idle (.inr (.inl rfl))) (.inl rfl)
  unfold MitmSession.handleUpstreamWrite
  split
  · exact h.answering
  · rename_i hopen
    split
    · exact (Still.closes.close s).answering h.answering
    · have hqueue : s.upstreamWriteQueue.tail = [] := by
        have hqueue := hready.queue (by simpa using hopen)
        rwa [show (Op.upstreamWrite data).weight .send = 1 from rfl, List.drop_one] at hqueue
      have hpop : Still s { s with upstreamWriteQueue := s.upstreamWriteQueue.tail } := .same rfl rfl rfl
      dsimp only
      rw [if_neg (not_not_intro hqueue)]
      exact (hrelaying.of_still hpop).readUpstream.answering

theorem handleUpstreamRead_answering (h : AnsweringAfter .upstreamRead s)
    (hinv : InvAfter b new .upstreamRead s) (env : Env) (o : Outcome) :
    Answering (s.handleUpstreamRead env o).io.count (s.handleUpstreamRead env o) := by
  have hrelaying := relaying_of_idle h (hinv.idle (.inr (.inr (.inl rfl)))) (.inr rfl)
  unfold MitmSession.handleUpstreamRead
  split
  · exact h.answering
  · rename_i hopen
    split
    · rename_i data
      have hrelay := (hrelaying.of_still (Still.resetTimer s)).relay (Bool.eq_false_iff.mpr hopen) data
      dsimp only
      generalize (s.resetTimer.emit (.received data)).writeClient .relayed data = u at hrelay
      have hfields (parser : HttpParser L) : Relaying { u with
          upstreamAccumulated := u.upstreamAccumulated ++ data, upstreamParser := parser } :=
        ⟨hrelay.once, hrelay.relayed, hrelay.asked, hrelay.decision⟩
      split
      · split
        · exact ((hfields _).finishExchange env _).answering
        · exact (hfields _).readUpstream.answering
      · exact (hfields _).readUpstream.answering
    · dsimp only
      split
      · exact ((Still.reportTaken s _).trans (Still.closes.close _)).answering h.answering
      · exact (Still.closes.close s).answering h.answering

/-- While the connections are set up nothing is queued. -/
theorem handle_dial (h : AnsweringAfter op s) (hinv : InvAfter b new op s) (env : Env) (o : Outcome)
    (hop : op = .resolve ∨ op = .connect ∨ op = .established) :
    Answering (handle env s op o).io.count (handle env s op o) := by
  have hdone : s.clientHandshakeDone = false := by
    have hclient := hinv.setup.client
    have hweight : op.weight .dial = 1 := by rcases hop with rfl | rfl | rfl <;> rfl
    cases hc : s.clientHandshakeDone with
    | false => rfl
    | true =>
      rw [hc, Bool.toNat_true] at hclient
      omega
  refine Still.answering ?_ h.answering
  rcases hop with rfl | rfl | rfl
  · exact Still.sets.handleResolve (.sendErrorResponse hdone _ _) o
  · exact Still.sets.handleConnected (.sendErrorResponse hdone _ _) o
  · exact Still.sets.handleEstablished (Still.closes.close s) env o

theorem handle_answering (h : AnsweringAfter op s) (hinv : InvAfter b new op s) (env : Env) (o : Outcome) :
    Answering (handle env s op o).io.count (handle env s op o) := by
  cases op with
  | timer => exact (Still.handleTimeout s o).answering h.answering
  | clientWrite data => exact (Still.handleClientWrite s o).answering h.answering
  | rawWrite data => exact (Still.closes.close s).answering h.answering
  | serverWrite data => exact h.answering
  | resolve => exact handle_dial h hinv env o (.inl rfl)
  | connect => exact handle_dial h hinv env o (.inr (.inl rfl))
  | established => exact handle_dial h hinv env o (.inr (.inr rfl))
  | clientHandshake => exact (Still.sets.handleClientHandshake fun _ => Still.closes.close s).answering h.answering
  | upstreamHandshake => exact (Still.sets.handleUpstreamHandshake fun _ => Still.closes.close s).answering h.answering
  | clientRead => exact handleClientRead_answering h env o
  | upstreamRead => exact handleUpstreamRead_answering h hinv env o
  | upstreamWrite data => exact handleUpstreamWrite_answering h hinv o
  | decision d => exact handleDecision_answering h hinv env

/-! The steps of a session. -/

theorem Answering.taken (h : Answering s.io.count s) {k : ℕ} {o : Outcome} {io : Io}
    (hio : s.io.take k = some ((op, o), io)) : AnsweringAfter op { s with io := io } := by
  refine ⟨h.once, fun a ha => ?_⟩
  have hphase := h.phase a ha
  rw [Io.count_take hio] at hphase
  cases hphase with
  | unanswered empty => exact .unanswered empty
  | relaying relayed asked decision => exact .relaying relayed asked decision
  | dropped answer decided asked decision send receive =>
    exact .dropped answer decided asked decision send receive

theorem decided_answering (h : Answering s.io.count s) {ref : Ref} (href : ref ∈ s.asked)
    (d : InterceptAction) : Answering (s.decided ref d).io.count (s.decided ref d) := by
  have hmute : Mute s (s.decided ref d) := .append rfl fun e he a => by
    rw [List.mem_singleton.mp he]
    cases a <;> rfl
  have hempty : Unanswered s := by
    refine ⟨h.once, fun a ha => ?_⟩
    cases h.phase a ha with
    | unanswered empty => exact empty
    | relaying _ asked => simp [asked] at href
    | dropped _ _ asked => simp [asked] at href
  exact (hempty.of_mute hmute).answering _

theorem complete_still {k : ℕ} {o : Outcome} (hok : s.complete k o = some t) : Still s t := by
  obtain ⟨op, io, hio, -, rfl⟩ := complete_spec hok
  exact ⟨.append rfl fun e he => trackAnswer_completion he, rfl,
    fun k _ => congrFun (Io.count_complete hio) k⟩

theorem reached_answering (h : (system L).Reached s) : Answering s.io.count s := by
  refine h.invariant_of (J := Holds) (I := fun s => Answering s.io.count s)
    (fun s hs => reached_holds hs.reached) ?_ ?_
  · rintro _ ⟨targetHost, targetPort, rfl⟩
    exact (Unanswered.of_none answeredOnce_nil rfl).answering _
  · intro s a t hholds hs _ hstep
    cases moves_of_step hstep with
    | complete ht => exact (complete_still ht).answering hs
    | @handled k env t _ ht =>
      obtain ⟨op, o, io, hio, rfl⟩ := dispatch_spec ht
      exact handle_answering (hs.taken hio) (taken_inv hholds hio env.newRef) env o
    | decide href => exact decided_answering hs href _
    | close => exact (Still.closes.close s).answering hs

/-- In every run a request that has come over TLS, a CONNECT as well as any other, has one answer at every
moment; and the answer that is open is all that the upstream has sent for it, or the one response to a
request that the user has dropped. -/
theorem one_answer_over_tls (h : (system L).Reached s) : AnsweredOnce answersTo s.log ∧
    ∀ a, openAnswer answersTo s.log = some a →
      a.Relayed ∨ a = dropped ∧ ∃ ref, .decided ref .drop ∈ s.log := by
  have hanswering := reached_answering h
  refine ⟨hanswering.once, fun a ha => ?_⟩
  cases hanswering.phase a ha with
  | unanswered empty =>
    rw [empty]
    exact .inl ⟨by simp, rfl⟩
  | relaying relayed => exact .inl relayed
  | dropped answer decided => exact .inr ⟨answer, decided⟩

section Examples

open Session (env1 Label)

/-- A tunnel is set up, and a request arrives over TLS. -/
def requestRun (request : RequestMessage) : List Label :=
  [.complete 1 .ok, .dispatch 0 {}, .complete 1 .ok, .dispatch 0 {}, .complete 1 .ok, .dispatch 0 {},
    .complete 1 .ok, .complete 1 .ok, .dispatch 0 {}, .dispatch 0 {},
    .complete 1 (.bytes request.message.wire)]

/-- It is intercepted, and the user drops it. -/
def droppedRun (request : RequestMessage) : List Label :=
  requestRun request ++ [.dispatch 0 { interceptEnabled := true }, .decide 0 .drop, .dispatch 2 env1]

/-- A CONNECT inside of a tunnel. -/
def innerConnect : RequestMessage :=
  { method := str "CONNECT", url := str "h:1", fields := [], body := .plain [] }

/-- The requests of the script are `innerConnect`. -/
def connecting : Llhttp :=
  scripted fun
    | .request => innerConnect.message.pieces
    | .response => []

theorem one_answer_over_tls_droppedRun : ∃ s : MitmSession connecting,
    openAnswer answersTo s.log = some dropped ∧ AnsweredOnce answersTo s.log ∧
    ∀ a, openAnswer answersTo s.log = some a →
      a.Relayed ∨ a = dropped ∧ ∃ ref, .decided ref .drop ∈ s.log := by
  have hrun : ((system connecting).run (started [] 443) (droppedRun innerConnect)).any
      (fun s => openAnswer answersTo s.log = some dropped) = true := by decide
  obtain ⟨s, hs, hopen⟩ := (Option.any_eq_true _ _).mp hrun
  exact ⟨s, of_decide_eq_true hopen, one_answer_over_tls (.run (.init ⟨[], 443, rfl⟩) hs)⟩

end Examples

end BurpTUI.MitmSession
