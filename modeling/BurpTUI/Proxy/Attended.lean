import BurpTUI.Proxy.Aside
import BurpTUI.Proxy.MitmQueues
import BurpTUI.Proxy.OneAnswer
import BurpTUI.Proxy.WriteQueues

namespace BurpTUI

/-- The timer runs, or has expired and its handler is queued. -/
def Io.Armed (io : Io) : Prop := .timer ∈ io.pending ∨ ∃ o, o ≠ .aborted ∧ (.timer, o) ∈ io.ready

namespace Io.Armed

variable {io io' : Io} {op : Op} {o : Outcome}

theorem start (h : Armed io) (op : Op) : Armed (io.start op) :=
  h.imp_left fun hmem => List.mem_append_left _ hmem

theorem cancel (h : Armed io) {p : Op → Bool} (hp : p .timer = false) (o : Outcome) :
    Armed (io.cancel p o) := by
  rcases h with hmem | ⟨r, hr, hmem⟩
  · exact .inl (List.mem_filter.mpr ⟨hmem, by simp [hp]⟩)
  · exact .inr ⟨r, hr, List.mem_append_left _ hmem⟩

/-- A timer that completes of its own accord has expired. -/
theorem complete (h : Armed io) {k : ℕ} (hio : io.complete k o = some (op, io'))
    (hallows : op.allows o = true) : Armed io' := by
  obtain ⟨hk, rfl⟩ := Executor.complete_spec hio
  rcases h with hmem | ⟨r, hr, hmem⟩
  · by_cases htimer : op = .timer
    · subst htimer
      have hok : o ≠ .aborted := by
        rintro rfl
        cases hallows
      exact .inr ⟨o, hok, by simp⟩
    · refine .inl ?_
      obtain ⟨n, hn⟩ := List.mem_iff_getElem?.mp hmem
      refine List.mem_eraseIdx_iff_getElem?.mpr ⟨n, ?_, hn⟩
      rintro rfl
      rw [hn] at hk
      exact htimer (Option.some.inj hk).symm
  · exact .inr ⟨r, hr, List.mem_append_left _ hmem⟩

/-- Only the handler of an expired timer takes the timer away. -/
theorem take (h : Armed io) {k : ℕ} (hio : io.take k = some ((op, o), io')) :
    Armed io' ∨ op = .timer ∧ o ≠ .aborted := by
  obtain ⟨hk, rfl⟩ := Executor.take_spec hio
  rcases h with hmem | ⟨r, hr, hmem⟩
  · exact .inl (.inl hmem)
  · by_cases he : (op, o) = (.timer, r)
    · cases he
      exact .inr ⟨rfl, hr⟩
    · refine .inl (.inr ⟨r, hr, ?_⟩)
      obtain ⟨n, hn⟩ := List.mem_iff_getElem?.mp hmem
      refine List.mem_eraseIdx_iff_getElem?.mpr ⟨n, ?_, hn⟩
      rintro rfl
      rw [hn] at hk
      exact he (Option.some.inj hk).symm

end Io.Armed

/-- The operations of a session, and the requests that it has given to the intercept manager. -/
def Io.Held (io : Io) (asked : List Ref) : Prop := asked ≠ [] ∨ ∃ a, io.count (.decision a) ≠ 0

theorem Io.Held.take {io io' : Io} {asked : List Ref} (h : Held io asked) {k : ℕ} {op : Op} {o : Outcome}
    (hio : io.take k = some ((op, o), io')) : Held io' asked ∨ ∃ a, op = .decision a := by
  rcases h with hasked | ⟨a, ha⟩
  · exact .inl (.inl hasked)
  · by_cases hop : op = .decision a
    · exact .inr ⟨a, hop⟩
    · have hweight : op.weight (.decision a) = 0 := by
        unfold Op.weight
        rw [if_neg]
        intro hkind
        cases op <;> simp_all [Op.kind]
      rw [Io.count_take hio] at ha
      dsimp only at ha
      rw [hweight] at ha
      exact .inl (.inr ⟨a, ha⟩)

namespace Session

open BurpTUI.Flow (SoundAfter)

variable {L : Llhttp} {s t u : Session L} {op : Op}

/-- The last answer is in the queue, and the session closes behind it. -/
def Closing (s : Session L) : Prop := s.closeAfterWrite = true ∧ s.writeQueue ≠ []

/-- Why a session whose client is connected does not wait for ever. -/
def Attended (s : Session L) : Prop :=
  s.clientOpen = true → s.io.Armed ∨ s.io.Held s.asked ∨ s.Closing

/-- Whatever a session waits for, it waits for it from `s` to `t` if its client is still there. -/
structure Stays (s t : Session L) : Prop where
  client : t.clientOpen = true → s.clientOpen = true
  armed : t.clientOpen = true → s.io.Armed → t.io.Armed
  asked : s.asked ≠ [] → t.asked ≠ []
  decisions : ∀ a, t.io.count (.decision a) = s.io.count (.decision a)
  flag : s.closeAfterWrite = true → t.closeAfterWrite = true
  queue : s.writeQueue ≠ [] → t.writeQueue ≠ []

theorem Attended.stays (h : s.Attended) (hst : Stays s t) : t.Attended := by
  intro hopen
  rcases h (hst.client hopen) with harmed | (hasked | ⟨a, ha⟩) | hclosing
  · exact .inl (hst.armed hopen harmed)
  · exact .inr (.inl (.inl (hst.asked hasked)))
  · exact .inr (.inl (.inr ⟨a, by rwa [hst.decisions]⟩))
  · exact .inr (.inr ⟨hst.flag hclosing.1, hst.queue hclosing.2⟩)

theorem Attended.gone (h : s.clientOpen = false) : s.Attended := fun hopen => by
  rw [h] at hopen
  cases hopen

namespace Stays

theorem trans (h : Stays s t) (h' : Stays t u) : Stays s u where
  client hopen := h.client (h'.client hopen)
  armed hopen harmed := h'.armed hopen (h.armed (h'.client hopen) harmed)
  asked hasked := h'.asked (h.asked hasked)
  decisions a := (h'.decisions a).trans (h.decisions a)
  flag hflag := h'.flag (h.flag hflag)
  queue hqueue := h'.queue (h.queue hqueue)

theorem same (hopen : t.clientOpen = s.clientOpen) (hio : t.io = s.io) (hasked : t.asked = s.asked)
    (hflag : t.closeAfterWrite = s.closeAfterWrite) (hqueue : t.writeQueue = s.writeQueue) : Stays s t where
  client h := hopen ▸ h
  armed _ h := hio ▸ h
  asked h := hasked ▸ h
  decisions _ := by rw [hio]
  flag h := hflag ▸ h
  queue h := hqueue ▸ h

theorem emit (s : Session L) (e : Effect) : Stays s (s.emit e) := same rfl rfl rfl rfl rfl

theorem start (s : Session L) {p : Op} (hdecision : ∀ a, p.kind ≠ .decision a) : Stays s (s.start p) where
  client := id
  armed _ h := h.start p
  asked := id
  decisions a := by
    rw [Session.start, Io.count_start]
    simp [Op.weight, hdecision a]
  flag := id
  queue := id

theorem cancel (s : Session L) {p : Op → Bool} (hp : p .timer = false) : Stays s (s.cancel p) where
  client := id
  armed _ h := h.cancel hp _
  asked := id
  decisions _ := Io.count_cancel s.io p .aborted _
  flag := id
  queue := id

end Stays

theorem close_attended (s : Session L) : s.close.Attended := .gone (close_closed s).1

theorem resetTimer_armed (s : Session L) : s.resetTimer.io.Armed := .inl (List.mem_append_right _ (.head _))

theorem Io.Armed.attended (h : s.io.Armed) : s.Attended := fun _ => .inl h

/-- The proxy answers for itself: the session closes behind the answer. -/
theorem answer_closing (s : Session L) (response : HttpResponse) (data : Bytes) :
    ({ s.respond .generated response with closeAfterWrite := true }.writeClient .generated data).Closing := by
  unfold Session.writeClient
  dsimp only
  split
  · refine ⟨?_, ?_⟩
    · unfold Session.doClientWrite
      split <;> rfl
    · unfold Session.doClientWrite
      split <;> simp [Session.emit, Session.start]
  · exact ⟨rfl, by simp [Session.emit]⟩

theorem Closing.attended (h : s.Closing) : s.Attended := fun _ => .inr (.inr h)

namespace Attended

theorem start (h : s.Attended) {p : Op} (hdecision : ∀ a, p.kind ≠ .decision a) : (s.start p).Attended :=
  h.stays (.start s hdecision)

theorem closeServer (s : Session L) (h : s.Attended) : s.closeServer.Attended := by
  unfold Session.closeServer
  split
  · have hfield : Stays s { s with serverOpen := false } := .same rfl rfl rfl rfl rfl
    exact h.stays (hfield.trans (.cancel _ rfl))
  · exact h

theorem queue (s : Session L) (origin : Origin) (data : Bytes) (h : s.Attended) :
    ({ s with writeQueue := s.writeQueue ++ [data] }.emit (.queued origin data)).Attended :=
  h.stays ⟨id, fun _ => id, id, fun _ => rfl, id, fun _ => by simp [Session.emit]⟩

theorem answers : AllowsAnswer fun s t : Session L => s.Attended → t.Attended where
  toChain := .keeps _
  send s _ h := (h.stays (.emit s _)).start (by simp [Op.kind])
  sendServer s _ h := (h.stays (.emit s _)).start (by simp [Op.kind])
  respond _ _ h := h.stays ⟨id, fun _ => id, id, fun _ => rfl, fun _ => rfl, id⟩
  queue s data := queue s _ data

theorem dials : AllowsDial fun s t : Session L => s.Attended → t.Attended where
  toChain := .keeps _
  error s _ _ _ := answers.sendErrorResponse s _ _
  serverOpen _ h := h.stays (.same rfl rfl rfl rfl rfl)
  store _ _ h := h.stays (.same rfl rfl rfl rfl rfl)
  handed s _ _ h := h.stays (.emit s _)
  start _ _ hop h := h.start fun a ha => by simp [ha] at hop

theorem finishes : AllowsFinish fun s t : Session L => s.Attended → t.Attended where
  toChain := .keeps _
  respond _ _ h := h.stays (.same rfl rfl rfl rfl rfl)
  parser _ _ h := h.stays (.same rfl rfl rfl rfl rfl)
  renew _ h := h.stays (.same rfl rfl rfl rfl rfl)
  flag _ h := h.stays ⟨id, fun _ => id, id, fun _ => rfl, fun _ => rfl, id⟩
  readClient _ h := h.start (by simp [Op.kind])
  readUpstream _ h := h.start (by simp [Op.kind])

theorem takes : AllowsTake fun s t : Session L => s.Attended → t.Attended where
  toChain := .keeps _
  target _ _ _ _ h := h.stays (.same rfl rfl rfl rfl rfl)
  route _ _ _ h := h.stays (.same rfl rfl rfl rfl rfl)
  tested s _ _ h := h.stays (.emit s _)
  connected _ _ h := h.stays (.same rfl rfl rfl rfl rfl)
  spawn _ _ _ _ := .gone rfl
  tunnel _ h := h.stays (.same rfl rfl rfl rfl rfl)
  resolve _ h := h.start (by simp [Op.kind])

end Attended

theorem handleTimeout_attended (s : Session L) {o : Outcome} (ho : o ≠ .aborted) :
    (s.handleTimeout o).Attended := by
  unfold Session.handleTimeout
  rw [if_neg ho]
  split
  · exact (answer_closing _ _ _).attended
  · exact close_attended s

/-- The last write of an answer behind which the session closes does close it. -/
theorem handleClientWrite_attended (h : s.Attended) (o : Outcome) : (s.handleClientWrite o).Attended := by
  unfold Session.handleClientWrite
  split
  · exact close_attended s
  · dsimp only
    have hpop (hnot : ¬ (s.closeAfterWrite = true ∧ s.writeQueue.tail = [])) :
        Attended { s with writeQueue := s.writeQueue.tail } := by
      intro hopen
      rcases h hopen with harmed | hheld | hclosing
      · exact .inl harmed
      · exact .inr (.inl hheld)
      · exact .inr (.inr ⟨hclosing.1, fun htail => hnot ⟨hclosing.1, htail⟩⟩)
    split
    · rename_i hmore
      exact Attended.answers.doClientWrite _ (hpop fun hend => hmore hend.2)
    · split
      · exact close_attended _
      · rename_i hflag
        exact hpop fun hend => hflag hend.1

/-- The client of a decision is watched again. -/
theorem handleDecision_attended (s : Session L) (action : InterceptAction) :
    (s.handleDecision action).Attended := by
  have hreset := Io.Armed.attended (resetTimer_armed s)
  unfold Session.handleDecision
  split
  · cases action with
    | forward => exact Attended.dials.forwardRequest (Attended.closeServer _) hreset
    | drop => exact Attended.answers.sendErrorResponse _ _ _ hreset
  · rename_i hopen
    exact .gone (Bool.eq_false_iff.mpr hopen)

theorem handleUpstreamRead_attended (s : Session L) (env : Env) (o : Outcome) :
    (s.handleUpstreamRead env o).Attended := by
  cases o with
  | bytes data =>
    have hreceived : (s.resetTimer.emit (.received data)).Attended :=
      (Io.Armed.attended (resetTimer_armed s)).stays (.emit _ _)
    exact Attended.finishes.received (fun s _ => close_attended s) s env data
      (Attended.answers.writeClient (Attended.queue _ .relayed data) hreceived)
  | eof => exact close_attended _
  | ok => exact close_attended s
  | truncated => exact close_attended s
  | aborted => exact close_attended s
  | failed => exact close_attended s

/-- A request that is to be intercepted is held in place of being watched. -/
theorem handleUpstreamRoute_attended (h : s.Attended) (env : Env) (host port : Bytes) (k : ℤ) :
    (s.handleUpstreamRoute env host port k).Attended :=
  Attended.takes.handleUpstreamRoute (fun _ _ _ _ => .inr (.inl (.inl (by simp [Session.intercept]))))
    (fun t _ => Attended.dials.forwardRequest (Attended.closeServer t)) env host port k h

theorem handleRequest_attended {env : Env} {req : HttpRequest} (h : s.Attended)
    (hok : s.handleRequest env req = .ok t) : t.Attended :=
  handleRequest_of (.keeps Attended) (fun h => h.stays (.same rfl rfl rfl rfl rfl)) Attended.takes.handleConnect
    (fun s => Attended.answers.sendErrorResponse s _ _) (Attended.answers.serveCaCert · env)
    (Attended.answers.serveBurpHelpPage · env)
    (fun _ _ host port k h => handleUpstreamRoute_attended h env host port k) hok h

theorem handleClientRead_attended {env : Env} {o : Outcome} (hok : s.handleClientRead env o = .ok t) :
    t.Attended := by
  cases o with
  | bytes data =>
    have hread : (s.resetTimer.emit (.read data)).Attended :=
      (Io.Armed.attended (resetTimer_armed s)).stays (.emit _ _)
    refine handleClientRead_of (.keeps Attended) (fun _ _ _ h => ?_) (fun s => ?_) Attended.finishes.readClient
      (fun s => Attended.answers.sendErrorResponse s _ _) (fun _ _ _ hok h => handleRequest_attended h hok) hok hread
    · exact h.stays (.same rfl rfl rfl rfl rfl)
    · exact Attended.answers.writeServerBlind fun h => h.stays (.same rfl rfl rfl rfl rfl)
  | _ => cases hok; exact close_attended s

/-- The session was attended before the handler of `op` was taken out: what that handler was for is lost
unless it sees to it. -/
theorem handle_attended {env : Env} {k : ℕ} {o : Outcome} {io : Io} (h : s.Attended)
    (hio : s.io.take k = some ((op, o), io)) (hok : handle env { s with io := io } op o = .ok t) :
    t.Attended := by
  have htaken (htimer : op = .timer → o = .aborted) (hdecision : ∀ a, op ≠ .decision a) :
      Attended { s with io := io } := by
    intro hopen
    rcases h hopen with harmed | hheld | hclosing
    · rcases harmed.take hio with harmed | ⟨hop, ho⟩
      · exact .inl harmed
      · exact absurd (htimer hop) ho
    · rcases hheld.take hio with hheld | ⟨a, hop⟩
      · exact .inr (.inl hheld)
      · exact absurd hop (hdecision a)
    · exact .inr (.inr hclosing)
  cases op with
  | timer =>
    cases hok
    by_cases ho : o = .aborted
    · subst ho
      exact htaken (fun _ => rfl) (by simp)
    · exact handleTimeout_attended _ ho
  | decision action => cases hok; exact handleDecision_attended _ action
  | clientRead => exact handleClientRead_attended hok
  | upstreamRead => cases hok; exact handleUpstreamRead_attended _ env o
  | resolve =>
    cases hok
    exact Attended.dials.handleResolve (Attended.closeServer _) o (htaken (by simp) (by simp))
  | connect =>
    cases hok
    exact Attended.dials.handleConnected (Attended.answers.writeClient (Attended.queue _ _ _))
      Attended.finishes.readClient env o (htaken (by simp) (by simp))
  | clientWrite data => cases hok; exact handleClientWrite_attended (htaken (by simp) (by simp)) o
  | upstreamWrite data => cases hok; exact Attended.dials.handleUpstreamWrite _ o (htaken (by simp) (by simp))
  | serverWrite data =>
    cases hok
    exact Attended.answers.handleServerWrite (fun _ _ _ => close_attended _)
      (fun h => h.stays (.same rfl rfl rfl rfl rfl)) (htaken (by simp) (by simp))
  | rawWrite data => cases hok; exact htaken (by simp) (by simp)
  | established => cases hok; exact htaken (by simp) (by simp)
  | clientHandshake => cases hok; exact htaken (by simp) (by simp)
  | upstreamHandshake => cases hok; exact htaken (by simp) (by simp)

theorem complete_attended (h : s.Attended) {k : ℕ} {o : Outcome} (hok : s.complete k o = some t) :
    t.Attended := by
  obtain ⟨op, io, hio, hcan, rfl⟩ := complete_spec hok
  intro hopen
  rcases h hopen with harmed | (hasked | ⟨a, ha⟩) | hclosing
  · exact .inl (harmed.complete hio (Bool.and_eq_true_iff.mp hcan).1)
  · exact .inr (.inl (.inl hasked))
  · exact .inr (.inl (.inr ⟨a, by rwa [Io.count_complete hio]⟩))
  · exact .inr (.inr hclosing)

theorem decided_attended (s : Session L) (ref : Ref) (action : InterceptAction) :
    (s.decided ref action).Attended :=
  fun _ => .inr (.inl (.inr ⟨action, by simp [Session.decided, Op.weight, Op.kind]⟩))

theorem reached_attended {r : Running L} (h : (system L).Reached r) : r.session.Attended := by
  refine h.invariant (I := fun r => r.session.Attended) ?_ ?_
  · rintro _ ⟨hasCertCache, rfl⟩
    exact Io.Armed.attended ((resetTimer_armed _).start _)
  · intro r a r' hr _ hstep
    cases moves_of_step hstep with
    | complete ht => exact complete_attended hr ht
    | handled _ _ ht =>
      obtain ⟨op, o, io, hio, hhandle⟩ := dispatch_spec ht
      exact handle_attended hr hio hhandle
    | threw => exact hr
    | decide => exact decided_attended _ _ _
    | close => exact close_attended _

end Session

namespace MitmSession

variable {L : Llhttp} {s t u : MitmSession L} {op : Op}

/-- Why a TLS session that is not closed does not wait for ever. Its timer also runs while an answer is
being written. -/
def Attended (s : MitmSession L) : Prop := s.isClosed = false → s.io.Armed ∨ s.io.Held s.asked

/-- Whatever a session waits for, it waits for it from `s` to `t` if `t` is not closed. -/
structure Stays (s t : MitmSession L) : Prop where
  client : t.isClosed = false → s.isClosed = false
  armed : t.isClosed = false → s.io.Armed → t.io.Armed
  asked : s.asked ≠ [] → t.asked ≠ []
  decisions : ∀ a, t.io.count (.decision a) = s.io.count (.decision a)

theorem Attended.stays (h : s.Attended) (hst : Stays s t) : t.Attended := by
  intro hopen
  rcases h (hst.client hopen) with harmed | (hasked | ⟨a, ha⟩)
  · exact .inl (hst.armed hopen harmed)
  · exact .inr (.inl (hst.asked hasked))
  · exact .inr (.inr ⟨a, by rwa [hst.decisions]⟩)

theorem Attended.gone (h : s.isClosed = true) : s.Attended := fun hopen => by
  rw [h] at hopen
  cases hopen

theorem close_attended (s : MitmSession L) : s.close.Attended := .gone (close_closed s)

theorem Io.Armed.attended (h : s.io.Armed) : s.Attended := fun _ => .inl h

theorem resetTimer_armed (s : MitmSession L) : s.resetTimer.io.Armed :=
  .inl (List.mem_append_right _ (.head _))

namespace Stays

theorem trans (h : Stays s t) (h' : Stays t u) : Stays s u where
  client hopen := h.client (h'.client hopen)
  armed hopen harmed := h'.armed hopen (h.armed (h'.client hopen) harmed)
  asked hasked := h'.asked (h.asked hasked)
  decisions a := (h'.decisions a).trans (h.decisions a)

theorem same (hopen : t.isClosed = s.isClosed) (hio : t.io = s.io) (hasked : t.asked = s.asked) :
    Stays s t where
  client h := hopen ▸ h
  armed _ h := hio ▸ h
  asked h := hasked ▸ h
  decisions _ := by rw [hio]

theorem emit (s : MitmSession L) (e : Effect) : Stays s (s.emit e) := same rfl rfl rfl

theorem start (s : MitmSession L) {p : Op} (hdecision : ∀ a, p.kind ≠ .decision a) : Stays s (s.start p) where
  client := id
  armed _ h := h.start p
  asked := id
  decisions a := by
    rw [MitmSession.start, Io.count_start]
    simp [Op.weight, hdecision a]

end Stays

namespace Attended

theorem start (h : s.Attended) {p : Op} (hdecision : ∀ a, p.kind ≠ .decision a) : (s.start p).Attended :=
  h.stays (.start s hdecision)

theorem queue (s : MitmSession L) (origin : Origin) (data : Bytes) (h : s.Attended) :
    ({ s with clientWriteQueue := s.clientWriteQueue ++ [data] }.emit (.queued origin data)).Attended :=
  h.stays (.same rfl rfl rfl)

theorem answers : AllowsAnswer fun s t : MitmSession L => s.Attended → t.Attended where
  toChain := .keeps _
  send s _ h := (h.stays (.emit s _)).start (by simp [Op.kind])
  respond _ _ h := h.stays (.same rfl rfl rfl)
  queue s data := queue s _ data
  raw s _ h := (h.stays (.emit s _)).start (by simp [Op.kind])

theorem readClient (s : MitmSession L) (h : s.Attended) : s.readClient.Attended :=
  startOpen_of (.keeps Attended) (fun h => h.start (by simp [Op.kind])) h

theorem readUpstream (s : MitmSession L) (h : s.Attended) : s.readUpstream.Attended :=
  startOpen_of (.keeps Attended) (fun h => h.start (by simp [Op.kind])) h

theorem sets : AllowsSetup fun s t : MitmSession L => s.Attended → t.Attended where
  toChain := .keeps _
  connect _ h := h.start (by simp [Op.kind])
  established s h := (h.stays (.emit s _)).start (by simp [Op.kind])
  handshakes _ h := (h.start (by simp [Op.kind])).start (by simp [Op.kind])
  clientDone _ h := h.stays (.same rfl rfl rfl)
  upstreamDone _ h := h.stays (.same rfl rfl rfl)
  readClient := readClient

theorem forwards : AllowsForward fun s t : MitmSession L => s.Attended → t.Attended where
  toChain := .keeps _
  push _ _ _ h := h.stays (.same rfl rfl rfl)
  send s _ _ h := (h.stays ((Stays.emit s _).trans (.emit _ _))).start (by simp [Op.kind])

theorem finishes : AllowsFinish fun s t : MitmSession L => s.Attended → t.Attended where
  toChain := .keeps _
  respond _ _ h := h.stays (.same rfl rfl rfl)
  parser _ _ _ h := h.stays (.same rfl rfl rfl)
  renew _ h := h.stays (.same rfl rfl rfl)
  flag _ h := h.stays (.same rfl rfl rfl)
  readClient := readClient
  readUpstream := readUpstream

end Attended

theorem handleTimeout_attended (s : MitmSession L) {o : Outcome} (ho : o ≠ .aborted) :
    (s.handleTimeout o).Attended := by
  unfold MitmSession.handleTimeout
  rw [if_neg ho]
  exact close_attended s

/-- The client of a decision is watched again. -/
theorem handleDecision_attended (s : MitmSession L) (env : Env) (action : InterceptAction) :
    (s.handleDecision env action).Attended := by
  unfold MitmSession.handleDecision
  split
  · rename_i hclosed
    exact .gone hclosed
  · have hreset := Io.Armed.attended (resetTimer_armed s)
    cases action with
    | forward => exact Attended.forwards.writeUpstream _ _ _ hreset
    | drop => exact Attended.answers.sendErrorResponse _ _ _ hreset

theorem handleUpstreamRead_attended (h : s.Attended) (env : Env) (o : Outcome) :
    (s.handleUpstreamRead env o).Attended := by
  refine Attended.finishes.handleUpstreamRead (fun s _ => close_attended s) (fun _ data _ => ?_) env o h
  have hreceived : (s.resetTimer.emit (.received data)).Attended :=
    (Io.Armed.attended (resetTimer_armed s)).stays (.emit _ _)
  exact Attended.answers.writeClient (fun _ => Attended.queue _ .relayed data) hreceived

theorem handleRequest_attended (env : Env) (req : HttpRequest) (h : s.Attended) :
    (s.handleRequest env req).Attended :=
  handleRequest_of (.keeps Attended) (fun h => h.stays (.same rfl rfl rfl)) (fun s h => h.stays (.emit s _))
    (fun _ _ _ _ => .inr (.inl (by simp [MitmSession.intercept]))) Attended.forwards.writeUpstream h

theorem handleClientRead_attended (h : s.Attended) (env : Env) (o : Outcome) :
    (s.handleClientRead env o).Attended :=
  handleClientRead_any (.keeps Attended)
    (fun _ _ _ => (Io.Armed.attended (resetTimer_armed s)).stays (.emit _ _))
    (fun _ _ _ h => h.stays (.same rfl rfl rfl)) Attended.readClient (fun s _ => close_attended s)
    (fun _ req h => handleRequest_attended env req h) o h

theorem handle_attended {k : ℕ} {o : Outcome} {io : Io} (h : s.Attended)
    (hio : s.io.take k = some ((op, o), io)) (env : Env) :
    (handle env { s with io := io } op o).Attended := by
  have htaken (htimer : op = .timer → o = .aborted) (hdecision : ∀ a, op ≠ .decision a) :
      Attended { s with io := io } := by
    intro hopen
    rcases h hopen with harmed | hheld
    · rcases harmed.take hio with harmed | ⟨hop, ho⟩
      · exact .inl harmed
      · exact absurd (htimer hop) ho
    · rcases hheld.take hio with hheld | ⟨a, hop⟩
      · exact .inr hheld
      · exact absurd hop (hdecision a)
  cases op with
  | timer =>
    by_cases ho : o = .aborted
    · subst ho
      exact htaken (fun _ => rfl) (by simp)
    · exact handleTimeout_attended _ ho
  | decision action => exact handleDecision_attended _ env action
  | clientRead => exact handleClientRead_attended (htaken (by simp) (by simp)) env o
  | upstreamRead => exact handleUpstreamRead_attended (htaken (by simp) (by simp)) env o
  | resolve =>
    exact Attended.sets.handleResolve (Attended.answers.sendErrorResponse _ _ _) o (htaken (by simp) (by simp))
  | connect =>
    exact Attended.sets.handleConnected (Attended.answers.sendErrorResponse _ _ _) o (htaken (by simp) (by simp))
  | established =>
    exact Attended.sets.handleEstablished (fun _ => close_attended _) env o (htaken (by simp) (by simp))
  | clientHandshake =>
    exact Attended.sets.handleClientHandshake (fun _ _ => close_attended _) (htaken (by simp) (by simp))
  | upstreamHandshake =>
    exact Attended.sets.handleUpstreamHandshake (fun _ _ => close_attended _) (htaken (by simp) (by simp))
  | clientWrite data =>
    exact Attended.answers.handleClientWrite (fun s _ => close_attended s) (fun h => h.stays (.same rfl rfl rfl)) o
      (htaken (by simp) (by simp))
  | upstreamWrite data =>
    exact Attended.forwards.handleUpstreamWrite (fun _ _ => close_attended _) (fun h => h.stays (.same rfl rfl rfl))
      Attended.readUpstream (htaken (by simp) (by simp))
  | rawWrite data => exact close_attended _
  | serverWrite data => exact htaken (by simp) (by simp)

theorem complete_attended (h : s.Attended) {k : ℕ} {o : Outcome} (hok : s.complete k o = some t) :
    t.Attended := by
  obtain ⟨op, io, hio, hcan, rfl⟩ := complete_spec hok
  intro hopen
  rcases h hopen with harmed | (hasked | ⟨a, ha⟩)
  · exact .inl (harmed.complete hio (Bool.and_eq_true_iff.mp hcan).1)
  · exact .inr (.inl hasked)
  · exact .inr (.inr ⟨a, by rwa [Io.count_complete hio]⟩)

theorem decided_attended (s : MitmSession L) (ref : Ref) (action : InterceptAction) :
    (s.decided ref action).Attended :=
  fun _ => .inr (.inr ⟨action, by simp [MitmSession.decided, Op.weight, Op.kind]⟩)

theorem reached_attended (h : (system L).Reached s) : s.Attended := by
  refine h.invariant (I := Attended) ?_ ?_
  · rintro _ ⟨targetHost, targetPort, rfl⟩
    exact Io.Armed.attended ((resetTimer_armed _).start _)
  · intro s a t hs _ hstep
    cases moves_of_step hstep with
    | complete ht => exact complete_attended hs ht
    | handled _ ht =>
      obtain ⟨op, o, io, hio, rfl⟩ := dispatch_spec ht
      exact handle_attended hs hio _
    | decide => exact decided_attended _ _ _
    | close => exact close_attended _

end MitmSession

/-- No connection waits without end: while the client of a session is there, its timer runs or has just
expired, the user has a request of it in hand, or its last answer is being written, behind which it
closes. A TLS session has its timer to the end. -/
theorem no_connection_forgotten {L : Llhttp} :
    (∀ r, (Session.system L).Reached r → r.session.clientOpen = true →
      r.session.io.Armed ∨ r.session.io.Held r.session.asked ∨
        r.session.closeAfterWrite = true ∧ r.session.io.writes .client = 1) ∧
    ∀ s, (MitmSession.system L).Reached s → s.isClosed = false → s.io.Armed ∨ s.io.Held s.asked := by
  refine ⟨fun r hr hopen => ?_, fun s hs => MitmSession.reached_attended hs⟩
  have hwrites := (Session.reached_oneAtATime hr).client hopen
  rcases Session.reached_attended hr hopen with harmed | hheld | ⟨hflag, hqueue⟩
  · exact .inl harmed
  · exact .inr (.inl hheld)
  · exact .inr (.inr ⟨hflag, hwrites.mpr hqueue⟩)

section Examples

open Session (started env1 sentRun)

/-- The timer runs out, and the 504 is being written. -/
def expiredRun : List Session.Label := sentRun ++ [.complete 0 .ok, .dispatch 1 env1]

theorem no_connection_forgotten_expiredRun :
    (∃ r, (Session.system (answering [])).run { session := started false } expiredRun = some r ∧
      r.session.clientOpen = true ∧ (r.session.io.Armed ∨ r.session.io.Held r.session.asked ∨
        r.session.closeAfterWrite = true ∧ r.session.io.writes .client = 1)) ∧
    ∃ s, (MitmSession.system (answering [])).run (MitmSession.started [] 443) [.complete 1 .ok] = some s ∧
      s.isClosed = false ∧ (s.io.Armed ∨ s.io.Held s.asked) := by
  have hrun : ((Session.system (answering [])).run { session := started false } expiredRun).any
      (fun r => r.session.clientOpen) = true := by decide
  have htls : ((MitmSession.system (answering [])).run (MitmSession.started [] 443) [.complete 1 .ok]).any
      (fun s => !s.isClosed) = true := by decide
  obtain ⟨r, hr, hopen⟩ := (Option.any_eq_true _ _).mp hrun
  obtain ⟨s, hs, hclosed⟩ := (Option.any_eq_true _ _).mp htls
  have hclosed : s.isClosed = false := by simpa using hclosed
  exact ⟨⟨r, hr, hopen, no_connection_forgotten.1 r (.run (.init ⟨false, rfl⟩) hr) hopen⟩,
    ⟨s, hs, hclosed, no_connection_forgotten.2 s (.run (.init ⟨[], 443, rfl⟩) hs) hclosed⟩⟩

end Examples

end BurpTUI
