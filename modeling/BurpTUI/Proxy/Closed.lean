import BurpTUI.Base.Grows
import BurpTUI.Proxy.ServerData
import BurpTUI.Proxy.Aside
import BurpTUI.Proxy.MitmFlow
import BurpTUI.Proxy.OneAnswer

namespace BurpTUI

/-- What a closed session may not do. -/
def Effect.visible : Effect → Bool
  | .took .. => true
  | .tested .. => true
  | .intercepted _ => true
  | .handed .. => true
  | .pushed _ => true
  | .sent .upstream _ => true
  | .reported .. => true
  | .spawned .. => true
  | _ => false

theorem Op.completion_invisible (op : Op) (o : Outcome) :
    ∀ e ∈ op.completion o, e.visible = false := by
  intro e he
  rcases Op.mem_completion he with ⟨data, -, -, rfl⟩ | ⟨-, -, rfl⟩ | ⟨-, -, rfl⟩ <;> rfl

/-- What a closed session may not start: a timer, a resolution, a connect or a write to the upstream. -/
def Op.visible : Op → Bool
  | .timer => true
  | .resolve => true
  | .connect => true
  | .upstreamHandshake => true
  | .upstreamWrite _ => true
  | .serverWrite _ => true
  | _ => false

theorem Op.beq_visible {op op' : Op} (h : op.visible = false) (h' : op'.visible = true) :
    (op == op') = false := by
  refine beq_false_of_ne ?_
  rintro rfl
  rw [h] at h'
  cases h'

/-- No such operation is outstanding in `y` that is not in `x`. Each is counted by itself. -/
def StartsNothing (x y : Io) : Prop :=
  ∀ op, op.visible = true → y.outstanding (· == op) ≤ x.outstanding (· == op)

namespace StartsNothing

variable {x y z : Io}

theorem refl (x : Io) : StartsNothing x x := fun _ _ => Nat.le_refl _

theorem trans (h : StartsNothing x y) (h' : StartsNothing y z) : StartsNothing x z :=
  fun op hop => (h' op hop).trans (h op hop)

theorem start (x : Io) {op : Op} (h : op.visible = false) : StartsNothing x (x.start op) := by
  intro op' hop'
  rw [Executor.outstanding_start, Op.beq_visible h hop']
  exact Nat.le_refl _

theorem post (x : Io) (action : InterceptAction) (o : Outcome) :
    StartsNothing x (x.post (.decision action) o) := by
  intro op' hop'
  rw [Executor.outstanding_post, Op.beq_visible rfl hop']
  exact Nat.le_refl _

theorem cancel (x : Io) (p : Op → Bool) (o : Outcome) : StartsNothing x (x.cancel p o) :=
  fun _ _ => (Executor.outstanding_cancel x p o _).le

theorem complete {k : ℕ} {o : Outcome} {op : Op} (h : x.complete k o = some (op, y)) : StartsNothing x y :=
  fun _ _ => (Executor.outstanding_complete h _).le

theorem take {k : ℕ} {e : Op × Outcome} (h : x.take k = some (e, y)) : StartsNothing x y := by
  intro op _
  rw [Executor.outstanding_take h]
  exact Nat.le_add_right _ _

/-- A handler that is not one of these may stay. -/
theorem put {k : ℕ} {op : Op} {o : Outcome} (h : x.take k = some ((op, o), y)) (hop : op.visible = false) :
    StartsNothing y x := by
  intro op' hop'
  rw [Executor.outstanding_take h, Op.beq_visible hop hop']
  exact Nat.le_refl _

end StartsNothing

/-- What is outstanding besides the handler that a step runs. -/
def Session.Label.others (io : Io) : Session.Label → Io
  | .dispatch k _ => ((io.take k).map Prod.snd).getD io
  | _ => io

/-- The intercept queue as far as it holds requests of one session. A callback is called after its
request was taken from the queue. -/
def trackHeld (m : InterceptManager Ref) : Effect → InterceptManager Ref
  | .intercepted item => m.interceptRequest item
  | .removed id => m.removeById id
  | .decided ref _ => { m with queue := m.queue.filter fun item => item.onDecision ≠ ref }
  | _ => m

def heldRequests (log : List Effect) : List (InterceptedRequest Ref) := (log.foldl trackHeld {}).queue

/-- Nothing comes into the queue. -/
def Effect.holdsNone : Effect → Prop
  | .intercepted _ => False
  | _ => True

theorem heldRequests_snoc (log : List Effect) (e : Effect) :
    heldRequests (log ++ [e]) = (trackHeld (log.foldl trackHeld {}) e).queue := by
  rw [heldRequests, List.foldl_append]
  rfl

theorem heldRequests_subset {log log' : List Effect} (h : Grows Effect.holdsNone log log') :
    heldRequests log' ⊆ heldRequests log := by
  obtain ⟨es, rfl, hes⟩ := h
  unfold heldRequests
  rw [List.foldl_append]
  generalize log.foldl trackHeld {} = m
  induction es generalizing m with
  | nil => exact List.Subset.refl _
  | cons e es ih =>
    rw [List.foldl_cons]
    have hrest := ih (fun e' he' => hes e' (List.mem_cons_of_mem _ he')) (trackHeld m e)
    refine List.Subset.trans hrest ?_
    have he := hes e (by simp)
    cases e with
    | intercepted item => exact he.elim
    | removed id => exact List.filter_subset_self _
    | decided ref action => exact List.filter_subset_self _
    | _ => exact List.Subset.refl _

theorem heldRequests_nil {log log' : List Effect} (h : Grows Effect.holdsNone log log')
    (hnone : heldRequests log = []) : heldRequests log' = [] := by
  have hsub := heldRequests_subset h
  rw [hnone] at hsub
  exact List.subset_nil.mp hsub

theorem holdsNone_of_subject {log log' : List Effect}
    (h : ∃ es, log' = log ++ es ∧ ∀ e ∈ es, e.subject = none) : Grows Effect.holdsNone log log' := by
  obtain ⟨es, hlog, hes⟩ := h
  refine ⟨es, hlog, fun e he => ?_⟩
  cases e with
  | intercepted item => exact absurd (hes _ he) (by simp [Effect.subject])
  | _ => trivial

theorem holdsNone_of_aside {log log' : List Effect} (h : LogAside log log') :
    Grows Effect.holdsNone log log' := by
  obtain ⟨es, hlog, hes⟩ := h
  refine ⟨es, hlog, fun e he => ?_⟩
  cases e with
  | intercepted item => exact absurd (hes _ he) (by simp [Effect.aside])
  | _ => trivial

namespace Session

open BurpTUI.Flow (Idle Cleared Sound SoundAfter)

variable {L : Llhttp} {b : Flow} {new ref : Ref} {s t u : Session L} {op : Op}

/-- Both sockets are closed, as `close` leaves them. -/
def Closed (s : Session L) : Prop := s.clientOpen = false ∧ s.serverOpen = false

instance (s : Session L) : Decidable s.Closed := inferInstanceAs (Decidable (_ ∧ _))

/-- From `s` to `t` nothing visible is done: no socket is opened, no timer and no way to the
upstream is started. -/
structure Rests (s t : Session L) : Prop where
  log : Grows (fun e => e.visible = false) s.log t.log
  client : t.clientOpen = true → s.clientOpen = true
  server : t.serverOpen = true → s.serverOpen = true
  io : StartsNothing s.io t.io

namespace Rests

theorem refl (s : Session L) : Rests s s := ⟨.refl _, id, id, .refl _⟩

theorem trans (h : Rests s t) (h' : Rests t u) : Rests s u where
  log := h.log.trans h'.log
  client hu := h.client (h'.client hu)
  server hu := h.server (h'.server hu)
  io := h.io.trans h'.io

theorem closed (h : Rests s t) (hs : s.Closed) : t.Closed := by
  obtain ⟨hclient, hserver⟩ := hs
  refine ⟨Bool.eq_false_iff.mpr fun ht => ?_, Bool.eq_false_iff.mpr fun ht => ?_⟩
  · rw [h.client ht] at hclient
    cases hclient
  · rw [h.server ht] at hserver
    cases hserver

theorem emit (s : Session L) {e : Effect} (he : e.visible = false) : Rests s (s.emit e) :=
  ⟨.snoc _ he, id, id, .refl _⟩

theorem cancel (s : Session L) (p : Op → Bool) : Rests s (s.cancel p) :=
  ⟨.refl _, id, id, .cancel _ _ _⟩

theorem start (s : Session L) {op : Op} (hop : op.visible = false) : Rests s (s.start op) :=
  ⟨.refl _, id, id, .start _ hop⟩

theorem fields (hlog : t.log = s.log) (hio : t.io = s.io)
    (hsockets : (t.clientOpen, t.serverOpen) = (s.clientOpen, s.serverOpen)) : Rests s t := by
  obtain ⟨hclient, hserver⟩ := Prod.mk.inj hsockets
  exact ⟨hlog ▸ .refl _, fun h => hclient ▸ h, fun h => hserver ▸ h, hio ▸ .refl _⟩

theorem closes : AllowsClose (Rests (L := L)) where
  refl := refl
  trans := trans
  cancel := cancel
  removed s _ := emit s rfl
  clientGone _ := ⟨.refl _, (fun h => by cases h), id, .refl _⟩
  closed s := emit s rfl
  serverGone _ := ⟨.refl _, id, (fun h => by cases h), .refl _⟩

theorem sends : AllowsSend (Rests (L := L)) where
  refl := refl
  trans := trans
  send s _ := (emit s rfl).trans (start _ rfl)

theorem writeClient (s : Session L) (origin : Origin) (data : Bytes) :
    Rests s (s.writeClient origin data) := sends.writeClient ⟨.snoc _ rfl, id, id, .refl _⟩

theorem handleClientWrite (s : Session L) (o : Outcome) : Rests s (s.handleClientWrite o) :=
  sends.handleClientWrite closes.close (fields rfl rfl rfl) o

end Rests

/-- The handlers that act without looking whether the session is closed. -/
def acts (s : Session L) : Op → Outcome → Bool
  | .timer, o => o != .aborted && s.currentTransaction.request.isSome &&
      s.currentTransaction.response.isNone && !s.isConnect
  | .resolve, _ => true
  | .connect, o => o != .ok || !s.isConnect
  | .clientRead, .bytes _ => true
  | .upstreamRead, .bytes _ => true
  | .upstreamWrite _, o => o != .ok
  | .serverWrite _, o => o == .ok && !s.writeServerQueue.tail.isEmpty
  | _, _ => false

/-- In a closed session all other handlers rest. -/
theorem handle_rests {env : Env} {o : Outcome} (hclosed : s.Closed) (hacts : s.acts op o = false)
    (hdata : op = .upstreamRead → s.serverData = []) (hok : s.handle env op o = .ok t) :
    Rests s t := by
  obtain ⟨hclient, -⟩ := hclosed
  cases op with
  | timer =>
    cases hok
    unfold handleTimeout
    split
    · exact Rests.refl s
    · rename_i ho
      split
      · rename_i hwaits
        obtain ⟨hrequest, hresponse, hc⟩ := hwaits
        simp [acts, ho, hrequest, hresponse, hc] at hacts
      · exact Rests.closes.close s
  | resolve => cases hacts
  | connect =>
    cases hok
    simp only [acts, Bool.or_eq_false_iff, bne_eq_false_iff_eq, Bool.not_eq_false'] at hacts
    obtain ⟨ho, hc⟩ := hacts
    unfold handleConnected
    rw [if_neg (by simp [ho]), if_pos hc]
    -- a tunnel that connects late only starts operations, which fail
    have hread : Rests s (s.writeClient .generated established).readClient :=
      (Rests.writeClient s _ _).trans (Rests.start _ rfl)
    exact hread.trans (Rests.start _ rfl)
  | clientRead =>
    cases o with
    | bytes data => cases hacts
    | _ => cases hok; exact Rests.closes.close s
  | clientWrite data => cases hok; exact Rests.handleClientWrite s o
  | upstreamRead =>
    cases o with
    | bytes data => cases hacts
    | eof =>
      cases hok
      have hnone : s.serverData = [] := hdata rfl
      unfold handleUpstreamRead
      dsimp only
      rw [if_neg (by simp [hnone])]
      exact Rests.closes.close s
    | _ => cases hok; exact Rests.closes.close s
  | upstreamWrite data =>
    cases hok
    have ho : o = .ok := by simpa [acts] using hacts
    have hsent : Rests s { s with serverData := [] } := .fields rfl rfl rfl
    unfold handleUpstreamWrite
    rw [if_neg (by simp [ho])]
    exact hsent.trans (Rests.start _ rfl)
  | serverWrite data =>
    cases hok
    unfold handleServerWrite
    split
    · rename_i ho
      have hempty : s.writeServerQueue.tail = [] := by simpa [acts, ho] using hacts
      dsimp only
      rw [if_neg (by simp [hempty])]
      exact .fields rfl rfl rfl
    · split
      · exact Rests.refl s
      · exact Rests.closes.close s
  | decision action =>
    cases hok
    unfold handleDecision
    -- the callback finds the socket of the client closed
    rw [if_neg (by simp [hclient])]
    exact Rests.refl s
  | rawWrite data => cases hok; exact Rests.refl s
  | established => cases hok; exact Rests.refl s
  | clientHandshake => cases hok; exact Rests.refl s
  | upstreamHandshake => cases hok; exact Rests.refl s

/-- What the intercept queue holds is the current request of an open session, which waits for its
callback. -/
def Held (s : Session L) : Prop :=
  ∀ item ∈ heldRequests s.log, item.onDecision ∈ s.asked ∧ item.id = s.currentTransaction.id ∧
    item.id ≠ 0 ∧ ¬ s.Closed

theorem Held.of_empty (h : heldRequests s.log = []) : Held s := by
  intro item hitem
  rw [h] at hitem
  cases hitem

theorem Held.closed (h : Held s) (hclosed : s.Closed) : heldRequests s.log = [] := by
  apply List.eq_nil_iff_forall_not_mem.mpr
  intro item hitem
  exact (h item hitem).2.2.2 hclosed

theorem Held.unasked (h : Held s) (hasked : s.asked = []) : heldRequests s.log = [] := by
  apply List.eq_nil_iff_forall_not_mem.mpr
  intro item hitem
  have hmem := (h item hitem).1
  rw [hasked] at hmem
  cases hmem

/-- The exchange goes on as it was. -/
theorem Held.keep (h : Held s) (hlog : Grows Effect.holdsNone s.log t.log) (hasked : t.asked = s.asked)
    (hid : t.currentTransaction.id = s.currentTransaction.id)
    (hsockets : (t.clientOpen, t.serverOpen) = (s.clientOpen, s.serverOpen)) : Held t := by
  obtain ⟨hclient, hserver⟩ := Prod.mk.inj hsockets
  intro item hitem
  have hold := h item (heldRequests_subset hlog hitem)
  rwa [hasked, hid, Closed, hclient, hserver]

/-- A closed session has taken its request out of the queue. -/
theorem Held.close (h : Held s) : heldRequests s.close.log = [] := by
  have haside := (Aside.closes.closeClient s.cancelTimer.removeFromQueue).trans (Aside.closes.closeServer _)
  have hremoved : heldRequests s.cancelTimer.removeFromQueue.log = [] := by
    unfold Session.removeFromQueue
    split
    · show heldRequests (s.log ++ [.removed s.currentTransaction.id]) = []
      rw [heldRequests_snoc]
      apply List.filter_eq_nil_iff.mpr
      intro item hitem
      simp [(h item hitem).2.1]
    · rename_i hzero
      have hzero : s.currentTransaction.id = 0 := not_not.mp hzero
      apply List.eq_nil_iff_forall_not_mem.mpr
      intro item hitem
      obtain ⟨-, hid, hne, -⟩ := h item hitem
      exact hne (hid.trans hzero)
  exact heldRequests_nil (holdsNone_of_aside haside.log) hremoved

/-- No request of the session is in the queue, and none comes in. -/
def Unheld (s t : Session L) : Prop := heldRequests s.log = [] → heldRequests t.log = []

namespace Unheld

theorem of_log (h : Grows Effect.holdsNone s.log t.log) : Unheld s t := heldRequests_nil h

theorem trans (h : Unheld s t) (h' : Unheld t u) : Unheld s u := fun hs => h' (h hs)

theorem same (h : t.log = s.log) : Unheld s t := of_log (h ▸ .refl _)

theorem quietly (h : Quietly s t) : Unheld s t := of_log (holdsNone_of_subject h.log)

theorem emit (s : Session L) {e : Effect} (he : e.holdsNone) : Unheld s (s.emit e) := of_log (.snoc _ he)

end Unheld

namespace Held

theorem cancel (h : Held s) (p : Op → Bool) : Held (s.cancel p) := h.keep (.refl _) rfl rfl rfl

theorem answers : AllowsAnswer fun s t : Session L => Held s → Held t where
  toChain := .keeps _
  send _ _ h := h.keep (.snoc _ trivial) rfl rfl rfl
  sendServer _ _ h := h.keep (.snoc _ trivial) rfl rfl rfl
  respond _ _ h := h.keep (.snoc _ trivial) rfl rfl rfl
  queue _ _ h := h.keep (.snoc _ trivial) rfl rfl rfl

theorem closing (s : Session L) (h : Held s) : Held s.close := .of_empty h.close

theorem handleTimeout (h : Held s) (o : Outcome) : Held (s.handleTimeout o) :=
  handleTimeout_of (.keeps Held) (fun _ p _ h => h.cancel p) (fun s => answers.sendErrorResponse s _ _)
    (closing s) o h

theorem handleClientWrite (h : Held s) (o : Outcome) : Held (s.handleClientWrite o) :=
  answers.handleClientWrite closing (fun h => h.keep (.refl _) rfl rfl rfl) o h

theorem handleServerWrite (h : Held s) (o : Outcome) : Held (s.handleServerWrite o) :=
  answers.handleServerWrite (fun _ _ => closing s) (fun h => h.keep (.refl _) rfl rfl rfl) h

end Held

/-! The handlers that find no request in the queue. -/

namespace Unheld

theorem refl (s : Session L) : Unheld s s := id

theorem close (s : Session L) : Unheld s s.close := quietly (Quietly.closes.close s)

theorem closeServer (s : Session L) : Unheld s s.closeServer := quietly (Quietly.closes.closeServer s)

theorem dials : AllowsDial (Unheld (L := L)) where
  refl := refl
  trans := trans
  error s _ _ _ := quietly (Quietly.answers.sendErrorResponse s _ _)
  serverOpen _ := same rfl
  store _ _ := same rfl
  handed s _ _ := emit s trivial
  start _ _ _ := same rfl

theorem finishes : AllowsFinish (Unheld (L := L)) where
  refl := refl
  trans := trans
  respond s _ := quietly (Quietly.respond s _ _)
  parser _ _ := same rfl
  renew _ := same rfl
  flag _ := same rfl
  readClient _ := same rfl
  readUpstream _ := same rfl

theorem takes : AllowsTake (Unheld (L := L)) where
  refl := refl
  trans := trans
  target _ _ _ _ := same rfl
  route _ _ _ := same rfl
  tested s _ _ := emit s trivial
  connected s _ := quietly (Quietly.respond s _ _)
  spawn _ _ _ := of_log (.snoc _ trivial)
  tunnel _ := same rfl
  resolve _ := same rfl

theorem handleConnected (s : Session L) (env : Env) (o : Outcome) : Unheld s (s.handleConnected env o) :=
  dials.handleConnected (quietly (Quietly.writeClient s _ _)) finishes.readClient env o

theorem handleDecision (s : Session L) (action : InterceptAction) : Unheld s (s.handleDecision action) :=
  dials.handleDecision (quietly (Quietly.resetTimer s)) (closeServer _) action

theorem handleUpstreamRead (s : Session L) (env : Env) (o : Outcome) :
    Unheld s (s.handleUpstreamRead env o) :=
  finishes.handleUpstreamRead close (fun _ => quietly
    (((Quietly.resetTimer s).trans (Quietly.emit _ rfl)).trans (Quietly.writeClient _ _ _))) env o

end Unheld

/-- A request that is intercepted is the current one of an open session. -/
theorem handleUpstreamRoute_held (hnone : heldRequests s.log = []) (hopen : ¬ s.Closed) {env : Env}
    (hid : s.currentTransaction.id = env.nextId) (hne : env.nextId ≠ 0) (host port : Bytes) (n : ℤ) :
    Held (s.handleUpstreamRoute env host port n) := by
  have htested : heldRequests (s.log ++ [.tested env.newRef env.interceptEnabled]) = [] := by
    rw [heldRequests_snoc]
    exact hnone
  unfold Session.handleUpstreamRoute
  dsimp only
  split
  · intro item hitem
    have hitem : item ∈ heldRequests ((s.log ++ [.tested env.newRef env.interceptEnabled]) ++
        [.intercepted { id := s.currentTransaction.id, isHttps := false, host := host
                        port := UInt16.ofInt n, request := some env.newRef
                        onDecision := env.newRef }]) := hitem
    rw [heldRequests_snoc, trackHeld, InterceptManager.interceptRequest_queue] at hitem
    rcases List.mem_append.mp hitem with hitem | hitem
    · rw [← heldRequests, htested] at hitem
      cases hitem
    · rw [List.mem_singleton.mp hitem]
      exact ⟨List.mem_append_right _ (List.mem_singleton.mpr rfl), rfl, hid ▸ hne, hopen⟩
  · exact .of_empty (Unheld.dials.forwardRequest (Unheld.closeServer _) htested)

theorem handleRequest_held (hnone : heldRequests s.log = []) (hopen : ¬ s.Closed) {env : Env}
    (hne : env.nextId ≠ 0) {req : HttpRequest} (hok : s.handleRequest env req = .ok t) : Held t := by
  have htook : heldRequests (({ s with currentTransaction := { s.currentTransaction with
      id := env.nextId, request := some env.newRef } } : Session L).emit (.took env.newRef req)).log = [] :=
    Unheld.emit (s := { s with currentTransaction := { s.currentTransaction with
      id := env.nextId, request := some env.newRef } }) trivial hnone
  unfold Session.handleRequest at hok
  dsimp only at hok
  split at hok
  · obtain ⟨target, -, rfl⟩ := ok_of_map hok
    exact .of_empty (Unheld.takes.handleConnect _ target htook)
  · obtain ⟨route, -, rfl⟩ := ok_of_map hok
    cases route with
    | badRequest => exact .of_empty (Unheld.quietly (Quietly.answers.sendErrorResponse _ _ _) htook)
    | caCert => exact .of_empty (Unheld.quietly (Quietly.answers.serveCaCert _ env) htook)
    | helpPage => exact .of_empty (Unheld.quietly (Quietly.answers.serveBurpHelpPage _ env) htook)
    | upstream host port n => exact handleUpstreamRoute_held htook hopen rfl hne host port n

theorem handleClientRead_held (h : Held s) (hnone : heldRequests s.log = []) {env : Env} {o : Outcome}
    (hne : env.nextId ≠ 0) (hopen : (∃ data, o = .bytes data) → ¬ s.Closed)
    (hok : s.handleClientRead env o = .ok t) : Held t := by
  cases o with
  | bytes data =>
    have hread : heldRequests (s.resetTimer.emit (.read data)).log = [] :=
      (Unheld.quietly ((Quietly.resetTimer s).trans (Quietly.emit _ rfl))) hnone
    have hopen : ¬ (s.resetTimer.emit (.read data)).Closed := hopen ⟨data, rfl⟩
    unfold Session.handleClientRead at hok
    dsimp only at hok
    generalize s.resetTimer.emit (.read data) = v at hread hopen hok
    split at hok
    · cases hok
      exact .of_empty ((Unheld.quietly (Quietly.writeServerBlind v data)).trans (Unheld.same rfl) hread)
    · split at hok
      · split at hok
        · rename_i req parser _
          exact handleRequest_held (s := { v with clientData := v.clientData ++ data, parser := parser })
            hread hopen hne hok
        · cases hok
          exact .of_empty hread
      · split at hok
        · cases hok
          exact .of_empty hread
        · cases hok
          refine .of_empty (Unheld.quietly (Quietly.answers.sendErrorResponse _ _ _) ?_)
          exact hread
  | ok => cases hok; exact .of_empty h.close
  | eof => cases hok; exact .of_empty h.close
  | truncated => cases hok; exact .of_empty h.close
  | aborted => cases hok; exact .of_empty h.close
  | failed => cases hok; exact .of_empty h.close

theorem handle_held (h : Held s) {env : Env} (hs : SoundAfter b new op s.flow) {o : Outcome}
    (hne : env.nextId ≠ 0) (hacts : s.Closed → s.acts op o = false) (hok : s.handle env op o = .ok t) :
    Held t := by
  cases op with
  | timer => cases hok; exact h.handleTimeout o
  | clientWrite data => cases hok; exact h.handleClientWrite o
  | serverWrite data => cases hok; exact h.handleServerWrite o
  | clientRead =>
    have hnone := h.unasked (hs.idle (Or.inl rfl)).asked
    refine handleClientRead_held h hnone hne (fun ⟨data, ho⟩ hclosed => ?_) hok
    have hact := hacts hclosed
    simp [acts, ho] at hact
  | resolve =>
    cases hok
    have hasked : s.asked = [] := by
      rcases hs.dialed rfl with ⟨hidle, -⟩ | ⟨r, hcleared⟩
      · exact hidle.asked
      · exact hcleared.asked
    exact .of_empty (Unheld.dials.handleResolve (Unheld.closeServer s) o (h.unasked hasked))
  | connect =>
    cases hok
    have hasked : s.asked = [] := by
      rcases hs.dialed rfl with ⟨hidle, -⟩ | ⟨r, hcleared⟩
      · exact hidle.asked
      · exact hcleared.asked
    exact .of_empty (Unheld.handleConnected s env o (h.unasked hasked))
  | upstreamRead =>
    cases hok
    exact .of_empty (Unheld.handleUpstreamRead s env o (h.unasked (hs.idle (Or.inr (Or.inr rfl))).asked))
  | upstreamWrite data =>
    cases hok
    exact .of_empty (Unheld.dials.handleUpstreamWrite s o (h.unasked (hs.idle (Or.inr (Or.inl rfl))).asked))
  | decision action =>
    cases hok
    exact .of_empty (Unheld.handleDecision s action (h.unasked hs.decided.1.asked))
  | rawWrite data => cases hok; exact h
  | established => cases hok; exact h
  | clientHandshake => cases hok; exact h
  | upstreamHandshake => cases hok; exact h

/-- A handler runs that acts without looking. -/
def actsAt (s : Session L) (k : ℕ) : Bool := s.io.ready[k]?.any fun e => s.acts e.1 e.2

/-- No handler runs in a closed session that acts without looking, and the counter is not 0. -/
def Spared (r : Running L) : Label → Prop
  | .dispatch k env => env.nextId ≠ 0 ∧ (r.session.Closed → r.session.actsAt k = false)
  | _ => True

instance (r : Running L) (a : Label) : Decidable (Spared r a) :=
  match a with
  | .dispatch _ _ => inferInstanceAs (Decidable (_ ∧ (_ → _)))
  | .complete _ _ | .decide _ _ | .close => inferInstanceAs (Decidable True)

theorem taken_acts {k : ℕ} {o : Outcome} {io : Io} (hio : s.io.take k = some ((op, o), io)) :
    s.actsAt k = acts { s with io := io } op o := by
  obtain ⟨he, rfl⟩ := Executor.take_spec hio
  simp only [actsAt, he, Option.any_some]
  cases op <;> rfl

theorem Held.taken (h : Held s) (io : Io) : Held { s with io := io } := h.keep (.refl _) rfl rfl rfl

theorem Rests.taken {k : ℕ} {o : Outcome} {io : Io} (hio : s.io.take k = some ((op, o), io)) :
    Rests s { s with io := io } := ⟨.refl _, id, id, .take hio⟩

theorem Rests.complete {k : ℕ} {o : Outcome} (hok : s.complete k o = some t) : Rests s t := by
  obtain ⟨op, io, hio, -, rfl⟩ := complete_spec hok
  exact ⟨⟨_, rfl, op.completion_invisible o⟩, id, id, .complete hio⟩

theorem reached_held {r : Running L} (h : (system L).ReachedUnder Spared r) : Held r.session := by
  refine h.invariant_of (J := fun r => r.session.flow.Holds) (I := fun r => Held r.session)
    (fun r hr => reached_holds hr.reached) ?_ ?_
  · rintro _ ⟨hasCertCache, rfl⟩
    exact .of_empty rfl
  · intro r a r' hs hr hspared hstep
    cases moves_of_step hstep with
    | complete ht =>
      obtain ⟨op, io, -, -, rfl⟩ := complete_spec ht
      exact hr.keep (holdsNone_of_subject ⟨_, rfl, op.completion_subject _⟩) rfl rfl rfl
    | @handled _ env _ _ _ ht =>
      obtain ⟨hne, hrests⟩ := hspared
      obtain ⟨op, o, io, hio, hhandle⟩ := dispatch_spec ht
      rw [taken_acts hio] at hrests
      exact handle_held (hr.taken io) (taken_sound hs hio env.newRef) hne hrests hhandle
    | threw => exact hr
    | @decide ref action _ =>
      -- the request whose callback is called is not held any more
      intro item hitem
      simp only [Session.decided, heldRequests_snoc, trackHeld] at hitem
      obtain ⟨hitem, hother⟩ := List.mem_filter.mp hitem
      obtain ⟨hasked, hrest⟩ := hr item hitem
      have hother : item.onDecision ≠ ref := by simpa using hother
      exact ⟨(List.mem_erase_of_ne hother).mpr hasked, hrest⟩
    | close => exact .of_empty hr.close

/-- Only the parsing of a request throws. -/
theorem handle_throws {env : Env} {o : Outcome} {e : StdException} (h : s.handle env op o = .error e) :
    op = .clientRead := by
  cases op with
  | clientRead => rfl
  | _ => cases h

/-- In a step of a closed session nothing visible is done, and nothing is started besides what was
outstanding without the handler that runs. -/
theorem step_rests {r r' : Running L} {a : Label} (hclosed : r.session.Closed)
    (hdrained : Drained r.session.io.count r.session) (hspared : Spared r a) (hstep : step r a = some r') :
    Rests r.session r'.session ∧ StartsNothing (a.others r.session.io) r'.session.io := by
  have hboth (hrests : Rests r.session r'.session) (hothers : a.others r.session.io = r.session.io) :
      Rests r.session r'.session ∧ StartsNothing (a.others r.session.io) r'.session.io :=
    ⟨hrests, by rw [hothers]; exact hrests.io⟩
  cases moves_of_step hstep with
  | complete ht => exact hboth (Rests.complete ht) rfl
  | @handled k env _ _ _ ht =>
    obtain ⟨op, o, io, hio, hhandle⟩ := dispatch_spec ht
    have hacts := hspared.2 hclosed
    rw [taken_acts hio] at hacts
    have hempty (hop : op = .upstreamRead) : r.session.serverData = [] :=
      (hdrained.taken hio).empty (Or.inr (Or.inr (Or.inl (by rw [hop]; rfl))))
    have htaken : Closed { r.session with io := io } := hclosed
    have hrests := handle_rests htaken hacts hempty hhandle
    have hothers : (Label.dispatch k env).others r.session.io = io := by simp [Label.others, hio]
    exact ⟨(Rests.taken hio).trans hrests, hothers ▸ hrests.io⟩
  | @threw k env _ _ _ ht =>
    obtain ⟨op, o, io, hio, hhandle⟩ := dispatch_spec ht
    obtain rfl := handle_throws hhandle
    have hothers : (Label.dispatch k env).others r.session.io = io := by simp [Label.others, hio]
    exact ⟨Rests.refl _, hothers ▸ .put hio rfl⟩
  | decide => exact hboth ⟨.snoc _ rfl, id, id, .post _ _ _⟩ rfl
  | close => exact hboth (Rests.closes.close _) rfl

/-- A closed session rests. -/
theorem reached_rests {r r' : Running L} (h : (system L).ReachedUnder Spared r) (hclosed : r.session.Closed)
    (h' : ((system L).after r).ReachedUnder Spared r') : Rests r.session r'.session := by
  refine h'.invariant_of (J := fun r' => Drained r'.session.io.count r'.session)
    (I := fun r' => Rests r.session r'.session) (fun r' hr' => reached_drained (h.after hr').reached) ?_ ?_
  · rintro _ rfl
    exact Rests.refl _
  · intro u a u' hdrained hrests hspared hstep
    exact hrests.trans (step_rests (hrests.closed hclosed) hdrained hspared hstep).1

end Session

namespace MitmSession

open BurpTUI.Flow (Idle Cleared Sound SoundAfter)

variable {L : Llhttp} {b : Flow} {new ref : Ref} {s t u : MitmSession L} {op : Op}

/-- From `s` to `t` nothing visible is done, and no timer and no way to the upstream is started. -/
structure Rests (s t : MitmSession L) : Prop where
  log : Grows (fun e => e.visible = false) s.log t.log
  closed : s.isClosed = true → t.isClosed = true
  io : StartsNothing s.io t.io

theorem Rests.refl (s : MitmSession L) : Rests s s := ⟨.refl _, id, .refl _⟩

theorem Rests.trans (h : Rests s t) (h' : Rests t u) : Rests s u where
  log := h.log.trans h'.log
  closed hs := h'.closed (h.closed hs)
  io := h.io.trans h'.io

/-- What the intercept queue holds is the current request of an open session, which waits for its
callback. -/
def Held (s : MitmSession L) : Prop :=
  ∀ item ∈ heldRequests s.log, item.onDecision ∈ s.asked ∧ item.id = s.currentTransaction.id ∧
    item.id ≠ 0 ∧ s.isClosed = false

theorem readClient_asked (s : MitmSession L) : s.readClient.asked = s.asked := by
  unfold readClient
  split <;> rfl

theorem readUpstream_asked (s : MitmSession L) : s.readUpstream.asked = s.asked := by
  unfold readUpstream
  split <;> rfl

namespace Held

theorem of_empty (h : heldRequests s.log = []) : Held s := by
  intro item hitem
  rw [h] at hitem
  cases hitem

theorem closed (h : Held s) (hclosed : s.isClosed = true) : heldRequests s.log = [] := by
  apply List.eq_nil_iff_forall_not_mem.mpr
  intro item hitem
  have hopen := (h item hitem).2.2.2
  rw [hclosed] at hopen
  cases hopen

theorem unasked (h : Held s) (hasked : s.asked = []) : heldRequests s.log = [] := by
  apply List.eq_nil_iff_forall_not_mem.mpr
  intro item hitem
  have hmem := (h item hitem).1
  rw [hasked] at hmem
  cases hmem

/-- The exchange goes on as it was. -/
theorem keep (h : Held s) (hlog : Grows Effect.holdsNone s.log t.log) (hasked : t.asked = s.asked)
    (hid : t.currentTransaction.id = s.currentTransaction.id) (hclosed : t.isClosed = s.isClosed) :
    Held t := by
  intro item hitem
  have hold := h item (heldRequests_subset hlog hitem)
  rwa [hasked, hid, hclosed]

theorem emit (h : Held s) {e : Effect} (he : e.holdsNone) : Held (s.emit e) :=
  h.keep (.snoc _ he) rfl rfl rfl

theorem start (h : Held s) (op : Op) : Held (s.start op) := h.keep (.refl _) rfl rfl rfl

theorem resetTimer (h : Held s) : Held s.resetTimer := h.keep (.refl _) rfl rfl rfl

/-- A closed session has taken its request out of the queue. -/
theorem close (h : Held s) : Held s.close := by
  unfold MitmSession.close
  split
  · exact h
  · refine of_empty ?_
    have hremoved : heldRequests (removeFromQueue { s with isClosed := true }).log = [] := by
      unfold MitmSession.removeFromQueue
      split
      · show heldRequests (s.log ++ [.removed s.currentTransaction.id]) = []
        rw [heldRequests_snoc]
        apply List.filter_eq_nil_iff.mpr
        intro item hitem
        simp [(h item hitem).2.1]
      · rename_i hzero
        have hzero : s.currentTransaction.id = 0 := not_not.mp hzero
        apply List.eq_nil_iff_forall_not_mem.mpr
        intro item hitem
        obtain ⟨-, hid, hne, -⟩ := h item hitem
        exact hne (hid.trans hzero)
    exact heldRequests_nil (.snoc _ trivial) hremoved

theorem answers : AllowsAnswer fun s t : MitmSession L => Held s → Held t where
  toChain := .keeps _
  send _ _ h := (h.emit (e := .sent .client _) trivial).start _
  respond _ _ h := h.keep (.snoc _ trivial) rfl rfl rfl
  queue _ _ h := h.keep (.snoc _ trivial) rfl rfl rfl
  raw _ _ h := (h.emit (e := .answered _) trivial).start _

theorem readClient (s : MitmSession L) (h : Held s) : Held s.readClient :=
  startOpen_of (.keeps Held) (fun h => h.start _) h

theorem readUpstream (s : MitmSession L) (h : Held s) : Held s.readUpstream :=
  startOpen_of (.keeps Held) (fun h => h.start _) h

theorem sets : AllowsSetup fun s t : MitmSession L => Held s → Held t where
  toChain := .keeps _
  connect _ h := h.start _
  established _ h := (h.emit (e := .answered _) trivial).start _
  handshakes _ h := (h.start _).start _
  clientDone _ h := h.keep (.refl _) rfl rfl rfl
  upstreamDone _ h := h.keep (.refl _) rfl rfl rfl
  readClient := readClient

theorem forwards : AllowsForward fun s t : MitmSession L => Held s → Held t where
  toChain := .keeps _
  push _ _ _ h := h.keep (.snoc _ trivial) rfl rfl rfl
  send _ _ _ h := ((h.emit (e := .handed _ _) trivial).emit (e := .sent .upstream _) trivial).start _

/-- When the transaction is over nothing is asked. -/
theorem finishes : AllowsFinish fun s t : MitmSession L => Held s ∧ s.asked = [] → Held t ∧ t.asked = [] where
  toChain := .keeps _
  respond _ _ h := ⟨h.1.keep (.snoc _ trivial) rfl rfl rfl, h.2⟩
  parser _ _ _ h := ⟨h.1.keep (.refl _) rfl rfl rfl, h.2⟩
  renew _ h := ⟨of_empty (h.1.unasked h.2), h.2⟩
  flag _ h := ⟨h.1.keep (.refl _) rfl rfl rfl, h.2⟩
  readClient s h := ⟨readClient s h.1, (readClient_asked s).trans h.2⟩
  readUpstream s h := ⟨readUpstream s h.1, (readUpstream_asked s).trans h.2⟩

theorem handleUpstreamRead (h : Held s) (hasked : s.asked = []) (env : Env) (o : Outcome) :
    Held (s.handleUpstreamRead env o) := by
  refine (finishes.handleUpstreamRead (fun s h => ?_) (fun _ data h => ?_) env o ⟨h, hasked⟩).1
  · exact ⟨h.1.close, (Calmly.closes.close s).asked.trans h.2⟩
  · have hcalm : Calmly s (s.resetTimer.emit (.received data)) :=
      (Calmly.resetTimer s).trans (Calmly.emit _ rfl)
    have hreceived : Held (s.resetTimer.emit (.received data)) := h.1.resetTimer.emit (e := .received data) trivial
    refine ⟨answers.writeClient (fun _ h => h.keep (.snoc _ trivial) rfl rfl rfl) hreceived, ?_⟩
    exact (hcalm.trans (Calmly.writeClient _ _ _)).asked.trans h.2

/-- A request that is intercepted is the current one of an open session. -/
theorem handleRequest (hnone : heldRequests s.log = []) (hopen : s.isClosed = false) {env : Env}
    (hne : env.nextId ≠ 0) (req : HttpRequest) : Held (s.handleRequest env req) := by
  have htested : heldRequests ((s.log ++ [.took env.newRef req]) ++
      [.tested env.newRef env.interceptEnabled]) = [] := by
    have htook : heldRequests (s.log ++ [.took env.newRef req]) = [] :=
      heldRequests_nil (.snoc _ trivial) hnone
    exact heldRequests_nil (.snoc _ trivial) htook
  unfold MitmSession.handleRequest
  dsimp only
  split
  · intro item hitem
    have hitem : item ∈ heldRequests (((s.log ++ [.took env.newRef req]) ++
        [.tested env.newRef env.interceptEnabled]) ++ [.intercepted { id := env.nextId, isHttps := true
                                                                      host := s.targetHost
                                                                      port := s.targetPort
                                                                      request := some env.newRef
                                                                      onDecision := env.newRef }]) := hitem
    rw [heldRequests_snoc, trackHeld, InterceptManager.interceptRequest_queue] at hitem
    rcases List.mem_append.mp hitem with hitem | hitem
    · rw [← heldRequests, htested] at hitem
      cases hitem
    · rw [List.mem_singleton.mp hitem]
      refine ⟨List.mem_append_right _ (List.mem_singleton.mpr rfl), rfl, hne, ?_⟩
      simpa only [intercept, MitmSession.emit, MitmSession.cancelTimer, MitmSession.cancel] using hopen
  · exact forwards.writeUpstream _ _ _ (of_empty htested)

theorem handleClientRead (h : Held s) (hasked : s.asked = []) {env : Env} (hne : env.nextId ≠ 0)
    (o : Outcome) : Held (s.handleClientRead env o) := by
  unfold MitmSession.handleClientRead
  split
  · exact h
  · rename_i hopen
    have hopen : s.isClosed = false := by simpa using hopen
    split
    · rename_i data
      have hread : Held (s.resetTimer.emit (.read data)) := h.resetTimer.emit (e := .read data) trivial
      have hnone : heldRequests (s.resetTimer.emit (.read data)).log = [] := hread.unasked hasked
      have hopen : (s.resetTimer.emit (.read data)).isClosed = false := hopen
      dsimp only
      generalize s.resetTimer.emit (.read data) = v at hread hnone hopen
      have hfields (parser : HttpParser L) : Held { v with
          clientAccumulated := v.clientAccumulated ++ data, clientParser := parser } :=
        hread.keep (.refl _) rfl rfl rfl
      split
      · split
        · rename_i req parser _
          exact handleRequest (s := { v with
            clientAccumulated := v.clientAccumulated ++ data, clientParser := parser }) hnone hopen hne req
        · exact readClient _ (hfields _)
      · split
        · exact readClient _ (hfields _)
        · exact (hfields _).close
    · exact h.close

theorem handle (h : Held s) {env : Env} (hs : InvAfter b new op s) (hne : env.nextId ≠ 0) (o : Outcome) :
    Held (s.handle env op o) := by
  cases op with
  | timer => exact handleTimeout_of (.keeps Held) (fun _ => close) h
  | rawWrite data => exact h.close
  | resolve => exact sets.handleResolve (answers.sendErrorResponse s _ _) o h
  | connect => exact sets.handleConnected (answers.sendErrorResponse s _ _) o h
  | established => exact sets.handleEstablished close env o h
  | clientHandshake => exact sets.handleClientHandshake (fun _ => close) h
  | upstreamHandshake => exact sets.handleUpstreamHandshake (fun _ => close) h
  | clientRead =>
    exact h.handleClientRead (hs.idle (Or.inl rfl)).asked hne o
  | clientWrite data =>
    exact answers.handleClientWrite (fun _ => close) (fun h => h.keep (.refl _) rfl rfl rfl) o h
  | upstreamRead =>
    exact h.handleUpstreamRead (hs.idle (Or.inr (Or.inr (Or.inl rfl)))).asked env o
  | upstreamWrite data =>
    exact forwards.handleUpstreamWrite (fun _ => close) (fun h => h.keep (.refl _) rfl rfl rfl) readUpstream h
  | decision action =>
    exact forwards.handleDecision resetTimer (answers.sendErrorResponse _ _ _) env action h
  | serverWrite data => exact h

end Held

/-- The counter is not 0. -/
def Numbered (_ : MitmSession L) : Session.Label → Prop
  | .dispatch _ env => env.nextId ≠ 0
  | _ => True

instance (s : MitmSession L) (a : Session.Label) : Decidable (Numbered s a) :=
  match a with
  | .dispatch _ _ => inferInstanceAs (Decidable (_ ≠ _))
  | .complete _ _ | .decide _ _ | .close => inferInstanceAs (Decidable True)

theorem Rests.complete {k : ℕ} {o : Outcome} (hok : s.complete k o = some t) : Rests s t := by
  obtain ⟨op, io, hio, -, rfl⟩ := complete_spec hok
  exact ⟨⟨_, rfl, op.completion_invisible o⟩, id, .complete hio⟩

theorem reached_held (h : (system L).ReachedUnder Numbered s) : Held s := by
  refine h.invariant_of (J := Holds) (I := Held) (fun s hs => reached_holds hs.reached) ?_ ?_
  · rintro _ ⟨targetHost, targetPort, rfl⟩
    exact .of_empty rfl
  · intro s a t hs hr hne hstep
    cases moves_of_step hstep with
    | complete ht =>
      obtain ⟨op, io, -, -, rfl⟩ := complete_spec ht
      exact hr.keep (holdsNone_of_subject ⟨_, rfl, op.completion_subject _⟩) rfl rfl rfl
    | @handled _ env _ _ ht =>
      obtain ⟨op, o, io, hio, rfl⟩ := dispatch_spec ht
      have htaken : Held { s with io := io } := hr.keep (.refl _) rfl rfl rfl
      exact htaken.handle (taken_inv hs hio env.newRef) hne o
    | @decide ref action _ =>
      -- the request whose callback is called is not held any more
      intro item hitem
      simp only [MitmSession.decided, heldRequests_snoc, trackHeld] at hitem
      obtain ⟨hitem, hother⟩ := List.mem_filter.mp hitem
      obtain ⟨hasked, hrest⟩ := hr item hitem
      have hother : item.onDecision ≠ ref := by simpa using hother
      exact ⟨(List.mem_erase_of_ne hother).mpr hasked, hrest⟩
    | close => exact hr.close

/-- In a step of a closed session nothing visible is done, and nothing is started besides what was
outstanding without the handler that runs. -/
theorem step_rests {a : Session.Label} (hclosed : s.isClosed = true) (hstep : step s a = some t) :
    Rests s t ∧ StartsNothing (a.others s.io) t.io := by
  have hboth (hrests : Rests s t) (hothers : a.others s.io = s.io) :
      Rests s t ∧ StartsNothing (a.others s.io) t.io := ⟨hrests, by rw [hothers]; exact hrests.io⟩
  cases moves_of_step hstep with
  | complete ht => exact hboth (Rests.complete ht) rfl
  | @handled k env _ _ ht =>
    -- every handler looks first whether the session is closed
    obtain ⟨op, o, io, hio, rfl⟩ := dispatch_spec ht
    have hothers : (Session.Label.dispatch k env).others s.io = io := by simp [Session.Label.others, hio]
    rw [handle_closed (s := { s with io := io }) hclosed, hothers]
    exact ⟨⟨.refl _, id, .take hio⟩, .refl _⟩
  | decide => exact hboth ⟨.snoc _ rfl, id, .post _ _ _⟩ rfl
  | close =>
    rw [close_of_closed hclosed]
    exact ⟨Rests.refl _, .refl _⟩

/-- A closed session rests. -/
theorem reached_rests (hclosed : s.isClosed = true)
    (h : ((system L).after s).ReachedUnder Numbered t) : Rests s t := by
  refine h.invariant (I := Rests s) ?_ ?_
  · rintro _ rfl
    exact Rests.refl _
  · intro u a v hrests _ hstep
    exact hrests.trans (step_rests (hrests.closed hclosed) hstep).1

end MitmSession

/-- From the moment that a session is closed on it does nothing visible, the intercept queue holds no
request of it, and no step starts a timer, a resolution, a connect or a write to the upstream. A plain
session needs that no handler runs that acts without looking. -/
theorem closed_means_closed {L : Llhttp} :
    (∀ s : Session L, s.close.Closed) ∧ (∀ s : MitmSession L, s.close.isClosed = true) ∧
    (∀ r r', (Session.system L).ReachedUnder Session.Spared r → r.session.Closed →
      ((Session.system L).after r).ReachedUnder Session.Spared r' →
        (r.session.Rests r'.session ∧ r'.session.Closed ∧ heldRequests r'.session.log = []) ∧
        ∀ a r'', Session.Spared r' a → (Session.system L).step r' a = some r'' →
          StartsNothing (a.others r'.session.io) r''.session.io) ∧
    ∀ s t, (MitmSession.system L).ReachedUnder MitmSession.Numbered s → s.isClosed = true →
      ((MitmSession.system L).after s).ReachedUnder MitmSession.Numbered t →
        (s.Rests t ∧ t.isClosed = true ∧ heldRequests t.log = []) ∧
        ∀ a u, (MitmSession.system L).step t a = some u → StartsNothing (a.others t.io) u.io := by
  refine ⟨Session.close_closed, MitmSession.close_closed, fun r r' hr hclosed hr' => ?_,
    fun s t hs hclosed ht => ?_⟩
  · have hrests := Session.reached_rests hr hclosed hr'
    have hheld := Session.reached_held (hr.after hr')
    have hclosed' := hrests.closed hclosed
    have hdrained := Session.reached_drained (hr.after hr').reached
    exact ⟨⟨hrests, hclosed', hheld.closed hclosed'⟩, fun a r'' hspared hstep =>
      (Session.step_rests hclosed' hdrained hspared hstep).2⟩
  · have hrests := MitmSession.reached_rests hclosed ht
    have hheld := MitmSession.reached_held (hs.after ht)
    have hclosed' := hrests.closed hclosed
    exact ⟨⟨hrests, hclosed', hheld.closed hclosed'⟩, fun a u hstep =>
      (MitmSession.step_rests hclosed' hstep).2⟩

section Examples

open Session (started env1 sentRun)

/-- The session is closed while it waits for the response, the handler of the cancelled read follows. -/
def closedRun : List Session.Label := sentRun ++ [.close]

theorem closed_means_closed_closedRun :
    (∃ r r' r'', (Session.system (answering [])).runUnder Session.Spared { session := started false }
        closedRun = some r ∧
      ((Session.system (answering [])).after r).runUnder Session.Spared r [.dispatch 2 env1] = some r' ∧
      Session.Spared r' (.dispatch 0 env1) ∧
      (Session.system (answering [])).step r' (.dispatch 0 env1) = some r'' ∧
      (r.session.Rests r'.session ∧ r'.session.Closed ∧ heldRequests r'.session.log = []) ∧
      StartsNothing ((Session.Label.dispatch 0 env1).others r'.session.io) r''.session.io) ∧
    ∃ s t u, (MitmSession.system (answering [])).runUnder MitmSession.Numbered (MitmSession.started [] 443)
        [.close] = some s ∧
      ((MitmSession.system (answering [])).after s).runUnder MitmSession.Numbered s [.complete 0 .ok] = some t ∧
      (MitmSession.system (answering [])).step t (.dispatch 1 {}) = some u ∧
      (s.Rests t ∧ t.isClosed = true ∧ heldRequests t.log = []) ∧
      StartsNothing ((Session.Label.dispatch 1 {}).others t.io) u.io := by
  have hrun : ((Session.system (answering [])).runUnder Session.Spared { session := started false }
      closedRun).any (fun r => decide r.session.Closed && (((Session.system (answering [])).after r).runUnder
        Session.Spared r [.dispatch 2 env1]).any fun r' => decide (Session.Spared r' (.dispatch 0 env1)) &&
          ((Session.system (answering [])).step r' (.dispatch 0 env1)).isSome) = true := by decide
  have htls : ((MitmSession.system (answering [])).runUnder MitmSession.Numbered (MitmSession.started [] 443)
      [.close]).any (fun s => s.isClosed && (((MitmSession.system (answering [])).after s).runUnder
        MitmSession.Numbered s [.complete 0 .ok]).any fun t =>
          ((MitmSession.system (answering [])).step t (.dispatch 1 {})).isSome) = true := by decide
  obtain ⟨r, hr, hrest⟩ := (Option.any_eq_true _ _).mp hrun
  obtain ⟨s, hs, hrest'⟩ := (Option.any_eq_true _ _).mp htls
  rw [Bool.and_eq_true] at hrest hrest'
  obtain ⟨r', hr', hlast⟩ := (Option.any_eq_true _ _).mp hrest.2
  obtain ⟨t, ht, hlast'⟩ := (Option.any_eq_true _ _).mp hrest'.2
  rw [Bool.and_eq_true] at hlast
  obtain ⟨r'', hr''⟩ := Option.isSome_iff_exists.mp hlast.2
  obtain ⟨u, hu⟩ := Option.isSome_iff_exists.mp hlast'
  have hspared : Session.Spared r' (.dispatch 0 env1) := of_decide_eq_true hlast.1
  have hclosed := closed_means_closed.2.2.1 r r' (.runUnder (.init ⟨false, rfl⟩) hr)
    (of_decide_eq_true hrest.1) (.runUnder (.init rfl) hr')
  have hclosed' := closed_means_closed.2.2.2 s t (.runUnder (.init ⟨[], 443, rfl⟩) hs) hrest'.1
    (.runUnder (.init rfl) ht)
  exact ⟨⟨r, r', r'', hr, hr', hspared, hr'', hclosed.1, hclosed.2 _ r'' hspared hr''⟩,
    ⟨s, t, u, hs, ht, hu, hclosed'.1, hclosed'.2 _ u hu⟩⟩

/-- A request is read and the timer expires at the same time; the handler of the timer, which finds
no request, runs first. -/
def idleTimeoutRun : List Session.Label :=
  [.complete 1 (.bytes simpleGet.message.wire), .complete 0 .ok, .dispatch 1 {}]

theorem closed_session_intercepts :
    ¬ ∀ r r', (Session.system (answering [])).Reached r → r.session.Closed →
      ((Session.system (answering [])).after r).Reached r' →
        r.session.Rests r'.session ∧ heldRequests r'.session.log = [] := by
  intro hall
  have hrun : ((Session.system (answering [])).run { session := started false } idleTimeoutRun).any
      (fun r => decide r.session.Closed && (((Session.system (answering [])).after r).run r
        [.dispatch 0 { interceptEnabled := true }]).any fun r' => heldRequests r'.session.log != []) =
          true := by decide
  obtain ⟨r, hr, hclosed⟩ := (Option.any_eq_true _ _).mp hrun
  rw [Bool.and_eq_true] at hclosed
  obtain ⟨r', hr', hheld⟩ := (Option.any_eq_true _ _).mp hclosed.2
  have hnone := hall r r' (.run (.init ⟨false, rfl⟩) hr) (of_decide_eq_true hclosed.1) (.run (.init rfl) hr')
  simp [hnone.2] at hheld

end Examples

end BurpTUI
