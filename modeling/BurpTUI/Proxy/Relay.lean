import BurpTUI.Proxy.MitmQueues
import BurpTUI.Proxy.OneAnswer

namespace BurpTUI

/-- What relaying is about: whether the socket of the client is open, the operations and the record. -/
structure View where
  live : Bool
  io : Io
  log : List Effect

/-- Effects that relaying is about. -/
def Effect.books : Effect → Bool
  | .received _ => true
  | .queued _ _ => true
  | .sent .client _ => true
  | .wrote _ => true
  | .closed => true
  | _ => false

def receivedOf (log : List Effect) : List Bytes :=
  log.filterMap fun
    | .received data => some data
    | _ => none

/-- The strings from the upstream that were queued for the client. -/
def relayedOf (log : List Effect) : List Bytes :=
  log.filterMap fun
    | .queued .relayed data => some data
    | _ => none

def wroteOf (log : List Effect) : List Bytes :=
  log.filterMap fun
    | .wrote data => some data
    | _ => none

/-- When the session closes the socket of the client after the upstream has ended, and without an
error from the client, all that was received has been queued and all that was queued written. -/
def WrittenBefore (log : List Effect) : Prop :=
  ∀ l l', log = l ++ .closed :: l' → .upstreamEnded ∈ l → .clientFailed ∉ l →
    receivedOf l = relayedOf l ∧ queuedTo .client l = wroteOf l

def Op.clientData : Op → Option Bytes
  | .clientWrite data => some data
  | _ => none

/-- The strings on the way to the client. -/
def Io.pendingWrites (io : Io) : List Bytes := io.pending.filterMap Op.clientData

/-- Completion without an error. -/
def Op.succeeded : Op → Outcome → Bool
  | .clientRead, .bytes _ => true
  | .clientRead, _ => false
  | _, o => o == .ok

/-- The books of a session: what was sent is what was written and what is on the way, as long as
the client makes no error; and whatever was received is queued. -/
structure Ledger (v : View) : Prop where
  written : v.live = true → .clientFailed ∉ v.log →
    sentTo .client v.log = wroteOf v.log ++ v.io.pendingWrites
  succeeded : v.live = true → .clientFailed ∉ v.log →
    ∀ e ∈ v.io.ready, e.1.onClientSocket = true → e.1.succeeded e.2 = true
  relayed : receivedOf v.log = relayedOf v.log
  settled : WrittenBefore v.log

/-- Nothing is missing if the socket of the client is closed now. -/
def Paid (v : View) : Prop :=
  v.live = true → .upstreamEnded ∈ v.log → .clientFailed ∉ v.log → queuedTo .client v.log = wroteOf v.log

variable {log es : List Effect} {v w : View}

theorem books_silent (hes : ∀ e ∈ es, e.books = false) :
    receivedOf es = [] ∧ relayedOf es = [] ∧ wroteOf es = [] ∧ queuedTo .client es = [] ∧
      sentTo .client es = [] ∧ .closed ∉ es := by
  have hnone {f : Effect → Option Bytes} (hf : ∀ e : Effect, e.books = false → f e = none) :
      es.filterMap f = [] := List.filterMap_eq_nil_iff.mpr fun e he => hf e (hes e he)
  refine ⟨hnone fun e he => ?_, hnone fun e he => ?_, hnone fun e he => ?_, hnone fun e he => ?_,
    hnone fun e he => ?_, fun hmem => ?_⟩
  · cases e <;> first | rfl | cases he
  · cases e <;> first | rfl | cases he
  · cases e <;> first | rfl | cases he
  · cases e <;> first | rfl | cases he
  · cases e with
    | sent side data => cases side <;> first | rfl | cases he
    | _ => rfl
  · have hclosed := hes _ hmem
    cases hclosed

theorem WrittenBefore.append (h : WrittenBefore log) (hes : .closed ∉ es) : WrittenBefore (log ++ es) := by
  intro l l' hl hended hfailed
  rcases List.append_eq_append_iff.mp hl with ⟨m, rfl, hm⟩ | ⟨m, rfl, hm⟩
  · exact absurd (by simp [hm]) hes
  · cases m with
    | nil =>
      rw [List.nil_append] at hm
      exact absurd (by simp [← hm]) hes
    | cons e m =>
      rw [List.cons_append] at hm
      obtain ⟨rfl, -⟩ := List.cons.inj hm
      exact h l m rfl hended hfailed

/-- The socket of the client is closed. -/
theorem WrittenBefore.close (h : WrittenBefore log) (hpaid : .upstreamEnded ∈ log → .clientFailed ∉ log →
    receivedOf log = relayedOf log ∧ queuedTo .client log = wroteOf log) :
    WrittenBefore (log ++ [.closed]) := by
  intro l l' hl hended hfailed
  rcases List.append_eq_append_iff.mp hl with ⟨m, rfl, hm⟩ | ⟨m, rfl, hm⟩
  · cases m with
    | nil =>
      rw [List.append_nil] at hended hfailed ⊢
      exact hpaid hended hfailed
    | cons e m => simp at hm
  · cases m with
    | nil =>
      rw [List.append_nil] at hpaid
      exact hpaid hended hfailed
    | cons e m =>
      rw [List.cons_append] at hm
      obtain ⟨rfl, -⟩ := List.cons.inj hm
      exact h l m rfl hended hfailed

namespace Ledger

/-- Nothing happens that relaying is about. -/
theorem keep (h : Ledger v) (hlive : w.live = true → v.live = true)
    (hpending : w.io.pendingWrites = v.io.pendingWrites)
    (hready : w.live = true → ∀ e ∈ w.io.ready, e.1.onClientSocket = true →
      e ∈ v.io.ready ∨ e.1.succeeded e.2 = true)
    (hlog : ∃ es, w.log = v.log ++ es ∧ ∀ e ∈ es, e.books = false) : Ledger w := by
  obtain ⟨es, hlog, hes⟩ := hlog
  obtain ⟨hreceived, hrelayed, hwrote, -, hsent, hclosed⟩ := books_silent hes
  have hfailed (hnot : .clientFailed ∉ w.log) : .clientFailed ∉ v.log := by
    rw [hlog] at hnot
    exact fun hmem => hnot (List.mem_append_left _ hmem)
  have happend {f : Effect → Option Bytes} (hf : es.filterMap f = []) :
      w.log.filterMap f = v.log.filterMap f := by
    rw [hlog, List.filterMap_append, hf, List.append_nil]
  refine ⟨fun hl hnot => ?_, fun hl hnot e he hsocket => ?_, ?_, ?_⟩
  · have hwritten := h.written (hlive hl) (hfailed hnot)
    rw [hpending]
    exact ((happend hsent).trans hwritten).trans (congrArg (· ++ v.io.pendingWrites) (happend hwrote).symm)
  · rcases hready hl e he hsocket with hold | hnew
    · exact h.succeeded (hlive hl) (hfailed hnot) e hold hsocket
    · exact hnew
  · exact ((happend hreceived).trans h.relayed).trans (happend hrelayed).symm
  · rw [hlog]
    exact h.settled.append hclosed

theorem emit (h : Ledger v) {e : Effect} (he : e.books = false) :
    Ledger { v with log := v.log ++ [e] } :=
  h.keep id rfl (fun _ _ hmem _ => Or.inl hmem) ⟨[e], rfl, by simpa using he⟩

theorem start (h : Ledger v) {op : Op} (hop : op.clientData = none) :
    Ledger { v with io := v.io.start op } := by
  refine h.keep id ?_ (fun _ _ hmem _ => Or.inl hmem) ⟨[], (List.append_nil _).symm, by simp⟩
  simp [Io.pendingWrites, Executor.start, hop]

theorem filterMap_filter_not {p : Op → Bool} {f : Op → Option Bytes} {l : List Op}
    (hp : ∀ op ∈ l, p op = true → f op = none) : (l.filter fun op => !p op).filterMap f = l.filterMap f := by
  induction l with
  | nil => rfl
  | cons op l ih =>
    have hl := ih fun o ho => hp o (List.mem_cons_of_mem _ ho)
    cases hop : p op with
    | true => simp [hop, hl, hp op (by simp) hop]
    | false => simp [List.filterMap_cons, hop, hl]

/-- Operations are cancelled that the client has no part in. -/
theorem cancel (h : Ledger v) {p : Op → Bool} (hp : ∀ op, op.onClientSocket = true → p op = false)
    (o : Outcome) : Ledger { v with io := v.io.cancel p o } := by
  refine h.keep id ?_ (fun _ e hmem hsocket => ?_) ⟨[], (List.append_nil _).symm, by simp⟩
  · apply filterMap_filter_not
    intro op _ hop
    cases op with
    | clientWrite data =>
      rw [hp _ rfl] at hop
      cases hop
    | _ => rfl
  · rcases List.mem_append.mp hmem with hmem | hmem
    · exact Or.inl hmem
    · obtain ⟨op, hop, rfl⟩ := List.mem_map.mp hmem
      have hop := (List.mem_filter.mp hop).2
      rw [hp op hsocket] at hop
      cases hop

/-- A string is handed to the socket of the client. -/
theorem send (h : Ledger v) (data : Bytes) :
    Ledger { v with io := v.io.start (.clientWrite data), log := v.log ++ [.sent .client data] } := by
  refine ⟨fun hl hnot => ?_, fun hl hnot e he => ?_, ?_, h.settled.append (by simp)⟩
  · have hwritten := h.written hl (by simpa using hnot)
    simp only [sentTo_append, sentTo_cons, Effect.sentTo, Option.toList_some, sentTo_nil, hwritten,
      wroteOf, Io.pendingWrites, Executor.start, List.filterMap_append, List.append_assoc]
    simp [Op.clientData]
  · exact h.succeeded hl (by simpa using hnot) e he
  · simpa [receivedOf, relayedOf] using h.relayed

/-- A string of the proxy itself is queued for the client. -/
theorem queueOwn (h : Ledger v) (data : Bytes) :
    Ledger { v with log := v.log ++ [.queued .generated data] } := by
  refine ⟨fun hl hnot => ?_, fun hl hnot e he => ?_, ?_, h.settled.append (by simp)⟩
  · have hwritten := h.written hl (by simpa using hnot)
    simpa [Effect.sentTo, wroteOf] using hwritten
  · exact h.succeeded hl (by simpa using hnot) e he
  · simpa [receivedOf, relayedOf] using h.relayed

/-- A string is received, and queued at once. -/
theorem relay (h : Ledger v) (data : Bytes) :
    Ledger { v with log := v.log ++ [.received data] ++ [.queued .relayed data] } := by
  refine ⟨fun hl hnot => ?_, fun hl hnot e he => ?_, ?_, ?_⟩
  · have hwritten := h.written hl (by simpa using hnot)
    simpa [Effect.sentTo, wroteOf] using hwritten
  · exact h.succeeded hl (by simpa using hnot) e he
  · have hrelayed := h.relayed
    simp only [receivedOf, relayedOf] at hrelayed
    simp [receivedOf, relayedOf, hrelayed]
  · rw [List.append_assoc]
    exact h.settled.append (by simp)

/-- The socket of the client is closed with nothing missing. -/
theorem close (h : Ledger v) (hl : v.live = true) (hpaid : Paid v) (io : Io) :
    Ledger { live := false, io := io, log := v.log ++ [.closed] } := by
  refine ⟨fun hlive => (by cases hlive), fun hlive => (by cases hlive), ?_, ?_⟩
  · simpa [receivedOf, relayedOf] using h.relayed
  · exact h.settled.close fun hended hfailed => ⟨h.relayed, hpaid hl hended hfailed⟩

/-- After the socket is gone the operations do not matter. -/
theorem dead (h : Ledger v) (hdead : w.live = false)
    (hlog : ∃ es, w.log = v.log ++ es ∧ ∀ e ∈ es, e.books = false) : Ledger w := by
  obtain ⟨es, hlog, hes⟩ := hlog
  obtain ⟨hreceived, hrelayed, -, -, -, hclosed⟩ := books_silent hes
  refine ⟨fun hl => ?_, fun hl => ?_, ?_, ?_⟩
  · rw [hdead] at hl
    cases hl
  · rw [hdead] at hl
    cases hl
  · have hboth := h.relayed
    simp only [receivedOf, relayedOf, hlog, List.filterMap_append] at hboth hreceived hrelayed ⊢
    rw [hreceived, hrelayed, hboth]
  · rw [hlog]
    exact h.settled.append hclosed

end Ledger

/-- All strings in the queue but the one that is being written wait; if there are none, and if the
write is over, everything is written. -/
theorem paid_of_flushed {live : Prop} {queue : List Bytes} {n : ℕ} (h : Ledger v)
    (hq : SerialWriter live queue n (queuedTo .client v.log) (sentTo .client v.log))
    (hshort : queue.length ≤ 1) (hpending : v.io.pendingWrites = []) : Paid v := by
  intro hl hended hfailed
  have hwritten := h.written hl hfailed
  obtain ⟨done, hqueued, hsent⟩ := hq.order
  rw [hpending, List.append_nil, hsent, List.take_of_length_le hshort, ← hqueued] at hwritten
  exact hwritten

theorem exists_split {α : Type} {l : List α} {k : ℕ} {a : α} (h : l[k]? = some a) :
    ∃ l₁ l₂, l = l₁ ++ a :: l₂ ∧ l.eraseIdx k = l₁ ++ l₂ := by
  obtain ⟨hlt, rfl⟩ := List.getElem?_eq_some_iff.mp h
  exact ⟨l.take k, l.drop (k + 1), by simp, List.eraseIdx_eq_take_drop_succ l k⟩

theorem length_pendingWrites (io : Io) : io.pendingWrites.length ≤ io.writes .client := by
  have hcount : io.pendingWrites.length = io.pending.countP (Op.writesTo .client) := by
    unfold Io.pendingWrites
    induction io.pending with
    | nil => rfl
    | cons op ops ih =>
      cases op <;> simpa [List.filterMap_cons, List.countP_cons, Op.clientData, Op.writesTo] using ih
  rw [hcount]
  exact Nat.le_add_right _ _

/-- An operation completes. -/
theorem Ledger.complete (h : Ledger v) (hone : v.io.writes .client ≤ 1) {k : ℕ} {o : Outcome} {op : Op}
    {io : Io} (hio : v.io.complete k o = some (op, io)) (hallows : op.allows o = true) :
    Ledger { v with io := io, log := v.log ++ op.completion o } := by
  simp only [Executor.complete, Option.map_eq_some_iff, Prod.mk.injEq] at hio
  obtain ⟨op', hk, rfl, rfl⟩ := hio
  have hlength := (length_pendingWrites v.io).trans hone
  have hrelayed := h.relayed
  obtain ⟨l₁, l₂, hsplit, herase⟩ := exists_split hk
  -- the new handler of an operation that made no error
  have hnew (hgood : op'.onClientSocket = true → ¬ (o = .eof ∨ o = .truncated ∨ o = .failed))
      (hsocket : op'.onClientSocket = true) : op'.succeeded o = true := by
    have hgood := hgood hsocket
    cases op' <;> cases hsocket <;> cases o <;> simp_all [Op.allows, Op.succeeded]
  by_cases hfailed : op'.onClientSocket = true ∧ (o = .eof ∨ o = .truncated ∨ o = .failed)
  · have hcompletion : op'.completion o = [.clientFailed] := by
      obtain ⟨hsocket, ho⟩ := hfailed
      rcases ho with rfl | rfl | rfl <;> cases op' <;> first | rfl | cases hsocket
    rw [hcompletion]
    refine ⟨fun _ hnot => absurd (by simp) hnot, fun _ hnot => absurd (by simp) hnot, ?_,
      h.settled.append (by simp)⟩
    simpa [receivedOf, relayedOf] using hrelayed
  · have hgood (hsocket : op'.onClientSocket = true) : ¬ (o = .eof ∨ o = .truncated ∨ o = .failed) :=
      fun ho => hfailed ⟨hsocket, ho⟩
    by_cases hwrote : ∃ data, op' = .clientWrite data ∧ o = .ok
    · -- the only write to the client is over
      obtain ⟨data, rfl, rfl⟩ := hwrote
      have hpending : v.io.pendingWrites = l₁.filterMap Op.clientData ++ data :: l₂.filterMap Op.clientData := by
        rw [Io.pendingWrites, hsplit, List.filterMap_append]
        rfl
      rw [hpending, List.length_append, List.length_cons] at hlength
      have hbefore : l₁.filterMap Op.clientData = [] := List.eq_nil_of_length_eq_zero (by omega)
      have hafter : l₂.filterMap Op.clientData = [] := List.eq_nil_of_length_eq_zero (by omega)
      refine ⟨fun hl hnot => ?_, fun hl hnot e he hsocket => ?_, ?_,
        h.settled.append (by simp [Op.completion])⟩
      · have hwritten := h.written hl (by simpa [Op.completion] using hnot)
        rw [hpending, hbefore, hafter, List.nil_append] at hwritten
        simp only [Io.pendingWrites, herase, List.filterMap_append, hbefore, hafter, List.append_nil]
        simpa [Op.completion, wroteOf, Effect.sentTo] using hwritten
      · rcases List.mem_append.mp he with he | he
        · exact h.succeeded hl (by simpa [Op.completion] using hnot) e he hsocket
        · rw [List.mem_singleton.mp he]
          exact hnew hgood rfl
      · simpa [Op.completion, receivedOf, relayedOf] using hrelayed
    · have hsilent : ∀ e ∈ op'.completion o, e.books = false := by
        intro e he
        rcases Op.mem_completion he with ⟨data, hop, ho, rfl⟩ | ⟨-, -, rfl⟩ | ⟨hsocket, ho, rfl⟩
        · exact absurd ⟨data, hop, ho⟩ hwrote
        · rfl
        · exact absurd ⟨hsocket, ho⟩ hfailed
      have hnone : op'.clientData = none := by
        cases op' with
        | clientWrite data => cases o <;> simp_all [Op.allows, Op.onClientSocket]
        | _ => rfl
      refine h.keep id ?_ (fun _ e he hsocket => ?_) ⟨_, rfl, hsilent⟩
      · show (v.io.pending.eraseIdx k).filterMap Op.clientData = v.io.pending.filterMap Op.clientData
        rw [herase, hsplit]
        simp [hnone]
      · rcases List.mem_append.mp he with he | he
        · exact Or.inl he
        · rw [List.mem_singleton.mp he] at hsocket ⊢
          exact Or.inr (hnew hgood hsocket)

theorem Paid.removed (h : Paid v) (id : ℤ) (io : Io) :
    Paid { v with io := io, log := v.log ++ [.removed id] } := by
  intro hl hended hfailed
  have hpaid := h hl (by simpa using hended) (by simpa using hfailed)
  simpa [Effect.queuedTo, wroteOf] using hpaid

theorem pendingWrites_nil {io : Io} (h : io.writes .client = 0) : io.pendingWrites = [] := by
  unfold Io.pendingWrites
  rw [List.filterMap_eq_nil_iff]
  intro op hop
  simp only [Io.writes, Executor.outstanding, Nat.add_eq_zero_iff] at h
  have hnot := List.countP_eq_zero.mp h.1 op hop
  cases op <;> first | rfl | exact absurd rfl hnot

theorem Op.onServerSocket_of_client (op : Op) (h : op.onClientSocket = true) :
    op.onServerSocket = false := by
  cases op <;> first | rfl | cases h

namespace Session

open BurpTUI.Flow (Idle Cleared Sound SoundAfter)

variable {L : Llhttp} {b : Flow} {new ref : Ref} {s t u : Session L} {op : Op}

def view (s : Session L) : View where
  live := s.clientOpen
  io := s.io
  log := s.log

/-- The books stay in order from `s` to `t`. -/
def Pays (s t : Session L) : Prop := Ledger s.view → Ledger t.view

namespace Pays

theorem refl (s : Session L) : Pays s s := id

theorem trans (h : Pays s t) (h' : Pays t u) : Pays s u := fun hs => h' (h hs)

theorem same (h : t.view = s.view) : Pays s t := fun hs => h ▸ hs

theorem emit (s : Session L) {e : Effect} (he : e.books = false) : Pays s (s.emit e) := fun h => h.emit he

theorem start (s : Session L) (op : Op) (hop : op.clientData = none) : Pays s (s.start op) :=
  fun h => h.start hop

theorem cancelTimer (s : Session L) : Pays s s.cancelTimer := fun h => by
  refine Ledger.cancel (v := s.view) h (fun op hop => ?_) .aborted
  cases op <;> first | rfl | cases hop

theorem resetTimer (s : Session L) : Pays s s.resetTimer := (cancelTimer s).trans (start _ _ rfl)

theorem cancelServer (s : Session L) : Pays s (s.cancel Op.onServerSocket) := fun h =>
  Ledger.cancel (v := s.view) h Op.onServerSocket_of_client .aborted

theorem closeServer (s : Session L) : Pays s s.closeServer := by
  unfold Session.closeServer
  split
  · have hfield : Pays s { s with serverOpen := false } := same rfl
    exact hfield.trans (cancelServer _)
  · exact refl s

theorem close (hpaid : Paid s.view) : Pays s s.close := by
  intro h
  have hcancelled : Ledger s.cancelTimer.view := cancelTimer s h
  have hremoved : Ledger s.cancelTimer.removeFromQueue.view ∧ Paid s.cancelTimer.removeFromQueue.view := by
    unfold Session.removeFromQueue
    split
    · exact ⟨hcancelled.emit rfl, hpaid.removed _ _⟩
    · exact ⟨hcancelled, hpaid⟩
  unfold Session.close
  refine closeServer _ ?_
  generalize s.cancelTimer.removeFromQueue = w at hremoved
  unfold Session.closeClient
  split
  · rename_i hopen
    exact hremoved.1.close hopen hremoved.2 _
  · exact hremoved.1

theorem respond (s : Session L) (origin : Origin) (response : HttpResponse) :
    Pays s (s.respond origin response) := fun h => h.emit rfl

theorem answers : AllowsAnswer (Pays (L := L)) where
  refl := refl
  trans := trans
  send _ _ h := h.send _
  sendServer s data := (emit s (e := .sent .upstream data) rfl).trans (start _ _ rfl)
  respond s response := (respond s .generated response).trans (same rfl)
  queue _ data h := h.queueOwn data

theorem dials : AllowsDial (Pays (L := L)) where
  refl := refl
  trans := trans
  error s _ _ _ := answers.sendErrorResponse s _ _
  serverOpen _ := same rfl
  store _ _ := same rfl
  handed s _ _ := emit s rfl
  start s op hop := start s op (by cases op <;> first | rfl | simp [Op.kind] at hop)

theorem takes : AllowsTake (Pays (L := L)) where
  refl := refl
  trans := trans
  target _ _ _ _ := same rfl
  route _ _ _ := same rfl
  tested s _ _ := emit s rfl
  connected s response := respond s _ response
  -- the socket goes to another session, it is not closed
  spawn s _ _ := (cancelTimer s).trans fun h => h.dead rfl ⟨[_], rfl, by simp [Effect.books]⟩
  tunnel _ := same rfl
  resolve s := start s .resolve rfl

/-- What is received is queued. -/
theorem relay (s : Session L) (data : Bytes) :
    Pays s ((s.emit (.received data)).writeClient .relayed data) := by
  have hqueued : Pays s (({ s.emit (.received data) with writeQueue := s.writeQueue ++ [data] } :
      Session L).emit (.queued .relayed data)) := fun h => h.relay data
  exact hqueued.trans (answers.writeClient_queued (s.emit (.received data)) .relayed data)

theorem forwardRequest (s : Session L) : Pays s s.forwardRequest := dials.forwardRequest (closeServer s)

theorem handleRequest {env : Env} {req : HttpRequest} (hok : s.handleRequest env req = .ok t) :
    Pays s t := by
  have htook : Pays s (({ s with currentTransaction := { s.currentTransaction with
      id := env.nextId, request := some env.newRef } } : Session L).emit (.took env.newRef req)) :=
    fun h => h.emit rfl
  refine handleRequest_of takes.toChain htook takes.handleConnect (answers.sendErrorResponse · _ _)
    (answers.serveCaCert · env) (answers.serveBurpHelpPage · env)
    (fun _ _ => takes.handleUpstreamRoute (fun s _ => ?_) (fun t _ => forwardRequest t) env) hok
  exact (cancelTimer s).trans fun h => h.emit rfl

/-- The client reads of a session that has seen no error have data. -/
theorem handleClientRead {env : Env} {o : Outcome}
    (herror : Op.clientRead.succeeded o = false → Paid s.view) (hok : s.handleClientRead env o = .ok t) :
    Pays s t := by
  cases o with
  | bytes data =>
    have hread : Pays s (s.resetTimer.emit (.read data)) := (resetTimer s).trans (emit _ rfl)
    exact hread.trans <| handleClientRead_of takes.toChain (fun _ _ _ => same rfl)
      (fun _ => answers.writeServerBlind fun h => h.emit rfl) (start · .clientRead rfl)
      (answers.sendErrorResponse · _ _) (fun _ _ _ => handleRequest) hok
  | ok => cases hok; exact close (herror rfl)
  | eof => cases hok; exact close (herror rfl)
  | truncated => cases hok; exact close (herror rfl)
  | aborted => cases hok; exact close (herror rfl)
  | failed => cases hok; exact close (herror rfl)

theorem finishes : AllowsFinish (Pays (L := L)) where
  refl := refl
  trans := trans
  respond s response := respond s _ response
  parser _ _ := same rfl
  renew _ := same rfl
  flag _ := same rfl
  readClient s := start s .clientRead rfl
  readUpstream s := start s .upstreamRead rfl

/-- A session with nothing in its queue has written everything. -/
theorem close_idle (hq : Queues s.io.writes s) (hempty : s.writeQueue = []) : Pays s s.close := by
  intro h
  refine close (paid_of_flushed h hq.client (by simp [hempty]) ?_) h
  exact pendingWrites_nil (hq.client.idle hempty)

theorem finishExchange (hq : Queues s.io.writes s) (env : Env) (res : HttpResponse) :
    Pays s (s.finishExchange env res) := by
  have hrespond := respond s .relayed res
  unfold Session.finishExchange
  dsimp only
  split
  · exact (hrespond.trans (same rfl)).trans (start _ .clientRead rfl)
  · let v : Session L := { s.respond .relayed res with closeAfterWrite := true }
    have hflag : Pays (s.respond .relayed res) v := same rfl
    have hv : Queues v.io.writes v := (Keeps.respond s .relayed res).queues (fun _ => 0) hq |>
      fun h => ⟨h.client, h.server, h.aborted⟩
    split
    · rename_i hempty
      exact (hrespond.trans hflag).trans (close_idle hv hempty)
    · exact hrespond.trans hflag

theorem handleUpstreamRead (hq : Queues s.io.writes s) (env : Env) {o : Outcome}
    (hpaid : (∀ data, o ≠ .bytes data) → Paid s.view) : Pays s (s.handleUpstreamRead env o) := by
  cases o with
  | bytes data =>
    have hreceived : Pays s ((s.resetTimer.emit (.received data)).writeClient .relayed data) :=
      (resetTimer s).trans (relay _ data)
    have hqueues : Keeps s ((s.resetTimer.emit (.received data)).writeClient .relayed data) :=
      ((Keeps.resetTimer s).trans (Keeps.emit _ rfl)).trans (Keeps.writeClient _ _ _)
    have hq := hqueues.queues (fun _ => 0) hq
    refine hreceived.trans (finishes.received_of fun v hv parser res => finishExchange ?_ env res)
    subst hv
    exact ⟨hq.client, hq.server, hq.aborted⟩
  | eof =>
    have hpaid := hpaid (by simp)
    unfold Session.handleUpstreamRead
    dsimp only
    split
    · refine (finishes.reportTaken s _).trans (close ?_)
      unfold Session.reportTaken
      split
      · intro hl hended hfailed
        have hall := hpaid hl (by simpa [Session.view, Session.respond, Session.emit] using hended)
          (by simpa [Session.view, Session.respond, Session.emit] using hfailed)
        simpa [Session.view, Session.respond, Session.emit, Effect.queuedTo, wroteOf] using hall
      · exact hpaid
    · exact close hpaid
  | ok => exact close (hpaid (by simp))
  | truncated => exact close (hpaid (by simp))
  | aborted => exact close (hpaid (by simp))
  | failed => exact close (hpaid (by simp))

theorem handleClientWrite {data : Bytes}
    (hq : Queues (fun side => s.io.writes side + ((Op.clientWrite data).writesTo side).toNat) s)
    {o : Outcome} (herror : o ≠ .ok → Paid s.view) : Pays s (s.handleClientWrite o) := by
  unfold Session.handleClientWrite
  split
  · rename_i ho
    exact close (herror ho)
  · let v : Session L := { s with writeQueue := s.writeQueue.tail }
    have hpop : Pays s v := same rfl
    dsimp only
    split
    · exact hpop.trans (answers.doClientWrite _)
    · rename_i hempty
      have hempty : s.writeQueue.tail = [] := not_not.mp hempty
      split
      · refine hpop.trans (close_idle (s := v) ⟨?_, hq.server, hq.aborted⟩ hempty)
        have hlast := SerialWriter.last hq.client hempty
        rwa [← hempty] at hlast
      · exact hpop

theorem handleServerWrite (s : Session L) {o : Outcome} (hpaid : o ≠ .ok → o ≠ .aborted → Paid s.view) :
    Pays s (s.handleServerWrite o) :=
  answers.handleServerWrite (fun ho ho' => close (hpaid ho ho')) (same rfl)

theorem handleTimeout (s : Session L) {o : Outcome} (hpaid : o ≠ .aborted →
    ¬ (s.currentTransaction.request.isSome ∧ s.currentTransaction.response = none ∧
      s.isConnect = false) → Paid s.view) : Pays s (s.handleTimeout o) := by
  unfold Session.handleTimeout
  split
  · exact refl s
  · split
    · have hcancel : Pays s (s.cancel (· == .resolve)) := fun h => by
        refine Ledger.cancel (v := s.view) h (fun op hop => ?_) .aborted
        cases op <;> first | rfl | cases hop
      dsimp only
      split
      · exact (hcancel.trans (cancelServer _)).trans (answers.sendErrorResponse _ _ _)
      · exact hcancel.trans (answers.sendErrorResponse _ _ _)
    · exact close (hpaid ‹_› ‹_›)

end Pays

/-- The handler closes the connection, and not because the client has made an error. -/
def closes (s : Session L) : Op → Outcome → Bool
  | .timer, o => o != .aborted && !(s.currentTransaction.request.isSome &&
      s.currentTransaction.response.isNone && !s.isConnect)
  | .upstreamRead, .bytes _ => false
  | .upstreamRead, _ => true
  | .serverWrite _, o => o != .ok && o != .aborted
  | _, _ => false

def closesAt (s : Session L) (k : ℕ) : Bool := s.io.ready[k]?.any fun e => s.closes e.1 e.2

/-- The upstream has ended, and the client is there. -/
def Ended (s : Session L) : Prop :=
  s.clientOpen = true ∧ .upstreamEnded ∈ s.log ∧ .clientFailed ∉ s.log

/-- Nothing waits in the queue, and no write is on the way. -/
def Flushed (s : Session L) : Prop := s.writeQueue.length ≤ 1 ∧ s.io.pendingWrites = []

/-- After the end of the upstream the connection is closed when the queue is flushed. -/
def Patient (r : Running L) : Label → Prop
  | .dispatch k _ => r.session.closesAt k = true → r.session.Ended → r.session.Flushed
  | .close => r.session.Ended → r.session.Flushed
  | _ => True

instance (s : Session L) : Decidable s.Ended := inferInstanceAs (Decidable (_ ∧ _ ∧ _))

instance (s : Session L) : Decidable s.Flushed := inferInstanceAs (Decidable (_ ∧ _))

instance (r : Running L) (a : Label) : Decidable (Patient r a) :=
  match a with
  | .dispatch _ _ => inferInstanceAs (Decidable (_ → Session.Ended _ → Session.Flushed _))
  | .close => inferInstanceAs (Decidable (Session.Ended _ → Session.Flushed _))
  | .complete _ _ | .decide _ _ => inferInstanceAs (Decidable True)

theorem paid (h : Ledger s.view) {m : Side → ℕ} (hq : Queues m s) (hpatient : s.Ended → s.Flushed) :
    Paid s.view := by
  intro hl hended hfailed
  obtain ⟨hshort, hpending⟩ := hpatient ⟨hl, hended, hfailed⟩
  exact paid_of_flushed h hq.client hshort hpending hl hended hfailed

theorem handle_ledger {env : Env} (h : Ledger s.view) (hq : OrderlyAfter op s) {o : Outcome}
    (herror : s.clientOpen = true → .clientFailed ∉ s.log → op.onClientSocket = true → op.succeeded o = true)
    (hpatient : s.closes op o = true → s.Ended → s.Flushed) (hok : s.handle env op o = .ok t) :
    Ledger t.view := by
  have hpaid (hcloses : s.closes op o = true) : Paid s.view := paid h hq.queues (hpatient hcloses)
  -- an error on the client's socket has already been recorded
  have hfailed (hsocket : op.onClientSocket = true) (hnot : op.succeeded o = false) : Paid s.view :=
    fun hl _ hf => absurd (herror hl hf hsocket) (by simp [hnot])
  cases op with
  | clientRead => exact Pays.handleClientRead (hfailed rfl) hok h
  | timer =>
    cases hok
    refine Pays.handleTimeout s (fun ho hnot => hpaid ?_) h
    simp only [closes, Bool.and_eq_true, bne_iff_ne, ne_eq, ho, not_false_eq_true, true_and,
      Bool.not_eq_true', Bool.and_eq_false_iff]
    by_contra hall
    simp at hall
    exact hnot ⟨Option.isSome_iff_ne_none.mpr hall.1.1, hall.1.2, hall.2⟩
  | clientWrite data =>
    cases hok
    refine Pays.handleClientWrite hq.queues (fun ho => hfailed rfl ?_) h
    simpa [Op.succeeded] using ho
  | serverWrite data =>
    cases hok
    refine Pays.handleServerWrite s (fun ho ho' => hpaid ?_) h
    simp [closes, ho, ho']
  | resolve => cases hok; exact Pays.dials.handleResolve (Pays.closeServer s) o h
  | connect =>
    cases hok
    have hwrite : Pays s (s.writeClient .generated established) := Pays.answers.writeClient fun h => h.queueOwn _
    exact Pays.dials.handleConnected hwrite (Pays.start · .clientRead rfl) env o h
  | upstreamRead =>
    cases hok
    have hqueues := (OrderlyAfter.unqueued hq (Op.writesTo_of_kind (by simp [Op.kind]))).queues
    refine Pays.handleUpstreamRead hqueues env (fun hnot => hpaid ?_) h
    cases o with
    | bytes data => exact absurd rfl (hnot data)
    | _ => rfl
  | upstreamWrite data => cases hok; exact Pays.dials.handleUpstreamWrite s o h
  | decision action =>
    cases hok
    exact Pays.dials.handleDecision (Pays.resetTimer s) (Pays.closeServer _) action h
  | rawWrite data => cases hok; exact h
  | established => cases hok; exact h
  | clientHandshake => cases hok; exact h
  | upstreamHandshake => cases hok; exact h

theorem complete_ledger (h : Ledger s.view) (hone : s.io.writes .client ≤ 1) {k : ℕ} {o : Outcome}
    (hok : s.complete k o = some t) : Ledger t.view := by
  obtain ⟨op, io, hio, hcan, rfl⟩ := complete_spec hok
  unfold canComplete at hcan
  rw [Bool.and_eq_true] at hcan
  exact Ledger.complete (v := s.view) h hone hio hcan.1

theorem dispatch_ledger {env : Env} (h : Ledger s.view) (hq : Orderly s.io.writes s.io.count s) {k : ℕ}
    (hpatient : s.closesAt k = true → s.Ended → s.Flushed)
    (hok : s.dispatch k env = some (.ok t)) : Ledger t.view := by
  obtain ⟨op, o, io, hio, hhandle⟩ := dispatch_spec hok
  have hafter := taken_orderly hq hio
  obtain ⟨he, rfl⟩ := Executor.take_spec hio
  simp only [closesAt, he, Option.any_some] at hpatient
  have htaken : Ledger (view { s with io := { s.io with ready := s.io.ready.eraseIdx k } }) :=
    h.keep id rfl (fun _ e hmem _ => Or.inl (List.mem_of_mem_eraseIdx hmem))
      ⟨[], (List.append_nil _).symm, by simp⟩
  refine handle_ledger htaken hafter (fun hl hf hsocket => ?_) (fun hcloses => ?_) hhandle
  · exact h.succeeded hl hf _ (List.mem_of_getElem? he) hsocket
  · apply hpatient
    rw [← hcloses]
    cases op <;> rfl

theorem decided_ledger (h : Ledger s.view) (ref : Ref) (action : InterceptAction) :
    Ledger (s.decided ref action).view := by
  refine h.keep id rfl (fun _ e hmem hsocket => ?_) ⟨[_], rfl, by simp [Effect.books]⟩
  rcases List.mem_append.mp hmem with hmem | hmem
  · exact Or.inl hmem
  · rw [List.mem_singleton.mp hmem] at hsocket
    cases hsocket

theorem started_ledger (hasCertCache : Bool) : Ledger (started hasCertCache : Session L).view := by
  refine ⟨fun _ _ => rfl, fun _ _ e he => (by cases he), rfl, ?_⟩
  intro l l' hl
  cases l <;> cases hl

theorem reached_ledger {r : Running L} (h : (system L).ReachedUnder Patient r) : Ledger r.session.view := by
  refine h.invariant_of (J := fun r => Orderly r.session.io.writes r.session.io.count r.session)
    (I := fun r => Ledger r.session.view) (fun r hr => reached_orderly hr.reached) ?_ ?_
  · rintro _ ⟨hasCertCache, rfl⟩
    exact started_ledger hasCertCache
  · intro r a r' hq hr hpatient hstep
    cases moves_of_step hstep with
    | complete ht => exact complete_ledger hr hq.queues.client.one ht
    | handled _ _ ht => exact dispatch_ledger hr hq hpatient ht
    | threw => exact hr
    | decide => exact decided_ledger hr _ _
    | close => exact Pays.close (paid hr hq.queues hpatient) hr

end Session

namespace MitmSession

variable {L : Llhttp} {b : Flow} {new ref : Ref} {s t u : MitmSession L} {op : Op}

def view (s : MitmSession L) : View where
  live := !s.isClosed
  io := s.io
  log := s.log

/-- The books stay in order from `s` to `t`. -/
def Pays (s t : MitmSession L) : Prop := Ledger s.view → Ledger t.view

namespace Pays

theorem refl (s : MitmSession L) : Pays s s := id

theorem trans (h : Pays s t) (h' : Pays t u) : Pays s u := fun hs => h' (h hs)

theorem same (h : t.view = s.view) : Pays s t := fun hs => h ▸ hs

theorem emit (s : MitmSession L) {e : Effect} (he : e.books = false) : Pays s (s.emit e) :=
  fun h => h.emit he

theorem start (s : MitmSession L) (op : Op) (hop : op.clientData = none) : Pays s (s.start op) :=
  fun h => h.start hop

theorem cancelTimer (s : MitmSession L) : Pays s s.cancelTimer := fun h => by
  refine Ledger.cancel (v := s.view) h (fun op hop => ?_) .aborted
  cases op <;> first | rfl | cases hop

theorem resetTimer (s : MitmSession L) : Pays s s.resetTimer := (cancelTimer s).trans (start _ _ rfl)

theorem close (hpaid : Paid s.view) : Pays s s.close := by
  intro h
  unfold MitmSession.close
  split
  · exact h
  · rename_i hopen
    have hlive : s.view.live = true := by simpa [MitmSession.view] using hopen
    have hremoved : Ledger s.removeFromQueue.view ∧ Paid s.removeFromQueue.view ∧
        s.removeFromQueue.view.live = true := by
      unfold MitmSession.removeFromQueue
      split
      · exact ⟨h.emit rfl, hpaid.removed _ _, hlive⟩
      · exact ⟨h, hpaid, hlive⟩
    have hsame : ({ s with isClosed := true } : MitmSession L).removeFromQueue =
        { s.removeFromQueue with isClosed := true } := by
      unfold MitmSession.removeFromQueue
      split
      · rfl
      · rfl
    rw [hsame]
    exact hremoved.1.close hremoved.2.2 hremoved.2.1 _

theorem respond (s : MitmSession L) (origin : Origin) (response : HttpResponse) :
    Pays s (s.respond origin response) := fun h => h.emit rfl

theorem chain : Chain (Pays (L := L)) := ⟨refl, trans⟩

theorem answers : AllowsAnswer (Pays (L := L)) where
  toChain := chain
  send _ _ h := h.send _
  respond s response := (same rfl : Pays s { s with closeAfterWrite := true }).trans (respond _ _ response)
  queue _ data h := h.queueOwn data
  raw s data := (emit s (e := .answered data) rfl).trans (start _ _ rfl)

/-- What is received is queued. -/
theorem relay (hopen : s.isClosed = false) (data : Bytes) :
    Pays s ((s.emit (.received data)).writeClient .relayed data) := by
  have hqueued : Pays s (({ s.emit (.received data) with
      clientWriteQueue := s.clientWriteQueue ++ [data] } : MitmSession L).emit
        (.queued .relayed data)) := fun h => h.relay data
  exact hqueued.trans (answers.writeClient_queued (s := s.emit (.received data)) hopen .relayed data)

theorem readClient (s : MitmSession L) : Pays s s.readClient := startOpen_of chain (start s _ rfl)

theorem readUpstream (s : MitmSession L) : Pays s s.readUpstream := startOpen_of chain (start s _ rfl)

theorem shakes : AllowsSetup (Pays (L := L)) where
  toChain := chain
  handshakes s := (start s .clientHandshake rfl).trans (start _ _ rfl)
  clientDone _ := same rfl
  upstreamDone _ := same rfl
  readClient := readClient
  connect s := start s .connect rfl
  established s := (emit s (e := .answered Session.established) rfl).trans (start _ _ rfl)

theorem forwards : AllowsForward (Pays (L := L)) where
  toChain := chain
  push _ _ _ h := h.emit rfl
  send s ref data := ((emit s (e := .handed ref data) rfl).trans
    (emit _ (e := .sent .upstream data) rfl)).trans (start _ _ rfl)

theorem finishes : AllowsFinish (Pays (L := L)) where
  toChain := chain
  respond s response := respond s _ response
  parser _ _ _ := same rfl
  renew _ := same rfl
  flag _ := same rfl
  readClient := readClient
  readUpstream := readUpstream

theorem handleRequest (s : MitmSession L) (env : Env) (req : HttpRequest) :
    Pays s (s.handleRequest env req) := by
  have htook : Pays s (({ s with currentTransaction := { s.currentTransaction with
      id := env.nextId, host := s.targetHost, port := s.targetPort.toNat, isHttps := true
      request := some env.newRef } } : MitmSession L).emit (.took env.newRef req)) := fun h => h.emit rfl
  exact handleRequest_of chain htook (emit · rfl) (fun s _ => (cancelTimer s).trans fun h => h.emit rfl)
    forwards.writeUpstream

/-- More than a request may have, and no request. -/
theorem handleClientRead {env : Env} {o : Outcome}
    (herror : Op.clientRead.succeeded o = false → Paid s.view)
    (hpaid : ∀ data, o = .bytes data → (s.clientParser.feedRequest data).2 = false →
      maxRequestSize ≤ (s.clientAccumulated ++ data).length → Paid s.view) :
    Pays s (s.handleClientRead env o) := by
  unfold MitmSession.handleClientRead
  split
  · exact refl s
  · cases o with
    | bytes data =>
      have hread : Pays s (s.resetTimer.emit (.read data)) := (resetTimer s).trans (emit _ rfl)
      have hsame : (s.resetTimer.emit (.read data)).clientParser = s.clientParser ∧
          (s.resetTimer.emit (.read data)).clientAccumulated = s.clientAccumulated := ⟨rfl, rfl⟩
      have hpaid' : (s.clientParser.feedRequest data).2 = false →
          maxRequestSize ≤ (s.clientAccumulated ++ data).length → Paid (s.resetTimer.emit (.read data)).view := by
        intro hready hlong hl hended hfailed
        have hall := hpaid data rfl hready hlong hl
          (by simpa [MitmSession.view, MitmSession.resetTimer, MitmSession.cancelTimer,
            MitmSession.cancel, MitmSession.start, MitmSession.emit] using hended)
          (by simpa [MitmSession.view, MitmSession.resetTimer, MitmSession.cancelTimer,
            MitmSession.cancel, MitmSession.start, MitmSession.emit] using hfailed)
        simpa [MitmSession.view, MitmSession.resetTimer, MitmSession.cancelTimer, MitmSession.cancel,
          MitmSession.start, MitmSession.emit, Effect.queuedTo, wroteOf] using hall
      dsimp only
      generalize s.resetTimer.emit (.read data) = v at hread hsame hpaid'
      obtain ⟨hparser, haccumulated⟩ := hsame
      rw [← hparser, ← haccumulated] at hpaid'
      have hfields (parser : HttpParser L) : Pays s { v with
          clientAccumulated := v.clientAccumulated ++ data, clientParser := parser } :=
        hread.trans (same rfl)
      split
      · split
        · rename_i req parser _
          exact (hfields parser).trans (handleRequest _ env req)
        · rename_i parser _
          exact (hfields parser).trans (readClient _)
      · rename_i hready
        split
        · exact (hfields _).trans (readClient _)
        · rename_i hlong
          exact (hfields _).trans (close (hpaid' (by simpa using hready) (not_lt.mp hlong)))
    | ok => exact close (herror rfl)
    | eof => exact close (herror rfl)
    | truncated => exact close (herror rfl)
    | aborted => exact close (herror rfl)
    | failed => exact close (herror rfl)

/-- A session with nothing in its queue has written everything. -/
theorem close_idle {d₁ d₂ d₃ : ℕ} (hq : Orderly d₁ d₂ d₃ s) (hempty : s.clientWriteQueue = []) :
    Pays s s.close := by
  intro h
  have hidle := hq.client.idle hempty
  have hnone : s.io.writes .client = 0 := by omega
  exact close (paid_of_flushed h hq.client (by simp [hempty]) (pendingWrites_nil hnone)) h

theorem finishExchange (hq : Orderly 0 0 0 s) (env : Env) (res : HttpResponse) :
    Pays s (s.finishExchange env res) := by
  have hrespond := respond s .relayed res
  unfold MitmSession.finishExchange
  dsimp only
  split
  · let w : MitmSession L := { s.respond .relayed res with
      clientParser := (s.respond .relayed res).clientParser.reset
      upstreamParser := (s.respond .relayed res).upstreamParser.reset
      clientAccumulated := []
      upstreamAccumulated := []
      currentTransaction := {} }
    have hreset : Pays (s.respond .relayed res) w := same rfl
    exact (hrespond.trans hreset).trans (readClient w)
  · let v : MitmSession L := { s.respond .relayed res with closeAfterWrite := true }
    have hflag : Pays (s.respond .relayed res) v := same rfl
    have hresponded := Keeps.respond s .relayed res 0 0 0 hq
    have hv : Orderly 0 0 0 v := ⟨hresponded.client, hresponded.upstream, hresponded.setup⟩
    split
    · rename_i hempty
      exact (hrespond.trans hflag).trans (close_idle hv hempty)
    · exact hrespond.trans hflag

theorem ended (hpaid : Paid s.view) (env : Env) {o : Outcome} (ho : ∀ data, o ≠ .bytes data) :
    Pays s (s.handleUpstreamRead env o) := by
  unfold MitmSession.handleUpstreamRead
  split
  · exact refl s
  · split
    · rename_i data
      exact absurd rfl (ho data)
    · dsimp only
      split
      · refine (finishes.reportTaken s _).trans (close ?_)
        unfold MitmSession.reportTaken
        split
        · intro hl hended hfailed
          have hall := hpaid hl
            (by simpa [MitmSession.view, MitmSession.respond, MitmSession.emit] using hended)
            (by simpa [MitmSession.view, MitmSession.respond, MitmSession.emit] using hfailed)
          simpa [MitmSession.view, MitmSession.respond, MitmSession.emit, Effect.queuedTo, wroteOf]
            using hall
        · exact hpaid
      · exact close hpaid

theorem handleUpstreamRead (hq : Orderly 0 0 0 s) (env : Env) {o : Outcome}
    (hpaid : (∀ data, o ≠ .bytes data) → Paid s.view) : Pays s (s.handleUpstreamRead env o) := by
  cases o with
  | bytes data =>
    cases hclosed : s.isClosed with
    | true =>
      unfold MitmSession.handleUpstreamRead
      rw [if_pos hclosed]
      exact refl s
    | false =>
      have hreceived : Pays s ((s.resetTimer.emit (.received data)).writeClient .relayed data) :=
        (resetTimer s).trans (relay (s := s.resetTimer) hclosed data)
      have hqueues := ((Keeps.resetTimer s).trans (Keeps.emit s.resetTimer (e := .received data) rfl)).trans
        (Keeps.writeClient (s.resetTimer.emit (.received data)) .relayed data) 0 0 0 hq
      refine hreceived.trans (finishes.received_of hclosed fun v hv _ parser res => finishExchange ?_ env res)
      subst hv
      exact ⟨hqueues.client, hqueues.upstream, hqueues.setup⟩
  | ok | eof | truncated | aborted | failed => exact ended (hpaid (by simp)) env (by simp)

theorem handleClientWrite (hq : Orderly 1 0 0 s) {o : Outcome} (herror : o ≠ .ok → Paid s.view) :
    Pays s (s.handleClientWrite o) := by
  unfold MitmSession.handleClientWrite
  split
  · exact refl s
  · split
    · exact close (herror ‹_›)
    · let v : MitmSession L := { s with clientWriteQueue := s.clientWriteQueue.tail }
      have hpop : Pays s v := same rfl
      dsimp only
      split
      · exact hpop.trans (answers.doClientWrite _)
      · rename_i hempty
        have hempty : s.clientWriteQueue.tail = [] := not_not.mp hempty
        split
        · have hlast := SerialWriter.last hq.client hempty
          have hv : Orderly 0 0 0 v := by
            refine ⟨?_, hq.upstream, hq.setup⟩
            rwa [← hempty] at hlast
          exact hpop.trans (close_idle hv hempty)
        · exact hpop

end Pays

/-- The handler closes the connection, and not because the client has made an error. -/
def closes (s : MitmSession L) : Op → Outcome → Bool
  | .timer, o => o != .aborted
  | .upstreamRead, .bytes _ => false
  | .upstreamRead, _ => true
  | .upstreamWrite _, o => o != .ok
  | .upstreamHandshake, o => o != .ok
  | .rawWrite _, o => o == .ok
  | .established, o => o == .ok
  | .clientRead, .bytes data => !(s.clientParser.feedRequest data).2 &&
      decide (maxRequestSize ≤ (s.clientAccumulated ++ data).length)
  | _, _ => false

def closesAt (s : MitmSession L) (k : ℕ) : Bool := s.io.ready[k]?.any fun e => s.closes e.1 e.2

/-- The upstream has ended, and the client is there. -/
def Ended (s : MitmSession L) : Prop :=
  s.isClosed = false ∧ .upstreamEnded ∈ s.log ∧ .clientFailed ∉ s.log

/-- Nothing waits in the queue, and no write is on the way. -/
def Flushed (s : MitmSession L) : Prop := s.clientWriteQueue.length ≤ 1 ∧ s.io.pendingWrites = []

/-- After the end of the upstream the connection is closed when the queue is flushed. -/
def Patient (s : MitmSession L) : Session.Label → Prop
  | .dispatch k _ => s.closesAt k = true → s.Ended → s.Flushed
  | .close => s.Ended → s.Flushed
  | _ => True

instance (s : MitmSession L) : Decidable s.Ended := inferInstanceAs (Decidable (_ ∧ _ ∧ _))

instance (s : MitmSession L) : Decidable s.Flushed := inferInstanceAs (Decidable (_ ∧ _))

instance (s : MitmSession L) (a : Session.Label) : Decidable (Patient s a) :=
  match a with
  | .dispatch _ _ => inferInstanceAs (Decidable (_ → MitmSession.Ended _ → MitmSession.Flushed _))
  | .close => inferInstanceAs (Decidable (MitmSession.Ended _ → MitmSession.Flushed _))
  | .complete _ _ | .decide _ _ => inferInstanceAs (Decidable True)

theorem paid (h : Ledger s.view) {d₁ d₂ d₃ : ℕ} (hq : Orderly d₁ d₂ d₃ s)
    (hpatient : s.Ended → s.Flushed) : Paid s.view := by
  intro hl hended hfailed
  have hopen : s.isClosed = false := by simpa [view] using hl
  obtain ⟨hshort, hpending⟩ := hpatient ⟨hopen, hended, hfailed⟩
  exact paid_of_flushed h hq.client hshort hpending hl hended hfailed

theorem handle_ledger {env : Env} (h : Ledger s.view) (hq : Orderly (op.writesTo .client).toNat
    (op.weight .send) (early op).toNat s) {o : Outcome}
    (herror : s.isClosed = false → .clientFailed ∉ s.log → op.onClientSocket = true →
      op.succeeded o = true)
    (hpatient : s.closes op o = true → s.Ended → s.Flushed) : Ledger (s.handle env op o).view := by
  have hpaid (hcloses : s.closes op o = true) : Paid s.view := paid h hq (hpatient hcloses)
  have hfailed (hsocket : op.onClientSocket = true) (hnot : op.succeeded o = false) : Paid s.view := by
    intro hl _ hf
    have hopen : s.isClosed = false := by simpa [view] using hl
    exact absurd (herror hopen hf hsocket) (by simp [hnot])
  cases op with
  | timer => exact handleTimeout_of Pays.chain (fun ho => Pays.close (hpaid (by simpa [closes] using ho))) h
  | resolve => exact Pays.shakes.handleResolve (Pays.answers.sendErrorResponse s _ _) o h
  | connect => exact Pays.shakes.handleConnected (Pays.answers.sendErrorResponse s _ _) o h
  | clientRead =>
    refine Pays.handleClientRead (hfailed rfl) (fun data ho hready hlong => hpaid ?_) h
    subst ho
    simp only [closes, hready, Bool.not_false, Bool.true_and]
    exact decide_eq_true hlong
  | clientWrite data => exact Pays.handleClientWrite hq (fun ho => hfailed rfl (by simpa [Op.succeeded] using ho)) h
  | upstreamRead =>
    refine Pays.handleUpstreamRead hq env (fun hnot => hpaid ?_) h
    cases o with
    | bytes data => exact absurd rfl (hnot data)
    | _ => rfl
  | upstreamWrite data =>
    exact Pays.forwards.handleUpstreamWrite (fun ho => Pays.close (hpaid (by simpa [closes] using ho)))
      (Pays.same rfl) Pays.readUpstream h
  | upstreamHandshake =>
    exact Pays.shakes.handleUpstreamHandshake (fun ho => Pays.close (hpaid (by simpa [closes] using ho))) h
  | clientHandshake =>
    exact Pays.shakes.handleClientHandshake
      (fun ho => Pays.close (hfailed rfl (by simpa [Op.succeeded] using ho))) h
  | decision action =>
    exact Pays.forwards.handleDecision (Pays.resetTimer s) (Pays.answers.sendErrorResponse _ _ _) env action h
  | serverWrite data => exact h
  | rawWrite data =>
    by_cases ho : o = .ok
    · exact Pays.close (hpaid (by simp [closes, ho])) h
    · exact Pays.close (hfailed rfl (by simpa [Op.succeeded] using ho)) h
  | established =>
    by_cases ho : o = .ok
    · exact Pays.shakes.handleEstablished (Pays.close (hpaid (by simp [closes, ho]))) env o h
    · exact Pays.shakes.handleEstablished (Pays.close (hfailed rfl (by simpa [Op.succeeded] using ho))) env o h

theorem complete_ledger (h : Ledger s.view) (hone : s.io.writes .client ≤ 1) {k : ℕ} {o : Outcome}
    (hok : s.complete k o = some t) : Ledger t.view := by
  obtain ⟨op, io, hio, hcan, rfl⟩ := complete_spec hok
  unfold canComplete at hcan
  rw [Bool.and_eq_true] at hcan
  exact Ledger.complete (v := s.view) h hone hio hcan.1

theorem dispatch_ledger {env : Env} (h : Ledger s.view) (hq : Orderly 0 0 0 s) {k : ℕ}
    (hpatient : s.closesAt k = true → s.Ended → s.Flushed)
    (hok : s.dispatch k env = some t) : Ledger t.view := by
  obtain ⟨op, o, io, hio, rfl⟩ := dispatch_spec hok
  have hafter := taken_orderly hq hio
  obtain ⟨he, rfl⟩ := Executor.take_spec hio
  simp only [closesAt, he, Option.any_some] at hpatient
  have htaken : Ledger (view { s with io := { s.io with ready := s.io.ready.eraseIdx k } }) :=
    h.keep id rfl (fun _ e hmem _ => Or.inl (List.mem_of_mem_eraseIdx hmem))
      ⟨[], (List.append_nil _).symm, by simp⟩
  refine handle_ledger htaken hafter (fun hopen hf hsocket => ?_) (fun hcloses => ?_)
  · have hl : s.view.live = true := by simpa [view] using hopen
    exact h.succeeded hl hf _ (List.mem_of_getElem? he) hsocket
  · exact hpatient hcloses

theorem decided_ledger (h : Ledger s.view) (ref : Ref) (action : InterceptAction) :
    Ledger (s.decided ref action).view := by
  refine h.keep id rfl (fun _ e hmem hsocket => ?_) ⟨[_], rfl, by simp [Effect.books]⟩
  rcases List.mem_append.mp hmem with hmem | hmem
  · exact Or.inl hmem
  · rw [List.mem_singleton.mp hmem] at hsocket
    cases hsocket

theorem started_ledger (targetHost : Bytes) (targetPort : UInt16) :
    Ledger (started targetHost targetPort : MitmSession L).view := by
  refine ⟨fun _ _ => rfl, fun _ _ e he => (by cases he), rfl, ?_⟩
  intro l l' hl
  cases l <;> cases hl

theorem reached_ledger (h : (system L).ReachedUnder Patient s) : Ledger s.view := by
  refine h.invariant_of (J := Orderly 0 0 0) (I := fun s => Ledger s.view)
    (fun s hs => reached_orderly hs.reached) ?_ ?_
  · rintro _ ⟨targetHost, targetPort, rfl⟩
    exact started_ledger targetHost targetPort
  · intro s a t hq hs hpatient hstep
    cases moves_of_step hstep with
    | complete ht =>
      have hone : s.io.writes .client ≤ 1 := hq.client.one
      exact complete_ledger hs hone ht
    | handled _ ht => exact dispatch_ledger hs hq hpatient ht
    | decide => exact decided_ledger hs _ _
    | close => exact Pays.close (paid hs hq hpatient) hs

end MitmSession

/-- A session that waits for its queue after the end of the upstream truncates no response. -/
theorem nothing_truncated {L : Llhttp} :
    (∀ r, (Session.system L).ReachedUnder Session.Patient r → WrittenBefore r.session.log) ∧
      ∀ s, (MitmSession.system L).ReachedUnder MitmSession.Patient s → WrittenBefore s.log :=
  ⟨fun _ hr => (Session.reached_ledger hr).settled, fun _ hs => (MitmSession.reached_ledger hs).settled⟩

section Examples

open Session (started env1 sentRun)

/-- One byte comes from the upstream and is written, then the upstream ends. -/
def patientRun : List Session.Label := sentRun ++ [.complete 1 (.bytes [104]), .dispatch 1 env1,
  .complete 1 .ok, .complete 1 .eof, .dispatch 3 env1]

/-- The same over TLS: the name is resolved, the upstream dialled, both handshakes are done. -/
def patientTlsRun : List Session.Label :=
  [.complete 1 .ok, .dispatch 0 {}, .complete 1 .ok, .dispatch 0 {}, .complete 1 .ok, .dispatch 0 {},
    .complete 1 .ok, .complete 1 .ok, .dispatch 0 {}, .dispatch 0 {},
    .complete 1 (.bytes simpleGet.message.wire), .dispatch 0 {}, .complete 1 .ok, .dispatch 1 env1,
    .complete 1 (.bytes [104]), .dispatch 1 env1, .complete 1 .ok, .complete 1 .eof, .dispatch 3 env1]

theorem nothing_truncated_patientRun :
    (∃ r, (Session.system (answering [])).runUnder Session.Patient { session := started false }
      patientRun = some r ∧ WrittenBefore r.session.log) ∧
    ∃ s, (MitmSession.system (answering [])).runUnder MitmSession.Patient (MitmSession.started [] 443)
      patientTlsRun = some s ∧ WrittenBefore s.log := by
  have hrun : ((Session.system (answering [])).runUnder Session.Patient { session := started false }
      patientRun).isSome = true := by decide
  have htls : ((MitmSession.system (answering [])).runUnder MitmSession.Patient
      (MitmSession.started [] 443) patientTlsRun).isSome = true := by decide
  obtain ⟨r, hr⟩ := Option.isSome_iff_exists.mp hrun
  obtain ⟨s, hs⟩ := Option.isSome_iff_exists.mp htls
  exact ⟨⟨r, hr, nothing_truncated.1 r (.runUnder (.init ⟨false, rfl⟩) hr)⟩,
    ⟨s, hs, nothing_truncated.2 s (.runUnder (.init ⟨[], 443, rfl⟩) hs)⟩⟩

/-- The handler of the end runs while the byte is on the way to the client. -/
def hastyRun : List Session.Label := sentRun ++ [.complete 1 (.bytes [104]), .dispatch 1 env1,
  .complete 2 .eof, .dispatch 2 env1]

theorem hasty_end_truncates :
    ¬ ∀ r, (Session.system (answering [])).Reached r → WrittenBefore r.session.log := by
  intro hall
  have hrun : ((Session.system (answering [])).run { session := started false } hastyRun).any
      (fun r => r.session.log.getLast? == some .closed &&
        r.session.log.dropLast.contains .upstreamEnded &&
        !r.session.log.dropLast.contains .clientFailed &&
        queuedTo .client r.session.log.dropLast != wroteOf r.session.log.dropLast) = true := by decide
  obtain ⟨r, hr, hcut⟩ := (Option.any_eq_true _ _).mp hrun
  simp only [Bool.and_eq_true, beq_iff_eq, List.contains_iff_mem, Bool.not_eq_true', bne_iff_ne, ne_eq,
    ← Bool.not_eq_true] at hcut
  obtain ⟨⟨⟨hlast, hended⟩, hfailed⟩, hmissing⟩ := hcut
  have hsplit := (List.dropLast_append_getLast? _ hlast).symm
  exact hmissing (hall r (.run (.init ⟨false, rfl⟩) hr) _ _ hsplit hended hfailed).2

end Examples

end BurpTUI
