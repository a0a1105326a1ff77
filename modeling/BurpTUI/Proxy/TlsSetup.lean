import BurpTUI.Base.Grows
import BurpTUI.Proxy.MitmFlow
import BurpTUI.Proxy.OneAnswer

namespace BurpTUI

/-- What an effect of a TLS session goes through: the raw socket of the client, or the TLS streams. -/
inductive Layer
  | raw
  | tls
  deriving DecidableEq, Repr

def Effect.layer : Effect → Option Layer
  | .answered _ => some .raw
  | .read _ => some .tls
  | .took _ _ => some .tls
  | .pushed _ => some .tls
  | .handed _ _ => some .tls
  | .received _ => some .tls
  | .queued _ _ => some .tls
  | _ => none

/-- What was written to the raw socket of the client. -/
def answeredOf (log : List Effect) : List Bytes :=
  log.filterMap fun
    | .answered data => some data
    | _ => none

variable {log log' : List Effect}

theorem answeredOf_grows (h : Grows (fun e => e.layer ≠ some .raw) log log') :
    answeredOf log' = answeredOf log := by
  obtain ⟨es, rfl, hes⟩ := h
  have hnone : answeredOf es = [] := by
    rw [answeredOf, List.filterMap_eq_nil_iff]
    intro e he
    have hlayer := hes e he
    cases e <;> first | rfl | exact absurd rfl hlayer
  rw [answeredOf, List.filterMap_append, ← answeredOf, ← answeredOf, hnone, List.append_nil]

theorem answeredOf_snoc (log : List Effect) (data : Bytes) :
    answeredOf (log ++ [.answered data]) = answeredOf log ++ [data] := by
  simp [answeredOf]

/-- The server of a CONNECT request is looked up and dialled. -/
def Op.dials : Op → Bool
  | .resolve => true
  | .connect => true
  | _ => false

/-- The client is told so, and the streams are set up. -/
def Op.secures : Op → Bool
  | .established => true
  | .clientHandshake => true
  | .upstreamHandshake => true
  | _ => false

theorem Io.dials_le (io : Io) : io.outstanding Op.dials ≤ io.count .dial := by
  have hdial (op : Op) (h : op.dials = true) : (op.kind == .dial) = true := by
    cases op <;> first | rfl | cases h
  refine Nat.add_le_add (List.countP_mono_left fun op _ => hdial op) (List.countP_mono_left fun e _ => hdial e.1)

namespace MitmSession

variable {L : Llhttp} {b : Flow} {new : Ref} {s t u : MitmSession L} {op : Op} {p q : Effect → Prop} {m n : ℕ}

/-- From `s` to `t` only effects with `p` are added, and the connections are set up no further. -/
structure Adds (p : Effect → Prop) (s t : MitmSession L) : Prop where
  log : Grows p s.log t.log
  client : t.clientHandshakeDone = s.clientHandshakeDone
  upstream : t.upstreamHandshakeDone = s.upstreamHandshakeDone
  dials : t.io.outstanding Op.dials = s.io.outstanding Op.dials
  secures : t.io.outstanding Op.secures = s.io.outstanding Op.secures

/-- Nothing goes over either layer. -/
abbrev Silently (s t : MitmSession L) : Prop := Adds (fun e => e.layer = none) s t

/-- Nothing goes to the raw socket. -/
abbrev Securely (s t : MitmSession L) : Prop := Adds (fun e => e.layer ≠ some .raw) s t

namespace Adds

theorem refl (s : MitmSession L) : Adds p s s := ⟨.refl _, rfl, rfl, rfl, rfl⟩

theorem trans (h : Adds p s t) (h' : Adds p t u) : Adds p s u where
  log := h.log.trans h'.log
  client := h'.client.trans h.client
  upstream := h'.upstream.trans h.upstream
  dials := h'.dials.trans h.dials
  secures := h'.secures.trans h.secures

theorem mono (h : Adds p s t) (hpq : ∀ e, p e → q e) : Adds q s t := by
  obtain ⟨es, hes, hp⟩ := h.log
  exact ⟨⟨es, hes, fun e he => hpq e (hp e he)⟩, h.client, h.upstream, h.dials, h.secures⟩

theorem same (hlog : t.log = s.log) (hio : t.io = s.io)
    (hflags : (t.clientHandshakeDone, t.upstreamHandshakeDone) =
      (s.clientHandshakeDone, s.upstreamHandshakeDone)) : Adds p s t := by
  obtain ⟨hclient, hupstream⟩ := Prod.mk.inj hflags
  exact ⟨hlog ▸ .refl _, hclient, hupstream, by rw [hio], by rw [hio]⟩

theorem emit (s : MitmSession L) {e : Effect} (he : p e) : Adds p s (s.emit e) :=
  ⟨.snoc _ he, rfl, rfl, rfl, rfl⟩

theorem start (s : MitmSession L) (op : Op) (hop : op.dials = false ∧ op.secures = false) :
    Adds p s (s.start op) := by
  refine ⟨.refl _, rfl, rfl, ?_, ?_⟩
  · rw [MitmSession.start, Executor.outstanding_start, hop.1]
    rfl
  · rw [MitmSession.start, Executor.outstanding_start, hop.2]
    rfl

theorem cancel (s : MitmSession L) (r : Op → Bool) : Adds p s (s.cancel r) :=
  ⟨.refl _, rfl, rfl, Executor.outstanding_cancel s.io r _ _, Executor.outstanding_cancel s.io r _ _⟩

theorem resetTimer (s : MitmSession L) : Adds p s s.resetTimer :=
  (cancel s _).trans (start _ .timer ⟨rfl, rfl⟩)

end Adds

namespace Silently

theorem securely (h : Silently s t) : Securely s t := h.mono fun e he => by rw [he]; simp

theorem closes : AllowsClose (L := L) Silently where
  refl := .refl
  trans := .trans
  cancel := .cancel
  removed s _ := .emit s rfl
  gone _ := .same rfl rfl rfl
  closed s := .emit s rfl

theorem writes : AllowsWrite (L := L) Silently where
  refl := .refl
  trans := .trans
  send s data := by
    have hsent : Silently s (s.emit (.sent .client data)) := .emit s rfl
    exact hsent.trans (.start _ _ ⟨rfl, rfl⟩)

theorem close (s : MitmSession L) : Silently s s.close := closes.close s

theorem respond (s : MitmSession L) (origin : Origin) (response : HttpResponse) :
    Silently s (s.respond origin response) := ⟨.snoc _ rfl, rfl, rfl, rfl, rfl⟩

theorem readClient (s : MitmSession L) : Silently s s.readClient :=
  startOpen_of closes.toChain (.start s _ ⟨rfl, rfl⟩)

theorem readUpstream (s : MitmSession L) : Silently s s.readUpstream :=
  startOpen_of closes.toChain (.start s _ ⟨rfl, rfl⟩)

theorem onBothHandshakesComplete (s : MitmSession L) : Silently s s.onBothHandshakesComplete := by
  unfold MitmSession.onBothHandshakesComplete
  split
  · exact .refl s
  · exact readClient s

theorem complete {k : ℕ} {o : Outcome} (hok : s.complete k o = some t) : Silently s t := by
  obtain ⟨op, io, hio, -, rfl⟩ := complete_spec hok
  refine ⟨⟨_, rfl, fun e he => ?_⟩, rfl, rfl, Executor.outstanding_complete hio _,
    Executor.outstanding_complete hio _⟩
  rcases Op.mem_completion he with ⟨data, -, -, rfl⟩ | ⟨-, -, rfl⟩ | ⟨-, -, rfl⟩ <;> rfl

theorem decided (s : MitmSession L) (ref : Ref) (action : InterceptAction) :
    Silently s (s.decided ref action) :=
  ⟨.snoc _ rfl, rfl, rfl, Executor.outstanding_post s.io _ _ _, Executor.outstanding_post s.io _ _ _⟩

end Silently

namespace Securely

theorem writes : AllowsWrite (L := L) Securely where
  refl := .refl
  trans := .trans
  send s data := (Silently.writes.send s data).securely

theorem forwards : AllowsForward (L := L) Securely where
  toChain := writes.toChain
  push _ _ _ := ⟨.snoc _ (by simp [Effect.layer]), rfl, rfl, rfl, rfl⟩
  send s _ _ := ((Adds.emit s (by simp [Effect.layer])).trans (.emit _ (by simp [Effect.layer]))).trans
    (.start _ (.upstreamWrite _) ⟨rfl, rfl⟩)

theorem finishes : AllowsFinish (L := L) Securely where
  toChain := writes.toChain
  respond s response := (Silently.respond s _ response).securely
  parser _ _ _ := .same rfl rfl rfl
  renew _ := .same rfl rfl rfl
  flag _ := .same rfl rfl rfl
  readClient s := (Silently.readClient s).securely
  readUpstream s := (Silently.readUpstream s).securely

theorem writeClient (s : MitmSession L) (origin : Origin) (data : Bytes) :
    Securely s (s.writeClient origin data) :=
  writes.writeClient fun _ => ⟨.snoc _ (by simp [Effect.layer]), rfl, rfl, rfl, rfl⟩

/-- After the handshake of the client nothing goes past the queue. -/
theorem sendErrorResponse (hdone : s.clientHandshakeDone = true) (statusCode : ℕ) (statusText : Bytes) :
    Securely s (s.sendErrorResponse statusCode statusText) := by
  have hflag : Securely s { s with closeAfterWrite := true } := .same rfl rfl rfl
  have hresponse := hflag.trans (Silently.respond { s with closeAfterWrite := true } .generated
    { version := str "HTTP/1.1", statusCode := statusCode, statusText := statusText }).securely
  unfold MitmSession.sendErrorResponse
  dsimp only
  split
  · exact .refl s
  · rw [if_pos (by exact hdone)]
    exact hresponse.trans (writeClient _ _ _)

theorem handleRequest (s : MitmSession L) (env : Env) (req : HttpRequest) :
    Securely s (s.handleRequest env req) :=
  handleRequest_of writes.toChain ⟨.snoc _ (by simp [Effect.layer]), rfl, rfl, rfl, rfl⟩
    (fun s => .emit s (by simp [Effect.layer]))
    (fun s _ => (Adds.cancel s _).trans ⟨.snoc _ (by simp [Effect.layer]), rfl, rfl, rfl, rfl⟩)
    forwards.writeUpstream

theorem handleClientRead (s : MitmSession L) (env : Env) (o : Outcome) :
    Securely s (s.handleClientRead env o) :=
  handleClientRead_any writes.toChain
    (fun _ _ => (Adds.resetTimer s).trans (.emit _ (by simp [Effect.layer])))
    (fun _ _ _ => .same rfl rfl rfl) finishes.readClient (fun s => (Silently.close s).securely)
    (fun u req => handleRequest u env req) o

theorem handleDecision (hdone : s.clientHandshakeDone = true) (env : Env) (action : InterceptAction) :
    Securely s (s.handleDecision env action) := by
  have hdropped : Securely s.resetTimer
      (s.resetTimer.sendErrorResponse 502 (str "Request Dropped by BurpTUI")) :=
    sendErrorResponse (s := s.resetTimer) hdone _ _
  exact forwards.handleDecision (.resetTimer s) hdropped env action

theorem handleUpstreamWrite (s : MitmSession L) (o : Outcome) : Securely s (s.handleUpstreamWrite o) :=
  forwards.handleUpstreamWrite (fun _ => (Silently.close s).securely) (.same rfl rfl rfl)
    finishes.readUpstream

theorem handleUpstreamRead (s : MitmSession L) (env : Env) (o : Outcome) :
    Securely s (s.handleUpstreamRead env o) :=
  finishes.handleUpstreamRead (fun s => (Silently.close s).securely) (fun _ data =>
    ((Adds.resetTimer s).trans (.emit _ (by simp [Effect.layer]))).trans (writeClient _ _ data)) env o

end Securely

/-- How far the connections are set up, with `d` of the dialling and `e` of the securing operations counted
as well, whose handler runs. -/
inductive SetupPhase (d e : ℕ) (s : MitmSession L) : Prop
  | dialling (answered : answeredOf s.log = []) (secures : s.io.outstanding Op.secures + e = 0)
    (flags : s.clientHandshakeDone = false ∧ s.upstreamHandshakeDone = false)
  | refused (answered : answeredOf s.log = [errorResponse 502 (str "Bad Gateway")])
    (dials : s.io.outstanding Op.dials + d = 0) (secures : s.io.outstanding Op.secures + e = 0)
    (flags : s.clientHandshakeDone = false ∧ s.upstreamHandshakeDone = false)
  | connected (answered : answeredOf s.log = [Session.established])
    (dials : s.io.outstanding Op.dials + d = 0)

/-- Something goes over TLS only behind the answer to the CONNECT request. -/
def AnsweredFirst (log : List Effect) : Prop :=
  Everywhere (fun before e => e.layer = some .tls → answeredOf before = [Session.established]) log

/-- The invariant. -/
structure Secured (d e : ℕ) (s : MitmSession L) : Prop where
  order : AnsweredFirst s.log
  done : (∃ e ∈ s.log, e.layer = some .tls) → s.clientHandshakeDone = true ∧ s.upstreamHandshakeDone = true
  phase : SetupPhase d e s

abbrev SecuredAfter (op : Op) (s : MitmSession L) : Prop := Secured op.dials.toNat op.secures.toNat s

theorem SetupPhase.adds {d e : ℕ} (h : SetupPhase d e s) (ha : Adds p s t)
    (hp : ∀ e, p e → e.layer ≠ some .raw) (hd : m ≤ d) (he : n ≤ e) : SetupPhase m n t := by
  have hanswered : answeredOf t.log = answeredOf s.log := answeredOf_grows (ha.mono hp).log
  have hdials := ha.dials
  have hsecures := ha.secures
  cases h with
  | dialling answered secures flags =>
    exact .dialling (hanswered.trans answered) (by omega) (ha.client ▸ ha.upstream ▸ flags)
  | refused answered dials secures flags =>
    exact .refused (hanswered.trans answered) (by omega) (by omega) (ha.client ▸ ha.upstream ▸ flags)
  | connected answered dials => exact .connected (hanswered.trans answered) (by omega)

namespace Secured

/-- Nothing goes over either layer. -/
theorem silently {d e : ℕ} (h : Secured d e s) (ha : Silently s t) (hd : m ≤ d) (he : n ≤ e) :
    Secured m n t := by
  refine ⟨h.order.grow ha.log fun e he _ htls => ?_, fun ⟨e, hmem, htls⟩ => ?_,
    h.phase.adds ha (fun e he => by rw [he]; simp) hd he⟩
  · rw [show e.layer = none from he] at htls
    cases htls
  · rw [ha.client, ha.upstream]
    obtain ⟨es, hes, hnone⟩ := ha.log
    rw [hes] at hmem
    rcases List.mem_append.mp hmem with hmem | hmem
    · exact h.done ⟨e, hmem, htls⟩
    · rw [hnone e hmem] at htls
      cases htls

/-- After the handshakes things go over TLS. -/
theorem securely {d e : ℕ} (h : Secured d e s) (ha : Securely s t)
    (hdone : s.clientHandshakeDone = true ∧ s.upstreamHandshakeDone = true) (hd : m ≤ d) (he : n ≤ e) :
    Secured m n t := by
  have hanswered : answeredOf s.log = [Session.established] := by
    cases h.phase with
    | dialling answered secures flags => exact absurd (hdone.1.symm.trans flags.1) (by simp)
    | refused answered dials secures flags => exact absurd (hdone.1.symm.trans flags.1) (by simp)
    | connected answered => exact answered
  refine ⟨?_, fun _ => by rwa [ha.client, ha.upstream], h.phase.adds ha (fun _ => id) hd he⟩
  obtain ⟨es, hes, hraw⟩ := ha.log
  rw [hes]
  clear hes
  have horder := h.order
  generalize s.log = log at horder hanswered
  induction es generalizing log with
  | nil => rwa [List.append_nil]
  | cons e es ih =>
    rw [List.append_cons]
    refine ih (fun e' he' => hraw e' (by simp [he'])) (log ++ [e]) (horder.snoc fun _ => hanswered) ?_
    rw [answeredOf_grows (.snoc log (hraw e (by simp))), hanswered]

/-- The handshake of a side is done. -/
theorem handshake {e : ℕ} (h : Secured 0 (e + 1) s) (hlog : t.log = s.log) (hio : t.io = s.io)
    (hclient : s.clientHandshakeDone = true → t.clientHandshakeDone = true)
    (hupstream : s.upstreamHandshakeDone = true → t.upstreamHandshakeDone = true) : Secured 0 0 t := by
  refine ⟨hlog ▸ h.order, fun hmem => ?_, ?_⟩
  · rw [hlog] at hmem
    exact ⟨hclient (h.done hmem).1, hupstream (h.done hmem).2⟩
  · cases h.phase with
    | connected answered dials => exact .connected (hlog ▸ answered) (hio ▸ dials)
    | dialling answered secures flags => omega
    | refused answered dials secures flags => omega

theorem close {d e : ℕ} (h : Secured d e s) : Secured 0 0 s.close :=
  h.silently (Silently.close s) (Nat.zero_le d) (Nat.zero_le e)

theorem stay {d e : ℕ} (h : Secured d e s) : Secured 0 0 s :=
  h.silently (.refl s) (Nat.zero_le d) (Nat.zero_le e)

/-- Something is written to the raw socket. Nothing was before. -/
theorem answer {d e : ℕ} (h : Secured d e s) (hnone : answeredOf s.log = [])
    (hlog : ∃ es data, t.log = s.log ++ es ++ [.answered data] ∧ ∀ e ∈ es, e.layer = none)
    (hphase : ∀ data, answeredOf t.log = [data] → SetupPhase m n t) : Secured m n t := by
  obtain ⟨es, data, hlog, hes⟩ := hlog
  have hquiet : AnsweredFirst (s.log ++ es) := h.order.grow ⟨es, rfl, hes⟩ fun e he _ htls => by
    rw [show e.layer = none from he] at htls
    cases htls
  have hanswered : answeredOf t.log = [data] := by
    rw [hlog, answeredOf_snoc, answeredOf_grows ⟨es, rfl, fun e he => by simp [hes e he]⟩, hnone]
    rfl
  refine ⟨?_, fun ⟨e, hmem, htls⟩ => ?_, hphase data hanswered⟩
  · rw [hlog]
    refine hquiet.snoc fun htls => ?_
    cases htls
  · -- so far nothing went over TLS
    rw [hlog] at hmem
    exfalso
    rcases List.mem_append.mp hmem with hmem | hmem
    · rcases List.mem_append.mp hmem with hmem | hmem
      · obtain ⟨l, l', hl⟩ := List.append_of_mem hmem
        have hbefore : answeredOf l = [Session.established] := h.order l e l' hl htls
        rw [hl, answeredOf, List.filterMap_append, ← answeredOf, hbefore] at hnone
        cases hnone
      · rw [hes e hmem] at htls
        cases htls
    · rw [List.mem_singleton.mp hmem] at htls
      cases htls

end Secured

/-- While the server is dialled nothing was answered, and nothing else of the setup is outstanding. -/
theorem SecuredAfter.dialling (h : SecuredAfter op s) (hs : InvAfter b new op s) (hop : op.dials = true) :
    answeredOf s.log = [] ∧ s.io.outstanding Op.dials = 0 ∧ s.io.outstanding Op.secures = 0 ∧
      s.clientHandshakeDone = false ∧ s.upstreamHandshakeDone = false := by
  have hkind : op.kind = .dial := by cases op <;> first | rfl | cases hop
  have hclient := hs.setup.client
  have hle := Io.dials_le s.io
  simp only [Op.weight, hkind, if_true, reduceCtorEq, if_false] at hclient
  cases h.phase with
  | dialling answered secures flags => exact ⟨answered, by omega, by omega, flags.1, flags.2⟩
  | refused answered dials secures flags => simp [hop] at dials
  | connected answered dials => simp [hop] at dials

/-- The server cannot be reached. -/
theorem SecuredAfter.refuse (h : SecuredAfter op s) (hs : InvAfter b new op s) (hop : op.dials = true) :
    Secured 0 0 (s.sendErrorResponse 502 (str "Bad Gateway")) := by
  obtain ⟨hnone, hdials, hsecures, hclient, hupstream⟩ := h.dialling hs hop
  unfold sendErrorResponse
  split
  · exact h.stay
  · dsimp only
    rw [if_neg (by exact Bool.eq_false_iff.mp hclient)]
    refine h.answer hnone ⟨[_], _, rfl, fun e he => ?_⟩ fun data hanswered => ?_
    · rw [List.mem_singleton.mp he]
      rfl
    · refine .refused ?_ ?_ ?_ ⟨hclient, hupstream⟩
      · have hbefore (tx : HttpTransaction) : answeredOf (s.log ++ [.reported .generated tx]) = [] :=
          (answeredOf_grows (.snoc s.log (by simp [Effect.layer]))).trans hnone
        exact (answeredOf_snoc _ _).trans
          (congrArg (· ++ [errorResponse 502 (str "Bad Gateway")]) (hbefore _))
      · exact (Executor.outstanding_start s.io _ _).trans hdials
      · exact (Executor.outstanding_start s.io _ _).trans hsecures

theorem handleResolve_secured (h : SecuredAfter .resolve s) (hs : InvAfter b new .resolve s) (o : Outcome) :
    Secured 0 0 (s.handleResolve o) := by
  have hrefused := h.refuse hs rfl
  obtain ⟨hnone, -, hsecures, hflags⟩ := h.dialling hs rfl
  unfold handleResolve
  split
  · exact h.stay
  · split
    · exact hrefused
    · refine ⟨h.order, h.done, .dialling hnone ?_ hflags⟩
      exact (Executor.outstanding_start s.io .connect _).trans hsecures

theorem handleConnected_secured (h : SecuredAfter .connect s) (hs : InvAfter b new .connect s) (o : Outcome) :
    Secured 0 0 (s.handleConnected o) := by
  have hrefused := h.refuse hs rfl
  obtain ⟨hnone, hdials, -, -⟩ := h.dialling hs rfl
  unfold handleConnected
  split
  · exact h.stay
  · rename_i hopen
    split
    · exact hrefused
    · unfold sendEstablishedResponse
      rw [if_neg hopen]
      refine h.answer hnone ⟨[], _, (by rw [List.append_nil]; rfl), by simp⟩ fun data _ => .connected ?_ ?_
      · exact (answeredOf_snoc s.log _).trans (by rw [hnone]; rfl)
      · exact (Executor.outstanding_start s.io .established _).trans hdials

/-- The handshakes are started behind the answer. -/
theorem handleEstablished_secured (h : SecuredAfter .established s) (env : Env) (o : Outcome) :
    Secured 0 0 (s.handleEstablished env o) := by
  unfold handleEstablished startTlsHandshakes
  split
  · exact h.stay
  · split
    · exact h.close
    · split
      · exact h.close
      · refine ⟨h.order, h.done, ?_⟩
        cases h.phase with
        | dialling answered secures flags => simp [Op.secures] at secures
        | refused answered dials secures flags => simp [Op.secures] at secures
        | connected answered dials =>
          refine .connected answered ?_
          show Executor.outstanding ((s.io.start .clientHandshake).start .upstreamHandshake) Op.dials = 0
          rw [Executor.outstanding_start, Executor.outstanding_start]
          exact dials

theorem handleClientHandshake_secured (h : SecuredAfter .clientHandshake s) (o : Outcome) :
    Secured 0 0 (s.handleClientHandshake o) := by
  have hdone : Secured 0 0 { s with clientHandshakeDone := true } :=
    h.handshake rfl rfl (fun _ => rfl) id
  unfold handleClientHandshake
  split
  · exact h.stay
  · split
    · exact h.close
    · dsimp only
      split
      · exact hdone.silently (.onBothHandshakesComplete _) (Nat.le_refl 0) (Nat.le_refl 0)
      · exact hdone

theorem handleUpstreamHandshake_secured (h : SecuredAfter .upstreamHandshake s) (o : Outcome) :
    Secured 0 0 (s.handleUpstreamHandshake o) := by
  have hdone : Secured 0 0 { s with upstreamHandshakeDone := true } :=
    h.handshake rfl rfl id fun _ => rfl
  unfold handleUpstreamHandshake
  split
  · exact h.stay
  · split
    · exact h.close
    · dsimp only
      split
      · exact hdone.silently (.onBothHandshakesComplete _) (Nat.le_refl 0) (Nat.le_refl 0)
      · exact hdone

theorem handle_secured {env : Env} (h : SecuredAfter op s) (hs : InvAfter b new op s) (o : Outcome) :
    Secured 0 0 (s.handle env op o) := by
  cases op with
  | resolve => exact handleResolve_secured h hs o
  | connect => exact handleConnected_secured h hs o
  | established => exact handleEstablished_secured h env o
  | clientHandshake => exact handleClientHandshake_secured h o
  | upstreamHandshake => exact handleUpstreamHandshake_secured h o
  | timer =>
    exact h.silently (handleTimeout_of Silently.closes.toChain fun _ => .close s) (Nat.le_refl 0) (Nat.le_refl 0)
  | clientWrite data =>
    exact h.silently (Silently.writes.handleClientWrite .close (.same rfl rfl rfl) o) (Nat.le_refl 0)
      (Nat.le_refl 0)
  | rawWrite data => exact h.close
  | serverWrite data => exact h.stay
  | clientRead =>
    exact h.securely (.handleClientRead s env o) (hs.done (Or.inl rfl)) (Nat.le_refl 0) (Nat.le_refl 0)
  | upstreamRead =>
    exact h.securely (.handleUpstreamRead s env o) (hs.done (Or.inr (Or.inr (Or.inl rfl))))
      (Nat.le_refl 0) (Nat.le_refl 0)
  | upstreamWrite data =>
    exact h.securely (.handleUpstreamWrite s o) (hs.done (Or.inr (Or.inl rfl))) (Nat.le_refl 0) (Nat.le_refl 0)
  | decision action =>
    have hdone := hs.done (Or.inr (Or.inr (Or.inr ⟨action, rfl⟩)))
    exact h.securely (.handleDecision hdone.1 env action) hdone (Nat.le_refl 0) (Nat.le_refl 0)

theorem taken_secured (h : Secured 0 0 s) {k : ℕ} {o : Outcome} {io : Io}
    (hio : s.io.take k = some ((op, o), io)) : SecuredAfter op { s with io := io } := by
  have hdials := Executor.outstanding_take hio Op.dials
  have hsecures := Executor.outstanding_take hio Op.secures
  refine ⟨h.order, h.done, ?_⟩
  cases h.phase with
  | dialling answered secures flags => exact .dialling answered (by rw [hsecures] at secures; omega) flags
  | refused answered dials secures flags =>
    exact .refused answered (by rw [hdials] at dials; omega) (by rw [hsecures] at secures; omega) flags
  | connected answered dials => exact .connected answered (by rw [hdials] at dials; omega)

theorem reached_secured (h : (system L).Reached s) : Secured 0 0 s := by
  refine h.invariant_of (J := Holds) (I := Secured 0 0) (fun s hs => reached_holds hs) ?_ ?_
  · rintro _ ⟨targetHost, targetPort, rfl⟩
    exact ⟨.nil, fun ⟨e, hmem, _⟩ => (by cases hmem), .dialling rfl rfl ⟨rfl, rfl⟩⟩
  · intro s a t hs hr _ hstep
    cases moves_of_step hstep with
    | complete ht => exact hr.silently (.complete ht) (Nat.le_refl 0) (Nat.le_refl 0)
    | @handled k env _ _ ht =>
      obtain ⟨op, o, io, hio, rfl⟩ := dispatch_spec ht
      exact handle_secured (taken_secured hr hio) (taken_inv hs hio env.newRef) o
    | decide => exact hr.silently (.decided s _ _) (Nat.le_refl 0) (Nat.le_refl 0)
    | close => exact hr.close

end MitmSession

/-- In every run of a TLS session the client is answered at most once in the clear: with the response to its
CONNECT request, or with 502. Nothing of a request or a response is read, queued or handed on before the
first of these, and before both handshakes are done. -/
theorem nothing_before_tls {L : Llhttp} {s : MitmSession L} (h : (MitmSession.system L).Reached s) :
    (answeredOf s.log = [] ∨ answeredOf s.log = [MitmSession.errorResponse 502 (str "Bad Gateway")] ∨
      answeredOf s.log = [Session.established]) ∧
    MitmSession.AnsweredFirst s.log ∧
    ((∃ e ∈ s.log, e.layer = some .tls) → s.clientHandshakeDone = true ∧ s.upstreamHandshakeDone = true) := by
  obtain ⟨horder, hdone, hphase⟩ := MitmSession.reached_secured h
  refine ⟨?_, horder, hdone⟩
  cases hphase with
  | dialling answered => exact .inl answered
  | refused answered => exact .inr (.inl answered)
  | connected answered => exact .inr (.inr answered)

section Examples

open Session (env1)

/-- Both handshakes are done and a request is read. -/
def securedRun : List Session.Label :=
  [.complete 1 .ok, .dispatch 0 {}, .complete 1 .ok, .dispatch 0 {}, .complete 1 .ok, .dispatch 0 {},
    .complete 1 .ok, .complete 1 .ok, .dispatch 0 {}, .dispatch 0 {},
    .complete 1 (.bytes simpleGet.message.wire), .dispatch 0 {}]

theorem nothing_before_tls_securedRun : ∃ s, (MitmSession.system (answering [])).run
    (MitmSession.started [] 443) securedRun = some s ∧ answeredOf s.log = [Session.established] ∧
      MitmSession.AnsweredFirst s.log ∧ s.clientHandshakeDone = true ∧ s.upstreamHandshakeDone = true := by
  have hrun : ((MitmSession.system (answering [])).run (MitmSession.started [] 443) securedRun).any (fun s =>
      answeredOf s.log == [Session.established] && s.log.any fun e => e.layer == some .tls) = true := by decide
  obtain ⟨s, hs, hlog⟩ := (Option.any_eq_true _ _).mp hrun
  rw [Bool.and_eq_true, beq_iff_eq, List.any_eq_true] at hlog
  obtain ⟨hanswered, e, hmem, htls⟩ := hlog
  obtain ⟨-, horder, hdone⟩ := nothing_before_tls (.run (.init ⟨[], 443, rfl⟩) hs)
  exact ⟨s, hs, hanswered, horder, hdone ⟨e, hmem, beq_iff_eq.mp htls⟩⟩

end Examples

end BurpTUI
