import BurpTUI.Proxy.SessionFlow

/-! The request that a session keeps for the server: when it reads the server it has none left. -/

namespace BurpTUI.Session

open BurpTUI.Flow (Idle Cleared Sound SoundAfter)

variable {L : Llhttp} {b : Flow} {new ref : Ref} {s t u : Session L} {op : Op}

/-- The request for the server is left alone. -/
abbrev Leaves (s t : Session L) : Prop := t.serverData = s.serverData

namespace Leaves

theorem closes : AllowsClose (L := L) Leaves where
  refl _ := rfl
  trans h h' := h'.trans h
  cancel _ _ := rfl
  removed _ _ := rfl
  clientGone _ := rfl
  closed _ := rfl
  serverGone _ := rfl

theorem answers : AllowsAnswer (L := L) Leaves where
  toChain := closes.toChain
  send _ _ := rfl
  sendServer _ _ := rfl
  respond _ _ := rfl
  queue _ _ := rfl

theorem takes : AllowsTake (L := L) Leaves where
  toChain := closes.toChain
  target _ _ _ _ := rfl
  route _ _ _ := rfl
  tested _ _ _ := rfl
  connected _ _ := rfl
  spawn _ _ _ := rfl
  tunnel _ := rfl
  resolve _ := rfl

theorem forwardRequest (s : Session L) : Leaves s s.forwardRequest := by
  unfold Session.forwardRequest
  split
  · exact closes.closeServer s
  · rfl

theorem handleResolve (s : Session L) (o : Outcome) : Leaves s (s.handleResolve o) := by
  unfold Session.handleResolve handleUpstreamConnect
  split
  · exact closes.closeServer s
  · exact answers.sendErrorResponse s _ _

theorem handleDecision (s : Session L) (action : InterceptAction) : Leaves s (s.handleDecision action) := by
  unfold Session.handleDecision
  split
  · cases action with
    | forward => exact forwardRequest s.resetTimer
    | drop => exact answers.sendErrorResponse s.resetTimer _ _
  · rfl

theorem handleRequest {env : Env} {req : HttpRequest} (hok : s.handleRequest env req = .ok t) : Leaves s t :=
  handleRequest_of closes.toChain rfl takes.handleConnect (answers.sendErrorResponse · _ _)
    (answers.serveCaCert · env) (answers.serveBurpHelpPage · env)
    (fun _ _ => takes.handleUpstreamRoute (fun _ _ => rfl) (fun t _ => forwardRequest t) env) hok

theorem handleClientRead {env : Env} {o : Outcome} (hok : s.handleClientRead env o = .ok t) : Leaves s t :=
  handleClientRead_any closes.toChain (closes.close s) (fun _ => rfl) (fun _ _ _ => rfl)
    (fun _ _ => answers.writeServerBlind rfl) (fun _ => rfl) (answers.sendErrorResponse · _ _)
    (fun _ _ => handleRequest) hok

end Leaves

/-- After an exchange nothing is left of the request either. -/
theorem finishes_empty : AllowsFinish fun s t : Session L => s.serverData = [] → t.serverData = [] where
  toChain := .keeps _
  respond _ _ := id
  parser _ _ := id
  renew _ _ := rfl
  flag _ := id
  readClient _ := id
  readUpstream _ := id

/-- Nothing is outstanding that could come to a read of the server, but for the request itself. -/
structure Storing (n : OpKind → ℕ) (s : Session L) : Prop where
  asked : s.asked = []
  read : n .read = 0
  dial : n .dial = 0
  receive : n .receive = 0
  decision : ∀ a, n (.decision a) = 0

def Drained (n : OpKind → ℕ) (s : Session L) : Prop := s.serverData ≠ [] → Storing n s

theorem Drained.of_empty {n : OpKind → ℕ} (h : s.serverData = []) : Drained n s := fun hne => absurd h hne

theorem Drained.quietly (h : Drained s.io.count s) (hq : Quietly s t)
    (hdata : t.serverData = s.serverData) : Drained t.io.count t := by
  intro hne
  rw [hdata] at hne
  obtain ⟨hasked, hread, hdial, hreceive, hdecision⟩ := h hne
  refine ⟨hq.asked.trans hasked, ?_, ?_, ?_, fun a => ?_⟩
  · exact (hq.count .read (by simp)).trans hread
  · exact (hq.count .dial (by simp)).trans hdial
  · exact (hq.count .receive (by simp)).trans hreceive
  · exact (hq.count (.decision a) (by simp)).trans (hdecision a)

theorem Drained.drop (h : Drained (fun k => s.io.count k + op.weight k) s) : Drained s.io.count s := by
  intro hne
  obtain ⟨hasked, hread, hdial, hreceive, hdecision⟩ := h hne
  simp only [Nat.add_eq_zero_iff] at hread hdial hreceive hdecision
  exact ⟨hasked, hread.1, hdial.1, hreceive.1, fun a => (hdecision a).1⟩

/-- A handler that could have come to a read of the server finds no data. -/
theorem Drained.empty (h : Drained (fun k => s.io.count k + op.weight k) s) (hop : op.kind = .read ∨
    op.kind = .dial ∨ op.kind = .receive ∨ ∃ a, op.kind = .decision a) : s.serverData = [] := by
  by_contra hne
  obtain ⟨-, hread, hdial, hreceive, hdecision⟩ := h hne
  rcases hop with hop | hop | hop | ⟨a, hop⟩
  · simp [Op.weight, hop] at hread
  · simp [Op.weight, hop] at hdial
  · simp [Op.weight, hop] at hreceive
  · have hnone := hdecision a
    simp [Op.weight, hop] at hnone

theorem writeUpstream_drained (h : Cleared b new ref s.flow) (env : Env) :
    Drained (s.writeUpstream env).io.count (s.writeUpstream env) := by
  intro _
  have hrest := h.rest
  simp only [flow, Nat.add_eq_zero_iff] at hrest
  have hdial : s.io.count .dial = 0 := h.dial
  have hdecision (a : InterceptAction) : s.io.count (.decision a) = 0 := h.decision a
  refine ⟨h.asked, ?_, ?_, ?_, fun a => ?_⟩ <;>
    simp [Session.writeUpstream, Session.start, Session.emit, Op.weight, Op.kind, hrest, hdial, hdecision]

theorem handle_drained {env : Env} (h : Drained (fun k => s.io.count k + op.weight k) s)
    (hs : SoundAfter b new op s.flow) {o : Outcome} (hok : s.handle env op o = .ok t) :
    Drained t.io.count t := by
  cases op with
  | timer =>
    cases hok
    exact h.drop.quietly (Quietly.handleTimeout s o)
      (handleTimeout_of Leaves.closes.toChain (fun _ _ _ => rfl) (Leaves.answers.sendErrorResponse · _ _)
        (Leaves.closes.close s) o)
  | clientWrite data =>
    cases hok
    exact h.drop.quietly (Quietly.handleClientWrite s o) (Leaves.answers.handleClientWrite Leaves.closes.close rfl o)
  | serverWrite data =>
    cases hok
    exact h.drop.quietly (Quietly.handleServerWrite s o)
      (Leaves.answers.handleServerWrite (fun _ _ => Leaves.closes.close s) rfl)
  | clientRead =>
    exact .of_empty ((Leaves.handleClientRead hok).trans (h.empty (Or.inl rfl)))
  | resolve =>
    cases hok
    exact .of_empty ((Leaves.handleResolve s o).trans (h.empty (Or.inr (Or.inl rfl))))
  | connect =>
    cases hok
    have hdata : s.serverData = [] := h.empty (Or.inr (Or.inl rfl))
    unfold handleConnected
    split
    · exact .of_empty ((Leaves.answers.sendErrorResponse s _ _).trans hdata)
    · split
      · have hwrite : Leaves s (s.writeClient .generated established) := Leaves.answers.writeClient rfl
        exact .of_empty (hwrite.trans hdata)
      · rename_i hc
        -- only here `serverData_` is filled, and only for a cleared request
        rcases hs.dialed rfl with ⟨-, htunnel⟩ | ⟨r, hcleared⟩
        · exact absurd htunnel hc
        · exact writeUpstream_drained hcleared env
  | upstreamRead =>
    cases hok
    have hdata : s.serverData = [] := h.empty (Or.inr (Or.inr (Or.inl rfl)))
    have hclose (s : Session L) : s.serverData = [] → s.close.serverData = [] := (Leaves.closes.close s).trans
    have hrelay (data : Bytes) : Leaves s ((s.resetTimer.emit (.received data)).writeClient .relayed data) :=
      Leaves.answers.writeClient (s := s.resetTimer.emit (.received data)) rfl
    exact .of_empty (finishes_empty.handleUpstreamRead hclose (fun data => (hrelay data).trans) env o hdata)
  | upstreamWrite data =>
    cases hok
    unfold handleUpstreamWrite
    split
    · exact h.drop.quietly (Quietly.answers.sendErrorResponse s _ _) (Leaves.answers.sendErrorResponse s _ _)
    · exact .of_empty rfl
  | decision action =>
    cases hok
    have hdata : s.serverData = [] := h.empty (Or.inr (Or.inr (Or.inr ⟨action, rfl⟩)))
    exact .of_empty ((Leaves.handleDecision s action).trans hdata)
  | rawWrite data => cases hok; exact h.drop.quietly (Quietly.refl s) rfl
  | established => cases hok; exact h.drop.quietly (Quietly.refl s) rfl
  | clientHandshake => cases hok; exact h.drop.quietly (Quietly.refl s) rfl
  | upstreamHandshake => cases hok; exact h.drop.quietly (Quietly.refl s) rfl

/-- A handler is taken out to be run. -/
theorem Drained.taken (h : Drained s.io.count s) {k : ℕ} {o : Outcome} {io : Io}
    (hio : s.io.take k = some ((op, o), io)) :
    Drained (fun k => Io.count io k + op.weight k) { s with io := io } := by
  rw [Io.count_take hio] at h
  intro hne
  obtain ⟨hasked, hread, hdial, hreceive, hdecision⟩ := h hne
  exact ⟨hasked, hread, hdial, hreceive, hdecision⟩

theorem reached_drained {r : Running L} (h : (system L).Reached r) : Drained r.session.io.count r.session := by
  refine h.invariant_of (J := fun r => r.session.flow.Holds)
    (I := fun r => Drained r.session.io.count r.session) (fun r hr => reached_holds hr) ?_ ?_
  · rintro _ ⟨hasCertCache, rfl⟩
    exact .of_empty rfl
  · intro r a r' hs hr _ hstep
    cases moves_of_step hstep with
    | @complete k o t ht =>
      have hdata : t.serverData = r.session.serverData := by
        obtain ⟨op, io, -, -, rfl⟩ := complete_spec ht
        rfl
      exact hr.quietly (complete_quietly ht) hdata
    | @handled _ env _ _ _ ht =>
      obtain ⟨op, o, io, hio, hhandle⟩ := dispatch_spec ht
      exact handle_drained (hr.taken hio) (taken_sound hs hio env.newRef) hhandle
    | threw => exact hr
    | decide href =>
      -- with data in hand no callback is outstanding
      intro hne
      rw [(hr hne).asked] at href
      cases href
    | close => exact hr.quietly (Quietly.closes.close _) (Leaves.closes.close _)

end BurpTUI.Session
