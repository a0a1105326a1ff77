import BurpTUI.Base.Grows
import BurpTUI.Proxy.Chores
import BurpTUI.Proxy.PortText

namespace BurpTUI

/-- A transaction, an item for interception or the target of a `MitmSession` is this host and port,
if `e` is about one. -/
def Effect.Names (host : Bytes) (n : ℕ) : Effect → Prop
  | .reported _ tx => tx.request.isSome = true → tx.host = host ∧ tx.port = n
  | .intercepted item => item.host = host ∧ item.port.toNat = n
  | .spawned h p => h = host ∧ p.toNat = n
  | _ => True

theorem Op.completion_names (host : Bytes) (n : ℕ) (op : Op) (o : Outcome) :
    ∀ e ∈ op.completion o, e.Names host n := by
  intro e he
  rcases Op.mem_completion he with ⟨data, -, -, rfl⟩ | ⟨-, -, rfl⟩ | ⟨-, -, rfl⟩ <;> trivial

/-- A service text for the resolver that is the decimal number `n`. -/
def IsPort (text : Bytes) (n : ℕ) : Prop :=
  text ≠ [] ∧ (∀ c ∈ text, isDigit c = true) ∧ digitsValue text = n

instance (text : Bytes) (n : ℕ) : Decidable (IsPort text n) :=
  inferInstanceAs (Decidable (_ ∧ _ ∧ _))

theorem isPort_digit : ∀ {n : ℕ}, n < 10 → IsPort [UInt8.ofNat (48 + n)] n := by decide

theorem isPort_snoc {text : Bytes} {m d : ℕ} (h : IsPort text m) (hd : d < 10) :
    IsPort (text ++ [UInt8.ofNat (48 + d)]) (10 * m + d) := by
  obtain ⟨-, hdigits, hvalue⟩ := h
  obtain ⟨-, hdigit, hone⟩ := isPort_digit hd
  refine ⟨by simp, ?_, ?_⟩
  · simp only [List.forall_mem_append]
    exact ⟨hdigits, hdigit⟩
  · simp only [digitsValue, List.foldl_append, List.foldl_cons, List.foldl_nil] at hvalue hone ⊢
    omega

/-- `std::to_string` gives the decimal number. -/
theorem isPort_decimal (n : ℕ) : IsPort (decimal n) n := by
  rw [decimal, str, Nat.toString_eq_repr, Nat.toList_repr]
  induction n using Nat.strongRecOn with
  | ind n ih =>
    by_cases hn : n < 10
    · rw [Nat.toDigits_of_lt_base hn, List.map_singleton, Nat.toNat_digitChar_of_lt_ten hn]
      exact isPort_digit hn
    · have hd : n % 10 < 10 := Nat.mod_lt n (by omega)
      rw [Nat.toDigits_of_base_le (by omega) (by omega), List.map_append, List.map_singleton,
        Nat.toNat_digitChar_of_lt_ten hd]
      have hrest := isPort_snoc (ih (n / 10) (by omega)) hd
      rwa [Nat.div_add_mod] at hrest

/-- `std::stoi` reads the decimal number. -/
theorem stoi_of_isPort {text : Bytes} {n : ℕ} (h : IsPort text n) (hn : n ≤ 65535) :
    stoi text = .ok n := by
  obtain ⟨hne, hdigits, hvalue⟩ := h
  have hparts := @stoi_of_parts [] [] text [] (by simp) (by simp) hne hdigits (by simp)
  simp only [List.nil_append, List.append_nil, hvalue] at hparts
  rw [hparts, if_neg (show ([] : Bytes) ≠ str "-" by decide), if_pos (by omega)]

theorem toNat_ofInt {n : ℕ} (h : n ≤ 65535) : (UInt16.ofInt n).toNat = n := by
  simp [UInt16.ofInt]
  omega

namespace Session

variable {L : Llhttp} {before : List Effect} {resolves : Prop} {host : Bytes} {n : ℕ}
  {s t : Session L}

/-- What the session resolves, what its transaction records, and what it has reported and asked
about since `before`, is this host and port. -/
structure Aimed (before : List Effect) (resolves : Prop) (host : Bytes) (n : ℕ) (s : Session L) :
    Prop where
  upstream : resolves → s.upstreamHost = host ∧ IsPort s.upstreamPort n
  transaction : s.currentTransaction.request.isSome = true →
    s.currentTransaction.host = host ∧ s.currentTransaction.port = n
  log : Grows (Effect.Names host n) before s.log

/-- The fields that matter here. -/
def aim (s : Session L) : Bytes × Bytes × HttpTransaction × List Effect :=
  (s.upstreamHost, s.upstreamPort, s.currentTransaction, s.log)

namespace Aimed

theorem of_aim (h : s.Aimed before resolves host n) (he : t.aim = s.aim) :
    t.Aimed before resolves host n := by
  simp only [aim, Prod.mk.injEq] at he
  obtain ⟨hhost, hport, htx, hlog⟩ := he
  constructor
  · rw [hhost, hport]
    exact h.upstream
  · rw [htx]
    exact h.transaction
  · rw [hlog]
    exact h.log

theorem emit (h : s.Aimed before resolves host n) {e : Effect} (he : e.Names host n) :
    (s.emit e).Aimed before resolves host n :=
  ⟨h.upstream, h.transaction, h.log.trans (.snoc _ he)⟩

theorem closes :
    AllowsClose fun s t : Session L => s.Aimed before resolves host n → t.Aimed before resolves host n where
  toChain := .keeps _
  cancel _ _ h := h.of_aim rfl
  removed _ _ h := h.emit trivial
  clientGone _ h := h.of_aim rfl
  closed _ h := h.emit trivial
  serverGone _ h := h.of_aim rfl

theorem respond (h : s.Aimed before resolves host n) (origin : Origin) (response : HttpResponse) :
    (s.respond origin response).Aimed before resolves host n := by
  have hset : ({ s with currentTransaction :=
      { s.currentTransaction with response := some response } } : Session L).Aimed
        before resolves host n := ⟨h.upstream, h.transaction, h.log⟩
  exact hset.emit h.transaction

theorem queue (h : s.Aimed before resolves host n) (origin : Origin) (data : Bytes) :
    ({ s with writeQueue := s.writeQueue ++ [data] }.emit (.queued origin data)).Aimed
      before resolves host n :=
  (h.of_aim (t := { s with writeQueue := s.writeQueue ++ [data] }) rfl).emit trivial

theorem answers :
    AllowsAnswer fun s t : Session L => s.Aimed before resolves host n → t.Aimed before resolves host n where
  toChain := .keeps _
  send _ data h := (h.emit (e := .sent .client data) trivial).of_aim rfl
  sendServer _ data h := (h.emit (e := .sent .upstream data) trivial).of_aim rfl
  respond _ response h := (h.respond .generated response).of_aim rfl
  queue _ data h := h.queue _ data

theorem dials :
    AllowsDial fun s t : Session L => s.Aimed before resolves host n → t.Aimed before resolves host n where
  toChain := .keeps _
  error s _ _ _ := answers.sendErrorResponse s _ _
  serverOpen _ h := h.of_aim rfl
  store _ _ h := h.of_aim rfl
  handed _ _ _ h := h.emit trivial
  start _ _ _ h := h.of_aim rfl

theorem finishes :
    AllowsFinish fun s t : Session L => s.Aimed before resolves host n → t.Aimed before resolves host n where
  toChain := .keeps _
  respond _ response h := h.respond _ response
  parser _ _ h := h.of_aim rfl
  renew _ h := ⟨h.upstream, fun hnone => (Bool.false_ne_true hnone).elim, h.log⟩
  flag _ h := h.of_aim rfl
  readClient _ h := h.of_aim rfl
  readUpstream _ h := h.of_aim rfl

theorem writeServerBlind (h : s.Aimed before resolves host n) (data : Bytes) :
    (s.writeServerBlind data).Aimed before resolves host n := by
  refine answers.writeServerBlind (fun h => ?_) h
  exact (h.of_aim (t := { s with writeServerQueue := s.writeServerQueue ++ [data] }) rfl).emit trivial

theorem intercept (h : s.Aimed before resolves host n) {item : InterceptedRequest Ref}
    (hitem : item.host = host ∧ item.port.toNat = n) :
    (s.intercept item).Aimed before resolves host n :=
  (h.emit (e := .intercepted item) hitem).of_aim rfl

theorem handleClientRead (h : s.Aimed before resolves host n) {env : Env} {o : Outcome}
    (hnone : ∀ data, o = .bytes data → ∀ req, ¬ s.Delivers data req)
    (hok : s.handleClientRead env o = .ok t) : t.Aimed before resolves host n := by
  cases o with
  | bytes data =>
    have hread : (s.resetTimer.emit (.read data)).Aimed before resolves host n :=
      (h.of_aim (t := s.resetTimer) rfl).emit trivial
    unfold Session.handleClientRead at hok
    dsimp only at hok
    split at hok
    · obtain rfl := Except.ok.inj hok
      exact (hread.writeServerBlind data).of_aim rfl
    · rename_i hconnect
      have hparser : (s.resetTimer.emit (.read data)).parser = s.parser := rfl
      have hflag : (s.resetTimer.emit (.read data)).isConnect = s.isConnect := rfl
      rw [hflag] at hconnect
      rw [hparser] at hok
      have hnot (req : HttpRequest) := hnone data rfl req
      unfold Delivers at hnot
      split at hok
      · rename_i hready
        split at hok
        · rename_i req parser htake
          -- by assumption this read completes no request
          exact absurd ⟨by simpa using hconnect, hready, congrArg Prod.fst htake⟩ (hnot req)
        · obtain rfl := Except.ok.inj hok
          exact hread.of_aim rfl
      · split at hok
        · obtain rfl := Except.ok.inj hok
          exact hread.of_aim rfl
        · obtain rfl := Except.ok.inj hok
          apply answers.sendErrorResponse
          exact hread.of_aim rfl
  | ok | eof | truncated | aborted | failed =>
    obtain rfl := Except.ok.inj hok
    exact closes.close s h

theorem handleUpstreamRead (h : s.Aimed before resolves host n) (env : Env) (o : Outcome) :
    (s.handleUpstreamRead env o).Aimed before resolves host n := by
  refine finishes.handleUpstreamRead closes.close (fun data h => ?_) env o h
  have hreceived : (s.resetTimer.emit (.received data)).Aimed before resolves host n :=
    (h.of_aim (t := s.resetTimer) rfl).emit trivial
  exact answers.writeClient (fun h => h.queue _ _) hreceived

theorem handle (h : s.Aimed before resolves host n) {env : Env} {op : Op} {o : Outcome}
    (hnone : ∀ data, op = .clientRead → o = .bytes data → ∀ req, ¬ s.Delivers data req)
    (hok : Session.handle env s op o = .ok t) : t.Aimed before resolves host n := by
  cases op with
  | clientRead => exact h.handleClientRead (fun data => hnone data rfl) hok
  | timer =>
    exact Except.ok.inj hok ▸ handleTimeout_of closes.toChain (fun s p _ => closes.cancel s p)
      (fun s => answers.sendErrorResponse s _ _) (closes.close s) o h
  | resolve => exact Except.ok.inj hok ▸ dials.handleResolve (closes.closeServer s) o h
  | connect =>
    exact Except.ok.inj hok ▸ dials.handleConnected (answers.writeClient fun h => h.queue _ _)
      (fun _ h => h.of_aim rfl) env o h
  | clientWrite data =>
    exact Except.ok.inj hok ▸ answers.handleClientWrite closes.close (fun h => h.of_aim rfl) o h
  | upstreamRead => exact Except.ok.inj hok ▸ h.handleUpstreamRead env o
  | upstreamWrite data => exact Except.ok.inj hok ▸ dials.handleUpstreamWrite s o h
  | serverWrite data =>
    exact Except.ok.inj hok ▸ answers.handleServerWrite (fun _ _ => closes.close s) (fun h => h.of_aim rfl) h
  | decision action =>
    exact Except.ok.inj hok ▸ dials.handleDecision (fun h => h.of_aim rfl) (closes.closeServer _) action h
  | rawWrite | established | clientHandshake | upstreamHandshake => exact Except.ok.inj hok ▸ h

end Aimed

/-- The step takes no request from the client. -/
def TakesNone (r : Running L) : Label → Prop
  | .dispatch k _ => ∀ data io, r.session.io.take k = some ((.clientRead, .bytes data), io) →
      ∀ req, ¬ r.session.Delivers data req
  | _ => True

theorem Aimed.step {r r' : Running L} {a : Label} (h : r.session.Aimed before resolves host n)
    (hnone : TakesNone r a) (he : Session.step r a = some r') :
    r'.session.Aimed before resolves host n := by
  cases moves_of_step he with
  | complete ht =>
    obtain ⟨op, io, -, -, rfl⟩ := complete_spec ht
    exact ⟨h.upstream, h.transaction, h.log.trans ⟨_, rfl, op.completion_names host n _⟩⟩
  | handled _ _ ht =>
    obtain ⟨op, o, io, hio, hhandle⟩ := dispatch_spec ht
    refine (h.of_aim (t := { r.session with io := io }) rfl).handle ?_ hhandle
    rintro data rfl rfl req
    exact hnone data io hio req
  | threw => exact h
  | decide => exact ⟨h.upstream, h.transaction, h.log.trans (.snoc _ trivial)⟩
  | close => exact Aimed.closes.close _ h

/-- Until the next request, the session stays with this host and port. -/
theorem Aimed.run {r r' : Running L} (h : r.session.Aimed before resolves host n)
    (hr : ((system L).after r).ReachedUnder TakesNone r') :
    r'.session.Aimed before resolves host n := by
  apply hr.invariant (I := fun r => r.session.Aimed before resolves host n)
  · rintro _ rfl
    exact h
  · exact fun _ _ _ ih hnone he => ih.step hnone he

end Session

namespace MitmSession

variable {L : Llhttp} {host : Bytes} {port : UInt16} {s t : MitmSession L}

/-- The target, the transaction, and everything reported and asked about is this host and port. -/
structure Aimed (host : Bytes) (port : UInt16) (s : MitmSession L) : Prop where
  target : s.targetHost = host ∧ s.targetPort = port
  transaction : s.currentTransaction.request.isSome = true →
    s.currentTransaction.host = host ∧ s.currentTransaction.port = port.toNat
  log : Grows (Effect.Names host port.toNat) [] s.log

/-- The fields that matter here. -/
def aim (s : MitmSession L) : Bytes × UInt16 × HttpTransaction × List Effect :=
  (s.targetHost, s.targetPort, s.currentTransaction, s.log)

namespace Aimed

theorem of_aim (h : s.Aimed host port) (he : t.aim = s.aim) : t.Aimed host port := by
  simp only [aim, Prod.mk.injEq] at he
  obtain ⟨hhost, hport, htx, hlog⟩ := he
  constructor
  · rw [hhost, hport]
    exact h.target
  · rw [htx]
    exact h.transaction
  · rw [hlog]
    exact h.log

theorem emit (h : s.Aimed host port) {e : Effect} (he : e.Names host port.toNat) :
    (s.emit e).Aimed host port := ⟨h.target, h.transaction, h.log.trans (.snoc _ he)⟩

theorem closes : AllowsClose fun s t : MitmSession L => s.Aimed host port → t.Aimed host port where
  toChain := .keeps _
  cancel _ _ h := h.of_aim rfl
  removed _ _ h := h.emit trivial
  gone _ h := h.of_aim rfl
  closed _ h := h.emit trivial

theorem respond (h : s.Aimed host port) (origin : Origin) (response : HttpResponse) :
    (s.respond origin response).Aimed host port := by
  have hset : ({ s with currentTransaction :=
      { s.currentTransaction with response := some response } } : MitmSession L).Aimed host port :=
    ⟨h.target, h.transaction, h.log⟩
  exact hset.emit h.transaction

theorem queue (h : s.Aimed host port) (origin : Origin) (data : Bytes) :
    ({ s with clientWriteQueue := s.clientWriteQueue ++ [data] }.emit (.queued origin data)).Aimed host port :=
  (h.of_aim (t := { s with clientWriteQueue := s.clientWriteQueue ++ [data] }) rfl).emit trivial

theorem answers : AllowsAnswer fun s t : MitmSession L => s.Aimed host port → t.Aimed host port where
  toChain := .keeps _
  send _ data h := (h.emit (e := .sent .client data) trivial).of_aim rfl
  respond s response h := by
    have hflag : ({ s with closeAfterWrite := true } : MitmSession L).Aimed host port := h.of_aim rfl
    exact hflag.respond .generated response
  queue _ data h := h.queue _ data
  raw _ data h := (h.emit (e := .answered data) trivial).of_aim rfl

theorem readClient (s : MitmSession L) (h : s.Aimed host port) : s.readClient.Aimed host port :=
  startOpen_of (.keeps (Aimed host port)) (fun h => h.of_aim rfl) h

theorem readUpstream (s : MitmSession L) (h : s.Aimed host port) : s.readUpstream.Aimed host port :=
  startOpen_of (.keeps (Aimed host port)) (fun h => h.of_aim rfl) h

theorem sets : AllowsSetup fun s t : MitmSession L => s.Aimed host port → t.Aimed host port where
  toChain := .keeps _
  connect _ h := h.of_aim rfl
  established _ h := (h.emit (e := .answered Session.established) trivial).of_aim rfl
  handshakes _ h := h.of_aim rfl
  clientDone _ h := h.of_aim rfl
  upstreamDone _ h := h.of_aim rfl
  readClient := readClient

theorem forwards : AllowsForward fun s t : MitmSession L => s.Aimed host port → t.Aimed host port where
  toChain := .keeps _
  push s ref data h := by
    have hpushed : ({ s with upstreamWriteQueue := s.upstreamWriteQueue ++ [(ref, data)] } : MitmSession L).Aimed
      host port := h.of_aim rfl
    exact hpushed.emit trivial
  send _ ref data h := by
    have hhanded := h.emit (e := .handed ref data) trivial
    exact (hhanded.emit (e := .sent .upstream data) trivial).of_aim rfl

theorem finishes : AllowsFinish fun s t : MitmSession L => s.Aimed host port → t.Aimed host port where
  toChain := .keeps _
  respond _ response h := h.respond _ response
  parser _ _ _ h := h.of_aim rfl
  renew _ h := ⟨h.target, fun hnone => (Bool.false_ne_true hnone).elim, h.log⟩
  flag _ h := h.of_aim rfl
  readClient := readClient
  readUpstream := readUpstream

theorem intercept (h : s.Aimed host port) {item : InterceptedRequest Ref}
    (hitem : item.host = host ∧ item.port.toNat = port.toNat) : (s.intercept item).Aimed host port :=
  (h.emit (e := .intercepted item) hitem).of_aim rfl

/-- A request is recorded and shown with the target. -/
theorem handleRequest (h : s.Aimed host port) (env : Env) (req : HttpRequest) :
    (s.handleRequest env req).Aimed host port := by
  obtain ⟨hhost, hport⟩ := h.target
  have htook : ({ s with currentTransaction := { s.currentTransaction with
      id := env.nextId, host := s.targetHost, port := s.targetPort.toNat, isHttps := true
      request := some env.newRef } } : MitmSession L).Aimed host port :=
    ⟨h.target, fun _ => ⟨hhost, by rw [hport]⟩, h.log⟩
  have htested := (htook.emit (e := .took env.newRef req) trivial).emit
    (e := .tested env.newRef env.interceptEnabled) trivial
  unfold MitmSession.handleRequest
  dsimp only
  split
  · apply intercept
    · exact htested.of_aim rfl
    · exact ⟨hhost, by rw [← hport]; rfl⟩
  · exact forwards.writeUpstream _ _ _ htested

theorem handle (h : s.Aimed host port) (env : Env) (op : Op) (o : Outcome) :
    (MitmSession.handle env s op o).Aimed host port := by
  have hclose : s.Aimed host port → s.close.Aimed host port := closes.close s
  cases op with
  | timer => exact handleTimeout_of (.keeps (Aimed host port)) (fun _ => hclose) h
  | resolve => exact sets.handleResolve (answers.sendErrorResponse s _ _) o h
  | connect => exact sets.handleConnected (answers.sendErrorResponse s _ _) o h
  | established => exact sets.handleEstablished hclose env o h
  | clientHandshake => exact sets.handleClientHandshake (fun _ => hclose) h
  | upstreamHandshake => exact sets.handleUpstreamHandshake (fun _ => hclose) h
  | rawWrite data => exact hclose h
  | clientRead =>
    refine handleClientRead_any (.keeps (Aimed host port)) (fun _ data h => ?_) (fun _ _ _ h => h.of_aim rfl)
      readClient closes.close (fun _ req h => h.handleRequest env req) o h
    exact (h.of_aim (t := s.resetTimer) rfl).emit trivial
  | clientWrite data => exact answers.handleClientWrite closes.close (fun h => h.of_aim rfl) o h
  | upstreamRead =>
    refine finishes.handleUpstreamRead closes.close (fun _ data h => ?_) env o h
    have hreceived : (s.resetTimer.emit (.received data)).Aimed host port :=
      (h.of_aim (t := s.resetTimer) rfl).emit trivial
    exact answers.writeClient (fun _ h => h.queue _ _) hreceived
  | upstreamWrite data => exact forwards.handleUpstreamWrite (fun _ => hclose) (fun h => h.of_aim rfl) readUpstream h
  | decision action =>
    exact forwards.handleDecision (fun h => h.of_aim rfl) (answers.sendErrorResponse _ _ _) env action h
  | serverWrite data => exact h

theorem step {a : Session.Label} (h : s.Aimed host port) (he : MitmSession.step s a = some t) :
    t.Aimed host port := by
  cases moves_of_step he with
  | complete ht =>
    obtain ⟨op, io, -, -, rfl⟩ := complete_spec ht
    exact ⟨h.target, h.transaction, h.log.trans ⟨_, rfl, op.completion_names host port.toNat _⟩⟩
  | handled _ ht =>
    obtain ⟨op, o, io, -, rfl⟩ := dispatch_spec ht
    exact (h.of_aim (t := { s with io := io }) rfl).handle _ op o
  | decide => exact ⟨h.target, h.transaction, h.log.trans (.snoc _ trivial)⟩
  | close => exact closes.close s h

end Aimed

/-- A session for a CONNECT target stays with that target over its whole run. -/
theorem aimed_of_started (hr : ((system L).after (started host port)).Reached t) : t.Aimed host port := by
  apply hr.invariant (I := fun t => t.Aimed host port)
  · rintro _ rfl
    exact ⟨⟨rfl, rfl⟩, fun hnone => (Bool.false_ne_true hnone).elim, .refl _⟩
  · exact fun _ _ _ ih _ he => ih.step he

end MitmSession

theorem authority_inj {a b host host' : Bytes} (hh : 58 ∉ host) (hh' : 58 ∉ host')
    (h : host ++ 58 :: a = host' ++ 58 :: b) : host = host' ∧ a = b := by
  have hcut := Search.cut_singleton 58 host a hh
  rw [h, Search.cut_singleton 58 host' b hh'] at hcut
  simpa [eq_comm] using hcut

theorem splitHostPort_cases (hostPort default : Bytes) :
    (∃ host port, hostPort = host ++ 58 :: port ∧ 58 ∉ host ∧
      splitHostPort hostPort default = (host, port)) ∨
    58 ∉ hostPort ∧ splitHostPort hostPort default = (hostPort, default) := by
  unfold splitHostPort
  split
  · rename_i host port hcut
    have hs := Search.cut_spec hcut
    exact .inl ⟨host, port, by simpa [str] using hs, Search.cut_singleton_not_mem hcut, rfl⟩
  · rename_i hcut
    refine .inr ⟨?_, rfl⟩
    rw [← List.singleton_infix_iff]
    exact Search.cut_eq_none_iff.mp hcut

namespace HttpRequest

def defaultPort (req : HttpRequest) : ℕ := if req.method = str "CONNECT" then 443 else 80

/-- The request is for this host and for the port that is written behind it, in decimal, or for the
default port if none is written. -/
structure Destined (req : HttpRequest) (host : Bytes) (n : ℕ) : Prop where
  bare : 58 ∉ host
  written : (req.authority = host ∨ req.authority = host ++ [58]) ∧ n = req.defaultPort ∨
    ∃ port, req.authority = host ++ 58 :: port ∧ IsPort port n
  range : 1 ≤ n ∧ n ≤ 65535

/-- What follows the first colon of the authority is a decimal number in 1..65535. Nothing may follow
it too, but not in the target of a blind tunnel. -/
def PortSound (req : HttpRequest) (hasCertCache : Bool) : Prop :=
  ∀ host port, req.authority = host ++ 58 :: port → 58 ∉ host →
    port = [] ∧ (req.method = str "CONNECT" → hasCertCache = true) ∨
      ∃ n, IsPort port n ∧ 1 ≤ n ∧ n ≤ 65535

end HttpRequest

theorem HttpRequest.destined_of_portSound {req : HttpRequest} {hasCertCache : Bool} {d : Bytes}
    (hd : IsPort d req.defaultPort) (h : req.PortSound hasCertCache) :
    ∃ n, req.Destined (splitHostPort req.authority d).1 n ∧
      IsPort (orPort (splitHostPort req.authority d).2 d) n ∧
      ((splitHostPort req.authority d).2 = [] → req.method = str "CONNECT" → hasCertCache = true) := by
  have hdefault : 1 ≤ req.defaultPort ∧ req.defaultPort ≤ 65535 := by
    unfold HttpRequest.defaultPort
    split <;> decide
  rcases splitHostPort_cases req.authority d with ⟨host, port, ha, hbare, hsplit⟩ | ⟨hbare, hsplit⟩
  · rw [hsplit]
    rcases h host port ha hbare with ⟨rfl, hcert⟩ | ⟨n, hport, hrange⟩
    · exact ⟨_, ⟨hbare, .inl ⟨.inr ha, rfl⟩, hdefault⟩, hd, fun _ => hcert⟩
    · refine ⟨n, ⟨hbare, .inr ⟨port, ha, hport⟩, hrange⟩, ?_, fun hnil => absurd hnil hport.1⟩
      rwa [orPort, if_neg hport.1]
  · rw [hsplit]
    refine ⟨_, ⟨hbare, .inl ⟨.inl rfl, rfl⟩, hdefault⟩, ?_, fun hnil => absurd hnil hd.1⟩
    rwa [orPort, if_neg hd.1]

namespace Session

variable {L : Llhttp} {s s' : Session L} {req : HttpRequest}

/-- Until the next request everything in `s'` that comes after `s` is this host and port, also in a
`MitmSession` that takes the connection over. -/
def SentTo (s s' : Session L) (resolves : Prop) (host : Bytes) (n : ℕ) : Prop :=
  ∀ r, ((system L).after { session := s' }).ReachedUnder TakesNone r →
    r.session.Aimed s.log resolves host n ∧
    ∀ h p, .spawned h p ∈ r.session.log.drop s.log.length →
      ∀ m, ((MitmSession.system L).after (.started h p)).Reached m →
        m.Aimed host p ∧ IsPort (decimal m.targetPort.toNat) n

theorem sentTo_of_aimed {resolves : Prop} {host : Bytes} {n : ℕ}
    (h : s'.Aimed s.log resolves host n) : SentTo s s' resolves host n := by
  intro r hr
  have haimed : r.session.Aimed s.log resolves host n := Aimed.run h hr
  refine ⟨haimed, fun h p hspawned m hm => ?_⟩
  obtain ⟨es, hlog, hes⟩ := haimed.log
  rw [hlog, List.drop_left] at hspawned
  obtain ⟨rfl, rfl⟩ := hes _ hspawned
  have hm' := MitmSession.aimed_of_started hm
  exact ⟨hm', hm'.target.2 ▸ isPort_decimal _⟩

def tookRequest (s : Session L) (env : Env) (req : HttpRequest) : Session L :=
  { s with currentTransaction := { s.currentTransaction with
    id := env.nextId, request := some env.newRef } }.emit (.took env.newRef req)

theorem handleConnect_aimed {before : List Effect} (target : ConnectTarget) {n : ℕ}
    (hlog : Grows (Effect.Names target.host n) before s.log) (hn : target.portNumber = n)
    (hrange : n ≤ 65535) (hport : s.hasCertCache = false → IsPort target.port n) :
    (s.handleConnect target).Aimed before (s.hasCertCache = false) target.host n := by
  have hset : ({ s with currentTransaction := { s.currentTransaction with
      host := target.host, port := target.portNumber, isHttps := true } } : Session L).Aimed
        before False target.host n := ⟨False.elim, fun _ => ⟨rfl, hn⟩, hlog⟩
  have hresponded := hset.respond .generated { version := str "HTTP/1.1", statusCode := 200
                                               statusText := str "Connection Established" }
  unfold handleConnect
  dsimp only
  split
  · rename_i hcert
    have hspawned : Effect.Names target.host n
        (.spawned target.host (UInt16.ofInt target.portNumber)) := by
      rw [hn]
      exact ⟨rfl, toNat_ofInt hrange⟩
    refine ⟨fun h => ?_, hresponded.transaction, hresponded.log.trans (.snoc _ hspawned)⟩
    exact absurd (h.symm.trans hcert) Bool.false_ne_true
  · exact ⟨fun h => ⟨rfl, hport h⟩, hresponded.transaction, hresponded.log⟩

theorem handleUpstreamRoute_aimed {before : List Effect} {host port : Bytes} {n : ℕ}
    (hlog : Grows (Effect.Names host n) before s.log) (hrange : n ≤ 65535) (hport : IsPort port n)
    (resolves : Prop) (env : Env) :
    (s.handleUpstreamRoute env host port n).Aimed before resolves host n := by
  have hset : ({ s with
      currentTransaction := { s.currentTransaction with host := host, port := n, isHttps := false }
      upstreamHost := host
      upstreamPort := port } : Session L).Aimed before resolves host n :=
    ⟨fun _ => ⟨rfl, hport⟩, fun _ => ⟨rfl, rfl⟩, hlog⟩
  have htested := hset.emit (e := .tested env.newRef env.interceptEnabled) trivial
  unfold handleUpstreamRoute
  dsimp only
  split
  · apply Aimed.intercept
    · exact htested.of_aim rfl
    · exact ⟨rfl, toNat_ofInt hrange⟩
  · exact Aimed.dials.forwardRequest (Aimed.closes.closeServer _) htested

/-- Both ways of routing cut the authority at its first colon. -/
theorem aimed_of_portSound {env : Env} (hok : s.handleRequest env req = .ok s')
    (hrouted : ¬ req.NeedsNoPort) (hsound : req.PortSound s.hasCertCache) :
    ∃ host n, req.Destined host n ∧
      s'.Aimed s.log (req.method = str "CONNECT" → s.hasCertCache = false) host n := by
  have htook (host : Bytes) (n : ℕ) :
      Grows (Effect.Names host n) s.log (s.log ++ [.took env.newRef req]) := .snoc _ trivial
  unfold handleRequest at hok
  dsimp only at hok
  split at hok
  · rename_i hm
    have hd : IsPort (str "443") req.defaultPort := by
      rw [HttpRequest.defaultPort, if_pos hm]
      decide
    obtain ⟨n, hdestined, hport, hnil⟩ := HttpRequest.destined_of_portSound hd hsound
    have hauthority : req.authority = req.url := if_pos hm
    rw [hauthority] at hdestined hport hnil
    obtain ⟨target, htarget, rfl⟩ := ok_of_map hok
    obtain ⟨k, hk, rfl⟩ := ok_of_map htarget
    -- `std::stoi` reads the same number
    obtain rfl := Except.ok.inj ((stoi_of_isPort hport hdestined.range.2).symm.trans hk)
    -- only the blind tunnel dials the text itself, which is empty in no sound request
    have htunnel (hcert : s.hasCertCache = false) :
        IsPort (splitHostPort req.url (str "443")).2 n := by
      by_cases hempty : (splitHostPort req.url (str "443")).2 = []
      · exact absurd (hcert.symm.trans (hnil hempty hm)) Bool.false_ne_true
      · rwa [orPort, if_neg hempty] at hport
    have haimed := handleConnect_aimed (s := s.tookRequest env req) (n := n)
      ⟨(splitHostPort req.url (str "443")).1, (splitHostPort req.url (str "443")).2, n⟩
      (htook _ n) rfl hdestined.range.2 htunnel
    exact ⟨_, n, hdestined, fun h => haimed.upstream (h hm), haimed.transaction, haimed.log⟩
  · rename_i hm
    have hd : IsPort (str "80") req.defaultPort := by
      rw [HttpRequest.defaultPort, if_neg hm]
      decide
    obtain ⟨n, hdestined, hport, -⟩ := HttpRequest.destined_of_portSound hd hsound
    have hauthority : req.authority = plainHostPort req := if_neg hm
    have hhost := splitHostPort_host (plainHostPort req) (str "80")
    simp only [HttpRequest.NeedsNoPort, HttpRequest.authorityHost, hauthority, ne_eq, hm,
      not_false_eq_true, true_and, not_or, ← hhost] at hrouted
    rw [hauthority] at hdestined hport
    obtain ⟨route, hroute, rfl⟩ := ok_of_map hok
    unfold routePlain at hroute
    dsimp only at hroute
    rw [if_neg hrouted.1, if_neg hrouted.2] at hroute
    obtain ⟨k, hk, rfl⟩ := ok_of_map hroute
    obtain rfl := Except.ok.inj ((stoi_of_isPort hport hdestined.range.2).symm.trans hk)
    exact ⟨_, n, hdestined, handleUpstreamRoute_aimed (htook _ n) hdestined.range.2 hport _ env⟩

/-- A blind tunnel resolves the port text as it is cut. -/
theorem upstreamPort_blind {env : Env} (hok : s.handleRequest env req = .ok s')
    (hm : req.method = str "CONNECT") (hcert : s.hasCertCache = false) :
    s'.upstreamPort = (splitHostPort req.url (str "443")).2 := by
  unfold handleRequest at hok
  dsimp only at hok
  rw [if_pos hm] at hok
  obtain ⟨target, htarget, rfl⟩ := ok_of_map hok
  obtain ⟨k, -, rfl⟩ := ok_of_map htarget
  unfold handleConnect
  dsimp only
  rw [if_neg]
  · rfl
  · intro h
    exact absurd (hcert.symm.trans h) Bool.false_ne_true

/-- Record, interception and resolver agree on a host and a port as the request writes them exactly if
its port text is sound. -/
theorem destination_consistent_iff {env : Env} (hok : s.handleRequest env req = .ok s')
    (hrouted : ¬ req.NeedsNoPort) :
    (∃ host n, req.Destined host n ∧
      SentTo s s' (req.method = str "CONNECT" → s.hasCertCache = false) host n) ↔
    req.PortSound s.hasCertCache := by
  constructor
  · rintro ⟨host, n, hdestined, hsent⟩ host' port' hauthority hbare
    rcases hdestined.written with ⟨hname | hname, -⟩ | ⟨port, hname, hport⟩
    · exact absurd (show (58 : UInt8) ∈ host by rw [← hname, hauthority]; simp) hdestined.bare
    · obtain ⟨rfl, rfl⟩ := authority_inj hbare hdestined.bare (hauthority.symm.trans hname)
      refine .inl ⟨rfl, fun hm => ?_⟩
      by_contra hcert
      -- a blind tunnel resolves the empty text
      have hcert : s.hasCertCache = false := by simpa using hcert
      have haimed := (hsent _ (.init rfl)).1
      have hport := (haimed.upstream fun _ => hcert).2
      have hurl : req.url = host' ++ 58 :: [] := (if_pos hm).symm.trans hauthority
      have hsplit : (splitHostPort req.url (str "443")).2 = [] := by
        have hcut := Search.cut_singleton 58 host' [] hbare
        rw [splitHostPort, hurl, show str ":" = [58] from rfl, hcut]
      rw [upstreamPort_blind hok hm hcert, hsplit] at hport
      exact hport.1 rfl
    · obtain ⟨rfl, rfl⟩ := authority_inj hbare hdestined.bare (hauthority.symm.trans hname)
      exact .inr ⟨n, hport, hdestined.range⟩
  · intro hsound
    obtain ⟨host, n, hdestined, haimed⟩ := aimed_of_portSound hok hrouted hsound
    exact ⟨host, n, hdestined, sentTo_of_aimed haimed⟩

/-- A GET with this `Host` header. -/
def hostRequest (host : Bytes) : HttpRequest :=
  { method := str "GET", url := str "/", headers := [(str "Host", host)] }

def freshSession : Session (scripted fun _ => simpleGet.message.pieces) := started false

theorem hostRequest_routed : ¬ (hostRequest (str "a:8080")).NeedsNoPort ∧
    ¬ (hostRequest (str "a:70000")).NeedsNoPort := by
  constructor <;> rintro ⟨-, h | h⟩ <;> exact absurd h (by decide)

theorem destination_consistent_iff_8080 :
    ∃ s', freshSession.handleRequest {} (hostRequest (str "a:8080")) = .ok s' ∧
      ((∃ host n, (hostRequest (str "a:8080")).Destined host n ∧
        SentTo freshSession s' ((hostRequest (str "a:8080")).method = str "CONNECT" →
          freshSession.hasCertCache = false) host n) ↔
        (hostRequest (str "a:8080")).PortSound freshSession.hasCertCache) :=
  ⟨_, rfl, destination_consistent_iff rfl hostRequest_routed.1⟩

/-- Port 70000 is recorded as it is, and shown for interception as 4464. -/
theorem destination_inconsistent :
    ∃ s', freshSession.handleRequest { interceptEnabled := true } (hostRequest (str "a:70000")) =
        .ok s' ∧
      s'.currentTransaction.port = 70000 ∧
      (s'.log.any fun
        | .intercepted item => item.port == 4464
        | _ => false) = true ∧
      ¬ ∃ host n, (hostRequest (str "a:70000")).Destined host n ∧
        SentTo freshSession s' ((hostRequest (str "a:70000")).method = str "CONNECT" →
          freshSession.hasCertCache = false) host n := by
  refine ⟨_, rfl, by decide, by decide, ?_⟩
  rintro ⟨host, n, hdestined, hsent⟩
  have hport := ((hsent _ (.init rfl)).1.transaction rfl).2
  have hrange := hdestined.range.2
  have hlarge : (70000 : ℤ) = n := hport
  omega

end Session

end BurpTUI
