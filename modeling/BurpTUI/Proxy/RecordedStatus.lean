import BurpTUI.Base.Grows
import BurpTUI.Proxy.MitmFlow
import BurpTUI.Proxy.OneAnswer
import BurpTUI.Proxy.ServerData
import BurpTUI.Proxy.Turn

namespace BurpTUI

/-- The statuses that the proxy has recorded for the request at hand as its own answer, and what was
written to the client first since the request was taken. -/
structure StatusRecord where
  recorded : List ℕ := []
  written : Option Bytes := none
  deriving DecidableEq, Repr

namespace StatusRecord

def write (r : StatusRecord) (data : Bytes) : StatusRecord := { r with written := r.written.or (some data) }

/-- Each recorded status is the one that the client got. -/
def Agrees (r : StatusRecord) : Prop :=
  ∀ status ∈ r.recorded, ∃ data, r.written = some data ∧ statusLine status <+: data

theorem Agrees.empty : Agrees {} := by
  intro status hstatus
  cases hstatus

theorem Agrees.write {r : StatusRecord} (h : r.Agrees) (data : Bytes) : (r.write data).Agrees := by
  intro status hstatus
  obtain ⟨first, hfirst, hline⟩ := h status hstatus
  refine ⟨first, ?_, hline⟩
  rw [StatusRecord.write, hfirst]
  rfl

end StatusRecord

def trackStatus (r : StatusRecord) : Effect → StatusRecord
  | .took _ _ => {}
  | .reported .generated tx =>
    if tx.request.isSome then
      { r with recorded := r.recorded ++ (tx.response.map HttpResponse.statusCode).toList }
    else r
  | .queued _ data => r.write data
  | .answered data => r.write data
  | _ => r

def statusOf (log : List Effect) : StatusRecord := log.foldl trackStatus {}

theorem trackStatus_silent (e : Effect) (he : e.ofExchange = false) (r : StatusRecord) :
    trackStatus r e = r := by
  cases e with
  | took ref req => cases he
  | queued origin data => cases he
  | answered data => cases he
  | reported origin tx => cases he
  | _ => rfl

theorem statusOf_exchanges (log : List Effect) : statusOf (exchanges log) = statusOf log :=
  foldl_exchanges trackStatus_silent {} log

theorem statusOf_turn {log log' es : List Effect} (h : exchanges log' = exchanges log ++ es) :
    statusOf log' = es.foldl trackStatus (statusOf log) := by
  rw [← statusOf_exchanges, h, ← statusOf_exchanges log, statusOf, List.foldl_append]
  rfl

/-- When the next request is taken, the statuses recorded for the one before are those that the
client got. -/
def StatusesKept (log : List Effect) : Prop :=
  Everywhere (fun before e => ∀ ref req, e = .took ref req → (statusOf before).Agrees) log

theorem StatusesKept.of_exchanges {log : List Effect} (h : StatusesKept (exchanges log)) :
    StatusesKept log := by
  intro l₁ e l₂ hlog ref req he
  rw [← statusOf_exchanges]
  refine h (exchanges l₁) e (exchanges l₂) ?_ ref req he
  subst he hlog
  exact exchanges_append _ _

/-- Where a session has sent its client. -/
def spawnedTarget (log : List Effect) : Option (Bytes × UInt16) :=
  log.foldl (fun target e => match e with
    | .spawned host port => some (host, port)
    | _ => target) none

theorem spawnedTarget_exchanges (log : List Effect) : spawnedTarget (exchanges log) = spawnedTarget log := by
  refine foldl_exchanges (fun e he target => ?_) none log
  cases e with
  | spawned host port => cases he
  | _ => rfl

theorem spawnedTarget_append {log es : List Effect} (h : spawnedTarget log = none)
    (hes : ∀ e ∈ es, ∀ host port, e ≠ .spawned host port) : spawnedTarget (log ++ es) = none := by
  rw [spawnedTarget, List.foldl_append, ← spawnedTarget, h]
  clear h
  induction es with
  | nil => rfl
  | cons e es ih =>
    rw [List.foldl_cons]
    cases e with
    | spawned host port => exact absurd rfl (hes _ (by simp) host port)
    | _ => exact ih fun e' he' => hes e' (by simp [he'])

namespace Session

open BurpTUI.Flow (Idle Cleared Sound SoundAfter)

variable {L : Llhttp} {b : Flow} {new : Ref} {es : List Effect} {m n : OpKind → ℕ} {tx : HttpTransaction}
  {s t u : Session L} {op : Op}

/-- A CONNECT request is recorded as answered, and nothing was written to the client yet. -/
structure Connecting (n : OpKind → ℕ) (s : Session L) : Prop where
  status : statusOf s.log = { recorded := [200] }
  tunnel : s.isConnect = true
  clientOpen : s.clientOpen = true
  asked : s.asked = []
  decision : ∀ a, n (.decision a) = 0
  dial : n .dial ≤ 1
  rest : n .read + n .send + n .receive = 0

/-- How far a request is, as far as its status goes, by the outstanding operations `n`. -/
inductive StatusPhase (n : OpKind → ℕ) (s : Session L) : Prop
  | fresh (status : statusOf s.log = {}) (tunnel : s.isConnect = false)
  | settled (agrees : (statusOf s.log).Agrees) (settled : Settled n s)
  | connecting (connecting : Connecting n s)

/-- The client socket is given to a `MitmSession`. -/
structure Given (n : OpKind → ℕ) (s : Session L) : Prop where
  target : spawnedTarget s.log ≠ none
  status : statusOf s.log = { recorded := [200] }
  settled : Settled n s
  rest : n .read + n .receive = 0

/-- The invariant. -/
structure Recording (n : OpKind → ℕ) (s : Session L) : Prop where
  kept : StatusesKept (exchanges s.log)
  reading : s.isConnect = false → 0 < n .read → s.currentTransaction.request = none
  phase : spawnedTarget s.log = none ∧ StatusPhase n s ∨ Given n s

theorem Settled.mono {n m : OpKind → ℕ} (h : Settled n s) (hasked : t.asked = s.asked)
    (hle : ∀ k, k ≠ .other → m k ≤ n k) : Settled m t where
  asked := hasked.trans h.asked
  decision a := Nat.le_zero.mp (h.decision a ▸ hle _ (by simp))
  dial := Nat.le_zero.mp (h.dial ▸ hle _ (by simp))
  send := Nat.le_zero.mp (h.send ▸ hle _ (by simp))

namespace Recording

/-- Things happen that are neither a new request nor the end of the session. -/
theorem kept_turn (h : StatusesKept (exchanges s.log)) (ht : exchanges t.log = exchanges s.log ++ es)
    (hes : ∀ e ∈ es, ∀ ref req, e ≠ .took ref req) : StatusesKept (exchanges t.log) := by
  rw [ht]
  refine Everywhere.grow h ⟨es, rfl, hes⟩ fun e he before ref req heq => ?_
  exact absurd heq (he ref req)

theorem target_turn (h : spawnedTarget s.log = none) (ht : exchanges t.log = exchanges s.log ++ es)
    (hes : ∀ e ∈ es, ∀ host port, e ≠ .spawned host port) : spawnedTarget t.log = none := by
  rw [← spawnedTarget_exchanges] at h ⊢
  rw [ht]
  exact spawnedTarget_append h hes

/-- Only timers, client writes and what is closed are different. -/
theorem rests (h : Recording n s) (haside : Aside s t) (hle : ∀ k, k ≠ .other → s.io.count k ≤ n k)
    (hopen : Connecting n s → t.clientOpen = true) : Recording t.io.count t := by
  have hlog := exchanges_aside haside.log
  have hstatus : statusOf t.log = statusOf s.log := by rw [← statusOf_exchanges, hlog, statusOf_exchanges]
  have htarget : spawnedTarget t.log = spawnedTarget s.log := by
    rw [← spawnedTarget_exchanges, hlog, spawnedTarget_exchanges]
  have hcount (k : OpKind) (hk : k ≠ .other) : t.io.count k ≤ n k := (haside.count k hk).trans_le (hle k hk)
  refine ⟨hlog ▸ h.kept, fun hc hpos => ?_, ?_⟩
  · rw [haside.transaction]
    exact h.reading (haside.isConnect ▸ hc) (hpos.trans_le (hcount _ (by simp)))
  · rcases h.phase with ⟨hnone, hphase⟩ | hgiven
    · refine Or.inl ⟨htarget.trans hnone, ?_⟩
      cases hphase with
      | fresh status tunnel => exact .fresh (hstatus.trans status) (haside.isConnect.trans tunnel)
      | settled agrees settled => exact .settled (hstatus ▸ agrees) (settled.mono haside.asked hcount)
      | connecting connecting =>
        have hread := hcount .read (by simp)
        have hsend := hcount .send (by simp)
        have hreceive := hcount .receive (by simp)
        have hrest := connecting.rest
        refine .connecting ⟨hstatus.trans connecting.status, haside.isConnect.trans connecting.tunnel,
          hopen connecting, haside.asked.trans connecting.asked, fun a => ?_, ?_, by omega⟩
        · exact Nat.le_zero.mp (connecting.decision a ▸ hcount _ (by simp))
        · exact (hcount .dial (by simp)).trans connecting.dial
    · have hread := hcount .read (by simp)
      have hreceive := hcount .receive (by simp)
      have hrest := hgiven.rest
      exact Or.inr ⟨htarget ▸ hgiven.target, hstatus.trans hgiven.status,
        hgiven.settled.mono haside.asked hcount, by omega⟩

/-- The proxy answers itself, for the first time, or without a request. -/
theorem answered (hkept : StatusesKept (exchanges s.log)) (htarget : spawnedTarget s.log = none)
    (h : Answers s t) (hstatus : statusOf s.log = {} ∨
      s.currentTransaction.request = none ∧ (statusOf s.log).Agrees)
    (hsettled : Settled s.io.count s) (hread : s.isConnect = false → s.io.count .read = 0) :
    Recording t.io.count t := by
  obtain ⟨response, data, hline, hturn⟩ := h
  have hcount (k : OpKind) (hk : k ≠ .other) : t.io.count k ≤ s.io.count k := (hturn.count k hk).le
  have hagrees : (statusOf t.log).Agrees := by
    rw [statusOf_turn hturn.log]
    cases hrequest : s.currentTransaction.request with
    | none =>
      simp only [List.foldl_cons, List.foldl_nil, trackStatus, hrequest, Option.isSome_none,
        Bool.false_eq_true, if_false]
      rcases hstatus with hempty | ⟨-, hagrees⟩
      · rw [hempty]
        exact StatusRecord.Agrees.empty.write data
      · exact hagrees.write data
    | some ref =>
      have hempty : statusOf s.log = {} := by
        refine hstatus.resolve_right fun hnot => ?_
        rw [hrequest] at hnot
        cases hnot.1
      intro status hmem
      simp only [List.foldl_cons, List.foldl_nil, trackStatus, hrequest, hempty, Option.isSome_some, if_true,
        StatusRecord.write, Option.map_some, Option.toList_some, List.nil_append, List.mem_singleton] at hmem
      refine ⟨data, ?_, hmem ▸ hline⟩
      simp [trackStatus, hrequest, hempty, StatusRecord.write]
  refine ⟨kept_turn hkept hturn.log (by simp), fun hc hpos => ?_, Or.inl ⟨?_, .settled hagrees ?_⟩⟩
  · have hzero := hread (hturn.isConnect ▸ hc)
    have hle := hcount .read (by simp)
    omega
  · exact target_turn htarget hturn.log (by simp)
  · exact hsettled.mono hturn.asked hcount

/-- A request that has got nothing yet goes on. -/
theorem goes_on (hkept : StatusesKept (exchanges s.log)) (htarget : spawnedTarget s.log = none)
    (hstatus : statusOf s.log = {}) (hc : s.isConnect = false) (ht : Turn [] m tx s t)
    (hreading : 0 < t.io.count .read → tx.request = none) : Recording t.io.count t := by
  have hsame : statusOf t.log = statusOf s.log := statusOf_turn ht.log
  refine ⟨kept_turn hkept ht.log (by simp), fun _ hpos => ?_, Or.inl ⟨?_, .fresh (hsame.trans hstatus) ?_⟩⟩
  · rw [ht.transaction]
    exact hreading hpos
  · exact target_turn htarget ht.log (by simp)
  · exact ht.isConnect.trans hc

/-- What was recorded agrees, and nothing is outstanding that could be answered. -/
theorem of_settled (hkept : StatusesKept (exchanges s.log)) (htarget : spawnedTarget s.log = none)
    (ht : Turn es m tx s t) (hes : ∀ e ∈ es, (∀ ref req, e ≠ .took ref req) ∧
      ∀ host port, e ≠ .spawned host port) (hagrees : (statusOf t.log).Agrees)
    (hsettled : Settled t.io.count t)
    (hreading : s.isConnect = false → 0 < t.io.count .read → tx.request = none) : Recording t.io.count t := by
  refine ⟨kept_turn hkept ht.log fun e he => (hes e he).1, fun hc hpos => ?_, Or.inl ⟨?_, .settled hagrees
    hsettled⟩⟩
  · rw [ht.transaction]
    exact hreading (ht.isConnect ▸ hc) hpos
  · exact target_turn htarget ht.log fun e he => (hes e he).2

end Recording

/-- A CONNECT request is recorded as answered and waits for its answer. -/
def waits (s : Session L) : Bool := s.isConnect && (statusOf s.log).written.isNone

/-- The handler takes a CONNECT request from these bytes. -/
def takesConnect (s : Session L) (data : Bytes) : Bool :=
  !s.isConnect && (s.parser.feedRequest data).1.takeRequest.1.any fun req => req.method == str "CONNECT"

/-- What the handlers may find. The timer runs out on a request only after it was sent to the upstream
and before a byte has come back. A CONNECT request is taken from an open socket, and then nothing
fails and nothing closes the session before the response is written. -/
def Steady (s : Session L) : Op → Outcome → Prop
  | .timer, o => o = .aborted ∨ s.waits = false ∧ (s.currentTransaction.request.isSome = true →
      s.currentTransaction.response = none → s.isConnect = false → statusOf s.log = {} ∧ s.asked = [] ∧
        s.io.count (.decision .forward) = 0 ∧ s.io.count (.decision .drop) = 0 ∧ s.io.count .dial = 0 ∧
        s.io.count .send = 0)
  | .resolve, o => s.waits = true → o = .ok
  | .connect, o => s.waits = true → o = .ok
  | .clientWrite _, o => s.waits = true → o = .ok ∧ (s.writeQueue.tail ≠ [] ∨ s.closeAfterWrite = false)
  | .serverWrite _, o => s.waits = true → o = .ok ∨ o = .aborted
  | .clientRead, .bytes data => s.takesConnect data = true → s.clientOpen = true
  | _, _ => True

instance (s : Session L) (op : Op) (o : Outcome) : Decidable (s.Steady op o) := by
  unfold Steady
  split <;> infer_instance

theorem Connecting.waits (h : Connecting n s) : s.waits = true := by
  simp [Session.waits, h.tunnel, h.status]

/-- The invariant while the handler of `op` runs. -/
abbrev RecordingAfter (op : Op) (s : Session L) : Prop := Recording (fun k => s.io.count k + op.weight k) s

namespace Recording

/-- The same for a handler that does nothing else. -/
theorem aside (h : RecordingAfter op s) (haside : Aside s t)
    (hopen : s.waits = true → t.clientOpen = s.clientOpen) : Recording t.io.count t :=
  h.rests haside (fun _ _ => Nat.le_add_right _ _) fun hc => (hopen hc.waits).trans hc.clientOpen

/-- While a request is carried on, nothing is recorded for it; or it is a CONNECT request. -/
theorem carried (h : RecordingAfter op s)
    (hop : op.kind = .dial ∨ op.kind = .send ∨ ∃ a, op.kind = .decision a) :
    spawnedTarget s.log = none ∧ (statusOf s.log = {} ∧ s.isConnect = false ∨
      op.kind = .dial ∧ Connecting (fun k => s.io.count k + op.weight k) s) := by
  have hnot (hs : Settled (fun k => s.io.count k + op.weight k) s) : False := by
    have hdial := hs.dial
    have hsend := hs.send
    rcases hop with hop | hop | ⟨a, hop⟩
    · simp [Op.weight, hop] at hdial
    · simp [Op.weight, hop] at hsend
    · have hdecision := hs.decision a
      simp [Op.weight, hop] at hdecision
  rcases h.phase with ⟨htarget, hphase⟩ | hgiven
  · refine ⟨htarget, ?_⟩
    cases hphase with
    | fresh status tunnel => exact Or.inl ⟨status, tunnel⟩
    | settled agrees settled => exact (hnot settled).elim
    | connecting connecting =>
      refine Or.inr ⟨?_, connecting⟩
      have hrest := connecting.rest
      rcases hop with hop | hop | ⟨a, hop⟩
      · exact hop
      · simp [Op.weight, hop] at hrest
      · have hdecision := connecting.decision a
        simp [Op.weight, hop] at hdecision
  · exact (hnot hgiven.settled).elim

/-- When something is read, the request at hand is either new or has its answer. -/
theorem reads (h : RecordingAfter op s) (hop : op.kind = .read ∨ op.kind = .receive) :
    spawnedTarget s.log = none ∧ (statusOf s.log).Agrees ∧
      (s.isConnect = true → Settled s.io.count s) := by
  rcases h.phase with ⟨htarget, hphase⟩ | hgiven
  · refine ⟨htarget, ?_⟩
    cases hphase with
    | fresh status tunnel =>
      refine ⟨status ▸ StatusRecord.Agrees.empty, fun hc => ?_⟩
      rw [tunnel] at hc
      cases hc
    | settled agrees settled =>
      exact ⟨agrees, fun _ => settled.mono rfl fun _ _ => Nat.le_add_right _ _⟩
    | connecting connecting =>
      have hrest := connecting.rest
      rcases hop with hop | hop <;> simp [Op.weight, hop] at hrest
  · have hrest := hgiven.rest
    rcases hop with hop | hop <;> simp [Op.weight, hop] at hrest

end Recording

theorem handleTimeout_recording (h : RecordingAfter .timer s) {o : Outcome} (hsteady : s.Steady .timer o) :
    Recording (s.handleTimeout o).io.count (s.handleTimeout o) := by
  have hsteady : o = .aborted ∨ _ := hsteady
  rcases handleTimeout_turn s o with haside | ⟨ho, hrequest, hresponse, hc, hanswers⟩
  · refine Recording.aside h haside fun hwaits => ?_
    have ho : o = .aborted := hsteady.resolve_right fun hnot => by
      rw [hwaits] at hnot
      cases hnot.1
    rw [ho]
    rfl
  · obtain ⟨-, hlate⟩ := hsteady.resolve_left ho
    obtain ⟨hstatus, hasked, hforward, hdrop, hdial, hsend⟩ := hlate hrequest hresponse hc
    have htarget : spawnedTarget s.log = none := by
      rcases h.phase with ⟨htarget, -⟩ | hgiven
      · exact htarget
      · rw [hgiven.status] at hstatus
        cases hstatus
    have hread : s.io.count .read = 0 := by
      by_contra hpos
      have hnone := h.reading hc (Nat.add_pos_left (Nat.pos_of_ne_zero hpos) _)
      rw [hnone] at hrequest
      cases hrequest
    refine .answered h.kept htarget hanswers (Or.inl hstatus) ⟨hasked, fun a => ?_, hdial, hsend⟩ fun _ => hread
    cases a with
    | forward => exact hforward
    | drop => exact hdrop

theorem handleResolve_recording (h : RecordingAfter .resolve s) {o : Outcome} (hsteady : s.Steady .resolve o)
    (hs : SoundAfter b new .resolve s.flow) :
    Recording (s.handleResolve o).io.count (s.handleResolve o) := by
  have hidle : Idle b new s.flow := by
    rcases hs.dialed rfl with ⟨hidle, -⟩ | ⟨r, hcleared⟩
    · exact hidle
    · exact hcleared.idle
  obtain ⟨htarget, hstatus⟩ := h.carried (Or.inl rfl)
  rcases handleResolve_turn s o with ⟨-, hturn⟩ | ⟨ho, hanswers⟩
  · -- a plain request has no record yet, a CONNECT request its 200
    rcases hstatus with ⟨hstatus, hc⟩ | ⟨-, hconnecting⟩
    · refine .goes_on h.kept htarget hstatus hc hturn fun hpos => ?_
      have hread := (settled_of_idle hidle hc).2.1
      rw [hturn.count .read (by simp), hread] at hpos
      cases hpos
    · have hopen : (s.handleResolve o).clientOpen = s.clientOpen := by
        unfold handleResolve handleUpstreamConnect closeServer
        split
        · split <;> rfl
        · rename_i hnot
          exact absurd (hsteady hconnecting.waits) hnot
      have hsame : statusOf (s.handleResolve o).log = statusOf s.log := statusOf_turn hturn.log
      have hcount (k : OpKind) (hk : k ≠ .other) :
          (s.handleResolve o).io.count k = s.io.count k + Op.resolve.weight k := hturn.count k hk
      have hrest := hconnecting.rest
      refine ⟨Recording.kept_turn h.kept hturn.log (by simp), fun hc => ?_, Or.inl ⟨?_, .connecting ?_⟩⟩
      · rw [hturn.isConnect, hconnecting.tunnel] at hc
        cases hc
      · exact Recording.target_turn htarget hturn.log (by simp)
      · refine ⟨hsame.trans hconnecting.status, hturn.isConnect.trans hconnecting.tunnel,
          hopen.trans hconnecting.clientOpen, hturn.asked.trans hconnecting.asked, fun a => ?_, ?_, ?_⟩
        · rw [hcount _ (by simp)]
          exact hconnecting.decision a
        · rw [hcount _ (by simp)]
          exact hconnecting.dial
        · rw [hcount _ (by simp), hcount _ (by simp), hcount _ (by simp)]
          exact hrest
  · rcases hstatus with ⟨hstatus, hc⟩ | ⟨-, hconnecting⟩
    · obtain ⟨hsettled, hread, -⟩ := settled_of_idle hidle hc
      exact .answered h.kept htarget hanswers (Or.inl hstatus) hsettled fun _ => hread
    · exact absurd (hsteady hconnecting.waits) ho

theorem handleConnected_recording (h : RecordingAfter .connect s) {o : Outcome}
    (hsteady : s.Steady .connect o) (hs : SoundAfter b new .connect s.flow) (env : Env) :
    Recording (s.handleConnected env o).io.count (s.handleConnected env o) := by
  have hidle : Idle b new s.flow := by
    rcases hs.dialed rfl with ⟨hidle, -⟩ | ⟨r, hcleared⟩
    · exact hidle
    · exact hcleared.idle
  obtain ⟨htarget, hstatus⟩ := h.carried (Or.inl rfl)
  rcases handleConnected_turn s env o with ⟨ho, hanswers⟩ | ⟨-, hc, hturn⟩ | ⟨hc, data, hturn⟩
  · rcases hstatus with ⟨hstatus, hc⟩ | ⟨-, hconnecting⟩
    · obtain ⟨hsettled, hread, -⟩ := settled_of_idle hidle hc
      exact .answered h.kept htarget hanswers (Or.inl hstatus) hsettled fun _ => hread
    · exact absurd (hsteady hconnecting.waits) ho
  · -- the tunnel is open: the 200 on record is what is written now
    have hconnecting : Connecting (fun k => s.io.count k + Op.connect.weight k) s := by
      rcases hstatus with ⟨-, hnot⟩ | ⟨-, hconnecting⟩
      · rw [hc] at hnot
        cases hnot
      · exact hconnecting
    have hdial := hconnecting.dial
    have hrest := hconnecting.rest
    have hweight : Op.connect.weight .dial = 1 := rfl
    refine .of_settled h.kept htarget hturn (by simp) ?_ ⟨hturn.asked.trans hconnecting.asked, fun a => ?_,
      ?_, ?_⟩ fun hnot => ?_
    · rw [statusOf_turn hturn.log, hconnecting.status]
      intro status hmem
      refine ⟨established, rfl, ?_⟩
      rw [List.mem_singleton.mp hmem]
      decide
    · rw [hturn.count _ (by simp)]
      exact hconnecting.decision a
    · rw [hturn.count _ (by simp)]
      show s.io.count .dial + 0 = 0
      omega
    · rw [hturn.count _ (by simp)]
      show s.io.count .send + 0 = 0
      omega
    · rw [hc] at hnot
      cases hnot
  · obtain ⟨hstatus, -⟩ | ⟨-, hconnecting⟩ := hstatus
    · refine .goes_on h.kept htarget hstatus hc hturn fun hpos => ?_
      have hread := (settled_of_idle hidle hc).2.1
      rw [hturn.count .read (by simp), hread] at hpos
      cases hpos
    · rw [hconnecting.tunnel] at hc
      cases hc

theorem handleUpstreamWrite_recording {data : Bytes} (h : RecordingAfter (.upstreamWrite data) s)
    (hs : SoundAfter b new (.upstreamWrite data) s.flow) (o : Outcome) :
    Recording (s.handleUpstreamWrite o).io.count (s.handleUpstreamWrite o) := by
  obtain ⟨htarget, hstatus⟩ := h.carried (Or.inr (Or.inl rfl))
  obtain ⟨hstatus, hc⟩ := hstatus.resolve_right fun hnot => by cases hnot.1
  obtain ⟨hsettled, hread, -⟩ := settled_of_idle (hs.idle (Or.inr (Or.inl rfl))) hc
  rcases handleUpstreamWrite_turn s o with hanswers | hturn
  · exact .answered h.kept htarget hanswers (Or.inl hstatus) hsettled fun _ => hread
  · refine .goes_on h.kept htarget hstatus hc hturn fun hpos => ?_
    rw [hturn.count .read (by simp), hread] at hpos
    cases hpos

theorem handleDecision_recording {a : InterceptAction} (h : RecordingAfter (.decision a) s)
    (hs : SoundAfter b new (.decision a) s.flow) :
    Recording (s.handleDecision a).io.count (s.handleDecision a) := by
  obtain ⟨htarget, hstatus⟩ := h.carried (Or.inr (Or.inr ⟨a, rfl⟩))
  obtain ⟨hstatus, hc⟩ := hstatus.resolve_right fun hnot => by cases hnot.1
  obtain ⟨hsettled, hread, -⟩ := settled_of_idle hs.decided.1 hc
  rcases handleDecision_turn s a with hturn | hturn | hanswers
  · refine .goes_on h.kept htarget hstatus hc hturn fun hpos => ?_
    rw [hturn.count .read (by simp), hread] at hpos
    cases hpos
  · refine .goes_on h.kept htarget hstatus hc hturn fun hpos => ?_
    rw [hturn.count .read (by simp), hread] at hpos
    cases hpos
  · exact .answered h.kept htarget hanswers (Or.inl hstatus) hsettled fun _ => hread

/-- A plain request that was just taken. -/
theorem Routes.recording (hkept : StatusesKept (exchanges s.log)) (htarget : spawnedTarget s.log = none)
    (hstatus : statusOf s.log = {}) (hc : s.isConnect = false) (hsettled : Settled s.io.count s)
    (hread : s.io.count .read = 0) {ref : Ref} (h : Routes ref s t) : Recording t.io.count t := by
  rcases h with hanswers | ⟨tx, n, hn, hturn, -, -⟩ | ⟨hlog, -, -, hconnect, -, hcount⟩
  · exact .answered hkept htarget hanswers (Or.inl hstatus) hsettled fun _ => hread
  · refine .goes_on hkept htarget hstatus hc hturn fun hpos => ?_
    rw [hturn.count .read (by simp), hread] at hpos
    rcases hn with rfl | rfl <;> cases hpos
  · have hsame : statusOf t.log = statusOf s.log := by rw [← statusOf_exchanges, hlog, statusOf_exchanges]
    have hnone : spawnedTarget t.log = none := by
      rwa [← spawnedTarget_exchanges, hlog, spawnedTarget_exchanges]
    refine ⟨hlog ▸ hkept, fun _ hpos => ?_, Or.inl ⟨hnone, .fresh (hsame.trans hstatus) (hconnect.trans hc)⟩⟩
    rw [hcount .read (by simp), hread] at hpos
    cases hpos

/-- A CONNECT request that was just taken. -/
theorem Connects.recording (hkept : StatusesKept (exchanges s.log)) (htarget : spawnedTarget s.log = none)
    (hstatus : statusOf s.log = {}) (hrequest : s.currentTransaction.request.isSome = true)
    (hopen : s.clientOpen = true) (hsettled : Settled s.io.count s)
    (hrest : s.io.count .read + s.io.count .receive = 0) (h : Connects s t tx) : Recording t.io.count t := by
  have hreported : trackStatus {} (.reported .generated tx) = { recorded := [200] } := by
    rw [trackStatus, h.request, if_pos hrequest, h.response]
    rfl
  rcases h.way with ⟨hlog, htunnel, hclient, hcount⟩ | ⟨⟨host, port, hlog⟩, hconnect, hcount⟩
  · have hstatus' : statusOf t.log = { recorded := [200] } := by
      rw [statusOf_turn hlog, hstatus]
      exact hreported
    refine ⟨Recording.kept_turn hkept hlog (by simp), fun hnot => ?_, Or.inl ⟨?_, .connecting ?_⟩⟩
    · rw [htunnel] at hnot
      cases hnot
    · exact Recording.target_turn htarget hlog (by simp)
    · refine ⟨hstatus', htunnel, hclient.trans hopen, h.asked.trans hsettled.asked, fun a => ?_, ?_, ?_⟩
      · rw [hcount _ (by simp)]
        exact hsettled.decision a
      · rw [hcount _ (by simp), hsettled.dial]
        exact Nat.le_refl 1
      · rw [hcount _ (by simp), hcount _ (by simp), hcount _ (by simp), hsettled.send]
        simpa [Op.weight, Op.kind] using hrest
  · have hstatus' : statusOf t.log = { recorded := [200] } := by
      rw [statusOf_turn hlog, hstatus, List.foldl_cons, hreported]
      rfl
    have htarget' : spawnedTarget t.log ≠ none := by
      rw [← spawnedTarget_exchanges, hlog, spawnedTarget, List.foldl_append]
      exact Option.some_ne_none _
    refine ⟨Recording.kept_turn hkept hlog (by simp), fun _ hpos => ?_, Or.inr ⟨htarget', hstatus', ?_, ?_⟩⟩
    · rw [hcount .read (by simp)] at hpos
      omega
    · exact hsettled.mono h.asked fun k hk => (hcount k hk).le
    · rwa [hcount .read (by simp), hcount .receive (by simp)]

theorem handleClientRead_recording {env : Env} {o : Outcome} (h : RecordingAfter .clientRead s)
    (hsteady : s.Steady .clientRead o) (hs : SoundAfter b new .clientRead s.flow)
    (hok : s.handleClientRead env o = .ok t) : Recording t.io.count t := by
  have hidle : Idle b new s.flow := hs.idle (Or.inl rfl)
  obtain ⟨htarget, hagrees, htunnel⟩ := h.reads (Or.inl rfl)
  have hreading (hc : s.isConnect = false) : s.currentTransaction.request = none :=
    h.reading hc (Nat.lt_add_left _ Nat.one_pos)
  rcases handleClientRead_turn hok with haside | hturn | ⟨hc, hrest⟩
  · refine h.rests haside (fun _ _ => Nat.le_add_right _ _) fun hconnecting => ?_
    have hrest := hconnecting.rest
    simp [Op.weight, Op.kind] at hrest
  · refine .of_settled h.kept htarget hturn (by simp) ?_ ?_ fun hc _ => hreading hc
    · rw [statusOf_turn hturn.log]
      exact hagrees
    · have hsettled : Settled s.io.count s := by
        cases hc : s.isConnect with
        | true => exact htunnel hc
        | false => exact (settled_of_idle hidle hc).1
      refine ⟨hturn.asked.trans hsettled.asked, fun a => ?_, ?_, ?_⟩
      · exact (hturn.count _ (by simp)).trans (hsettled.decision a)
      · exact (hturn.count _ (by simp)).trans hsettled.dial
      · exact (hturn.count _ (by simp)).trans hsettled.send
  · obtain ⟨hsettled, hread, hreceive⟩ := settled_of_idle hidle hc
    rcases hrest with hanswers | ⟨data, req, rfl, htake, u, hu, hopen, hway⟩
    · exact .answered h.kept htarget hanswers (Or.inr ⟨hreading hc, hagrees⟩) hsettled fun _ => hread
    · -- the next request begins, and the record of the one before it is complete
      have hkept : StatusesKept (exchanges u.log) := by
        rw [hu.log]
        refine Everywhere.snoc h.kept fun ref req heq => ?_
        rw [statusOf_exchanges]
        exact hagrees
      have hstatus : statusOf u.log = {} := statusOf_turn hu.log
      have htarget' : spawnedTarget u.log = none := Recording.target_turn htarget hu.log (by simp)
      have hcu : u.isConnect = false := hu.isConnect.trans hc
      have hcount (k : OpKind) (hk : k ≠ .other) : u.io.count k = s.io.count k := hu.count k hk
      have hsettled' : Settled u.io.count u := hsettled.mono hu.asked fun k hk => (hcount k hk).le
      rcases hway with ⟨hmethod, tx, hconnects⟩ | ⟨-, hroutes⟩
      · have htakes : s.takesConnect data = true := by
          simp [takesConnect, hc, htake, hmethod]
        refine hconnects.recording hkept htarget' hstatus ?_ (hopen.trans (hsteady htakes)) hsettled' ?_
        · rw [hu.transaction]
          rfl
        · rw [hcount _ (by simp), hcount _ (by simp), hread, hreceive]
      · exact hroutes.recording hkept htarget' hstatus hcu hsettled' ((hcount _ (by simp)).trans hread)

/-- Without data the read from the upstream ends the session. -/
theorem handleUpstreamRead_aside (hdata : s.serverData = []) (env : Env) {o : Outcome}
    (ho : ∀ data, o ≠ .bytes data) : Aside s (s.handleUpstreamRead env o) := by
  cases o with
  | bytes data => exact absurd rfl (ho data)
  | eof =>
    unfold handleUpstreamRead
    dsimp only
    rw [if_neg (by simp [hdata])]
    exact Aside.closes.close s
  | ok => exact Aside.closes.close s
  | truncated => exact Aside.closes.close s
  | aborted => exact Aside.closes.close s
  | failed => exact Aside.closes.close s

theorem handleUpstreamRead_recording (h : RecordingAfter .upstreamRead s)
    (hs : SoundAfter b new .upstreamRead s.flow) (hdata : s.serverData = []) (env : Env) (o : Outcome) :
    Recording (s.handleUpstreamRead env o).io.count (s.handleUpstreamRead env o) := by
  have hidle : Idle b new s.flow := hs.idle (Or.inr (Or.inr rfl))
  obtain ⟨htarget, hagrees, htunnel⟩ := h.reads (Or.inr rfl)
  have hsettled : Settled s.io.count s := by
    cases hc : s.isConnect with
    | true => exact htunnel hc
    | false => exact (settled_of_idle hidle hc).1
  by_cases ho : ∃ data, o = .bytes data
  · obtain ⟨data, rfl⟩ := ho
    have hread (hc : s.isConnect = false) : s.io.count .read = 0 := (settled_of_idle hidle hc).2.1
    rcases handleUpstreamRead_turn s env data with ⟨hturn, -⟩ | ⟨hc, -, n, tx, tx', -, hturn, hn⟩
    · refine .of_settled h.kept htarget hturn (by simp) ?_ ?_ fun hc hpos => ?_
      · rw [statusOf_turn hturn.log]
        exact hagrees.write data
      · refine ⟨hturn.asked.trans hsettled.asked, fun a => ?_, ?_, ?_⟩
        · exact (hturn.count _ (by simp)).trans (hsettled.decision a)
        · exact (hturn.count _ (by simp)).trans hsettled.dial
        · exact (hturn.count _ (by simp)).trans hsettled.send
      · rw [hturn.count .read (by simp), hread hc] at hpos
        cases hpos
    · -- the response is reported, and the bytes with its status line were relayed before
      refine .of_settled h.kept htarget hturn (by simp) ?_ ?_ fun _ hpos => ?_
      · rw [statusOf_turn hturn.log]
        exact hagrees.write data
      · have hzero (k : OpKind) (hk : k ≠ .read) : n k = 0 := by
          rcases hn with ⟨rfl, -⟩ | ⟨rfl, -⟩
          · exact if_neg hk.symm
          · rfl
        refine ⟨hturn.asked.trans hsettled.asked, fun a => ?_, ?_, ?_⟩
        · rw [hturn.count _ (by simp), hzero _ (by simp), hsettled.decision a]
        · rw [hturn.count _ (by simp), hzero _ (by simp), hsettled.dial]
        · rw [hturn.count _ (by simp), hzero _ (by simp), hsettled.send]
      · rcases hn with ⟨-, rfl⟩ | ⟨rfl, -⟩
        · rfl
        · rw [hturn.count .read (by simp), hread hc] at hpos
          cases hpos
  · refine h.rests (handleUpstreamRead_aside hdata env fun data heq => ho ⟨data, heq⟩)
      (fun _ _ => Nat.le_add_right _ _) fun hconnecting => ?_
    have hrest := hconnecting.rest
    simp [Op.weight, Op.kind] at hrest

theorem handle_recording {env : Env} {o : Outcome} (h : RecordingAfter op s) (hsteady : s.Steady op o)
    (hs : SoundAfter b new op s.flow) (hdrained : Drained (fun k => s.io.count k + op.weight k) s)
    (hok : s.handle env op o = .ok t) : Recording t.io.count t := by
  cases op with
  | timer => cases hok; exact handleTimeout_recording h hsteady
  | resolve => cases hok; exact handleResolve_recording h hsteady hs
  | connect => cases hok; exact handleConnected_recording h hsteady hs env
  | clientRead => exact handleClientRead_recording h hsteady hs hok
  | upstreamRead =>
    cases hok
    exact handleUpstreamRead_recording h hs (hdrained.empty (Or.inr (Or.inr (Or.inl rfl)))) env o
  | upstreamWrite data => cases hok; exact handleUpstreamWrite_recording h hs o
  | decision a => cases hok; exact handleDecision_recording h hs
  | clientWrite data =>
    cases hok
    refine Recording.aside h (Aside.handleClientWrite s o) fun hwaits => ?_
    obtain ⟨rfl, hgoes⟩ := hsteady hwaits
    unfold handleClientWrite
    rw [if_neg (by simp)]
    dsimp only
    split
    · unfold doClientWrite
      split <;> rfl
    · rename_i hempty
      rw [if_neg (by simp [hgoes.resolve_left hempty])]
  | serverWrite data =>
    cases hok
    refine Recording.aside h (Aside.handleServerWrite s o) fun hwaits => ?_
    unfold handleServerWrite
    split
    · dsimp only
      split
      · unfold doServerWrite
        split <;> rfl
      · rfl
    · rename_i ho
      rw [if_pos ((hsteady hwaits).resolve_left ho)]
  | rawWrite data => cases hok; exact Recording.aside h (Aside.refl s) fun _ => rfl
  | established => cases hok; exact Recording.aside h (Aside.refl s) fun _ => rfl
  | clientHandshake => cases hok; exact Recording.aside h (Aside.refl s) fun _ => rfl
  | upstreamHandshake => cases hok; exact Recording.aside h (Aside.refl s) fun _ => rfl

/-- What the steps of a run have to meet. -/
def SteadyStep (s : Session L) : Label → Prop
  | .dispatch k _ => match s.io.take k with
    | some ((op, o), io) => Steady { s with io := io } op o
    | none => True
  | .close => s.waits = false
  | _ => True

theorem steadyStep_dispatch (s : Session L) (k : ℕ) (env : Env) :
    ((s.io.take k).all fun e => decide (Steady { s with io := e.2 } e.1.1 e.1.2)) = true ↔
      SteadyStep s (.dispatch k env) := by
  rcases h : s.io.take k with _ | ⟨⟨op, o⟩, io⟩
  · simp [SteadyStep, h]
  · simp [SteadyStep, h]

instance (s : Session L) (a : Label) : Decidable (SteadyStep s a) :=
  match a with
  | .dispatch k env => decidable_of_iff _ (steadyStep_dispatch s k env)
  | .close => inferInstanceAs (Decidable (_ = _))
  | .complete _ _ | .decide _ _ => inferInstanceAs (Decidable True)

theorem step_recording {r r' : Running L} {a : Label} (h : Recording r.session.io.count r.session)
    (hs : r.session.flow.Holds) (hdrained : Drained r.session.io.count r.session)
    (hsteady : r.session.SteadyStep a) (hstep : step r a = some r') :
    Recording r'.session.io.count r'.session := by
  cases moves_of_step hstep with
  | @complete k o t ht =>
    refine h.rests (Aside.complete ht) (fun _ _ => Nat.le_refl _) fun hconnecting => ?_
    have hopen : t.clientOpen = r.session.clientOpen := by
      obtain ⟨op, io, -, -, rfl⟩ := complete_spec ht
      rfl
    exact hopen.trans hconnecting.clientOpen
  | @handled _ env _ _ _ ht =>
    obtain ⟨op, o, io, hio, hhandle⟩ := dispatch_spec ht
    have hsteady : Steady { r.session with io := io } op o := by
      unfold SteadyStep at hsteady
      dsimp only at hsteady
      rw [hio] at hsteady
      exact hsteady
    have hafter : RecordingAfter op { r.session with io := io } := by
      rw [Io.count_take hio] at h
      refine ⟨h.kept, h.reading, ?_⟩
      rcases h.phase with ⟨htarget, hphase⟩ | hgiven
      · refine Or.inl ⟨htarget, ?_⟩
        cases hphase with
        | fresh status tunnel => exact .fresh status tunnel
        | settled agrees settled => exact .settled agrees ⟨settled.1, settled.2, settled.3, settled.4⟩
        | connecting hc => exact .connecting ⟨hc.1, hc.2, hc.3, hc.4, hc.5, hc.6, hc.7⟩
      · obtain ⟨htarget, hstatus, hsettled, hrest⟩ := hgiven
        exact Or.inr ⟨htarget, hstatus, ⟨hsettled.1, hsettled.2, hsettled.3, hsettled.4⟩, hrest⟩
    exact handle_recording hafter hsteady (taken_sound hs hio env.newRef) (hdrained.taken hio) hhandle
  | threw => exact h
  | @decide ref action href =>
    have hnot {n : OpKind → ℕ} (hs : Settled n r.session) : False := by
      rw [hs.asked] at href
      cases href
    have hlog : exchanges (r.session.decided ref action).log = exchanges r.session.log :=
      (exchanges_append _ _).trans (List.append_nil _)
    have hstatus : statusOf (r.session.decided ref action).log = statusOf r.session.log := by
      rw [← statusOf_exchanges, hlog, statusOf_exchanges]
    have htarget' : spawnedTarget (r.session.decided ref action).log = spawnedTarget r.session.log := by
      rw [← spawnedTarget_exchanges, hlog, spawnedTarget_exchanges]
    refine ⟨hlog ▸ h.kept, fun hc hpos => h.reading hc ?_, ?_⟩
    · simpa [Session.decided, Op.weight, Op.kind] using hpos
    · -- only a request that nothing is recorded for is still with the manager
      rcases h.phase with ⟨htarget, hphase⟩ | hgiven
      · refine Or.inl ⟨htarget'.trans htarget, ?_⟩
        cases hphase with
        | fresh status tunnel => exact .fresh (hstatus.trans status) tunnel
        | settled agrees settled => exact (hnot settled).elim
        | connecting hconnecting =>
          rw [hconnecting.asked] at href
          cases href
      · exact (hnot hgiven.settled).elim
  | close =>
    refine h.rests (Aside.closes.close _) (fun _ _ => Nat.le_refl _) fun hconnecting => ?_
    have hnot : r.session.waits = false := hsteady
    rw [hconnecting.waits] at hnot
    cases hnot

end Session

namespace MitmSession

open Session (idle)

variable {L : Llhttp} {b : Flow} {new : Ref} {es before before' : List Effect} {m n : OpKind → ℕ}
  {tx : HttpTransaction} {s t u : MitmSession L} {op : Op}

/-- How far a request is, by the outstanding operations `n`. `before` is the record of the session
that took the CONNECT request. -/
inductive StatusPhase (before : List Effect) (n : OpKind → ℕ) (s : MitmSession L) : Prop
  | waiting (status : statusOf (before ++ s.log) = { recorded := [200] }) (stillOpen : s.isClosed = false)
      (asked : s.asked = []) (decision : ∀ a, n (.decision a) = 0)
  | fresh (status : statusOf (before ++ s.log) = {})
  | settled (agrees : (statusOf (before ++ s.log)).Agrees) (asked : s.asked = [])
      (decision : ∀ a, n (.decision a) = 0)

/-- The invariant. -/
structure Recording (before : List Effect) (n : OpKind → ℕ) (s : MitmSession L) : Prop where
  kept : StatusesKept (exchanges (before ++ s.log))
  dialling : 0 < n .dial → s.currentTransaction.request = none
  phase : StatusPhase before n s

theorem exchanges_turn (ht : exchanges t.log = exchanges s.log ++ es) (before : List Effect) :
    exchanges (before ++ t.log) = exchanges (before ++ s.log) ++ es := by
  rw [exchanges_append, ht, exchanges_append, List.append_assoc]

namespace Recording

theorem kept_turn (h : StatusesKept (exchanges (before ++ s.log)))
    (ht : exchanges t.log = exchanges s.log ++ es) (hes : ∀ e ∈ es, ∀ ref req, e ≠ .took ref req) :
    StatusesKept (exchanges (before ++ t.log)) := by
  rw [exchanges_turn ht]
  exact Everywhere.grow h ⟨es, rfl, hes⟩ fun e he l ref req heq => absurd heq (he ref req)

/-- Nothing happens in the exchange. -/
theorem rests (h : Recording before n s) (ht : Turn [] m tx s t)
    (hcount : ∀ k, k = .dial ∨ (∃ a, k = .decision a) → s.io.count k + m k ≤ n k)
    (htx : tx = s.currentTransaction)
    (hopen : statusOf (before ++ s.log) = { recorded := [200] } → t.isClosed = false) :
    Recording before t.io.count t := by
  have hstatus : statusOf (before ++ t.log) = statusOf (before ++ s.log) :=
    statusOf_turn (exchanges_turn ht.log before)
  have hdecision (hd : ∀ a, n (.decision a) = 0) (a : InterceptAction) : t.io.count (.decision a) = 0 := by
    have hle := hcount (.decision a) (Or.inr ⟨a, rfl⟩)
    rw [hd a] at hle
    rw [ht.count _ (by simp)]
    exact Nat.le_zero.mp hle
  refine ⟨kept_turn h.kept ht.log (by simp), fun hpos => ?_, ?_⟩
  · rw [ht.transaction, htx]
    rw [ht.count _ (by simp)] at hpos
    exact h.dialling (hpos.trans_le (hcount .dial (Or.inl rfl)))
  · cases h.phase with
    | waiting status stillOpen asked decision =>
      exact .waiting (hstatus.trans status) (hopen status) (ht.asked.trans asked) (hdecision decision)
    | fresh status => exact .fresh (hstatus.trans status)
    | settled agrees asked decision =>
      exact .settled (hstatus ▸ agrees) (ht.asked.trans asked) (hdecision decision)

/-- The proxy answers itself, for the first time, or without a request. -/
theorem answered (hkept : StatusesKept (exchanges (before ++ s.log))) (h : Answers s t)
    (hstatus : statusOf (before ++ s.log) = {} ∨
      s.currentTransaction.request = none ∧ (statusOf (before ++ s.log)).Agrees)
    (hdial : s.io.count .dial = 0) (hasked : s.asked = []) (hdecision : ∀ a, s.io.count (.decision a) = 0) :
    Recording before t.io.count t := by
  obtain ⟨response, data, e, hline, he, hturn⟩ := h
  have hwrite (r : StatusRecord) : trackStatus r e = r.write data := by
    rcases he with rfl | rfl <;> rfl
  have hagrees : (statusOf (before ++ t.log)).Agrees := by
    rw [statusOf_turn (exchanges_turn hturn.log before), List.foldl_cons, List.foldl_cons, List.foldl_nil, hwrite]
    cases hrequest : s.currentTransaction.request with
    | none =>
      simp only [trackStatus, hrequest, Option.isSome_none, Bool.false_eq_true, if_false]
      rcases hstatus with hempty | ⟨-, hagrees⟩
      · rw [hempty]
        exact StatusRecord.Agrees.empty.write data
      · exact hagrees.write data
    | some ref =>
      -- a request that is answered here has no status yet
      have hempty : statusOf (before ++ s.log) = {} := by
        refine hstatus.resolve_right fun hnot => ?_
        rw [hrequest] at hnot
        cases hnot.1
      intro status hmem
      simp only [trackStatus, hrequest, hempty, Option.isSome_some, if_true, StatusRecord.write, Option.map_some,
        Option.toList_some, List.nil_append, List.mem_singleton] at hmem
      refine ⟨data, ?_, hmem ▸ hline⟩
      simp [trackStatus, hrequest, hempty, StatusRecord.write]
  have htook : ∀ e' ∈ [.reported .generated { s.currentTransaction with response := some response }, e],
      ∀ ref req, e' ≠ .took ref req := by
    rcases he with rfl | rfl <;> simp
  refine ⟨kept_turn hkept hturn.log htook, fun hpos => ?_, .settled hagrees ?_ fun a => ?_⟩
  · rw [hturn.count _ (by simp), hdial] at hpos
    cases hpos
  · exact hturn.asked.trans hasked
  · exact (hturn.count _ (by simp)).trans (hdecision a)

/-- The client has its answer, and the exchange goes on. -/
theorem of_settled (hkept : StatusesKept (exchanges (before ++ s.log))) (ht : Turn es m tx s t)
    (hes : ∀ e ∈ es, ∀ ref req, e ≠ .took ref req) (hagrees : (statusOf (before ++ t.log)).Agrees)
    (hdial : 0 < t.io.count .dial → tx.request = none) (hasked : s.asked = [])
    (hdecision : ∀ a, s.io.count (.decision a) + m (.decision a) = 0) : Recording before t.io.count t := by
  refine ⟨kept_turn hkept ht.log hes, fun hpos => ?_, .settled hagrees (ht.asked.trans hasked) fun a => ?_⟩
  · rw [ht.transaction]
    exact hdial hpos
  · rw [ht.count _ (by simp)]
    exact hdecision a

end Recording

/-- A CONNECT request is recorded as answered, and nothing was written to the client yet. -/
def waits (before : List Effect) (s : MitmSession L) : Bool :=
  statusOf (before ++ s.log) == { recorded := [200] }

/-- What the handlers may find: while a CONNECT request waits for its answer, nothing fails. -/
def Steady (before : List Effect) (s : MitmSession L) : Op → Outcome → Prop
  | .timer, o => s.waits before = true → o = .aborted
  | .resolve, o => s.waits before = true → o = .ok
  | .connect, o => s.waits before = true → o = .ok
  | _, _ => s.waits before = false

instance (before : List Effect) (s : MitmSession L) (op : Op) (o : Outcome) :
    Decidable (s.Steady before op o) := by
  unfold Steady
  split <;> infer_instance

/-- The invariant while the handler of `op` runs. -/
abbrev RecordingAfter (before : List Effect) (op : Op) (s : MitmSession L) : Prop :=
  Recording before (fun k => s.io.count k + op.weight k) s

namespace Recording

/-- When nothing waits, the session may also be closed. -/
theorem proceeds (h : RecordingAfter before op s) (hnot : s.waits before = false)
    (ht : Proceeds [] s.currentTransaction s t) : Recording before t.io.count t := by
  obtain ⟨n, hturn, hdial, hdecision⟩ := ht
  refine h.rests hturn (fun k hk => ?_) rfl fun hstatus => ?_
  · have hzero : n k = 0 := by
      rcases hk with rfl | ⟨a, rfl⟩
      · exact hdial
      · exact hdecision a
    rw [hzero]
    exact Nat.le_add_right _ _
  · simp [MitmSession.waits, hstatus] at hnot

theorem aside (h : RecordingAfter before op s) (hnot : s.waits before = false) (ht : Aside s t) :
    Recording before t.io.count t := h.proceeds hnot (.aside ht)

end Recording

namespace Recording

theorem open_of_waits (h : Recording before n s) (hwaits : s.waits before = true) :
    s.isClosed = false ∧ s.asked = [] ∧ ∀ a, n (.decision a) = 0 := by
  have hstatus : statusOf (before ++ s.log) = { recorded := [200] } := beq_iff_eq.mp hwaits
  cases h.phase with
  | waiting status stillOpen asked decision => exact ⟨stillOpen, asked, decision⟩
  | fresh status =>
    rw [status] at hstatus
    cases hstatus
  | settled agrees asked decision =>
    rw [hstatus] at agrees
    obtain ⟨data, hwritten, -⟩ := agrees 200 (by simp)
    cases hwritten

theorem agrees (h : Recording before n s) (hnot : s.waits before = false) :
    (statusOf (before ++ s.log)).Agrees := by
  cases h.phase with
  | waiting status stillOpen asked decision => simp [MitmSession.waits, status] at hnot
  | fresh status => exact status ▸ StatusRecord.Agrees.empty
  | settled agrees asked decision => exact agrees

theorem drop (h : RecordingAfter before op s) : Recording before s.io.count s := by
  refine h.rests (.aside (Aside.refl s)) (fun k _ => Nat.le_add_right _ _) rfl fun hstatus => ?_
  exact (h.open_of_waits (beq_iff_eq.mpr hstatus)).1

end Recording

/-- While the upstream is dialled nothing is asked and no request is there. -/
theorem Recording.early (h : RecordingAfter before op s) (hs : InvAfter b new op s)
    (hop : op.kind = .dial) : s.currentTransaction.request = none ∧ s.io.count .dial = 0 ∧ s.asked = [] ∧
      ∀ a, s.io.count (.decision a) = 0 := by
  have hweight : op.weight .dial = 1 := if_pos hop
  have hclient := hs.setup.client
  have hearly : s.clientHandshakeDone = false := by
    cases hc : s.clientHandshakeDone
    · rfl
    · rw [hc, Bool.toNat_true] at hclient
      omega
  obtain ⟨hasked, hdecision, -⟩ := hs.setup.early (Or.inl hearly)
  have hpos : 0 < s.io.count .dial + op.weight .dial := by omega
  refine ⟨h.dialling hpos, by omega, hasked, fun a => ?_⟩
  have hnone := hdecision a
  omega

theorem handleResolve_recording (h : RecordingAfter before .resolve s) (hs : InvAfter b new .resolve s)
    (hopen : s.isClosed = false) {o : Outcome} (hsteady : s.Steady before .resolve o) :
    Recording before (s.handleResolve o).io.count (s.handleResolve o) := by
  obtain ⟨hrequest, hdial, hasked, hdecision⟩ := Recording.early h hs rfl
  rcases handleResolve_turn hopen o with ⟨rfl, hturn⟩ | ⟨ho, hanswers⟩
  · have hstill : (s.handleResolve .ok).isClosed = false := by
      unfold handleResolve
      rw [if_neg (by simp [hopen]), if_neg (by simp)]
      exact hopen
    refine h.rests hturn (fun k hk => ?_) rfl fun _ => hstill
    rcases hk with rfl | ⟨a, rfl⟩ <;> exact Nat.le_refl _
  · have hnot : s.waits before = false := Bool.eq_false_iff.mpr fun hwaits => ho (hsteady hwaits)
    exact .answered h.kept hanswers (Or.inr ⟨hrequest, h.agrees hnot⟩) hdial hasked hdecision

theorem handleConnected_recording (h : RecordingAfter before .connect s) (hs : InvAfter b new .connect s)
    (hopen : s.isClosed = false) {o : Outcome} (hsteady : s.Steady before .connect o) :
    Recording before (s.handleConnected o).io.count (s.handleConnected o) := by
  obtain ⟨hrequest, hdial, hasked, hdecision⟩ := Recording.early h hs rfl
  rcases handleConnected_turn hopen o with ⟨-, hturn⟩ | ⟨ho, hanswers⟩
  · refine .of_settled h.kept hturn (by simp) ?_ (fun _ => hrequest) hasked fun a => ?_
    · rw [statusOf_turn (exchanges_turn hturn.log before)]
      cases hwaits : s.waits before with
      | true =>
        rw [show statusOf (before ++ s.log) = { recorded := [200] } from beq_iff_eq.mp hwaits]
        intro status hmem
        refine ⟨Session.established, rfl, ?_⟩
        rw [List.mem_singleton.mp hmem]
        decide
      | false => exact (h.agrees hwaits).write Session.established
    · exact hdecision a
  · have hnot : s.waits before = false := Bool.eq_false_iff.mpr fun hwaits => ho (hsteady hwaits)
    exact .answered h.kept hanswers (Or.inr ⟨hrequest, h.agrees hnot⟩) hdial hasked hdecision

theorem handleClientRead_recording (h : RecordingAfter before .clientRead s)
    (hs : InvAfter b new .clientRead s) (hnot : s.waits before = false) (env : Env) (o : Outcome) :
    Recording before (s.handleClientRead env o).io.count (s.handleClientRead env o) := by
  rcases handleClientRead_turn s env o with hproceeds | ⟨req, u, hu, hway⟩
  · exact h.proceeds hnot hproceeds
  · have hdial : u.io.count .dial = 0 :=
      (hu.count _ (by simp)).trans (hs.ready_read (Or.inl rfl)).dial
    have hkept : StatusesKept (exchanges (before ++ u.log)) := by
      rw [exchanges_turn hu.log]
      refine Everywhere.snoc h.kept fun ref req heq => ?_
      rw [statusOf_exchanges]
      exact h.agrees hnot
    have hstatus : statusOf (before ++ u.log) = {} := statusOf_turn (exchanges_turn hu.log before)
    have hrecording : Recording before u.io.count u := by
      refine ⟨hkept, fun hpos => ?_, .fresh hstatus⟩
      rw [hdial] at hpos
      cases hpos
    rcases hway with ⟨n, hturn, hndial, hndecision⟩ | ⟨hlog, -, -, -, hcount⟩
    · refine hrecording.rests hturn (fun k hk => ?_) rfl fun hsame => ?_
      · have hzero : n k = 0 := by
          rcases hk with rfl | ⟨a, rfl⟩
          · exact hndial
          · exact hndecision a
        rw [hzero]
        exact Nat.le_refl _
      · rw [hstatus] at hsame
        cases hsame
    · have hturn : exchanges (s.handleClientRead env o).log = exchanges u.log ++ [] :=
        hlog.trans (List.append_nil _).symm
      refine ⟨Recording.kept_turn hkept hturn (by simp), fun hpos => ?_, .fresh ?_⟩
      · rw [hcount _ (by simp), hdial] at hpos
        cases hpos
      · exact (statusOf_turn (exchanges_turn hturn before)).trans hstatus

theorem handleUpstreamRead_recording (h : RecordingAfter before .upstreamRead s)
    (hs : InvAfter b new .upstreamRead s) (hnot : s.waits before = false) (hopen : s.isClosed = false)
    (env : Env) (o : Outcome) :
    Recording before (s.handleUpstreamRead env o).io.count (s.handleUpstreamRead env o) := by
  have hready := hs.ready_read (Or.inr (Or.inl rfl))
  have hagrees := h.agrees hnot
  have hasked : s.asked = [] := hready.idle.asked
  have hdecision (a : InterceptAction) : s.io.count (.decision a) = 0 := hready.idle.decision a
  by_cases ho : ∃ data, o = .bytes data
  · obtain ⟨data, rfl⟩ := ho
    have hrelays {es : List Effect} {tx : HttpTransaction} {t : MitmSession L}
        (hproceeds : Proceeds es tx s t) (hes : (∀ e ∈ es, ∀ ref req, e ≠ .took ref req) ∧
          ∀ r : StatusRecord, r.Agrees → (es.foldl trackStatus r).Agrees) :
        Recording before t.io.count t := by
      obtain ⟨n, hturn, hndial, hndecision⟩ := hproceeds
      refine .of_settled h.kept hturn hes.1 ?_ (fun hpos => ?_) hasked fun a => ?_
      · rw [statusOf_turn (exchanges_turn hturn.log before)]
        exact hes.2 _ hagrees
      · rw [hturn.count _ (by simp), hready.dial, hndial] at hpos
        cases hpos
      · rw [hdecision a, hndecision a]
    rcases handleUpstreamRead_turn hopen env data with ⟨-, hproceeds⟩ | ⟨-, tx, tx', -, hproceeds, -⟩
    · exact hrelays hproceeds ⟨by simp, fun r hr => hr.write data⟩
    · exact hrelays hproceeds ⟨by simp, fun r hr => hr.write data⟩
  · rcases handleUpstreamRead_end s env fun data heq => ho ⟨data, heq⟩ with
      hturn | ⟨-, -, -, response, -, hturn, -⟩
    · exact h.proceeds hnot (.of_turn hturn)
    · refine .of_settled h.kept hturn (by simp) ?_ (fun hpos => ?_) hasked fun a => ?_
      · rw [statusOf_turn (exchanges_turn hturn.log before)]
        exact hagrees
      · rw [hturn.count _ (by simp), hready.dial] at hpos
        cases hpos
      · exact hdecision a

theorem handle_recording {env : Env} {o : Outcome} (h : RecordingAfter before op s)
    (hs : InvAfter b new op s) (hsteady : s.Steady before op o) :
    Recording before (s.handle env op o).io.count (s.handle env op o) := by
  cases hclosed : s.isClosed with
  | true =>
    rw [handle_closed hclosed]
    exact h.drop
  | false =>
    cases op with
    | timer =>
      simp only [MitmSession.handle]
      cases hwaits : s.waits before with
      | true =>
        rw [hsteady hwaits]
        exact h.drop
      | false => exact h.aside hwaits (Aside.handleTimeout s o)
    | resolve => exact handleResolve_recording h hs hclosed hsteady
    | connect => exact handleConnected_recording h hs hclosed hsteady
    | established => exact h.proceeds hsteady (Proceeds.shakes.handleEstablished (.aside (Aside.closes.close s)) env o)
    | clientHandshake =>
      exact h.proceeds hsteady (Proceeds.shakes.handleClientHandshake fun _ => .aside (Aside.closes.close s))
    | upstreamHandshake =>
      exact h.proceeds hsteady (Proceeds.shakes.handleUpstreamHandshake fun _ => .aside (Aside.closes.close s))
    | rawWrite data => exact h.aside hsteady (Aside.closes.close s)
    | clientRead => exact handleClientRead_recording h hs hsteady env o
    | clientWrite data => exact h.aside hsteady (Aside.handleClientWrite s o)
    | upstreamRead => exact handleUpstreamRead_recording h hs hsteady hclosed env o
    | upstreamWrite data => exact h.proceeds hsteady (Proceeds.handleUpstreamWrite s o)
    | serverWrite data => exact h.drop
    | decision a =>
      have hready := hs.ready_read (Or.inr (Or.inr ⟨a, rfl⟩))
      rcases handleDecision_turn s env a with hproceeds | ⟨-, hanswers⟩
      · exact h.proceeds hsteady hproceeds
      · -- a paused request has no status yet
        have hfresh : statusOf (before ++ s.log) = {} := by
          cases h.phase with
          | waiting status stillOpen asked decision => simp [MitmSession.waits, status, Steady] at hsteady
          | fresh status => exact status
          | settled agrees asked decision =>
            have hzero := decision a
            simp [Op.weight, Op.kind] at hzero
        exact .answered h.kept hanswers (Or.inl hfresh) hready.dial hready.idle.asked hready.idle.decision

/-- What the steps of a run have to meet. -/
def SteadyStep (before : List Effect) (s : MitmSession L) : Session.Label → Prop
  | .dispatch k _ => match s.io.take k with
    | some ((op, o), io) => Steady before { s with io := io } op o
    | none => True
  | .close => s.waits before = false
  | _ => True

theorem steadyStep_dispatch (before : List Effect) (s : MitmSession L) (k : ℕ) (env : Env) :
    ((s.io.take k).all fun e => decide (Steady before { s with io := e.2 } e.1.1 e.1.2)) = true ↔
      s.SteadyStep before (.dispatch k env) := by
  rcases h : s.io.take k with _ | ⟨⟨op, o⟩, io⟩
  · simp [SteadyStep, h]
  · simp [SteadyStep, h]

instance (before : List Effect) (s : MitmSession L) (a : Session.Label) : Decidable (s.SteadyStep before a) :=
  match a with
  | .dispatch k env => decidable_of_iff _ (steadyStep_dispatch before s k env)
  | .close => inferInstanceAs (Decidable (_ = _))
  | .complete _ _ | .decide _ _ => inferInstanceAs (Decidable True)

theorem step_recording {a : Session.Label} (h : Recording before s.io.count s) (hs : Holds s)
    (hsteady : s.SteadyStep before a) (hstep : step s a = some t) : Recording before t.io.count t := by
  cases moves_of_step hstep with
  | complete ht =>
    refine h.rests (.aside (Aside.complete ht)) (fun k _ => Nat.le_refl _) rfl fun hstatus => ?_
    have hclosed : t.isClosed = s.isClosed := by
      obtain ⟨op, io, -, -, rfl⟩ := complete_spec ht
      rfl
    exact hclosed.trans (h.open_of_waits (beq_iff_eq.mpr hstatus)).1
  | @handled _ env _ _ ht =>
    obtain ⟨op, o, io, hio, rfl⟩ := dispatch_spec ht
    have hsteady : Steady before { s with io := io } op o := by
      unfold SteadyStep at hsteady
      dsimp only at hsteady
      rw [hio] at hsteady
      exact hsteady
    have hafter : RecordingAfter before op { s with io := io } := by
      rw [Io.count_take hio] at h
      refine ⟨h.kept, h.dialling, ?_⟩
      cases h.phase with
      | waiting status stillOpen asked decision => exact .waiting status stillOpen asked decision
      | fresh status => exact .fresh status
      | settled agrees asked decision => exact .settled agrees asked decision
    exact handle_recording hafter (taken_inv hs hio env.newRef) hsteady
  | @decide ref action href =>
    have hlog : exchanges (s.decided ref action).log = exchanges s.log ++ [] := exchanges_append _ _
    have hstatus : statusOf (before ++ (s.decided ref action).log) = statusOf (before ++ s.log) :=
      statusOf_turn (exchanges_turn hlog before)
    refine ⟨Recording.kept_turn h.kept hlog (by simp), fun hpos => h.dialling ?_, ?_⟩
    · simpa [MitmSession.decided, Op.weight, Op.kind] using hpos
    · cases h.phase with
      | waiting status stillOpen asked decision =>
        rw [asked] at href
        cases href
      | fresh status => exact .fresh (hstatus.trans status)
      | settled agrees asked decision =>
        rw [asked] at href
        cases href
  | close =>
    refine h.rests (.aside (Aside.closes.close s)) (fun k _ => Nat.le_refl _) rfl fun hstatus => ?_
    simp [SteadyStep, MitmSession.waits, hstatus] at hsteady

end MitmSession

/-- After the client socket was given away nothing happens in the exchange. -/
theorem Session.Given.step {L : Llhttp} {r r' : Session.Running L} {a : Session.Label}
    (h : Session.Given r.session.io.count r.session) (hsteady : r.session.SteadyStep a)
    (hstep : Session.step r a = some r') : exchanges r'.session.log = exchanges r.session.log := by
  cases Session.moves_of_step hstep with
  | complete ht => exact exchanges_aside (Session.Aside.complete ht).log
  | handled _ _ ht =>
    obtain ⟨op, o, io, hio, hok⟩ := Session.dispatch_spec ht
    have hcount (hk : op.kind ≠ .other) : 0 < r.session.io.count op.kind := by
      rw [Io.count_take hio]
      exact Nat.lt_add_left _ (by simp [Op.weight])
    have hsteady : Session.Steady { r.session with io := io } op o := by
      unfold Session.SteadyStep at hsteady
      dsimp only at hsteady
      rw [hio] at hsteady
      exact hsteady
    -- the client's socket was given away, and no handler of an exchange is left
    have hdial := h.settled.dial
    have hsend := h.settled.send
    have hrest := h.rest
    cases op with
    | timer =>
      cases hok
      rcases Session.handleTimeout_turn { r.session with io := io } o with
        haside | ⟨ho, hrequest, hresponse, hc, -⟩
      · exact exchanges_aside haside.log
      · have hstatus := ((Or.resolve_left hsteady ho).2 hrequest hresponse hc).1
        have hgiven : statusOf r.session.log = { recorded := [200] } := h.status
        rw [show statusOf r.session.log = {} from hstatus] at hgiven
        cases hgiven
    | clientWrite data => cases hok; exact exchanges_aside (Session.Aside.handleClientWrite _ o).log
    | serverWrite data => cases hok; exact exchanges_aside (Session.Aside.handleServerWrite _ o).log
    | resolve =>
      have hpos : 0 < r.session.io.count .dial := hcount (by simp [Op.kind])
      omega
    | connect =>
      have hpos : 0 < r.session.io.count .dial := hcount (by simp [Op.kind])
      omega
    | clientRead =>
      have hpos : 0 < r.session.io.count .read := hcount (by simp [Op.kind])
      omega
    | upstreamRead =>
      have hpos : 0 < r.session.io.count .receive := hcount (by simp [Op.kind])
      omega
    | upstreamWrite data =>
      have hpos : 0 < r.session.io.count .send := hcount (by simp [Op.kind])
      omega
    | decision action =>
      have hpos : 0 < r.session.io.count (.decision action) := hcount (by simp [Op.kind])
      have hzero := h.settled.decision action
      omega
    | rawWrite data => cases hok; rfl
    | established => cases hok; rfl
    | clientHandshake => cases hok; rfl
    | upstreamHandshake => cases hok; rfl
  | threw => rfl
  | decide href =>
    rw [h.settled.asked] at href
    cases href
  | close => exact exchanges_aside (Session.Aside.closes.close _).log

/-- A client connection: the session, and the `MitmSession` that gets the client socket after a
CONNECT request. -/
structure Connection (L : Llhttp) where
  session : Session.Running L
  mitm : Option (MitmSession L) := none

namespace Connection

variable {L : Llhttp}

inductive Label
  | session (a : Session.Label)
  | mitm (a : Session.Label)

def step (c : Connection L) : Label → Option (Connection L)
  | .session a => (Session.step c.session a).map fun r =>
    { session := r
      mitm := c.mitm.or ((spawnedTarget r.session.log).map fun p => MitmSession.started p.1 p.2) }
  | .mitm a => match c.mitm with
    | some m => (MitmSession.step m a).map fun m => { c with mitm := some m }
    | none => none

def system (L : Llhttp) : StepSystem.System (Connection L) Label where
  init c := ∃ hasCertCache, c = { session := { session := Session.started hasCertCache } }
  step := step

/-- What is done for the client. -/
def record (c : Connection L) : List Effect :=
  c.session.session.log ++ (c.mitm.map MitmSession.log).getD []

/-- The client may still be answered. -/
def isOpen (c : Connection L) : Bool :=
  match c.mitm with
  | some m => !m.isClosed
  | none => c.session.session.clientOpen

/-- Each status that the proxy has recorded for a response of its own is the one in the first bytes
that were written for the request. While nothing was written the connection is open. -/
def RecordsTruly (c : Connection L) : Prop :=
  StatusesKept c.record ∧
    ((statusOf c.record).Agrees ∨ (statusOf c.record).written = none ∧ c.isOpen = true)

def Steady (c : Connection L) : Label → Prop
  | .session a => c.session.session.SteadyStep a
  | .mitm a => match c.mitm with
    | some m => m.SteadyStep c.session.session.log a
    | none => True

instance (c : Connection L) (a : Label) : Decidable (Steady c a) := by
  unfold Steady
  split
  · infer_instance
  · split <;> infer_instance

/-- The invariant. -/
structure Inv (c : Connection L) : Prop where
  session : (Session.system L).Reached c.session
  recording : Session.Recording c.session.session.io.count c.session.session
  mitm : match c.mitm with
    | some m => spawnedTarget c.session.session.log ≠ none ∧ (MitmSession.system L).Reached m ∧
        MitmSession.Recording c.session.session.log m.io.count m
    | none => spawnedTarget c.session.session.log = none

/-- The session gives its client away. -/
theorem started_recording {s : Session L} (h : Session.Recording s.io.count s)
    (htarget : spawnedTarget s.log ≠ none) (host : Bytes) (port : UInt16) :
    let m : MitmSession L := .started host port
    MitmSession.Recording s.log m.io.count m := by
  have hgiven : Session.Given s.io.count s := h.phase.resolve_left fun hnot => htarget hnot.1
  refine ⟨?_, fun _ => rfl, .waiting ?_ rfl rfl fun a => ?_⟩
  · show StatusesKept (exchanges (s.log ++ []))
    rw [List.append_nil]
    exact h.kept
  · show statusOf (s.log ++ []) = _
    rw [List.append_nil]
    exact hgiven.status
  · cases a <;> rfl

/-- The record before may grow by what does not matter. -/
theorem recording_before {before before' : List Effect} (h : exchanges before' = exchanges before)
    {n : OpKind → ℕ} {m : MitmSession L} (hm : MitmSession.Recording before n m) :
    MitmSession.Recording before' n m := by
  have hall (l : List Effect) : exchanges (before' ++ l) = exchanges (before ++ l) := by
    rw [exchanges_append, h, exchanges_append]
  have hstatus : statusOf (before' ++ m.log) = statusOf (before ++ m.log) := by
    rw [← statusOf_exchanges, hall, statusOf_exchanges]
  refine ⟨hall m.log ▸ hm.kept, hm.dialling, ?_⟩
  cases hm.phase with
  | waiting status stillOpen asked decision => exact .waiting (hstatus.trans status) stillOpen asked decision
  | fresh status => exact .fresh (hstatus.trans status)
  | settled agrees asked decision => exact .settled (hstatus ▸ agrees) asked decision

theorem step_inv {c c' : Connection L} {a : Label} (h : Inv c) (hsteady : c.Steady a)
    (hstep : step c a = some c') : Inv c' := by
  have hmitm := h.mitm
  cases a with
  | session a =>
    obtain ⟨r, hr, rfl⟩ := Option.map_eq_some_iff.mp hstep
    have hreached : (Session.system L).Reached r := .step h.session trivial hr
    have hrecording := Session.step_recording h.recording (Session.reached_holds h.session)
      (Session.reached_drained h.session) hsteady hr
    refine ⟨hreached, hrecording, ?_⟩
    cases hm : c.mitm with
    | none =>
      cases htarget : spawnedTarget r.session.log with
      | none => rfl
      | some p =>
        -- the session has just given its socket to a new one
        have hne : spawnedTarget r.session.log ≠ none := by simp [htarget]
        exact ⟨Option.some_ne_none p, .init ⟨p.1, p.2, rfl⟩, started_recording hrecording hne p.1 p.2⟩
    | some m =>
      rw [hm] at hmitm
      obtain ⟨htarget, hmreached, hmrecording⟩ := hmitm
      have hgiven : Session.Given c.session.session.io.count c.session.session :=
        h.recording.phase.resolve_left fun hnot => htarget hnot.1
      -- the old session records nothing any more
      have hlog := hgiven.step hsteady hr
      refine ⟨?_, hmreached, recording_before hlog hmrecording⟩
      rwa [← spawnedTarget_exchanges, hlog, spawnedTarget_exchanges]
  | mitm a =>
    unfold step at hstep
    dsimp only at hstep
    split at hstep
    · rename_i m hm
      obtain ⟨m', hm', rfl⟩ := Option.map_eq_some_iff.mp hstep
      rw [hm] at hmitm
      obtain ⟨htarget, hmreached, hmrecording⟩ := hmitm
      have hsteady : m.SteadyStep c.session.session.log a := by
        unfold Steady at hsteady
        dsimp only at hsteady
        rw [hm] at hsteady
        exact hsteady
      exact ⟨h.session, h.recording, htarget, .step hmreached trivial hm',
        MitmSession.step_recording hmrecording (MitmSession.reached_holds hmreached) hsteady hm'⟩
    · cases hstep

theorem reached_inv {c : Connection L} (h : (system L).ReachedUnder Steady c) : Inv c := by
  refine h.invariant (I := Inv) ?_ fun c a c' hc hsteady hstep => step_inv hc hsteady hstep
  rintro _ ⟨hasCertCache, rfl⟩
  refine ⟨.init ⟨hasCertCache, rfl⟩, ⟨Everywhere.nil, fun _ _ => rfl, Or.inl ⟨rfl, .fresh rfl rfl⟩⟩, rfl⟩

theorem Inv.recordsTruly {c : Connection L} (h : Inv c) : c.RecordsTruly := by
  have hmitm := h.mitm
  cases hm : c.mitm with
  | none =>
    rw [hm] at hmitm
    have htarget : spawnedTarget c.session.session.log = none := hmitm
    have hrecord : c.record = c.session.session.log := by simp [record, hm]
    have hopen : c.isOpen = c.session.session.clientOpen := by simp [isOpen, hm]
    rw [RecordsTruly, hrecord, hopen]
    refine ⟨.of_exchanges h.recording.kept, ?_⟩
    rcases h.recording.phase with ⟨-, hphase⟩ | hgiven
    · cases hphase with
      | fresh status => exact Or.inl (status ▸ StatusRecord.Agrees.empty)
      | settled agrees => exact Or.inl agrees
      | connecting connecting => exact Or.inr ⟨by rw [connecting.status], connecting.clientOpen⟩
    · exact absurd htarget hgiven.target
  | some m =>
    rw [hm] at hmitm
    obtain ⟨-, -, hrecording⟩ := hmitm
    have hrecord : c.record = c.session.session.log ++ m.log := by simp [record, hm]
    have hopen : c.isOpen = !m.isClosed := by simp [isOpen, hm]
    rw [RecordsTruly, hrecord, hopen]
    refine ⟨.of_exchanges hrecording.kept, ?_⟩
    cases hrecording.phase with
    | waiting status stillOpen => exact Or.inr ⟨by rw [status], by rw [stillOpen]; rfl⟩
    | fresh status => exact Or.inl (status ▸ StatusRecord.Agrees.empty)
    | settled agrees => exact Or.inl agrees

/-- In a run that is steady the history and the client get to know the same statuses. -/
theorem recorded_status_is_sent {c : Connection L} (h : (system L).ReachedUnder Steady c) :
    c.RecordsTruly := (reached_inv h).recordsTruly

section Examples

open Session (started env1)

/-- `CONNECT h:443 HTTP/1.1` without headers. -/
def connectMessage : RequestMessage :=
  { method := str "CONNECT", url := str "h:443", fields := [], body := .plain [] }

def connecting : Llhttp :=
  scripted fun
    | .request => connectMessage.message.pieces
    | .response => []

/-- The CONNECT request is read. -/
def connectRun : List Label :=
  [.session (.complete 1 (.bytes connectMessage.message.wire)), .session (.dispatch 0 {})]

/-- The name is resolved and the upstream connected, and the client gets its response. -/
def connectedRun : List Label := connectRun ++
  [.mitm (.complete 1 .ok), .mitm (.dispatch 0 {}), .mitm (.complete 1 .ok), .mitm (.dispatch 0 {})]

theorem recorded_status_is_sent_connectedRun : ∃ c, (system connecting).runUnder Steady
    { session := { session := started true } } connectedRun = some c ∧
      statusOf c.record = { recorded := [200], written := some Session.established } ∧ c.RecordsTruly := by
  have hrun : ((system connecting).runUnder Steady { session := { session := started true } }
      connectedRun).any (fun c => statusOf c.record == { recorded := [200]
                                                         written := some Session.established }) = true := by
    decide
  obtain ⟨c, hc, hstatus⟩ := (Option.any_eq_true _ _).mp hrun
  exact ⟨c, hc, beq_iff_eq.mp hstatus, recorded_status_is_sent (.runUnder (.init ⟨true, rfl⟩) hc)⟩

/-- The name cannot be resolved. -/
def unresolvedRun : List Label := connectRun ++ [.mitm (.complete 1 .failed), .mitm (.dispatch 0 {})]

theorem unresolved_connect_is_recorded : ¬ ∀ c, (system connecting).Reached c → c.RecordsTruly := by
  intro hall
  have hrun : ((system connecting).run { session := { session := started true } } unresolvedRun).any
      (fun c => statusOf c.record == { recorded := [200]
                                       written := some (MitmSession.errorResponse 502 (str "Bad Gateway")) }) =
        true := by decide
  obtain ⟨c, hc, hstatus⟩ := (Option.any_eq_true _ _).mp hrun
  obtain ⟨-, htrue⟩ := hall c (.run (.init ⟨true, rfl⟩) hc)
  rw [beq_iff_eq.mp hstatus] at htrue
  have hagrees := htrue.resolve_right fun hnot => by cases hnot.1
  obtain ⟨data, hdata, hline⟩ := hagrees 200 (by simp)
  obtain rfl := Option.some.inj hdata
  revert hline
  decide

end Examples

end Connection

end BurpTUI
