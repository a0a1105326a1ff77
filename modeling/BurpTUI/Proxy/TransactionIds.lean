import BurpTUI.Proxy.Aside
import BurpTUI.Proxy.HandedOnce

namespace BurpTUI

/-- The id of the request at an address: requests are numbered from 1, addresses from 0. -/
def idOf (ref : Ref) : ℤ := Int.ofNat ref + 1

theorem idOf_pos (ref : Ref) : 0 < idOf ref := Int.lt_add_one_of_le (Int.natCast_nonneg ref)

theorem idOf_inj {ref ref' : Ref} (h : idOf ref = idOf ref') : ref = ref' := by
  have hcast : (ref : ℤ) = ref' := by simpa [idOf] using h
  exact Int.ofNat.inj hcast

/-- Whether an effect takes a request or reports a transaction. -/
def Effect.identifies : Effect → Bool
  | .took _ _ => true
  | .reported _ _ => true
  | _ => false

theorem Effect.identifies_of_aside {e : Effect} (he : e.aside = true) : e.identifies = false := by
  cases e <;> first | rfl | cases he

/-- Every reported transaction is that of the request taken last. -/
def Named (log : List Effect) : Prop :=
  ∀ l origin tx, l ++ [.reported origin tx] <+: log →
    ∃ ref, tx.request = some ref ∧ (tookRefs l).getLast? = some ref ∧ tx.id = idOf ref

/-- The transaction is that of the request taken last, if it has one. -/
def OfLast (log : List Effect) (tx : HttpTransaction) : Prop :=
  ∀ ref, tx.request = some ref → (tookRefs log).getLast? = some ref ∧ tx.id = idOf ref

variable {log es : List Effect} {tx tx' : HttpTransaction}

theorem tookRefs_silent (hes : ∀ e ∈ es, e.identifies = false) : tookRefs es = [] := by
  rw [tookRefs, List.filterMap_eq_nil_iff]
  intro e he
  have hsilent := hes e he
  cases e <;> first | rfl | cases hsilent

namespace Named

theorem nil : Named [] := by
  intro l origin tx hl
  simp at hl

theorem silent (h : Named log) (hes : ∀ e ∈ es, e.identifies = false) : Named (log ++ es) := by
  induction es generalizing log with
  | nil => simpa using h
  | cons e es ih =>
    have hone : Named (log ++ [e]) := by
      intro l origin tx hl
      rcases List.prefix_concat_iff.mp hl with heq | hl
      · obtain ⟨-, heq⟩ := List.append_inj' heq rfl
        have hsilent := hes e (by simp)
        rw [← List.singleton_inj.mp heq] at hsilent
        cases hsilent
      · exact h l origin tx hl
    have hrest := ih hone fun e' he' => hes e' (by simp [he'])
    rwa [List.append_assoc] at hrest

theorem took (h : Named log) (ref : Ref) (req : HttpRequest) : Named (log ++ [.took ref req]) := by
  intro l origin tx hl
  rcases List.prefix_concat_iff.mp hl with heq | hl
  · obtain ⟨-, heq⟩ := List.append_inj' heq rfl
    cases heq
  · exact h l origin tx hl

theorem report (h : Named log) (hlast : OfLast log tx) (hreq : tx.request ≠ none) (origin : Origin)
    (response : Option HttpResponse) :
    Named (log ++ [.reported origin { tx with response := response }]) := by
  intro l origin' tx' hl
  rcases List.prefix_concat_iff.mp hl with heq | hl
  · obtain ⟨rfl, hsame⟩ := List.append_inj' heq rfl
    cases hsame
    obtain ⟨ref, href⟩ := Option.ne_none_iff_exists'.mp hreq
    obtain ⟨hget, hid⟩ := hlast ref href
    exact ⟨ref, href, hget, hid⟩
  · exact h l origin' tx' hl

theorem of_mem (h : Named log) {origin : Origin}
    (hmem : .reported origin tx ∈ log) :
    ∃ ref, tx.request = some ref ∧ ref ∈ tookRefs log ∧ tx.id = idOf ref := by
  obtain ⟨l, l', hlog⟩ := List.append_of_mem hmem
  obtain ⟨ref, href, hlast, hid⟩ := h l origin tx ⟨l', by simp [hlog]⟩
  refine ⟨ref, href, ?_, hid⟩
  rw [hlog, Proper.tookRefs_append]
  exact List.mem_append_left _ (List.mem_of_getLast? hlast)

end Named

namespace OfLast

/-- Only the id and the request count. -/
theorem keep (h : OfLast log tx) (hes : tookRefs es = []) (hid : tx'.id = tx.id)
    (hreq : tx'.request = tx.request) : OfLast (log ++ es) tx' := by
  intro ref href
  rw [Proper.tookRefs_append, hes, List.append_nil, hid]
  exact h ref (hreq ▸ href)

theorem took (log : List Effect) {ref : Ref} (hid : tx.id = idOf ref) (hreq : tx.request = some ref)
    (req : HttpRequest) : OfLast (log ++ [.took ref req]) tx := by
  intro ref' href
  rw [hreq] at href
  cases href
  rw [Proper.tookRefs_append]
  exact ⟨List.getLast?_concat, hid⟩

end OfLast

/-- The transaction has a request, the one taken last. -/
structure Serving (log : List Effect) (tx : HttpTransaction) : Prop where
  named : Named log
  last : OfLast log tx
  request : tx.request ≠ none

namespace Serving

theorem silent (h : Serving log tx) (hes : ∀ e ∈ es, e.identifies = false) (hid : tx'.id = tx.id)
    (hreq : tx'.request = tx.request) : Serving (log ++ es) tx' :=
  ⟨h.named.silent hes, h.last.keep (tookRefs_silent hes) hid hreq, hreq ▸ h.request⟩

theorem emit (h : Serving log tx) {e : Effect} (he : e.identifies = false) : Serving (log ++ [e]) tx :=
  h.silent (by simpa using he) rfl rfl

/-- Only the id and the request count. -/
theorem retarget (h : Serving log tx) (hid : tx'.id = tx.id) (hreq : tx'.request = tx.request) :
    Serving log tx' := ⟨h.named, fun ref href => hid ▸ h.last ref (hreq ▸ href), hreq ▸ h.request⟩

theorem report (h : Serving log tx) (origin : Origin) (response : HttpResponse) :
    Serving (log ++ [.reported origin { tx with response := some response }]) { tx with response := some response } :=
  ⟨h.named.report h.last h.request origin _, h.last.keep rfl rfl rfl, h.request⟩

end Serving

namespace Session

open BurpTUI.Flow (Idle Cleared Sound SoundAfter)

variable {L : Llhttp} {s t u : Session L} {op : Op} {m n : OpKind → ℕ}

/-- The invariant. Without a request nothing is sent and nothing received. -/
structure Identified (n : OpKind → ℕ) (s : Session L) : Prop where
  named : Named s.log
  last : OfLast s.log s.currentTransaction
  busy : s.currentTransaction.request = none → s.isConnect = false ∧ n .send = 0 ∧ n .receive = 0

/-- The invariant while the handler of `op` runs. -/
abbrev IdentifiedAfter (op : Op) (s : Session L) : Prop :=
  Identified (fun k => s.io.count k + op.weight k) s

/-- With a request anything may be outstanding. -/
abbrev Serves (s : Session L) : Prop := Serving s.log s.currentTransaction

namespace Identified

theorem after (h : IdentifiedAfter op s) : Identified s.io.count s := by
  refine ⟨h.named, h.last, fun hreq => ?_⟩
  obtain ⟨hc, hsend, hreceive⟩ := h.busy hreq
  exact ⟨hc, by omega, by omega⟩

theorem silent (h : Identified n s) (hlog : ∃ es, t.log = s.log ++ es ∧ ∀ e ∈ es, e.identifies = false)
    (hid : t.currentTransaction.id = s.currentTransaction.id)
    (hreq : t.currentTransaction.request = s.currentTransaction.request)
    (hbusy : s.currentTransaction.request = none → t.isConnect = s.isConnect ∧
      m .send = n .send ∧ m .receive = n .receive) : Identified m t := by
  obtain ⟨es, hlog, hes⟩ := hlog
  refine ⟨?_, ?_, fun hnone => ?_⟩
  · rw [hlog]
    exact h.named.silent hes
  · rw [hlog]
    exact h.last.keep (tookRefs_silent hes) hid hreq
  · rw [hreq] at hnone
    obtain ⟨hc, hsend, hreceive⟩ := hbusy hnone
    rw [hc, hsend, hreceive]
    exact h.busy hnone

theorem aside (h : Identified s.io.count s) (ha : Aside s t) : Identified t.io.count t := by
  obtain ⟨es, hlog, hes⟩ := ha.log
  refine h.silent ⟨es, hlog, fun e he => Effect.identifies_of_aside (hes e he)⟩ ?_ ?_ fun _ => ?_
  · rw [ha.transaction]
  · rw [ha.transaction]
  · exact ⟨ha.isConnect, ha.count _ (by simp), ha.count _ (by simp)⟩

theorem emit (h : Identified n s) {e : Effect} (he : e.identifies = false) : Identified n (s.emit e) :=
  h.silent ⟨[e], rfl, by simpa using he⟩ rfl rfl fun _ => ⟨rfl, rfl, rfl⟩

theorem serves (h : Identified n s) (hreq : s.currentTransaction.request ≠ none) : s.Serves :=
  ⟨h.named, h.last, hreq⟩

end Identified

namespace Serves

theorem identified (h : s.Serves) : Identified n s :=
  ⟨h.named, h.last, fun hnone => absurd hnone h.request⟩

theorem aside (h : s.Serves) (ha : Aside s t) : t.Serves := by
  obtain ⟨es, hlog, hes⟩ := ha.log
  rw [Serves, hlog, ha.transaction]
  exact Serving.silent h (fun e he => Effect.identifies_of_aside (hes e he)) rfl rfl

theorem answers : AllowsAnswer fun s t : Session L => s.Serves → t.Serves where
  toChain := .keeps _
  send _ _ h := h.emit rfl
  sendServer _ _ h := h.emit rfl
  respond _ response h := h.report .generated response
  queue _ _ h := h.emit rfl

theorem dials : AllowsDial fun s t : Session L => s.Serves → t.Serves where
  toChain := .keeps _
  error s _ _ _ := answers.sendErrorResponse s _ _
  serverOpen _ := id
  store _ _ := id
  handed _ _ _ h := h.emit rfl
  start _ _ _ := id

theorem takes : AllowsTake fun s t : Session L => s.Serves → t.Serves where
  toChain := .keeps _
  target _ _ _ _ h := h.retarget rfl rfl
  route _ _ _ := id
  tested _ _ _ h := h.emit rfl
  connected _ response h := h.report .generated response
  spawn _ _ _ h := h.emit rfl
  tunnel _ := id
  resolve _ := id

end Serves

/-- While the upstream is dialled there is a request. -/
theorem dialed_request {b : Flow} {new : Ref} (h : IdentifiedAfter op s)
    (hs : SoundAfter b new op s.flow) (hop : op.kind = .dial) : s.currentTransaction.request ≠ none := by
  intro hnone
  rcases hs.dialed hop with ⟨-, hc⟩ | ⟨r, hcleared⟩
  · have hfalse := (h.busy hnone).1
    rw [show s.isConnect = true from hc] at hfalse
    cases hfalse
  · have hr : s.currentTransaction.request = some r := hcleared.request
    rw [hnone] at hr
    cases hr

theorem sent_request (h : IdentifiedAfter op s) (hop : op.kind = .send ∨ op.kind = .receive) :
    s.currentTransaction.request ≠ none := by
  intro hnone
  obtain ⟨-, hsend, hreceive⟩ := h.busy hnone
  rcases hop with hop | hop
  · simp [Op.weight, hop] at hsend
  · simp [Op.weight, hop] at hreceive

theorem handleTimeout_identified (h : Identified s.io.count s) (o : Outcome) :
    Identified (s.handleTimeout o).io.count (s.handleTimeout o) := by
  unfold Session.handleTimeout
  split
  · exact h
  · split
    · rename_i hexpired
      have hserves := h.serves (Option.isSome_iff_ne_none.mp hexpired.1)
      dsimp only
      split
      · refine (Serves.answers.sendErrorResponse _ _ _ ?_).identified
        exact hserves.aside ((Aside.cancel s _).trans (Aside.cancel _ _))
      · exact (Serves.answers.sendErrorResponse _ _ _ (hserves.aside (Aside.cancel s _))).identified
    · exact h.aside (Aside.closes.close s)

theorem Serves.reportTaken (h : s.Serves) (data : Bytes) : (s.reportTaken data).Serves :=
  reportTaken_of (.keeps _) (fun _ => id) (fun _ response h => h.report _ response) data h

/-- After the last response the session may forget the request. -/
theorem finishExchange_identified {b : Flow} {new : Ref} (h : s.Serves) (hidle : Idle b new s.flow)
    (hc : s.isConnect = false) (env : Env) (res : HttpResponse) :
    Identified (s.finishExchange env res).io.count (s.finishExchange env res) := by
  have hrest : s.io.count .read + s.io.count .send + s.io.count .receive = 0 := (hidle.plain hc).2
  have hresponded := h.report .relayed res
  unfold Session.finishExchange
  dsimp only
  split
  · refine ⟨hresponded.named, fun ref href => ?_, fun _ => ⟨rfl, ?_, ?_⟩⟩
    · cases href
    · refine (Io.count_start s.io .clientRead _).trans ?_
      show s.io.count .send + 0 = 0
      omega
    · refine (Io.count_start s.io .clientRead _).trans ?_
      show s.io.count .receive + 0 = 0
      omega
  · have hflag : Serves { s.respond .relayed res with closeAfterWrite := true } := hresponded
    split
    · exact (hflag.aside (Aside.closes.close _)).identified
    · exact hflag.identified

theorem handleUpstreamRead_identified {b : Flow} {new : Ref} (h : s.Serves) (hidle : Idle b new s.flow)
    (env : Env) (o : Outcome) :
    Identified (s.handleUpstreamRead env o).io.count (s.handleUpstreamRead env o) := by
  have hclose := (h.aside (Aside.closes.close s)).identified (n := s.close.io.count)
  cases o with
  | bytes data =>
    have hreceived : (s.resetTimer.emit (.received data)).Serves := (h.aside (Aside.resetTimer s)).emit rfl
    have hwritten : ((s.resetTimer.emit (.received data)).writeClient .relayed data).Serves :=
      Serves.answers.writeClient (fun h => h.emit rfl) hreceived
    have hquiet : Quietly s ((s.resetTimer.emit (.received data)).writeClient .relayed data) :=
      ((Quietly.resetTimer s).trans (Quietly.emit _ rfl)).trans (Quietly.writeClient _ _ _)
    unfold Session.handleUpstreamRead
    dsimp only
    generalize (s.resetTimer.emit (.received data)).writeClient .relayed data = v at hwritten hquiet
    have hidle := hquiet.idle hidle
    have hread (parser : HttpParser L) : Serves (readUpstream { v with parser := parser }) := hwritten
    split
    · exact (hread v.parser).identified
    · rename_i hc
      have hc : v.isConnect = false := by simpa using hc
      split
      · split
        · rename_i res parser _
          have hfield : Quietly v { v with parser := parser } := .of_flow rfl
          exact finishExchange_identified (s := { v with parser := parser }) hwritten (hfield.idle hidle) hc env res
        · exact (hread _).identified
      · exact (hread _).identified
  | eof =>
    unfold Session.handleUpstreamRead
    dsimp only
    split
    · exact ((h.reportTaken _).aside (Aside.closes.close _)).identified
    · exact hclose
  | ok => exact hclose
  | truncated => exact hclose
  | aborted => exact hclose
  | failed => exact hclose

theorem handleRequest_identified {env : Env} (h : Identified s.io.count s)
    (hid : env.nextId = idOf env.newRef) {req : HttpRequest} (hok : s.handleRequest env req = .ok t) :
    Identified t.io.count t := by
  have htook : Serves (({ s with currentTransaction := { s.currentTransaction with
      id := env.nextId, request := some env.newRef } } : Session L).emit (.took env.newRef req)) :=
    ⟨h.named.took _ _, OfLast.took _ hid rfl req, Option.some_ne_none _⟩
  have hforward (s : Session L) : s.Serves → s.forwardRequest.Serves :=
    Serves.dials.forwardRequest fun h => h.aside (Aside.closes.closeServer s)
  unfold Session.handleRequest at hok
  dsimp only at hok
  split at hok
  · obtain ⟨target, -, rfl⟩ := ok_of_map hok
    exact (Serves.takes.handleConnect _ target htook).identified
  · obtain ⟨route, -, rfl⟩ := ok_of_map hok
    cases route with
    | badRequest => exact (Serves.answers.sendErrorResponse _ _ _ htook).identified
    | caCert => exact (Serves.answers.serveCaCert _ env htook).identified
    | helpPage => exact (Serves.answers.serveBurpHelpPage _ env htook).identified
    | upstream host port k =>
      exact (Serves.takes.handleUpstreamRoute (fun _ _ h => h.emit rfl) (fun t _ => hforward t) env host port k
        htook).identified

/-- The handler takes a request. -/
def delivers (s : Session L) : Op → Outcome → Bool
  | .clientRead, .bytes data => !s.isConnect && (s.parser.feedRequest data).2 &&
      (s.parser.feedRequest data).1.takeRequest.1.isSome
  | _, _ => false

/-- The handler finds more than a request may have, and no request. -/
def rejects (s : Session L) : Op → Outcome → Bool
  | .clientRead, .bytes data => !s.isConnect && !(s.parser.feedRequest data).2 &&
      decide (maxRequestSize ≤ (s.clientData ++ data).length)
  | _, _ => false

theorem handleClientRead_identified {env : Env} (h : Identified s.io.count s)
    {o : Outcome} (hrejects : s.rejects .clientRead o = false)
    (hid : s.delivers .clientRead o = true → env.nextId = idOf env.newRef)
    (hok : s.handleClientRead env o = .ok t) : Identified t.io.count t := by
  have hclose := h.aside (Aside.closes.close s)
  cases o with
  | bytes data =>
    have hread := (h.aside (Aside.resetTimer s)).emit (e := .read data) rfl
    unfold Session.handleClientRead at hok
    dsimp only at hok
    have hparser : (s.resetTimer.emit (.read data)).parser = s.parser := rfl
    have hdata : (s.resetTimer.emit (.read data)).clientData = s.clientData := rfl
    have hconnect : (s.resetTimer.emit (.read data)).isConnect = s.isConnect := rfl
    change Identified (s.resetTimer.emit (.read data)).io.count _ at hread
    simp only [rejects, delivers, ← hparser, ← hdata, ← hconnect] at hrejects hid
    generalize s.resetTimer.emit (.read data) = v at hread hok hrejects hid
    split at hok
    · rename_i hc
      cases hok
      have hblind := Aside.writeServerBlind v data
      refine Identified.silent (Identified.aside hread hblind)
        ⟨[], (List.append_nil _).symm, by simp⟩ rfl rfl fun _ => ⟨rfl, ?_, ?_⟩
      · exact Io.count_start (v.writeServerBlind data).io .clientRead _
      · exact Io.count_start (v.writeServerBlind data).io .clientRead _
    · rename_i hc
      have hc : v.isConnect = false := by simpa using hc
      have hfields (clientData : Bytes) (parser : HttpParser L) :
          Identified v.io.count { v with clientData := clientData, parser := parser } :=
        ⟨hread.named, hread.last, hread.busy⟩
      have hmore (clientData : Bytes) (parser : HttpParser L) :
          let w : Session L := readClient { v with clientData := clientData, parser := parser }
          Identified w.io.count w := by
        refine (hfields clientData parser).silent ⟨[], (List.append_nil _).symm, by simp⟩ rfl rfl
          fun _ => ⟨rfl, ?_, ?_⟩
        · exact Io.count_start v.io .clientRead _
        · exact Io.count_start v.io .clientRead _
      cases hready : (v.parser.feedRequest data).2 with
      | true =>
        rw [hready, if_pos rfl] at hok
        cases htaken : (v.parser.feedRequest data).1.takeRequest with
        | mk taken parser =>
          rw [htaken] at hok
          cases taken with
          | some req =>
            -- a request is taken: it gets the next number
            have hdelivers : env.nextId = idOf env.newRef := by
              apply hid
              rw [hc, hready, htaken]
              rfl
            exact handleRequest_identified (hfields _ parser) hdelivers hok
          | none =>
            cases hok
            exact hmore _ parser
      | false =>
        rw [hready, if_neg (by simp)] at hok
        simp only [hc, hready, Bool.not_false, Bool.true_and, decide_eq_false_iff_not, not_le] at hrejects
        rw [if_pos hrejects] at hok
        cases hok
        exact hmore _ _
  | ok => cases hok; exact hclose
  | eof => cases hok; exact hclose
  | truncated => cases hok; exact hclose
  | aborted => cases hok; exact hclose
  | failed => cases hok; exact hclose

theorem handle_identified {b : Flow} {env : Env} (h : IdentifiedAfter op s)
    (hs : SoundAfter b env.newRef op s.flow) {o : Outcome} (hrejects : s.rejects op o = false)
    (hid : s.delivers op o = true → env.nextId = idOf env.newRef) (hok : s.handle env op o = .ok t) :
    Identified t.io.count t := by
  have hplain := Identified.after h
  cases op with
  | clientRead =>
    exact handleClientRead_identified hplain hrejects hid hok
  | timer => cases hok; exact handleTimeout_identified hplain o
  | clientWrite data => cases hok; exact hplain.aside (Aside.handleClientWrite s o)
  | serverWrite data => cases hok; exact hplain.aside (Aside.handleServerWrite s o)
  | resolve =>
    cases hok
    have hclosed (h : s.Serves) : s.closeServer.Serves := h.aside (Aside.closes.closeServer s)
    exact (Serves.dials.handleResolve hclosed o (hplain.serves (dialed_request h hs rfl))).identified
  | connect =>
    cases hok
    have hwrite : s.Serves → (s.writeClient .generated established).Serves :=
      Serves.answers.writeClient (Serves.answers.queue s established)
    exact (Serves.dials.handleConnected hwrite (fun _ => id) env o
      (hplain.serves (dialed_request h hs rfl))).identified
  | upstreamRead =>
    cases hok
    exact handleUpstreamRead_identified (hplain.serves (sent_request h (Or.inr rfl)))
      (hs.idle (Or.inr (Or.inr rfl))) env o
  | upstreamWrite data =>
    cases hok
    exact (Serves.dials.handleUpstreamWrite s o (hplain.serves (sent_request h (Or.inl rfl)))).identified
  | decision action =>
    cases hok
    have hclosed (h : s.resetTimer.Serves) : s.resetTimer.closeServer.Serves := h.aside (Aside.closes.closeServer _)
    exact (Serves.dials.handleDecision (R := fun s t => s.Serves → t.Serves) id hclosed action
      (hplain.serves hs.decided_request)).identified
  | rawWrite data => cases hok; exact hplain
  | established => cases hok; exact hplain
  | clientHandshake => cases hok; exact hplain
  | upstreamHandshake => cases hok; exact hplain

theorem decided_identified (h : Identified s.io.count s) (ref : Ref) (action : InterceptAction) :
    Identified (s.decided ref action).io.count (s.decided ref action) := by
  refine h.silent ⟨[_], rfl, by simp [Effect.identifies]⟩ rfl rfl fun _ => ⟨rfl, ?_, ?_⟩
  · exact Io.count_post s.io _ _ _
  · exact Io.count_post s.io _ _ _

/-- The handler in position `k` is about to do it. -/
def deliversAt (s : Session L) (k : ℕ) : Bool := s.io.ready[k]?.any fun e => s.delivers e.1 e.2

def rejectsAt (s : Session L) (k : ℕ) : Bool := s.io.ready[k]?.any fun e => s.rejects e.1 e.2

theorem started_identified (hasCertCache : Bool) :
    Identified (started hasCertCache : Session L).io.count (started hasCertCache : Session L) :=
  ⟨Named.nil, (fun _ href => by cases href), fun _ => ⟨rfl, rfl, rfl⟩⟩

theorem dispatch_identified {env : Env} (h : Identified s.io.count s) (hs : s.flow.Holds) {k : ℕ}
    (hrejects : s.rejectsAt k = false)
    (hid : s.deliversAt k = true → env.nextId = idOf env.newRef)
    (hok : s.dispatch k env = some (.ok t)) : Identified t.io.count t := by
  obtain ⟨op, o, io, hio, hhandle⟩ := dispatch_spec hok
  rw [Io.count_take hio] at h
  have hafter : IdentifiedAfter op { s with io := io } := ⟨h.named, h.last, h.busy⟩
  simp only [rejectsAt, deliversAt, (Executor.take_spec hio).1, Option.any_some] at hrejects hid
  refine handle_identified hafter (taken_sound hs hio env.newRef) ?_ ?_ hhandle
  · rw [← hrejects]
    cases op <;> rfl
  · intro hdelivers
    apply hid
    rw [← hdelivers]
    cases op <;> rfl

end Session

namespace MitmSession

open BurpTUI.Flow (SoundAfter)

variable {L : Llhttp} {s t u : MitmSession L} {op : Op} {m n : OpKind → ℕ}

/-- The invariant. Without a request nothing is sent and nothing received. -/
structure Identified (n : OpKind → ℕ) (s : MitmSession L) : Prop where
  named : Named s.log
  last : OfLast s.log s.currentTransaction
  busy : s.currentTransaction.request = none → n .send = 0 ∧ n .receive = 0

/-- The invariant while the handler of `op` runs. -/
abbrev IdentifiedAfter (op : Op) (s : MitmSession L) : Prop :=
  Identified (fun k => s.io.count k + op.weight k) s

/-- With a request anything may be outstanding. -/
abbrev Serves (s : MitmSession L) : Prop := Serving s.log s.currentTransaction

namespace Identified

theorem after (h : IdentifiedAfter op s) : Identified s.io.count s := by
  refine ⟨h.named, h.last, fun hreq => ?_⟩
  obtain ⟨hsend, hreceive⟩ := h.busy hreq
  exact ⟨by omega, by omega⟩

theorem silent (h : Identified n s) (hlog : ∃ es, t.log = s.log ++ es ∧ ∀ e ∈ es, e.identifies = false)
    (hid : t.currentTransaction.id = s.currentTransaction.id)
    (hreq : t.currentTransaction.request = s.currentTransaction.request)
    (hbusy : s.currentTransaction.request = none → m .send = n .send ∧ m .receive = n .receive) :
    Identified m t := by
  obtain ⟨es, hlog, hes⟩ := hlog
  refine ⟨?_, ?_, fun hnone => ?_⟩
  · rw [hlog]
    exact h.named.silent hes
  · rw [hlog]
    exact h.last.keep (tookRefs_silent hes) hid hreq
  · rw [hreq] at hnone
    obtain ⟨hsend, hreceive⟩ := hbusy hnone
    rw [hsend, hreceive]
    exact h.busy hnone

/-- The same log, and the same transaction. -/
theorem same (h : Identified n s) (hlog : t.log = s.log)
    (htx : t.currentTransaction = s.currentTransaction)
    (hbusy : s.currentTransaction.request = none → m .send = n .send ∧ m .receive = n .receive) :
    Identified m t :=
  h.silent ⟨[], by rw [hlog, List.append_nil], by simp⟩ (by rw [htx]) (by rw [htx]) hbusy

theorem aside (h : Identified s.io.count s) (ha : Aside s t) : Identified t.io.count t := by
  obtain ⟨es, hlog, hes⟩ := ha.log
  refine h.silent ⟨es, hlog, fun e he => Effect.identifies_of_aside (hes e he)⟩ ?_ ?_ fun _ => ?_
  · rw [ha.transaction]
  · rw [ha.transaction]
  · exact ⟨ha.count _ (by simp), ha.count _ (by simp)⟩

theorem emit (h : Identified n s) {e : Effect} (he : e.identifies = false) : Identified n (s.emit e) :=
  h.silent ⟨[e], rfl, by simpa using he⟩ rfl rfl fun _ => ⟨rfl, rfl⟩

theorem start (h : Identified s.io.count s) {op : Op}
    (hop : s.currentTransaction.request = none → op.kind ≠ .send ∧ op.kind ≠ .receive) :
    Identified (s.start op).io.count (s.start op) := by
  refine h.same rfl rfl fun hnone => ?_
  obtain ⟨hsend, hreceive⟩ := hop hnone
  refine ⟨(Io.count_start s.io op _).trans ?_, (Io.count_start s.io op _).trans ?_⟩
  · simp [Op.weight, hsend]
  · simp [Op.weight, hreceive]

theorem serves (h : Identified n s) (hreq : s.currentTransaction.request ≠ none) : s.Serves :=
  ⟨h.named, h.last, hreq⟩

theorem readClient (h : Identified s.io.count s) : Identified s.readClient.io.count s.readClient :=
  startOpen_of (R := fun s t => Identified s.io.count s → Identified t.io.count t) (.keeps _)
    (fun h => h.start fun _ => by simp [Op.kind]) h

theorem shakes : AllowsHandshake fun s t : MitmSession L => Identified s.io.count s → Identified t.io.count t where
  toChain := .keeps _
  handshakes s h := by
    have hone : Identified (s.start .clientHandshake).io.count (s.start .clientHandshake) :=
      h.start fun _ => by simp [Op.kind]
    exact hone.start fun _ => by simp [Op.kind]
  clientDone _ h := h.same rfl rfl fun _ => ⟨rfl, rfl⟩
  upstreamDone _ h := h.same rfl rfl fun _ => ⟨rfl, rfl⟩
  readClient _ := readClient

end Identified

namespace Serves

theorem identified (h : s.Serves) : Identified n s :=
  ⟨h.named, h.last, fun hnone => absurd hnone h.request⟩

theorem aside (h : s.Serves) (ha : Aside s t) : t.Serves := by
  obtain ⟨es, hlog, hes⟩ := ha.log
  rw [Serves, hlog, ha.transaction]
  exact Serving.silent h (fun e he => Effect.identifies_of_aside (hes e he)) rfl rfl

theorem answers : AllowsAnswer fun s t : MitmSession L => s.Serves → t.Serves where
  toChain := .keeps _
  send _ _ h := h.emit rfl
  respond _ response h := h.report .generated response
  queue _ _ h := h.emit rfl
  raw _ _ h := h.emit rfl

theorem forwards : AllowsForward fun s t : MitmSession L => s.Serves → t.Serves where
  toChain := .keeps _
  push _ _ _ h := h.emit rfl
  send _ _ _ h := (h.emit rfl).emit rfl

theorem readUpstream (h : s.Serves) : s.readUpstream.Serves :=
  startOpen_of (R := fun s t => s.Serves → t.Serves) (.keeps _) id h

theorem reportTaken (h : s.Serves) (data : Bytes) : (s.reportTaken data).Serves :=
  reportTaken_of (.keeps _) (fun _ => id) (fun _ response h => h.report _ response) data h

end Serves

/-- The handler takes a request. -/
def delivers (s : MitmSession L) : Op → Outcome → Bool
  | .clientRead, .bytes data => !s.isClosed && (s.clientParser.feedRequest data).2 &&
      (s.clientParser.feedRequest data).1.takeRequest.1.isSome
  | _, _ => false

/-- The upstream could not be reached. -/
def rejects (s : MitmSession L) : Op → Outcome → Bool
  | .resolve, o => !s.isClosed && o != .ok
  | .connect, o => !s.isClosed && o != .ok
  | _, _ => false

theorem handleResolve_identified (h : Identified s.io.count s) {o : Outcome}
    (hrejects : s.rejects .resolve o = false) :
    Identified (s.handleResolve o).io.count (s.handleResolve o) := by
  unfold MitmSession.handleResolve
  split
  · exact h
  · rename_i hopen
    have ho : o = .ok := by simpa [rejects, hopen] using hrejects
    rw [if_neg (by simp [ho])]
    exact h.start fun _ => by simp [Op.kind]

theorem handleConnected_identified (h : Identified s.io.count s) {o : Outcome}
    (hrejects : s.rejects .connect o = false) :
    Identified (s.handleConnected o).io.count (s.handleConnected o) := by
  unfold MitmSession.handleConnected
  split
  · exact h
  · rename_i hopen
    have ho : o = .ok := by simpa [rejects, hopen] using hrejects
    rw [if_neg (by simp [ho])]
    unfold sendEstablishedResponse
    split
    · exact h
    · have hemit : Identified s.io.count (s.emit (.answered Session.established)) := h.emit rfl
      exact Identified.start hemit fun _ => by simp [Op.kind]

theorem handleRequest_identified {env : Env} (h : Identified s.io.count s)
    (hid : env.nextId = idOf env.newRef) (req : HttpRequest) :
    Identified (s.handleRequest env req).io.count (s.handleRequest env req) := by
  let v : MitmSession L := ({ s with currentTransaction := { s.currentTransaction with
    id := env.nextId, host := s.targetHost, port := s.targetPort.toNat, isHttps := true
    request := some env.newRef } } : MitmSession L).emit (.took env.newRef req)
  have htook : v.Serves := ⟨h.named.took _ _, OfLast.took _ hid rfl req, Option.some_ne_none env.newRef⟩
  have htested : (v.emit (.tested env.newRef env.interceptEnabled)).Serves := htook.emit rfl
  unfold MitmSession.handleRequest
  dsimp only
  split
  · refine Serves.identified ?_
    exact Serving.emit htested rfl
  · exact (Serves.forwards.writeUpstream _ _ _ htested).identified

theorem handleClientRead_identified {env : Env} (h : Identified s.io.count s) {o : Outcome}
    (hid : s.delivers .clientRead o = true → env.nextId = idOf env.newRef) :
    Identified (s.handleClientRead env o).io.count (s.handleClientRead env o) := by
  unfold MitmSession.handleClientRead
  split
  · exact h
  · rename_i hopen
    have hopen : s.isClosed = false := by simpa using hopen
    split
    · rename_i data
      have hread := (h.aside (Aside.resetTimer s)).emit (e := .read data) rfl
      have hparser : (s.resetTimer.emit (.read data)).clientParser = s.clientParser := rfl
      simp only [delivers, ← hparser, hopen, Bool.not_false, Bool.true_and] at hid
      change Identified (s.resetTimer.emit (.read data)).io.count _ at hread
      dsimp only
      generalize s.resetTimer.emit (.read data) = v at hread hid
      let w (parser : HttpParser L) : MitmSession L :=
        { v with clientAccumulated := v.clientAccumulated ++ data, clientParser := parser }
      have hw (parser : HttpParser L) : Identified (w parser).io.count (w parser) :=
        ⟨hread.named, hread.last, hread.busy⟩
      cases hready : (v.clientParser.feedRequest data).2 with
      | true =>
        rw [if_pos rfl]
        cases htaken : (v.clientParser.feedRequest data).1.takeRequest with
        | mk taken parser =>
          cases taken with
          | some req =>
            have hdelivers : env.nextId = idOf env.newRef := by
              apply hid
              rw [hready, htaken]
              rfl
            exact handleRequest_identified (hw parser) hdelivers req
          | none => exact (hw parser).readClient
      | false =>
        rw [if_neg (by simp)]
        split
        · exact (hw _).readClient
        · exact (hw (v.clientParser.feedRequest data).1).aside (Aside.closes.close _)
    · exact h.aside (Aside.closes.close s)

/-- After the last response the session may forget the request. -/
theorem finishExchange_identified {b : Flow} {new : Ref} (h : s.Serves) (hidle : Flow.Idle b new s.flow)
    (env : Env) (res : HttpResponse) :
    Identified (s.finishExchange env res).io.count (s.finishExchange env res) := by
  have hrest : s.io.count .read + s.io.count .send + s.io.count .receive = 0 := (hidle.plain rfl).2
  have hresponded := h.report .relayed res
  unfold MitmSession.finishExchange
  dsimp only
  split
  · refine Identified.readClient ⟨hresponded.named, fun ref href => ?_, fun _ => ⟨?_, ?_⟩⟩
    · cases href
    · show s.io.count .send = 0
      omega
    · show s.io.count .receive = 0
      omega
  · have hflag : Serves { s.respond .relayed res with closeAfterWrite := true } := hresponded
    split
    · exact (hflag.aside (Aside.closes.close _)).identified
    · exact hflag.identified

theorem handleUpstreamRead_identified {b : Flow} {new : Ref} (h : s.Serves) (hidle : Flow.Idle b new s.flow)
    (env : Env) (o : Outcome) :
    Identified (s.handleUpstreamRead env o).io.count (s.handleUpstreamRead env o) := by
  unfold MitmSession.handleUpstreamRead
  split
  · exact h.identified
  · split
    · rename_i data
      have hreceived : (s.resetTimer.emit (.received data)).Serves := (h.aside (Aside.resetTimer s)).emit rfl
      have hwritten : ((s.resetTimer.emit (.received data)).writeClient .relayed data).Serves :=
        Serves.answers.writeClient (fun _ h => h.emit rfl) hreceived
      have hcalm : Calmly s ((s.resetTimer.emit (.received data)).writeClient .relayed data) :=
        ((Calmly.resetTimer s).trans (Calmly.emit _ rfl)).trans (Calmly.writeClient _ _ _)
      dsimp only
      generalize (s.resetTimer.emit (.received data)).writeClient .relayed data = v at hwritten hcalm
      let w (parser : HttpParser L) : MitmSession L :=
        { v with upstreamAccumulated := v.upstreamAccumulated ++ data, upstreamParser := parser }
      have hw (parser : HttpParser L) : (w parser).Serves := hwritten
      split
      · split
        · rename_i res parser _
          have hsame : Calmly v (w parser) := .same rfl rfl rfl rfl rfl rfl
          exact finishExchange_identified (hw parser) ((hcalm.trans hsame).flow.idle hidle) env res
        · rename_i parser _
          exact (hw parser).readUpstream.identified
      · exact (hw _).readUpstream.identified
    · dsimp only
      split
      · exact ((h.reportTaken _).aside (Aside.closes.close _)).identified
      · exact (h.aside (Aside.closes.close s)).identified

theorem handle_identified {b : Flow} {env : Env} (h : IdentifiedAfter op s)
    (hs : InvAfter b env.newRef op s) {o : Outcome} (hrejects : s.rejects op o = false)
    (hid : s.delivers op o = true → env.nextId = idOf env.newRef) :
    Identified (s.handle env op o).io.count (s.handle env op o) := by
  have hplain := Identified.after h
  have hsent (hop : op.kind = .send ∨ op.kind = .receive) : s.currentTransaction.request ≠ none := by
    intro hnone
    obtain ⟨hsend, hreceive⟩ := h.busy hnone
    rcases hop with hop | hop
    · simp [Op.weight, hop] at hsend
    · simp [Op.weight, hop] at hreceive
  cases op with
  | timer => exact hplain.aside (Aside.handleTimeout s o)
  | clientWrite data => exact hplain.aside (Aside.handleClientWrite s o)
  | rawWrite data => exact hplain.aside (Aside.closes.close s)
  | serverWrite data => exact hplain
  | resolve => exact handleResolve_identified hplain hrejects
  | connect => exact handleConnected_identified hplain hrejects
  | established =>
    exact Identified.shakes.handleEstablished (fun h => h.aside (Aside.closes.close s)) env o hplain
  | clientHandshake =>
    exact Identified.shakes.handleClientHandshake (fun _ h => h.aside (Aside.closes.close s)) hplain
  | upstreamHandshake =>
    exact Identified.shakes.handleUpstreamHandshake (fun _ h => h.aside (Aside.closes.close s)) hplain
  | clientRead => exact handleClientRead_identified hplain hid
  | upstreamRead =>
    exact handleUpstreamRead_identified (hplain.serves (hsent (Or.inr rfl)))
      (hs.idle (Or.inr (Or.inr (Or.inl rfl)))) env o
  | upstreamWrite data =>
    exact (Serves.forwards.handleUpstreamWrite (fun _ h => h.aside (Aside.closes.close s))
      id (fun _ => Serves.readUpstream) (hplain.serves (hsent (Or.inl rfl)))).identified
  | decision a =>
    have hsound := hs.sound
    rw [if_neg (by simp [Op.kind])] at hsound
    exact (Serves.forwards.handleDecision id (Serves.answers.sendErrorResponse _ _ _) env a
      (hplain.serves hsound.decided_request)).identified

theorem decided_identified (h : Identified s.io.count s) (ref : Ref) (action : InterceptAction) :
    Identified (s.decided ref action).io.count (s.decided ref action) := by
  refine h.silent ⟨[_], rfl, by simp [Effect.identifies]⟩ rfl rfl fun _ => ⟨?_, ?_⟩
  · exact Io.count_post s.io _ _ _
  · exact Io.count_post s.io _ _ _

/-- The handler in position `k` is about to do it. -/
def deliversAt (s : MitmSession L) (k : ℕ) : Bool := s.io.ready[k]?.any fun e => s.delivers e.1 e.2

def rejectsAt (s : MitmSession L) (k : ℕ) : Bool := s.io.ready[k]?.any fun e => s.rejects e.1 e.2

theorem dispatch_identified {env : Env} (h : Identified s.io.count s) (hs : Holds s) {k : ℕ}
    (hrejects : s.rejectsAt k = false)
    (hid : s.deliversAt k = true → env.nextId = idOf env.newRef)
    (hok : s.dispatch k env = some t) : Identified t.io.count t := by
  obtain ⟨op, o, io, hio, rfl⟩ := dispatch_spec hok
  rw [Io.count_take hio] at h
  have hafter : IdentifiedAfter op { s with io := io } := ⟨h.named, h.last, h.busy⟩
  simp only [rejectsAt, deliversAt, (Executor.take_spec hio).1, Option.any_some] at hrejects hid
  refine handle_identified hafter (taken_inv hs hio env.newRef) ?_ ?_
  · rw [← hrejects]
    cases op <;> rfl
  · intro hdelivers
    apply hid
    rw [← hdelivers]
    cases op <;> rfl

theorem started_identified (targetHost : Bytes) (targetPort : UInt16) :
    Identified (started targetHost targetPort : MitmSession L).io.count
      (started targetHost targetPort : MitmSession L) :=
  ⟨Named.nil, (fun _ href => by cases href), fun _ => ⟨rfl, rfl⟩⟩

end MitmSession

namespace Peer

variable {L : Llhttp} {p q : Peer L}

def Identified : Peer L → Prop
  | .plain s => s.Identified s.io.count
  | .mitm s => s.Identified s.io.count

def deliversAt (k : ℕ) : Peer L → Bool
  | .plain s => s.deliversAt k
  | .mitm s => s.deliversAt k

def rejectsAt (k : ℕ) : Peer L → Bool
  | .plain s => s.rejectsAt k
  | .mitm s => s.rejectsAt k

theorem Identified.named (h : p.Identified) : Named p.log := by
  cases p with
  | plain s => exact Session.Identified.named h
  | mitm s => exact MitmSession.Identified.named h

theorem complete_identified (h : p.Identified) {k : ℕ} {o : Outcome} (hq : p.complete k o = some q) :
    q.Identified := by
  cases p with
  | plain s =>
    obtain ⟨t, ht, rfl⟩ := Option.map_eq_some_iff.mp hq
    exact Session.Identified.aside h (Session.Aside.complete ht)
  | mitm s =>
    obtain ⟨t, ht, rfl⟩ := Option.map_eq_some_iff.mp hq
    exact MitmSession.Identified.aside h (MitmSession.Aside.complete ht)

theorem close_identified (h : p.Identified) : p.close.Identified := by
  cases p with
  | plain s => exact Session.Identified.aside h (Session.Aside.closes.close s)
  | mitm s => exact MitmSession.Identified.aside h (MitmSession.Aside.closes.close s)

theorem dispatch_identified {env : Env} (h : p.Identified) (hs : p.Holds) {k : ℕ}
    (hrejects : p.rejectsAt k = false) (hid : p.deliversAt k = true → env.nextId = idOf env.newRef)
    (hq : p.dispatch k env = some (.ok q)) : q.Identified := by
  cases p with
  | plain s =>
    obtain ⟨r, hr, hq⟩ := Option.map_eq_some_iff.mp hq
    cases r with
    | error e => cases hq
    | ok t =>
      cases hq
      exact Session.dispatch_identified h hs hrejects hid hr
  | mitm s =>
    obtain ⟨t, ht, hq⟩ := Option.map_eq_some_iff.mp hq
    cases hq
    exact MitmSession.dispatch_identified h hs hrejects hid ht

theorem decided_identified (h : p.Identified) (ref : Ref) (action : InterceptAction) :
    (p.decided ref action).Identified := by
  cases p with
  | plain s => exact Session.decided_identified h ref action
  | mitm s => exact MitmSession.decided_identified h ref action

end Peer

namespace ProxySystem

variable {L : Llhttp} {σ τ : ProxySystem L}

/-- A handler only takes a request while the counter has not wrapped around, and it rejects nothing
that is not a request. -/
def Numbering (σ : ProxySystem L) : Label → Prop
  | .dispatch i k _ _ _ => (σ.peers[i]?.all fun p => !p.rejectsAt k &&
      (!p.deliversAt k || decide (σ.heap.length < 2147483647))) = true
  | _ => True

instance (σ : ProxySystem L) (a : Label) : Decidable (Numbering σ a) := by
  unfold Numbering
  split <;> infer_instance

/-- The counter stands for the number of requests, and every session has its transaction identified. -/
structure Numbered (σ : ProxySystem L) : Prop where
  counter : σ.nextId = countUp 1 σ.heap.length
  peers : ∀ (i : ℕ) (p : Peer L), σ.peers[i]? = some p → p.Identified

theorem countUp_countUp (id : ℤ) (m n : ℕ) : countUp (countUp id m) n = countUp id (m + n) := by
  unfold countUp
  rw [Int.bmod_add_bmod, Int.natCast_add, Int.add_assoc]

theorem countUp_one {n : ℕ} (h : n < 2147483647) : countUp 1 n = idOf n := by
  unfold countUp idOf
  rw [Int.bmod_eq_of_le]
  · exact Int.add_comm _ _
  · omega
  · omega

theorem absorb_numbered (h : Numbered σ) {i : ℕ} {p q : Peer L} {es : List Effect}
    (hp : σ.peers[i]? = some p) (hq : q.Identified) : Numbered (σ.absorb i q es) := by
  refine ⟨?_, fun j r hr => ?_⟩
  · simp only [absorb, h.counter, countUp_countUp, List.length_append]
  · rcases peers_absorb hp hr with ⟨-, rfl⟩ | ⟨-, hold⟩ | ⟨-, host, port, rfl⟩
    · exact hq
    · exact h.peers j r hold
    · exact MitmSession.started_identified host port

/-- Steps that leave the sessions and the number of requests alone. -/
theorem Numbered.same (h : Numbered σ) (hpeers : τ.peers = σ.peers)
    (hheap : τ.heap.length = σ.heap.length) (hnext : τ.nextId = σ.nextId) : Numbered τ := by
  refine ⟨?_, hpeers ▸ h.peers⟩
  rw [hnext, hheap]
  exact h.counter

theorem accept_numbered (h : Numbered σ) (hasCertCache : Bool) :
    Numbered { σ with peers := σ.peers ++ [.plain (Session.started hasCertCache)] } := by
  refine ⟨h.counter, fun j r hr => ?_⟩
  rcases List.mem_append.mp (List.mem_of_getElem? hr) with hr | hr
  · obtain ⟨j, hj⟩ := List.mem_iff_getElem?.mp hr
    exact h.peers j r hj
  · rw [List.mem_singleton.mp hr]
    exact Session.started_identified hasCertCache

theorem decided_numbered (h : Numbered σ) {i : ℕ} {p : Peer L} (hp : σ.peers[i]? = some p)
    (ref : Ref) (action : InterceptAction) (taken : List (InterceptManager.Taken OnDecision)) :
    Numbered { σ with taken := taken, peers := σ.peers.set i (p.decided ref action) } := by
  refine ⟨h.counter, fun j r hr => ?_⟩
  rcases List.mem_or_eq_of_mem_set (List.mem_of_getElem? hr) with hr | rfl
  · obtain ⟨j, hj⟩ := List.mem_iff_getElem?.mp hr
    exact h.peers j r hj
  · exact Peer.decided_identified (h.peers i p hp) ref action

theorem dispatch_numbered (h : Numbered σ) (hinv : Inv σ) {i k : ℕ} {p q : Peer L} {caCert caCertPath : Bytes}
    {sslContext : Bool} (hp : σ.peers[i]? = some p)
    (hnumbering : Numbering σ (.dispatch i k caCert caCertPath sslContext))
    (hq : p.dispatch k (σ.env caCert caCertPath sslContext) = some (.ok q)) :
    Numbered (σ.move i p q) := by
  simp only [Numbering, hp, Option.all_some, Bool.and_eq_true, Bool.not_eq_true',
    Bool.or_eq_true, decide_eq_true_eq] at hnumbering
  obtain ⟨hrejects, hfew⟩ := hnumbering
  apply absorb_numbered h hp
  refine Peer.dispatch_identified (h.peers i p hp) (hinv.holds i p hp) hrejects (fun hdelivers => ?_) hq
  -- the counter has not wrapped around
  have hlt : σ.heap.length < 2147483647 := hfew.resolve_left (by simp [hdelivers])
  exact h.counter.trans (countUp_one hlt)

theorem step_numbered (h : Numbered σ) (hinv : Inv σ) {a : Label} (hnumbering : Numbering σ a)
    (hstep : σ.step a = some τ) : Numbered τ := by
  cases a with
  | accept hasCertCache =>
    cases hstep
    exact accept_numbered h hasCertCache
  | complete i k o =>
    simp only [step] at hstep
    split at hstep
    · rename_i p hp
      obtain ⟨q, hq, rfl⟩ := Option.map_eq_some_iff.mp hstep
      exact absorb_numbered h hp (Peer.complete_identified (h.peers i p hp) hq)
    · cases hstep
  | dispatch i k caCert caCertPath sslContext =>
    simp only [step] at hstep
    split at hstep
    · cases hstep
    · split at hstep
      · rename_i p hp
        split at hstep
        · rename_i q hq
          cases hstep
          exact dispatch_numbered h hinv hp hnumbering hq
        · cases hstep
          exact h.same rfl rfl rfl
        · cases hstep
      · cases hstep
  | close i =>
    simp only [step] at hstep
    split at hstep
    · rename_i p hp
      cases hstep
      exact absorb_numbered h hp (Peer.close_identified (h.peers i p hp))
    · cases hstep
  | interceptRequest k =>
    simp only [step] at hstep
    split at hstep
    · cases hstep
      exact h.same rfl rfl rfl
    · cases hstep
  | storeEnabled enabled => cases hstep; exact h.same rfl rfl rfl
  | forwardCurrent => cases hstep; exact h.same rfl rfl rfl
  | dropCurrent => cases hstep; exact h.same rfl rfl rfl
  | forwardAll => cases hstep; exact h.same rfl rfl rfl
  | dropAll => cases hstep; exact h.same rfl rfl rfl
  | onDecision k =>
    simp only [step] at hstep
    split at hstep
    · split at hstep
      · rename_i p hp
        cases hstep
        exact decided_numbered h hp _ _ _
      · cases hstep
    · cases hstep
  | overwrite ref request => cases hstep; exact h.same rfl List.length_set rfl

theorem reached_numbered (h : (system L).ReachedUnder Numbering σ) : Numbered σ := by
  refine h.invariant_of (J := Inv) (fun σ hσ => reached_inv hσ.reached) (fun σ h0 => ?_)
    fun σ a τ hinv hσ hnumbering hstep => step_numbered hσ hinv hnumbering hstep
  have h0 : σ = {} := h0
  rw [h0]
  exact ⟨(countUp_one (by decide)).symm, fun i p hp => by simp at hp⟩

/-- Every reported transaction has a positive id and the request that its response answers, which
is the one that its session took last; and two with the same id belong to the same exchange. -/
structure Identifies (σ : ProxySystem L) : Prop where
  each : ∀ p ∈ σ.peers, ∀ l origin tx, l ++ [.reported origin tx] <+: p.log →
    0 < tx.id ∧ ∃ ref, tx.request = some ref ∧ (tookRefs l).getLast? = some ref
  apart : ∀ (i j : ℕ) (p q : Peer L), σ.peers[i]? = some p → σ.peers[j]? = some q →
    ∀ origin origin' tx tx', .reported origin tx ∈ p.log → .reported origin' tx' ∈ q.log →
      tx.id = tx'.id → i = j ∧ tx.request = tx'.request

/-- Unless input is rejected that is not a request, or an upstream is not reached for a CONNECT, or
the counter wraps around, the transactions are told apart by their ids. -/
theorem transactions_identified (h : (system L).ReachedUnder Numbering σ) : Identifies σ := by
  have hnumbered := reached_numbered h
  have hinv := reached_inv h.reached
  refine ⟨fun p hp l origin tx hl => ?_, fun i j p q hp hq origin origin' tx tx' hmem hmem' hsame => ?_⟩
  · obtain ⟨i, hi⟩ := List.mem_iff_getElem?.mp hp
    obtain ⟨ref, href, hlast, hid⟩ := (hnumbered.peers i p hi).named l origin tx hl
    refine ⟨?_, ref, href, hlast⟩
    rw [hid]
    exact idOf_pos ref
  · obtain ⟨ref, href, htook, hid⟩ := Named.of_mem (hnumbered.peers i p hp).named hmem
    obtain ⟨ref', href', htook', hid'⟩ := Named.of_mem (hnumbered.peers j q hq).named hmem'
    have heq : ref = ref' := by
      rw [hid, hid'] at hsame
      exact idOf_inj hsame
    rw [href, href', heq]
    exact ⟨hinv.apart i j p q hp hq ref' (heq ▸ htook) htook', rfl⟩

section Examples

/-- `CONNECT h:443 HTTP/1.1` without headers. -/
def connectRequest : RequestMessage :=
  { method := str "CONNECT", url := str "h:443", fields := [], body := .plain [] }

/-- The requests of two connections are refused because the names of their servers are unknown. -/
def unknownServersRun : List Label :=
  [.accept false, .accept false, .complete 0 1 (.bytes getRequest.message.wire), .dispatch 0 0 [] [] true,
    .complete 1 1 (.bytes getRequest.message.wire), .dispatch 1 0 [] [] true,
    .complete 0 1 .failed, .dispatch 0 1 [] [] true, .complete 1 1 .failed, .dispatch 1 1 [] [] true]

/-- The identifiers of the reports of a session. -/
def reportedIds (log : List Effect) : List ℤ :=
  log.filterMap fun
    | .reported _ tx => some tx.id
    | _ => none

theorem transactions_identified_unknownServersRun :
    ∃ σ, (system (scripted fun _ => getRequest.message.pieces)).runUnder Numbering {}
      unknownServersRun = some σ ∧ σ.peers.map (fun p => reportedIds p.log) = [[1], [2]] ∧ Identifies σ := by
  have hrun : ((system (scripted fun _ => getRequest.message.pieces)).runUnder Numbering {}
      unknownServersRun).any (fun σ => σ.peers.map (fun p => reportedIds p.log) = [[1], [2]]) = true := by decide
  obtain ⟨σ, hσ, hids⟩ := (Option.any_eq_true _ _).mp hrun
  exact ⟨σ, hσ, of_decide_eq_true hids, transactions_identified (.runUnder (.init rfl) hσ)⟩

/-- A CONNECT is handed to a TLS session, which does not find its server. -/
def unknownTlsServerRun : List Label :=
  [.accept true, .complete 0 1 (.bytes connectRequest.message.wire), .dispatch 0 0 [] [] true,
    .complete 1 1 .failed, .dispatch 1 0 [] [] true]

/-- A report under the id 0. -/
def reportsZero : Effect → Bool
  | .reported _ tx => tx.id == 0
  | _ => false

theorem failed_tunnel_not_identified :
    ¬ ∀ σ, (system (scripted fun _ => connectRequest.message.pieces)).Reached σ → Identifies σ := by
  intro hall
  have hrun : ((system (scripted fun _ => connectRequest.message.pieces)).run {}
      unknownTlsServerRun).any (fun σ => σ.peers.any fun p => p.log.any reportsZero) = true := by decide
  obtain ⟨σ, hσ, hpeers⟩ := (Option.any_eq_true _ _).mp hrun
  obtain ⟨p, hp, hlog⟩ := List.any_eq_true.mp hpeers
  obtain ⟨e, he, hzero⟩ := List.any_eq_true.mp hlog
  obtain ⟨l, l', hl⟩ := List.append_of_mem he
  cases e with
  | reported origin tx =>
    obtain ⟨hpos, -⟩ := (hall σ (.run (.init rfl) hσ)).each p hp l origin tx ⟨l', by simp [hl]⟩
    have hid : tx.id = 0 := by simpa [reportsZero] using hzero
    omega
  | _ => cases hzero

end Examples

end ProxySystem

end BurpTUI
