import BurpTUI.Http.WholeReply
import BurpTUI.Proxy.ExchangeEnd
import BurpTUI.Proxy.RecordedStatus

namespace BurpTUI

/-- The last request that was taken. -/
def lastTaken (log : List Effect) : Option (Ref × HttpRequest) :=
  log.foldl (fun last e => match e with
    | .took ref req => some (ref, req)
    | _ => last) none

/-- A response is reported for this request. -/
def Effect.reports (ref : Ref) : Effect → Bool
  | .reported _ tx => tx.request == some ref
  | _ => false

section History

variable {L : Llhttp} (At : L.State → List Piece → Prop)

/-- What has come from the upstream for `req` is all of the reply. If nothing else shows where it
ends, the upstream has ended and the session is closed. -/
structure Reply.Delivered (r : Reply) (req : HttpRequest) (log : List Effect) : Prop where
  method : r.method = req.method
  names : r.final.message.NamesGiven
  reads : At (L.init .response) r.pieces
  bytes : (receivedFor log).flatten = r.bytes
  ended : r.untilClose = true → .upstreamEnded ∈ log ∧ .closed ∈ log

/-- If the last request is no CONNECT and a reply of this kind was delivered for it, then its final
response was reported. -/
def Recorded (P : Reply → Prop) (log : List Effect) : Prop :=
  ∀ ref req, lastTaken log = some (ref, req) → req.method ≠ str "CONNECT" →
    ∀ r : Reply, P r → r.Delivered At req log →
      ∃ tx, .reported .relayed tx ∈ log ∧ tx.request = some ref ∧ tx.response = some r.final.response

/-- No request is reported twice, and every reply of this kind is recorded: that to the request at
hand, and that to each request before it when the next one is taken. -/
structure CompleteHistory (P : Reply → Prop) (log : List Effect) : Prop where
  once : ∀ ref, log.countP (Effect.reports ref) ≤ 1
  ended : Everywhere (fun before e => ∀ ref req, e = .took ref req → Recorded At P before) log
  last : Recorded At P log

/-- The part of this that says nothing of the request at hand, for the effects of exchanges. -/
structure Counted (l : List Effect) : Prop where
  once : ∀ ref, l.countP (Effect.reports ref) ≤ 1
  known : ∀ ref, 0 < l.countP (Effect.reports ref) → ∃ req, .took ref req ∈ l
  ended : Everywhere (fun before e => ∀ ref req, e = .took ref req →
    Recorded At Reply.Recordable before) l

end History

/-- Nothing is taken or reported. -/
def Uneventful (es : List Effect) : Prop :=
  ∀ e ∈ es, (∀ ref req, e ≠ .took ref req) ∧ ∀ ref, e.reports ref = false

theorem lastTaken_exchanges (log : List Effect) : lastTaken (exchanges log) = lastTaken log := by
  refine foldl_exchanges (fun e he last => ?_) none log
  cases e with
  | took ref req => cases he
  | _ => rfl

theorem receivedFor_exchanges (log : List Effect) : receivedFor (exchanges log) = receivedFor log := by
  refine foldl_exchanges (fun e he received => ?_) [] log
  cases e with
  | took ref req => cases he
  | received data => cases he
  | _ => rfl

theorem countP_exchanges (log : List Effect) (ref : Ref) :
    (exchanges log).countP (Effect.reports ref) = log.countP (Effect.reports ref) := by
  rw [exchanges, List.countP_filter]
  refine List.countP_congr fun e _ => ?_
  cases e <;> simp [Effect.reports, Effect.ofExchange]

theorem lastTaken_append {l es : List Effect} (hes : ∀ e ∈ es, ∀ ref req, e ≠ .took ref req) :
    lastTaken (l ++ es) = lastTaken l := by
  have hgrows : Grows (fun e : Effect => ∀ ref req, e ≠ .took ref req) l (l ++ es) := ⟨es, rfl, hes⟩
  refine hgrows.foldl (fun e he last => ?_) none
  cases e with
  | took ref req => exact absurd rfl (he ref req)
  | _ => rfl

theorem took_mem_of_lastTaken {l : List Effect} {ref : Ref} {req : HttpRequest}
    (h : lastTaken l = some (ref, req)) : .took ref req ∈ l := by
  induction l using List.reverseRecOn with
  | nil => cases h
  | append_singleton l e ih =>
    rw [lastTaken, List.foldl_append] at h
    cases e with
    | took ref' req' =>
      cases h
      simp
    | _ => exact List.mem_append_left _ (ih h)

variable {L : Llhttp} {At : L.State → List Piece → Prop} {l l' es : List Effect} {ref : Ref}

/-- The request is the same, and nothing more has come for it. -/
theorem Recorded.grow (h : Recorded At Reply.Recordable l) (hlast : lastTaken l' = lastTaken l)
    (hreceived : receivedFor l' = receivedFor l)
    (hmem : ∀ tx, .reported .relayed tx ∈ l → .reported .relayed tx ∈ l') :
    Recorded At Reply.Recordable l' := by
  intro ref req htaken hmethod r hr hd
  have hbefore : r.Delivered At req l := by
    refine ⟨hd.method, hd.names, hd.reads, hreceived ▸ hd.bytes, fun huntil => ?_⟩
    rw [hr.ends] at huntil
    cases huntil
  obtain ⟨tx, htx, hrequest, hresponse⟩ := h ref req (hlast ▸ htaken) hmethod r hr hbefore
  exact ⟨tx, hmem tx htx, hrequest, hresponse⟩

/-- Nothing has come for a request that was just taken. -/
theorem recorded_of_took (l : List Effect) (ref : Ref) (req : HttpRequest) :
    Recorded At Reply.Recordable (l ++ [.took ref req]) := by
  intro ref' req' _ _ r _ hd
  have hbytes := hd.bytes
  rw [receivedFor_snoc] at hbytes
  exact absurd hbytes.symm r.bytes_ne_nil

/-- What comes for a CONNECT request is no reply. -/
theorem recorded_of_connect (h : ∀ ref req, lastTaken l = some (ref, req) → req.method = str "CONNECT") :
    Recorded At Reply.Recordable l :=
  fun ref req htaken hmethod => absurd (h ref req htaken) hmethod

/-- The upstream sends more, and the response is reported if the parser that follows it has one. -/
theorem Recorded.receive (h : Recorded At Reply.Recordable l) (hL : L.Reads At)
    {p : MessageParser L HttpResponse} (hp : p.Follows responseOps (receivedFor l)) {data : Bytes}
    (hlast : lastTaken l' = lastTaken l) (hreceived : receivedFor l' = receivedFor l ++ [data])
    (hmem : ∀ tx, .reported .relayed tx ∈ l → .reported .relayed tx ∈ l')
    (hreport : (p.feed responseOps data).2 = true → ∀ ref req, lastTaken l = some (ref, req) →
      ∃ tx, .reported .relayed tx ∈ l' ∧ tx.request = some ref ∧
        tx.response = some (p.feed responseOps data).1.collector.message) :
    Recorded At Reply.Recordable l' := by
  intro ref req htaken hmethod r hr hd
  rw [hlast] at htaken
  have hbytes := hd.bytes
  rw [hreceived, List.flatten_append, List.flatten_singleton] at hbytes
  by_cases hdata : data = []
  · -- the reply was there before
    have hbefore : r.Delivered At req l := by
      refine ⟨hd.method, hd.names, hd.reads, ?_, fun huntil => ?_⟩
      · rwa [hdata, List.append_nil] at hbytes
      · rw [hr.ends] at huntil
        cases huntil
    obtain ⟨tx, htx, hrequest, hresponse⟩ := h ref req htaken hmethod r hr hbefore
    exact ⟨tx, hmem tx htx, hrequest, hresponse⟩
  · obtain ⟨hready, hmessage⟩ := hr.taken hL hd.names hd.reads hp hdata hbytes
    rw [← hmessage]
    exact hreport hready ref req htaken

namespace Counted

theorem nil : Counted At [] := ⟨fun _ => Nat.zero_le _, fun _ h => absurd h (lt_irrefl 0), Everywhere.nil⟩

theorem append (h : Counted At l) (hes : Uneventful es) : Counted At (l ++ es) := by
  have hzero (ref : Ref) : (l ++ es).countP (Effect.reports ref) = l.countP (Effect.reports ref) := by
    rw [List.countP_append, Nat.add_eq_left, List.countP_eq_zero]
    exact fun e he => Bool.eq_false_iff.mp ((hes e he).2 ref)
  refine ⟨fun ref => (hzero ref).trans_le (h.once ref), fun ref hpos => ?_, ?_⟩
  · obtain ⟨req, hreq⟩ := h.known ref (hzero ref ▸ hpos)
    exact ⟨req, List.mem_append_left _ hreq⟩
  · refine Everywhere.grow h.ended ⟨es, rfl, fun e he => (hes e he).1⟩ fun e he before ref req heq => ?_
    exact absurd heq (he ref req)

/-- A request is reported that was not reported before. -/
theorem report (h : Counted At l) {origin : Origin} {tx : HttpTransaction}
    (hnew : ∀ ref, tx.request = some ref →
      (∃ req, .took ref req ∈ l) ∧ l.countP (Effect.reports ref) = 0) :
    Counted At (l ++ [.reported origin tx]) := by
  refine ⟨fun ref => ?_, fun ref hpos => ?_, Everywhere.snoc h.ended fun ref req heq => by cases heq⟩
  · rw [List.countP_append, List.countP_singleton]
    split
    · rename_i hrequest
      rw [(hnew ref (beq_iff_eq.mp hrequest)).2]
    · exact h.once ref
  · rw [List.countP_append, List.countP_singleton] at hpos
    split at hpos
    · rename_i hrequest
      obtain ⟨⟨req, hreq⟩, -⟩ := hnew ref (beq_iff_eq.mp hrequest)
      exact ⟨req, List.mem_append_left _ hreq⟩
    · obtain ⟨req, hreq⟩ := h.known ref hpos
      exact ⟨req, List.mem_append_left _ hreq⟩

/-- The next request is taken. -/
theorem take (h : Counted At l) (hrecorded : Recorded At Reply.Recordable l) (ref : Ref) (req : HttpRequest) :
    Counted At (l ++ [.took ref req]) := by
  have hzero (ref' : Ref) : (l ++ [Effect.took ref req]).countP (Effect.reports ref') =
      l.countP (Effect.reports ref') := by
    rw [List.countP_append, List.countP_singleton]
    rfl
  refine ⟨fun ref' => (hzero ref').trans_le (h.once ref'), fun ref' hpos => ?_,
    Everywhere.snoc h.ended fun _ _ _ => hrecorded⟩
  obtain ⟨req', hreq'⟩ := h.known ref' (hzero ref' ▸ hpos)
  exact ⟨req', List.mem_append_left _ hreq'⟩

/-- A new request was not reported. -/
theorem fresh {log : List Effect} (h : Counted At (exchanges log)) (hnew : ref ∉ tookRefs log) :
    (exchanges log).countP (Effect.reports ref) = 0 := by
  by_contra hne
  obtain ⟨req, hreq⟩ := h.known ref (Nat.pos_of_ne_zero hne)
  exact hnew (Proper.mem_tookRefs (List.mem_of_mem_filter hreq))

theorem completeHistory {log : List Effect} (h : Counted At (exchanges log))
    (hrecorded : Recorded At Reply.Recordable (exchanges log)) :
    CompleteHistory At Reply.Recordable log := by
  have hall (log : List Effect) (hrecorded : Recorded At Reply.Recordable (exchanges log)) :
      Recorded At Reply.Recordable log :=
    hrecorded.grow (lastTaken_exchanges log).symm (receivedFor_exchanges log).symm
      fun _ hmem => List.mem_of_mem_filter hmem
  refine ⟨fun ref => countP_exchanges log ref ▸ h.once ref, ?_, hall log hrecorded⟩
  intro l₁ e l₂ hlog ref req he
  refine hall l₁ (h.ended (exchanges l₁) e (exchanges l₂) ?_ ref req he)
  subst he hlog
  exact exchanges_append _ _

end Counted

/-- The transaction is that of the request at hand, which was not reported while it has no response. -/
def Current (tx : HttpTransaction) (l : List Effect) : Prop := ∀ ref, tx.request = some ref →
  (∃ req, lastTaken l = some (ref, req)) ∧ (tx.response = none → l.countP (Effect.reports ref) = 0)

namespace Current

variable {tx tx' : HttpTransaction}

theorem of_none (h : tx.request = none) : Current tx l := by
  intro ref hrequest
  rw [h] at hrequest
  cases hrequest

/-- The response is set when it is reported. -/
theorem responded (h : Current tx l) (hrequest : tx'.request = tx.request) (hresponse : tx'.response ≠ none)
    (hes : ∀ e ∈ es, ∀ ref req, e ≠ .took ref req) : Current tx' (l ++ es) := by
  refine fun ref hthis => ⟨?_, fun hnone => absurd hnone hresponse⟩
  rw [lastTaken_append hes]
  exact (h ref (hrequest ▸ hthis)).1

theorem append (h : Current tx l) (hes : Uneventful es) : Current tx (l ++ es) := by
  intro ref hrequest
  obtain ⟨hlast, hcount⟩ := h ref hrequest
  rw [lastTaken_append fun e he => (hes e he).1, List.countP_append,
    List.countP_eq_zero.mpr fun e he => Bool.eq_false_iff.mp ((hes e he).2 ref), Nat.add_zero]
  exact ⟨hlast, hcount⟩

/-- The request may be reported. -/
theorem unreported (h : Current tx l) (hresponse : tx.response = none) : ∀ ref, tx.request = some ref →
    (∃ req, .took ref req ∈ l) ∧ l.countP (Effect.reports ref) = 0 := by
  intro ref hrequest
  obtain ⟨⟨req, hlast⟩, hcount⟩ := h ref hrequest
  exact ⟨⟨req, took_mem_of_lastTaken hlast⟩, hcount hresponse⟩

end Current

/-- What is kept of the history while `tx` is the transaction at hand. -/
structure Kept (At : L.State → List Piece → Prop) (tx : HttpTransaction) (l : List Effect) : Prop where
  counted : Counted At l
  recorded : Recorded At Reply.Recordable l
  current : Current tx l

namespace Kept

variable {tx tx' : HttpTransaction} {req : HttpRequest} {e : Effect} {p : MessageParser L HttpResponse}
  {data : Bytes}

theorem nil : Kept At {} [] := ⟨.nil, (fun ref req h => by cases h), .of_none rfl⟩

/-- Other fields of the transaction do not matter. -/
theorem same (h : Kept At tx l) (hrequest : tx'.request = tx.request) (hresponse : tx'.response = tx.response) :
    Kept At tx' l := by
  refine ⟨h.counted, h.recorded, fun ref hthis => ?_⟩
  rw [hresponse]
  exact h.current ref (hrequest ▸ hthis)

/-- The transaction is emptied for the next request. -/
theorem restart (h : Kept At tx l) : Kept At {} l := ⟨h.counted, h.recorded, .of_none rfl⟩

theorem append (h : Kept At tx l) (hes : Uneventful es) (hreceived : receivedFor (l ++ es) = receivedFor l) :
    Kept At tx (l ++ es) :=
  ⟨h.counted.append hes, h.recorded.grow (lastTaken_append fun e he => (hes e he).1) hreceived
    fun _ hmem => List.mem_append_left _ hmem, h.current.append hes⟩

/-- A new request is taken. -/
theorem take {log : List Effect} (h : Kept At tx (exchanges log)) (hnew : ref ∉ tookRefs log)
    (hrequest : tx'.request = some ref) : Kept At tx' (exchanges log ++ [.took ref req]) := by
  refine ⟨h.counted.take h.recorded _ _, recorded_of_took _ _ _, fun ref' href' => ?_⟩
  obtain rfl : ref = ref' := Option.some.inj (hrequest.symm.trans href')
  rw [lastTaken, List.foldl_append, List.countP_append, h.counted.fresh hnew]
  exact ⟨⟨req, rfl⟩, fun _ => rfl⟩

/-- The request is reported, with a response that it did not have. -/
theorem report (h : Kept At tx l) (hopen : tx.response = none) {origin : Origin}
    (hrequest : tx'.request = tx.request) (hresponse : tx'.response ≠ none) :
    Kept At tx' (l ++ [.reported origin tx']) := by
  refine ⟨h.counted.report ?_, ?_, h.current.responded hrequest hresponse (by simp)⟩
  · rw [hrequest]
    exact h.current.unreported hopen
  · refine h.recorded.grow (lastTaken_append (by simp)) ?_ fun _ hmem => List.mem_append_left _ hmem
    exact receivedFor_snoc _ _

/-- The proxy answers itself. -/
theorem answer (h : Kept At tx l) (hopen : tx.response = none) (response : HttpResponse)
    (he : e = .queued .generated data ∨ e = .answered data) :
    Kept At { tx with response := some response }
      (l ++ [.reported .generated { tx with response := some response }, e]) := by
  have hreported : Kept At { tx with response := some response }
      (l ++ [.reported .generated { tx with response := some response }]) := h.report hopen rfl (by simp)
  have hes : Uneventful [e] := by rcases he with rfl | rfl <;> simp [Uneventful, Effect.reports]
  have hall := hreported.append hes ?_
  · rwa [List.append_assoc] at hall
  · rcases he with rfl | rfl <;> exact receivedFor_snoc _ _

/-- What the upstream sends is relayed, and more is waited for. -/
theorem relay (h : Kept At tx l) (hL : L.Reads At) (hp : p.Follows responseOps (receivedFor l))
    (hmore : (p.feed responseOps data).2 = false) :
    Kept At tx (l ++ [.received data, .queued .relayed data]) := by
  have hes : Uneventful [.received data, .queued .relayed data] := by simp [Uneventful, Effect.reports]
  have hreceived : receivedFor (l ++ [.received data, .queued .relayed data]) = receivedFor l ++ [data] := by
    simp [receivedFor, List.foldl_append, trackReceived]
  refine ⟨h.counted.append hes, ?_, h.current.append hes⟩
  refine h.recorded.receive hL hp (lastTaken_append (by simp)) hreceived
    (fun _ hmem => List.mem_append_left _ hmem) fun hdone => ?_
  rw [hmore] at hdone
  cases hdone

/-- The same when the response is complete, and is reported. -/
theorem finish (h : Kept At tx l) (hL : L.Reads At) (hp : p.Follows responseOps (receivedFor l))
    (hrequest : tx.request.isSome = true) (hopen : tx.response = none)
    (htx' : tx' = { tx with response := some (p.feed responseOps data).1.collector.message }) :
    Kept At tx' (l ++ [.received data, .queued .relayed data, .reported .relayed tx']) := by
  subst htx'
  let response := (p.feed responseOps data).1.collector.message
  let tx' : HttpTransaction := { tx with response := some response }
  have hes : Uneventful [.received data, .queued .relayed data] := by simp [Uneventful, Effect.reports]
  have hcounted : Counted At ((l ++ [.received data, .queued .relayed data]) ++ [.reported .relayed tx']) :=
    (h.counted.append hes).report ((h.current.append hes).unreported hopen)
  have hreceived : receivedFor (l ++ [.received data, .queued .relayed data, .reported .relayed tx']) =
      receivedFor l ++ [data] := by
    simp [receivedFor, List.foldl_append, trackReceived]
  rw [List.append_assoc] at hcounted
  refine ⟨hcounted, ?_, h.current.responded rfl (by simp) (by simp)⟩
  refine h.recorded.receive hL hp (lastTaken_append (by simp)) hreceived
    (fun _ hmem => List.mem_append_left _ hmem) fun _ ref req hlast =>
      ⟨tx', List.mem_append_right _ (.tail _ (.tail _ (.head _))), ?_, rfl⟩
  -- the transaction is that of the last request
  obtain ⟨ref', href'⟩ := Option.isSome_iff_exists.mp hrequest
  obtain ⟨⟨req', hlast'⟩, -⟩ := h.current ref' href'
  rw [hlast] at hlast'
  cases hlast'
  exact href'

end Kept

namespace Session

open BurpTUI.Flow (Idle SoundAfter)

variable {b : Flow} {new : Ref} {m n : OpKind → ℕ} {tx : HttpTransaction} {s t : Session L} {op : Op}

/-- The CONNECT request was reported, and nothing but the tunnel is left of it. -/
structure Tunnelled (n : OpKind → ℕ) (s : Session L) : Prop where
  connect : ∀ ref req, lastTaken (exchanges s.log) = some (ref, req) → req.method = str "CONNECT"
  response : s.currentTransaction.response ≠ none
  asked : s.asked = []
  send : n .send = 0
  decision : ∀ a, n (.decision a) = 0

/-- The invariant. Who has a response in its transaction starts nothing more for the request. -/
structure Reporting (At : L.State → List Piece → Prop) (n : OpKind → ℕ) (s : Session L) : Prop
    extends Kept At s.currentTransaction (exchanges s.log) where
  tunnel : s.isConnect = true → Tunnelled n s
  finished : s.isConnect = false → s.currentTransaction.response ≠ none → Settled n s ∧ Dead s
  reading : s.isConnect = false → 0 < n .read →
    s.currentTransaction.request = none ∧ s.currentTransaction.response = none
  busy : s.isConnect = false → Busy n s → s.currentTransaction.request.isSome = true

theorem Busy.mono (h : Busy m t) (hasked : t.asked = s.asked) (hle : ∀ k, k ≠ .other → m k ≤ n k) :
    Busy n s := by
  rcases h with h | h | h | h | ⟨a, h⟩
  · exact Or.inl (h.trans_le (hle _ (by simp)))
  · exact Or.inr (Or.inl (h.trans_le (hle _ (by simp))))
  · exact Or.inr (Or.inr (Or.inl (h.trans_le (hle _ (by simp)))))
  · exact Or.inr (Or.inr (Or.inr (Or.inl (hasked ▸ h))))
  · exact Or.inr (Or.inr (Or.inr (Or.inr ⟨a, h.trans_le (hle _ (by simp))⟩)))

theorem Busy.of_weight (hop : op.kind = .dial ∨ op.kind = .send ∨ op.kind = .receive ∨
    ∃ a, op.kind = .decision a) : Busy (fun k => s.io.count k + op.weight k) s := by
  rcases hop with hop | hop | hop | ⟨a, hop⟩
  · exact Or.inl (by simp [Op.weight, hop])
  · exact Or.inr (Or.inl (by simp [Op.weight, hop]))
  · exact Or.inr (Or.inr (Or.inl (by simp [Op.weight, hop])))
  · exact Or.inr (Or.inr (Or.inr (Or.inr ⟨a, by simp [Op.weight, hop]⟩)))

/-- Of a settled request only the read from the upstream can be outstanding. -/
theorem Settled.receiving (h : Settled n s) (hbusy : Busy n s) : 0 < n .receive := by
  have hdial := h.dial
  have hsend := h.send
  rcases hbusy with hb | hb | hb | hb | ⟨a, hb⟩
  · omega
  · omega
  · exact hb
  · exact absurd h.asked hb
  · have hdecision := h.decision a
    omega

theorem Dead.sendErrorResponse (h : Dead s) (statusCode : ℕ) (statusText : Bytes) :
    Dead (s.sendErrorResponse statusCode statusText) := by
  unfold Session.sendErrorResponse
  exact (Still.writes.writeClient_queued _ .generated _).dead ⟨h.ready, h.pending⟩

namespace Reporting

/-- Only timers, client writes and what is closed are different. -/
theorem rests (h : Reporting At n s) (haside : Aside s t) (hle : ∀ k, k ≠ .other → s.io.count k ≤ n k)
    (hdead : s.isConnect = false → s.currentTransaction.response ≠ none → Dead s → Dead t) :
    Reporting At t.io.count t := by
  have hlog := exchanges_aside haside.log
  have hcount (k : OpKind) (hk : k ≠ .other) : t.io.count k ≤ n k := (haside.count k hk).trans_le (hle k hk)
  refine ⟨?_, fun hc => ?_, fun hc hresponse => ?_, fun hc hpos => ?_, fun hc hbusy => ?_⟩
  · rw [haside.transaction, hlog]
    exact h.toKept
  · have htunnel := h.tunnel (haside.isConnect ▸ hc)
    refine ⟨hlog ▸ htunnel.connect, haside.transaction ▸ htunnel.response,
      haside.asked.trans htunnel.asked, ?_, fun a => ?_⟩
    · exact Nat.le_zero.mp (htunnel.send ▸ hcount _ (by simp))
    · exact Nat.le_zero.mp (htunnel.decision a ▸ hcount _ (by simp))
  · rw [haside.transaction] at hresponse
    have hc := haside.isConnect ▸ hc
    obtain ⟨hsettled, hd⟩ := h.finished hc hresponse
    exact ⟨hsettled.mono haside.asked hcount, hdead hc hresponse hd⟩
  · rw [haside.transaction]
    exact h.reading (haside.isConnect ▸ hc) (hpos.trans_le (hcount _ (by simp)))
  · rw [haside.transaction]
    exact h.busy (haside.isConnect ▸ hc) (hbusy.mono haside.asked hcount)

/-- A request is under way that was not reported. -/
theorem of_open (hkept : Kept At t.currentTransaction (exchanges t.log)) (hc : t.isConnect = false)
    (hresponse : t.currentTransaction.response = none)
    (hrequest : t.currentTransaction.request.isSome = true) (hread : t.io.count .read = 0) :
    Reporting At t.io.count t := by
  refine ⟨hkept, fun hnot => ?_, fun _ hnot => absurd hresponse hnot, fun _ hpos => ?_, fun _ _ => hrequest⟩
  · rw [hc] at hnot
    cases hnot
  · omega

/-- The request at hand is settled. -/
theorem of_settled (hkept : Kept At t.currentTransaction (exchanges t.log)) (hc : t.isConnect = false)
    (hsettled : Settled t.io.count t) (hdead : Dead t)
    (hreading : 0 < t.io.count .read →
      t.currentTransaction.request = none ∧ t.currentTransaction.response = none)
    (hreceiving : 0 < t.io.count .receive → t.currentTransaction.request.isSome = true) :
    Reporting At t.io.count t := by
  refine ⟨hkept, fun hnot => ?_, fun _ _ => ⟨hsettled, hdead⟩, fun _ => hreading,
    fun _ hbusy => hreceiving (hsettled.receiving hbusy)⟩
  rw [hc] at hnot
  cases hnot

/-- The proxy answers itself. No more comes from the upstream. -/
theorem answered (hkept : Kept At s.currentTransaction (exchanges s.log))
    (hresponse : s.currentTransaction.response = none) (hc : s.isConnect = false)
    (hsettled : Settled s.io.count s) (hread : s.io.count .read = 0)
    (hreceiving : 0 < s.io.count .receive → s.currentTransaction.request.isSome = true) (h : Answers s t)
    (hdead : Dead t) : Reporting At t.io.count t := by
  obtain ⟨response, data, -, hturn⟩ := h
  have hcount (k : OpKind) (hk : k ≠ .other) : t.io.count k = s.io.count k := hturn.count k hk
  refine .of_settled ?_ (hturn.isConnect.trans hc)
    (hsettled.mono hturn.asked fun k hk => (hcount k hk).le) hdead (fun hpos => ?_) fun hpos => ?_
  · rw [hturn.transaction, hturn.log]
    exact hkept.answer hresponse response (Or.inl rfl)
  · rw [hcount _ (by simp), hread] at hpos
    cases hpos
  · rw [hturn.transaction]
    exact hreceiving (hcount .receive (by simp) ▸ hpos)

theorem of_tunnel (hcounted : Counted At (exchanges t.log))
    (hcurrent : Current t.currentTransaction (exchanges t.log)) (hc : t.isConnect = true)
    (htunnel : Tunnelled t.io.count t) : Reporting At t.io.count t := by
  have hnot (hplain : t.isConnect = false) : False := by
    rw [hc] at hplain
    cases hplain
  exact ⟨⟨hcounted, recorded_of_connect htunnel.connect, hcurrent⟩, fun _ => htunnel,
    fun h => (hnot h).elim, fun h => (hnot h).elim, fun h => (hnot h).elim⟩

end Reporting

/-- The request at hand, if there is one, was not reported, and nothing is outstanding for it. -/
structure Unreported (At : L.State → List Piece → Prop) (s : Session L) : Prop
    extends Kept At s.currentTransaction (exchanges s.log) where
  response : s.currentTransaction.response = none
  plain : s.isConnect = false
  settled : Settled s.io.count s
  read : s.io.count .read = 0
  receive : s.io.count .receive = 0

namespace Unreported

theorem of_idle (h : Reporting At n s) (hidle : Idle b new s.flow) (hc : s.isConnect = false)
    (hresponse : s.currentTransaction.response = none) : Unreported At s := by
  obtain ⟨hsettled, hread, hreceive⟩ := settled_of_idle hidle hc
  exact ⟨h.toKept, hresponse, hc, hsettled, hread, hreceive⟩

/-- While the upstream is dialled, the request sent or a decision awaited, there is no response. -/
theorem carried (h : Reporting At (fun k => s.io.count k + op.weight k) s) (hidle : Idle b new s.flow)
    (hc : s.isConnect = false) (hop : op.kind = .dial ∨ op.kind = .send ∨ ∃ a, op.kind = .decision a) :
    Unreported At s ∧ s.currentTransaction.request.isSome = true := by
  refine ⟨of_idle h hidle hc ?_, h.busy hc (.of_weight ?_)⟩
  · by_contra hresponse
    obtain ⟨hsettled, -⟩ := h.finished hc hresponse
    have hdial := hsettled.dial
    have hsend := hsettled.send
    rcases hop with hop | hop | ⟨a, hop⟩
    · simp [Op.weight, hop] at hdial
    · simp [Op.weight, hop] at hsend
    · have hdecision := hsettled.decision a
      simp [Op.weight, hop] at hdecision
  · rcases hop with hop | hop | hop
    · exact Or.inl hop
    · exact Or.inr (Or.inl hop)
    · exact Or.inr (Or.inr (Or.inr hop))

/-- The proxy answers itself, and nothing else will. -/
theorem answers (h : Unreported At s) (ha : Answers s t) : Reporting At t.io.count t := by
  obtain ⟨response, data, hline, hturn⟩ := ha
  have hreceive : t.io.count .receive = 0 := (hturn.count _ (by simp)).trans h.receive
  refine .answered h.toKept h.response h.plain h.settled h.read (fun hpos => ?_)
    ⟨response, data, hline, hturn⟩ (dead_of_count hreceive)
  rw [h.receive] at hpos
  cases hpos

/-- The request goes on. -/
theorem goes_on (h : Unreported At s) (hrequest : s.currentTransaction.request.isSome = true)
    (hlog : exchanges t.log = exchanges s.log)
    (htx : t.currentTransaction.request = s.currentTransaction.request ∧
      t.currentTransaction.response = s.currentTransaction.response)
    (hc : t.isConnect = s.isConnect) (hread : t.io.count .read = s.io.count .read) :
    Reporting At t.io.count t := by
  refine .of_open ?_ (hc.trans h.plain) (htx.2.trans h.response) (htx.1 ▸ hrequest) (hread.trans h.read)
  rw [hlog]
  exact h.toKept.same htx.1 htx.2

theorem turns (h : Unreported At s) (hrequest : s.currentTransaction.request.isSome = true)
    (ht : Turn [] m s.currentTransaction s t) (hm : m .read = 0) : Reporting At t.io.count t := by
  refine h.goes_on hrequest (ht.log.trans (List.append_nil _)) ?_ ht.isConnect ?_
  · rw [ht.transaction]
    exact ⟨rfl, rfl⟩
  · rw [ht.count _ (by simp), hm, Nat.add_zero]

/-- The next request is waited for. -/
theorem waits (h : Unreported At s) (hrequest : s.currentTransaction.request = none)
    (ht : Turn [] Op.clientRead.weight s.currentTransaction s t) : Reporting At t.io.count t := by
  have hlog : exchanges t.log = exchanges s.log := ht.log.trans (List.append_nil _)
  have hle (k : OpKind) (hk : k ≠ .read) (hother : k ≠ .other) : t.io.count k = s.io.count k := by
    have hweight : Op.clientRead.weight k = 0 := if_neg hk.symm
    rw [ht.count k hother, hweight, Nat.add_zero]
  have hreceive := (hle .receive (by simp) (by simp)).trans h.receive
  refine .of_settled ?_ (ht.isConnect.trans h.plain) ⟨ht.asked.trans h.settled.asked, fun a => ?_, ?_, ?_⟩
    (dead_of_count hreceive) (fun _ => ?_) fun hpos => ?_
  · rw [ht.transaction, hlog]
    exact h.toKept
  · exact (hle _ (by simp) (by simp)).trans (h.settled.decision a)
  · exact (hle _ (by simp) (by simp)).trans h.settled.dial
  · exact (hle _ (by simp) (by simp)).trans h.settled.send
  · rw [ht.transaction]
    exact ⟨hrequest, h.response⟩
  · omega

/-- A plain request that was just taken. -/
theorem routes (h : Unreported At s) (hrequest : s.currentTransaction.request.isSome = true)
    (hroutes : Routes ref s t) : Reporting At t.io.count t := by
  rcases hroutes with hanswers | ⟨tx, m, hm, hturn, htx⟩ | ⟨hlog, hreq, hresponse, hc, -, hcount⟩
  · exact h.answers hanswers
  · refine h.goes_on hrequest (hturn.log.trans (List.append_nil _)) (hturn.transaction ▸ htx)
      hturn.isConnect ?_
    rw [hturn.count _ (by simp)]
    rcases hm with rfl | rfl <;> rfl
  · exact h.goes_on hrequest hlog ⟨hreq, hresponse⟩ hc (hcount _ (by simp))

/-- A CONNECT request that was just taken: it is reported before the upstream is dialled. -/
theorem connects (h : Unreported At s) (hconnect : ∀ ref req,
    lastTaken (exchanges s.log) = some (ref, req) → req.method = str "CONNECT")
    (hconnects : Connects s t tx) : Reporting At t.io.count t := by
  have hresponse : tx.response ≠ none := by
    rw [hconnects.response]
    exact Option.some_ne_none _
  have hkept : Kept At tx (exchanges s.log ++ [.reported .generated tx]) :=
    h.toKept.report h.response hconnects.request hresponse
  rcases hconnects.way with ⟨hlog, htunnel, -, hcount⟩ | ⟨⟨host, port, hlog⟩, hplain, hcount⟩
  · refine .of_tunnel (hlog ▸ hkept.counted) ?_ htunnel ⟨?_, ?_, hconnects.asked.trans h.settled.asked, ?_,
      fun a => ?_⟩
    · rw [hconnects.transaction, hlog]
      exact hkept.current
    · rw [hlog, lastTaken_append (by simp)]
      exact hconnect
    · rw [hconnects.transaction]
      exact hresponse
    · exact (hcount _ (by simp)).trans h.settled.send
    · exact (hcount _ (by simp)).trans (h.settled.decision a)
  · -- nothing is left for the session to do
    have hspawned : Kept At tx ((exchanges s.log ++ [.reported .generated tx]) ++ [.spawned host port]) :=
      hkept.append (by simp [Uneventful, Effect.reports]) (receivedFor_snoc _ _)
    rw [List.append_assoc] at hspawned
    refine .of_settled ?_ (hplain.trans h.plain) (h.settled.mono hconnects.asked fun k hk => (hcount k hk).le)
      (dead_of_count ?_) (fun hpos => ?_) fun hpos => ?_
    · rw [hconnects.transaction, hlog]
      exact hspawned
    · rw [hcount _ (by simp), h.receive]
    · rw [hcount _ (by simp), h.read] at hpos
      cases hpos
    · rw [hcount _ (by simp), h.receive] at hpos
      cases hpos

end Unreported

/-- The invariant while the handler of `op` runs. -/
abbrev ReportingAfter (At : L.State → List Piece → Prop) (op : Op) (s : Session L) : Prop :=
  Reporting At (fun k => s.io.count k + op.weight k) s

/-- A tunnel goes on. -/
theorem Reporting.in_tunnel (h : ReportingAfter At op s) (hc : s.isConnect = true)
    (ht : Turn es m s.currentTransaction s t) (hes : Uneventful es)
    (hm : m .send = 0 ∧ ∀ a, m (.decision a) = 0) : Reporting At t.io.count t := by
  have htunnel := h.tunnel hc
  refine .of_tunnel ?_ ?_ (ht.isConnect.trans hc) ⟨?_, ht.transaction ▸ htunnel.response,
    ht.asked.trans htunnel.asked, ?_, fun a => ?_⟩
  · rw [ht.log]
    exact h.counted.append hes
  · rw [ht.transaction, ht.log]
    exact h.current.append hes
  · rw [ht.log, lastTaken_append fun e he => (hes e he).1]
    exact htunnel.connect
  · rw [ht.count _ (by simp), hm.1]
    exact Nat.eq_zero_of_add_eq_zero_right htunnel.send
  · rw [ht.count _ (by simp), hm.2 a]
    exact Nat.eq_zero_of_add_eq_zero_right (htunnel.decision a)

/-- In a tunnel no request is sent, and no decision comes. -/
theorem Reporting.plain (h : ReportingAfter At op s) (hop : op.kind = .send ∨ ∃ a, op.kind = .decision a) :
    s.isConnect = false := by
  refine Bool.eq_false_iff.mpr fun hc => ?_
  have htunnel := h.tunnel hc
  rcases hop with hop | ⟨a, hop⟩
  · have hsend := htunnel.send
    simp [Op.weight, hop] at hsend
  · have hdecision := htunnel.decision a
    simp [Op.weight, hop] at hdecision

theorem handleResolve_reporting (h : ReportingAfter At .resolve s) (hs : SoundAfter b new .resolve s.flow)
    {o : Outcome} (htunnel : s.isConnect = true → o = .ok) :
    Reporting At (s.handleResolve o).io.count (s.handleResolve o) := by
  have hidle : Idle b new s.flow := by
    rcases hs.dialed rfl with ⟨hidle, -⟩ | ⟨r, hcleared⟩
    · exact hidle
    · exact hcleared.idle
  cases hc : s.isConnect with
  | true =>
    rcases handleResolve_turn s o with ⟨-, hturn⟩ | ⟨ho, -⟩
    · exact .in_tunnel h hc hturn (by simp [Uneventful]) ⟨rfl, fun _ => rfl⟩
    · exact absurd (htunnel hc) ho
  | false =>
    obtain ⟨hun, hrequest⟩ := Unreported.carried h hidle hc (Or.inl rfl)
    rcases handleResolve_turn s o with ⟨-, hturn⟩ | ⟨-, hanswers⟩
    · exact hun.turns hrequest hturn rfl
    · exact hun.answers hanswers

theorem handleConnected_reporting (h : ReportingAfter At .connect s) (hs : SoundAfter b new .connect s.flow)
    {o : Outcome} (htunnel : s.isConnect = true → o = .ok) (env : Env) :
    Reporting At (s.handleConnected env o).io.count (s.handleConnected env o) := by
  have hidle : Idle b new s.flow := by
    rcases hs.dialed rfl with ⟨hidle, -⟩ | ⟨r, hcleared⟩
    · exact hidle
    · exact hcleared.idle
  rcases handleConnected_turn s env o with ⟨ho, hanswers⟩ | ⟨-, hc, hturn⟩ | ⟨hc, data, hturn⟩
  · have hc : s.isConnect = false := Bool.eq_false_iff.mpr fun hc => ho (htunnel hc)
    exact (Unreported.carried h hidle hc (Or.inl rfl)).1.answers hanswers
  · exact .in_tunnel h hc hturn (by simp [Uneventful, Effect.reports]) ⟨rfl, fun _ => rfl⟩
  · obtain ⟨hun, hrequest⟩ := Unreported.carried h hidle hc (Or.inl rfl)
    exact hun.turns hrequest hturn rfl

theorem handleUpstreamWrite_reporting {data : Bytes} (h : ReportingAfter At (.upstreamWrite data) s)
    (hs : SoundAfter b new (.upstreamWrite data) s.flow) (o : Outcome) :
    Reporting At (s.handleUpstreamWrite o).io.count (s.handleUpstreamWrite o) := by
  have hc : s.isConnect = false := Reporting.plain h (Or.inl rfl)
  obtain ⟨hun, hrequest⟩ := Unreported.carried h (hs.idle (Or.inr (Or.inl rfl))) hc (Or.inr (Or.inl rfl))
  rcases handleUpstreamWrite_turn s o with hanswers | hturn
  · exact hun.answers hanswers
  · exact hun.turns hrequest hturn rfl

theorem handleDecision_reporting {a : InterceptAction} (h : ReportingAfter At (.decision a) s)
    (hs : SoundAfter b new (.decision a) s.flow) :
    Reporting At (s.handleDecision a).io.count (s.handleDecision a) := by
  have hc : s.isConnect = false := Reporting.plain h (Or.inr ⟨a, rfl⟩)
  obtain ⟨hun, hrequest⟩ := Unreported.carried h hs.decided.1 hc (Or.inr (Or.inr ⟨a, rfl⟩))
  rcases handleDecision_turn s a with hturn | hturn | hanswers
  · exact hun.turns hrequest hturn rfl
  · exact hun.turns hrequest hturn rfl
  · exact hun.answers hanswers

/-- A request is taken by the handler that has read it. -/
theorem handleClientRead_reporting {env : Env} {o : Outcome} (h : ReportingAfter At .clientRead s)
    (hs : SoundAfter b new .clientRead s.flow) (hfresh : env.newRef ∉ tookRefs s.log)
    (hok : s.handleClientRead env o = .ok t) : Reporting At t.io.count t := by
  have hidle : Idle b new s.flow := hs.idle (Or.inl rfl)
  have hreading (hc : s.isConnect = false) :
      s.currentTransaction.request = none ∧ s.currentTransaction.response = none :=
    h.reading hc (Nat.lt_add_left _ Nat.one_pos)
  rcases handleClientRead_turn hok with haside | hturn | ⟨hc, hrest⟩
  · refine Reporting.rests h haside (fun _ _ => Nat.le_add_right _ _) fun hc hnot => ?_
    exact absurd (hreading hc).2 hnot
  · cases hc : s.isConnect with
    | true => exact .in_tunnel h hc hturn (by simp [Uneventful]) ⟨rfl, fun _ => rfl⟩
    | false => exact (Unreported.of_idle h hidle hc (hreading hc).2).waits (hreading hc).1 hturn
  · obtain ⟨hrequest, hresponse⟩ := hreading hc
    have hun := Unreported.of_idle h hidle hc hresponse
    rcases hrest with hanswers | ⟨data, req, -, -, u, hu, -, hway⟩
    · exact hun.answers hanswers
    · have htaken : lastTaken (exchanges u.log) = some (env.newRef, req) := by
        rw [hu.log, lastTaken, List.foldl_append]
        rfl
      have hcount (k : OpKind) (hk : k ≠ .other) : u.io.count k = s.io.count k := hu.count k hk
      have hnew : Unreported At u := by
        refine ⟨?_, ?_, hu.isConnect.trans hc, hun.settled.mono hu.asked fun k hk => (hcount k hk).le,
          (hcount _ (by simp)).trans hun.read, (hcount _ (by simp)).trans hun.receive⟩
        · rw [hu.log, hu.transaction]
          exact h.toKept.take hfresh rfl
        · rw [hu.transaction]
          exact hresponse
      have hsome : u.currentTransaction.request.isSome = true := by
        rw [hu.transaction]
        rfl
      rcases hway with ⟨hmethod, tx, hconnects⟩ | ⟨-, hroutes⟩
      · refine hnew.connects (fun ref req' hlast => ?_) hconnects
        rw [htaken] at hlast
        cases hlast
        exact hmethod
      · exact hnew.routes hsome hroutes

/-- The session waits for the response, and nothing has come of it that waits for its handler. -/
def Alone (s : Session L) : Prop :=
  s.asked = [] ∧ s.io.count (.decision .forward) = 0 ∧ s.io.count (.decision .drop) = 0 ∧
    s.io.count .dial = 0 ∧ s.io.count .send = 0 ∧ ∀ e ∈ s.io.ready, bringsData e = false

instance (s : Session L) : Decidable s.Alone := inferInstanceAs (Decidable (_ ∧ _))

/-- What the handlers may find. The timer runs out on a request only while the session waits for the
response, and the upstream of a tunnel can be reached. -/
def Undisturbed (s : Session L) : Op → Outcome → Prop
  | .timer, o => o = .aborted ∨ (s.currentTransaction.request.isSome = true →
      s.currentTransaction.response = none → s.isConnect = false → s.Alone)
  | .resolve, o => s.isConnect = true → o = .ok
  | .connect, o => s.isConnect = true → o = .ok
  | _, _ => True

instance (s : Session L) (op : Op) (o : Outcome) : Decidable (s.Undisturbed op o) := by
  unfold Undisturbed
  split <;> infer_instance

theorem handleTimeout_reporting (h : ReportingAfter At .timer s) {o : Outcome}
    (hundisturbed : s.Undisturbed .timer o) :
    Reporting At (s.handleTimeout o).io.count (s.handleTimeout o) := by
  have hle (k : OpKind) (_ : k ≠ .other) : s.io.count k ≤ s.io.count k + Op.timer.weight k :=
    Nat.le_add_right _ _
  unfold handleTimeout
  split
  · exact Reporting.rests h (Aside.refl s) hle fun _ _ => id
  · rename_i ho
    split
    · rename_i hexpired
      obtain ⟨hrequest, hresponse, hc⟩ := hexpired
      obtain ⟨hasked, hforward, hdrop, hdial, hsend, hready⟩ :=
        (Or.resolve_left hundisturbed ho) hrequest hresponse hc
      let u : Session L := s.cancel (· == .resolve)
      let v : Session L := if u.serverOpen then u.cancel Op.onServerSocket else u
      have haside : Aside s v := by
        have hu : Aside s u := Aside.cancel s _
        show Aside s (if u.serverOpen then u.cancel Op.onServerSocket else u)
        split
        · exact hu.trans (Aside.cancel u _)
        · exact hu
      have hdead : Dead v := dead_of_timeout fun data hmem => by
        have hbrings := hready _ (ready_of_cancel hmem)
        cases hbrings
      have hanswers := (answers_error v 504 (str "Gateway Timeout")).after haside
      have hsettled : Settled s.io.count s := by
        refine ⟨hasked, fun a => ?_, hdial, hsend⟩
        cases a with
        | forward => exact hforward
        | drop => exact hdrop
      -- the client is not read while a request is there
      have hread : s.io.count .read = 0 := by
        by_contra hne
        rw [(h.reading hc (Nat.add_pos_left (Nat.pos_of_ne_zero hne) _)).1] at hrequest
        cases hrequest
      exact .answered h.toKept hresponse hc hsettled hread (fun _ => hrequest) hanswers
        (hdead.sendErrorResponse _ _)
    · exact Reporting.rests h (Aside.closes.close s) hle fun _ _ => (Still.closes.close s).dead

/-- What the upstream sends is relayed, and more is waited for. -/
theorem Reporting.relays (hL : L.Reads At) (h : ReportingAfter At .upstreamRead s) (hidle : Idle b new s.flow)
    (hc : s.isConnect = false) {p : MessageParser L HttpResponse}
    (hfollows : p.Follows responseOps (receivedFor (exchanges s.log)))
    (hopen : s.currentTransaction.response = none) {data : Bytes}
    (hmore : (p.feed responseOps data).2 = false)
    (ht : Turn [.received data, .queued .relayed data] Op.upstreamRead.weight s.currentTransaction s t) :
    Reporting At t.io.count t := by
  refine .of_open ?_ (ht.isConnect.trans hc) (ht.transaction ▸ hopen) ?_ ?_
  · rw [ht.transaction, ht.log]
    exact h.toKept.relay hL hfollows hmore
  · rw [ht.transaction]
    exact h.busy hc (.of_weight (Or.inr (Or.inr (Or.inl rfl))))
  · rw [ht.count _ (by simp), (settled_of_idle hidle hc).2.1]
    rfl

/-- The response is complete, and is reported. -/
theorem Reporting.completes (hL : L.Reads At) (h : ReportingAfter At .upstreamRead s)
    (hidle : Idle b new s.flow) (hc : s.isConnect = false) {p : MessageParser L HttpResponse}
    (hfollows : p.Follows responseOps (receivedFor (exchanges s.log)))
    (hopen : s.currentTransaction.response = none) {data : Bytes} {tx' : HttpTransaction}
    (htx' : tx' = { s.currentTransaction with
      response := some (p.feed responseOps data).1.collector.message })
    (ht : Turn [.received data, .queued .relayed data, .reported .relayed tx'] n tx s t)
    (hn : n = Op.clientRead.weight ∧ tx = {} ∨ n = idle ∧ tx = tx') : Reporting At t.io.count t := by
  have hrequest := h.busy hc (.of_weight (Or.inr (Or.inr (Or.inl rfl))))
  have hkept : Kept At tx'
      (exchanges s.log ++ [.received data, .queued .relayed data, .reported .relayed tx']) :=
    h.toKept.finish hL hfollows hrequest hopen htx'
  obtain ⟨hsettled, hread, hreceive⟩ := settled_of_idle hidle hc
  -- the next request is read at most
  have hcount (k : OpKind) (hk : k ≠ .read) (hother : k ≠ .other) : t.io.count k = s.io.count k := by
    have hzero : n k = 0 := by
      rcases hn with ⟨rfl, -⟩ | ⟨rfl, -⟩
      · exact if_neg hk.symm
      · rfl
    rw [ht.count k hother, hzero, Nat.add_zero]
  have hreceive' := (hcount .receive (by simp) (by simp)).trans hreceive
  refine .of_settled ?_ (ht.isConnect.trans hc) ⟨ht.asked.trans hsettled.asked, fun a => ?_, ?_, ?_⟩
    (dead_of_count hreceive') (fun hpos => ?_) fun hpos => ?_
  · rw [ht.transaction, ht.log]
    rcases hn with ⟨-, rfl⟩ | ⟨-, rfl⟩
    · exact hkept.restart
    · exact hkept
  · exact (hcount _ (by simp) (by simp)).trans (hsettled.decision a)
  · exact (hcount _ (by simp) (by simp)).trans hsettled.dial
  · exact (hcount _ (by simp) (by simp)).trans hsettled.send
  · rw [ht.transaction]
    rcases hn with ⟨-, rfl⟩ | ⟨rfl, -⟩
    · exact ⟨rfl, rfl⟩
    · rw [ht.count .read (by simp), hread] at hpos
      cases hpos
  · omega

theorem handleUpstreamRead_reporting (hL : L.Reads At) (h : ReportingAfter At .upstreamRead s)
    (hs : SoundAfter b new .upstreamRead s.flow) (hfollows : s.isConnect = false →
      s.parser.responseParser.Follows responseOps (receivedFor (exchanges s.log)))
    (hopen : s.isConnect = false → s.currentTransaction.response = none) (env : Env) (data : Bytes) :
    Reporting At (s.handleUpstreamRead env (.bytes data)).io.count
      (s.handleUpstreamRead env (.bytes data)) := by
  have hidle : Idle b new s.flow := hs.idle (Or.inr (Or.inr rfl))
  rcases handleUpstreamRead_turn s env data with ⟨hturn, hmore⟩ | ⟨hc, -, n, tx, tx', htx', hturn, hn⟩
  · cases hc : s.isConnect with
    | true => exact .in_tunnel h hc hturn (by simp [Uneventful, Effect.reports]) ⟨rfl, fun _ => rfl⟩
    | false =>
      exact .relays hL h hidle hc (hfollows hc) (hopen hc) (hmore.resolve_left (by simp [hc])) hturn
  · exact .completes hL h hidle hc (hfollows hc) (hopen hc) htx' hturn hn

/-- Without data the read from the upstream closes the session. -/
theorem handleUpstreamRead_close (hdata : s.serverData = []) (env : Env) {o : Outcome}
    (ho : ∀ data, o ≠ .bytes data) : s.handleUpstreamRead env o = s.close := by
  cases o with
  | bytes data => exact absurd rfl (ho data)
  | eof =>
    unfold handleUpstreamRead
    dsimp only
    rw [if_neg (by simp [hdata])]
  | ok => rfl
  | truncated => rfl
  | aborted => rfl
  | failed => rfl

theorem handle_reporting (hL : L.Reads At) {env : Env} {o : Outcome} (h : ReportingAfter At op s)
    (hs : SoundAfter b new op s.flow) (hparsing : Parsing False (fun k => s.io.count k + op.weight k) s)
    (hdrained : Drained (fun k => s.io.count k + op.weight k) s) (hfresh : env.newRef ∉ tookRefs s.log)
    (hundisturbed : s.Undisturbed op o) (hopen : op = .upstreamRead → ∀ data, o = .bytes data →
      s.isConnect = false → s.currentTransaction.response = none) (hok : s.handle env op o = .ok t) :
    Reporting At t.io.count t := by
  have hle (k : OpKind) (_ : k ≠ .other) : s.io.count k ≤ s.io.count k + op.weight k := Nat.le_add_right _ _
  cases op with
  | timer => cases hok; exact handleTimeout_reporting h hundisturbed
  | resolve => cases hok; exact handleResolve_reporting h hs hundisturbed
  | connect => cases hok; exact handleConnected_reporting h hs hundisturbed env
  | clientRead => exact handleClientRead_reporting h hs hfresh hok
  | upstreamRead =>
    cases hok
    by_cases ho : ∃ data, o = .bytes data
    · obtain ⟨data, rfl⟩ := ho
      refine handleUpstreamRead_reporting hL h hs (fun hc => ?_) (hopen rfl data rfl) env data
      rw [receivedFor_exchanges]
      exact (hparsing.carried (Or.inr (Or.inr (Or.inl rfl))) hc).follows
    · have hdata : s.serverData = [] := hdrained.empty (Or.inr (Or.inr (Or.inl rfl)))
      have hclose := handleUpstreamRead_close hdata env fun data heq => ho ⟨data, heq⟩
      rw [hclose]
      exact Reporting.rests h (Aside.closes.close s) hle fun _ _ => (Still.closes.close s).dead
  | upstreamWrite data => cases hok; exact handleUpstreamWrite_reporting h hs o
  | decision a => cases hok; exact handleDecision_reporting h hs
  | clientWrite data =>
    cases hok
    exact Reporting.rests h (Aside.handleClientWrite s o) hle fun _ _ => (Still.handleClientWrite s o).dead
  | serverWrite data =>
    cases hok
    exact Reporting.rests h (Aside.handleServerWrite s o) hle fun _ _ => (Still.handleServerWrite s o).dead
  | rawWrite data => cases hok; exact Reporting.rests h (Aside.refl s) hle fun _ _ => id
  | established => cases hok; exact Reporting.rests h (Aside.refl s) hle fun _ _ => id
  | clientHandshake => cases hok; exact Reporting.rests h (Aside.refl s) hle fun _ _ => id
  | upstreamHandshake => cases hok; exact Reporting.rests h (Aside.refl s) hle fun _ _ => id

/-- What the steps of a run have to meet. -/
def UndisturbedStep (s : Session L) : Label → Prop
  | .dispatch k _ => match s.io.take k with
    | some ((op, o), io) => Undisturbed { s with io := io } op o
    | none => True
  | _ => True

theorem undisturbedStep_dispatch (s : Session L) (k : ℕ) (env : Env) :
    ((s.io.take k).all fun e => decide (Undisturbed { s with io := e.2 } e.1.1 e.1.2)) = true ↔
      UndisturbedStep s (.dispatch k env) := by
  rcases h : s.io.take k with _ | ⟨⟨op, o⟩, io⟩
  · simp [UndisturbedStep, h]
  · simp [UndisturbedStep, h]

instance (s : Session L) (a : Label) : Decidable (UndisturbedStep s a) :=
  match a with
  | .dispatch k env => decidable_of_iff _ (undisturbedStep_dispatch s k env)
  | .complete _ _ | .decide _ _ | .close => inferInstanceAs (Decidable True)

/-- A handler is taken out to be run. -/
theorem Reporting.taken (h : Reporting At s.io.count s) {k : ℕ} {o : Outcome} {io : Io}
    (hio : s.io.take k = some ((op, o), io)) : ReportingAfter At op { s with io := io } := by
  have hcount := Io.count_take hio
  obtain ⟨-, rfl⟩ := Executor.take_spec hio
  rw [hcount] at h
  refine ⟨h.toKept, fun hc => ?_, fun hc hresponse => ?_, h.reading, h.busy⟩
  · obtain ⟨hconnect, hresponse, hasked, hsend, hdecision⟩ := h.tunnel hc
    exact ⟨hconnect, hresponse, hasked, hsend, hdecision⟩
  · obtain ⟨⟨hasked, hdecision, hdial, hsend⟩, hdead⟩ := h.finished hc hresponse
    exact ⟨⟨hasked, hdecision, hdial, hsend⟩,
      ⟨fun data hmem => hdead.ready data (List.mem_of_mem_eraseIdx hmem), hdead.pending⟩⟩

/-- Only a request that was not reported is with the intercept manager. -/
theorem decided_reporting (h : Reporting At s.io.count s) (href : ref ∈ s.asked) (action : InterceptAction) :
    Reporting At (s.decided ref action).io.count (s.decided ref action) := by
  have hlog : exchanges (s.decided ref action).log = exchanges s.log :=
    (exchanges_append _ _).trans (List.append_nil _)
  have hread : (s.decided ref action).io.count .read = s.io.count .read := by
    rw [Session.decided, Io.count_post]
    rfl
  refine ⟨hlog ▸ h.toKept, fun hc => ?_, fun hc hresponse => ?_,
    fun hc hpos => h.reading hc (hread ▸ hpos), fun hc _ => ?_⟩
  · rw [(h.tunnel hc).asked] at href
    cases href
  · rw [(h.finished hc hresponse).1.asked] at href
    cases href
  · exact h.busy hc (Or.inr (Or.inr (Or.inr (Or.inl (List.ne_nil_of_mem href)))))

theorem step_reporting (hL : L.Reads At) {r r' : Running L} {a : Label}
    (h : Reporting At r.session.io.count r.session) (hs : r.session.flow.Holds)
    (hparsing : Parsing False r.session.io.count r.session) (hdrained : Drained r.session.io.count r.session)
    (hundisturbed : r.session.UndisturbedStep a) (hstep : step r a = some r') :
    Reporting At r'.session.io.count r'.session := by
  cases moves_of_step hstep with
  | complete ht =>
    exact h.rests (Aside.complete ht) (fun _ _ => Nat.le_refl _) fun _ _ => (complete_still ht).dead
  | @handled k env _ _ hfresh ht =>
    obtain ⟨op, o, io, hio, hhandle⟩ := dispatch_spec ht
    have hundisturbed : Undisturbed { r.session with io := io } op o := by
      unfold UndisturbedStep at hundisturbed
      dsimp only at hundisturbed
      rw [hio] at hundisturbed
      exact hundisturbed
    have htaken : Parsing False (fun k => Io.count io k + op.weight k) { r.session with io := io } := by
      rw [Io.count_take hio] at hparsing
      exact ⟨hparsing.truthful, hparsing.fresh, hparsing.follows⟩
    refine handle_reporting hL (h.taken hio) (taken_sound hs hio env.newRef) htaken (hdrained.taken hio) hfresh
      hundisturbed (fun hop data ho hc => ?_) hhandle
    -- what comes from the upstream was not cut off by a response
    by_contra hresponse
    obtain ⟨hready, -⟩ := Executor.take_spec hio
    subst hop ho
    exact (h.finished hc hresponse).2.ready data (List.mem_of_getElem? hready)
  | threw => exact h
  | decide href => exact decided_reporting h href _
  | close => exact h.rests (Aside.closes.close _) (fun _ _ => Nat.le_refl _) fun _ _ => (Still.closes.close _).dead

theorem started_reporting (hasCertCache : Bool) :
    let s : Session L := started hasCertCache
    Reporting At s.io.count s := by
  refine .of_settled .nil rfl ⟨rfl, fun a => ?_, rfl, rfl⟩ (dead_of_count rfl) (fun _ => ⟨rfl, rfl⟩)
    fun hpos => ?_
  · cases a <;> rfl
  · cases hpos

theorem reached_reporting (hL : L.Reads At) {r : Running L}
    (h : (system L).ReachedUnder (fun r => r.session.UndisturbedStep) r) :
    Reporting At r.session.io.count r.session := by
  refine h.invariant_of (J := fun r => (system L).Reached r)
    (I := fun r => Reporting At r.session.io.count r.session) (fun r hr => hr.reached) ?_ ?_
  · rintro _ ⟨hasCertCache, rfl⟩
    exact started_reporting hasCertCache
  · intro r a r' hreached hr hundisturbed hstep
    exact step_reporting hL hr (reached_holds hreached) (reached_parsing hreached) (reached_drained hreached)
      hundisturbed hstep

end Session

namespace MitmSession

open Session (idle)

variable {b : Flow} {new : Ref} {m n : OpKind → ℕ} {s t v : MitmSession L} {op : Op}

/-- The same invariant over TLS. Who awaits a request has none, and an exchange with a response is
over. A closed session does nothing more. -/
structure Reporting (At : L.State → List Piece → Prop) (n : OpKind → ℕ) (s : MitmSession L) : Prop
    extends Kept At s.currentTransaction (exchanges s.log) where
  awaiting : s.isClosed = false → Awaiting n →
    s.currentTransaction.request = none ∧ s.currentTransaction.response = none
  finished : s.isClosed = false → s.currentTransaction.response ≠ none → ¬ Busy n s
  busy : s.isClosed = false → Busy n s → s.currentTransaction.request.isSome = true

/-- What is kept of the history of a session. -/
abbrev Retains (At : L.State → List Piece → Prop) (s : MitmSession L) : Prop :=
  Kept At s.currentTransaction (exchanges s.log)

theorem Retains.turn (h : Retains At s) (ht : Turn [] m s.currentTransaction s t) : Retains At t := by
  rw [Retains, ht.transaction, ht.log, List.append_nil]
  exact h

theorem Retains.proceeds (h : Retains At s) (hp : Proceeds [] s.currentTransaction s t) : Retains At t := by
  obtain ⟨m, hturn, -⟩ := hp
  exact h.turn hturn

namespace Reporting

theorem of_closed (h : Retains At s) (hclosed : s.isClosed = true) : Reporting At n s := by
  refine ⟨h, fun hopen => ?_, fun hopen => ?_, fun hopen => ?_⟩
  all_goals
    rw [hclosed] at hopen
    cases hopen

theorem close (h : Retains At s) : Reporting At s.close.io.count s.close :=
  of_closed (Retains.turn h (.aside (Aside.closes.close s))) (close_closed s)

/-- A request is awaited. -/
theorem of_awaiting (h : Retains At s)
    (hnone : s.currentTransaction.request = none ∧ s.currentTransaction.response = none)
    (hidle : ¬ Busy n s) : Reporting At n s :=
  ⟨h, fun _ _ => hnone, fun _ _ => hidle, fun _ hbusy => absurd hbusy hidle⟩

/-- A request is under way that was not reported. -/
theorem of_busy (h : Retains At s) (hrequest : s.currentTransaction.request.isSome = true)
    (hresponse : s.currentTransaction.response = none) (hnot : ¬ Awaiting n) : Reporting At n s :=
  ⟨h, fun _ hawaiting => absurd hawaiting hnot, fun _ hsome => absurd hresponse hsome, fun _ _ => hrequest⟩

/-- Nothing more is done. -/
theorem of_idle (h : Retains At s) (hnot : ¬ Awaiting n) (hidle : ¬ Busy n s) : Reporting At n s :=
  ⟨h, fun _ hawaiting => absurd hawaiting hnot, fun _ _ => hidle, fun _ hbusy => absurd hbusy hidle⟩

/-- Only timers, client writes and what is closed are different. -/
theorem rests (h : Reporting At n s) (haside : Aside s t) (hle : ∀ k, k ≠ .other → s.io.count k ≤ n k) :
    Reporting At t.io.count t := by
  have hcount (k : OpKind) (hk : k ≠ .other) : t.io.count k ≤ n k := (haside.count k hk).trans_le (hle k hk)
  have hbusy (hb : Busy t.io.count t) : Busy n s := by
    refine hb.mono haside.asked fun k hk => hcount k ?_
    rcases hk with rfl | rfl | ⟨a, rfl⟩ <;> simp
  refine ⟨Retains.turn h.toKept (.aside haside), fun hopen hawaiting => ?_, fun hopen hresponse hb => ?_,
    fun hopen hb => ?_⟩
  · rw [haside.transaction]
    refine h.awaiting (haside.stillOpen hopen) (hawaiting.trans_le ?_)
    have hread := hcount .read (by simp)
    have hdial := hcount .dial (by simp)
    have hclient := hcount .clientHandshake (by simp)
    have hupstream := hcount .upstreamHandshake (by simp)
    omega
  · rw [haside.transaction] at hresponse
    exact h.finished (haside.stillOpen hopen) hresponse (hbusy hb)
  · rw [haside.transaction]
    exact h.busy (haside.stillOpen hopen) (hbusy hb)

theorem drop (h : Reporting At (fun k => s.io.count k + op.weight k) s) : Reporting At s.io.count s :=
  h.rests (Aside.refl s) fun _ _ => Nat.le_add_right _ _

theorem readClient (h : Retains At s)
    (hnone : s.currentTransaction.request = none ∧ s.currentTransaction.response = none)
    (hidle : ¬ Busy s.io.count s) : Reporting At s.readClient.io.count s.readClient := by
  unfold MitmSession.readClient
  split
  · exact of_awaiting h hnone hidle
  · exact of_awaiting (h.turn (.start s .clientRead)) hnone fun hbusy =>
      hidle (hbusy.of_start (by simp [Op.kind]))

/-- The request at hand goes on. -/
theorem goes_on (h : Retains At s) (hrequest : s.currentTransaction.request.isSome = true)
    (hresponse : s.currentTransaction.response = none) (hnot : ¬ Awaiting s.io.count)
    (hp : Proceeds [] s.currentTransaction s t) (hg : Goes s t) : Reporting At t.io.count t := by
  have htx : t.currentTransaction = s.currentTransaction := by
    obtain ⟨m, hturn, -⟩ := hp
    exact hturn.transaction
  refine of_busy (h.proceeds hp) ?_ ?_ fun hawaiting => hnot (hg.awaiting hawaiting)
  · rw [htx]
    exact hrequest
  · rw [htx]
    exact hresponse

/-- The proxy answers itself, and nothing else will. -/
theorem answers (h : Retains At s) (hresponse : s.currentTransaction.response = none)
    (hnot : ¬ Awaiting s.io.count) (hidle : ¬ Busy s.io.count s) (ha : Answers s t) :
    Reporting At t.io.count t := by
  obtain ⟨response, data, e, -, he, hturn⟩ := ha
  refine of_idle ?_ ?_ ?_
  · rw [Retains, hturn.transaction, hturn.log]
    exact h.answer hresponse response he
  · rw [Awaiting, hturn.count .read (by simp), hturn.count .dial (by simp),
      hturn.count .clientHandshake (by simp), hturn.count .upstreamHandshake (by simp)]
    exact hnot
  · intro hbusy
    refine hidle (hbusy.mono hturn.asked fun k hk => (hturn.count k ?_).le)
    rcases hk with rfl | rfl | ⟨a, rfl⟩ <;> simp

end Reporting

/-- The invariant while the handler of `op` runs. -/
abbrev ReportingAfter (At : L.State → List Piece → Prop) (op : Op) (s : MitmSession L) : Prop :=
  Reporting At (fun k => s.io.count k + op.weight k) s

/-- While the connections are set up nothing was reported. -/
theorem Reporting.setup (h : ReportingAfter At op s) (hs : InvAfter b new op s) (hopen : s.isClosed = false)
    (hop : op.kind = .dial ∨ op.kind = .clientHandshake ∨ op.kind = .upstreamHandshake) :
    (s.currentTransaction.request = none ∧ s.currentTransaction.response = none) ∧ ¬ Busy s.io.count s :=
  ⟨h.awaiting hopen (hs.early hop).1, (hs.early hop).2⟩

/-- While the upstream is dialled nothing else is outstanding. -/
theorem InvAfter.not_awaiting (hs : InvAfter b new op s) (hop : op.kind = .dial) : ¬ Awaiting s.io.count := by
  have hclient := hs.setup.client
  have hupstream := hs.setup.upstream
  have hweight : op.weight .dial = 1 := if_pos hop
  have hearly : s.clientHandshakeDone = false := by
    cases hc : s.clientHandshakeDone
    · rfl
    · rw [hc, Bool.toNat_true] at hclient
      omega
  obtain ⟨-, -, hrest⟩ := hs.setup.early (Or.inl hearly)
  unfold Awaiting
  omega

/-- While a request is sent, decided or answered it was not reported. -/
theorem Reporting.carried (h : ReportingAfter At op s) (hopen : s.isClosed = false)
    (hop : op.kind = .send ∨ op.kind = .receive ∨ ∃ a, op.kind = .decision a) :
    s.currentTransaction.request.isSome = true ∧ s.currentTransaction.response = none := by
  have hbusy : Busy (fun k => s.io.count k + op.weight k) s := by
    rcases hop with hop | hop | ⟨a, hop⟩
    · exact Or.inl (by simp [Op.weight, hop])
    · exact Or.inr (Or.inl (by simp [Op.weight, hop]))
    · exact Or.inr (Or.inr (Or.inr ⟨a, by simp [Op.weight, hop]⟩))
  refine ⟨h.busy hopen hbusy, ?_⟩
  by_contra hresponse
  exact h.finished hopen hresponse hbusy

theorem handleResolve_reporting (h : ReportingAfter At .resolve s) (hs : InvAfter b new .resolve s)
    (hopen : s.isClosed = false) (o : Outcome) :
    Reporting At (s.handleResolve o).io.count (s.handleResolve o) := by
  obtain ⟨hnone, hidle⟩ := h.setup hs hopen (Or.inl rfl)
  rcases handleResolve_turn hopen o with ⟨rfl, hturn⟩ | ⟨-, hanswers⟩
  · have hdialled : s.handleResolve .ok = s.start .connect := by
      unfold handleResolve
      rw [if_neg (by simp [hopen]), if_neg (by simp)]
    rw [hdialled] at hturn ⊢
    exact .of_awaiting (Retains.turn h.toKept hturn) hnone fun hbusy => hidle (hbusy.of_start (by simp [Op.kind]))
  · exact .answers h.toKept hnone.2 (hs.not_awaiting rfl) hidle hanswers

theorem handleConnected_reporting (h : ReportingAfter At .connect s) (hs : InvAfter b new .connect s)
    (hopen : s.isClosed = false) (o : Outcome) :
    Reporting At (s.handleConnected o).io.count (s.handleConnected o) := by
  obtain ⟨hnone, hidle⟩ := h.setup hs hopen (Or.inl rfl)
  rcases handleConnected_turn hopen o with ⟨-, hturn⟩ | ⟨-, hanswers⟩
  · refine .of_awaiting ?_ (hturn.transaction ▸ hnone) fun hbusy => hidle ?_
    · rw [Retains, hturn.transaction, hturn.log]
      exact h.toKept.append (by simp [Uneventful, Effect.reports]) (receivedFor_snoc _ _)
    · refine hbusy.mono hturn.asked fun k hk => ?_
      have hweight : Op.established.weight k = 0 := by
        rcases hk with rfl | rfl | ⟨a, rfl⟩ <;> rfl
      rw [hturn.count k (by rcases hk with rfl | rfl | ⟨a, rfl⟩ <;> simp), hweight]
      exact Nat.le_refl _
  · exact .answers h.toKept hnone.2 (hs.not_awaiting rfl) hidle hanswers

theorem handleEstablished_reporting (h : ReportingAfter At .established s) (hs : InvAfter b new .established s)
    (hopen : s.isClosed = false) (env : Env) (o : Outcome) :
    Reporting At (s.handleEstablished env o).io.count (s.handleEstablished env o) := by
  obtain ⟨hnone, hidle⟩ := h.setup hs hopen (Or.inl rfl)
  unfold handleEstablished
  rw [if_neg (by simp [hopen])]
  split
  · exact .close h.toKept
  · unfold startTlsHandshakes
    rw [if_neg (by simp [hopen])]
    split
    · exact .close h.toKept
    · have hclient : Retains At (s.start .clientHandshake) := Retains.turn h.toKept (.start s _)
      refine .of_awaiting (hclient.turn (.start _ .upstreamHandshake)) hnone fun hbusy => hidle ?_
      exact (hbusy.of_start (by simp [Op.kind])).of_start (by simp [Op.kind])

theorem handleClientHandshake_reporting (h : ReportingAfter At .clientHandshake s)
    (hs : InvAfter b new .clientHandshake s) (hopen : s.isClosed = false) (o : Outcome) :
    Reporting At (s.handleClientHandshake o).io.count (s.handleClientHandshake o) := by
  obtain ⟨hnone, hidle⟩ := h.setup hs hopen (Or.inr (Or.inl rfl))
  have hdone : Retains At { s with clientHandshakeDone := true } := h.toKept
  unfold handleClientHandshake
  rw [if_neg (by simp [hopen])]
  split
  · exact .close h.toKept
  · dsimp only
    split
    · unfold onBothHandshakesComplete
      rw [if_neg (by simp [hopen])]
      exact .readClient hdone hnone hidle
    · exact .of_awaiting hdone hnone hidle

theorem handleUpstreamHandshake_reporting (h : ReportingAfter At .upstreamHandshake s)
    (hs : InvAfter b new .upstreamHandshake s) (hopen : s.isClosed = false) (o : Outcome) :
    Reporting At (s.handleUpstreamHandshake o).io.count (s.handleUpstreamHandshake o) := by
  obtain ⟨hnone, hidle⟩ := h.setup hs hopen (Or.inr (Or.inr rfl))
  have hdone : Retains At { s with upstreamHandshakeDone := true } := h.toKept
  unfold handleUpstreamHandshake
  rw [if_neg (by simp [hopen])]
  split
  · exact .close h.toKept
  · dsimp only
    split
    · unfold onBothHandshakesComplete
      rw [if_neg (by simp [hopen])]
      exact .readClient hdone hnone hidle
    · exact .of_awaiting hdone hnone hidle

theorem handleDecision_reporting {a : InterceptAction} (h : ReportingAfter At (.decision a) s)
    (hs : InvAfter b new (.decision a) s) (hopen : s.isClosed = false) (env : Env) :
    Reporting At (s.handleDecision env a).io.count (s.handleDecision env a) := by
  obtain ⟨hrequest, hresponse⟩ := h.carried hopen (Or.inr (Or.inr ⟨a, rfl⟩))
  have hready := hs.ready_read (Or.inr (Or.inr ⟨a, rfl⟩))
  rcases handleDecision_turn s env a with hproceeds | ⟨-, hanswers⟩
  · exact .goes_on h.toKept hrequest hresponse hready.not_awaiting hproceeds (handleDecision_goes s env a)
  · exact .answers h.toKept hresponse hready.not_awaiting hready.not_busy hanswers

theorem handleUpstreamWrite_reporting {data : Bytes} (h : ReportingAfter At (.upstreamWrite data) s)
    (hs : InvAfter b new (.upstreamWrite data) s) (hopen : s.isClosed = false) (o : Outcome) :
    Reporting At (s.handleUpstreamWrite o).io.count (s.handleUpstreamWrite o) := by
  obtain ⟨hrequest, hresponse⟩ := h.carried hopen (Or.inl rfl)
  have hnot : ¬ Awaiting s.io.count := (hs.ready (Or.inr (Or.inl rfl))).not_awaiting
  exact .goes_on h.toKept hrequest hresponse hnot (Proceeds.handleUpstreamWrite s o)
    (handleUpstreamWrite_goes s o)

/-- A request is taken that was not reported. -/
theorem handleRequest_reporting (h : Retains At s) (hresponse : s.currentTransaction.response = none)
    (hready : Ready b new s) {env : Env} (hfresh : env.newRef ∉ tookRefs s.log) (req : HttpRequest) :
    Reporting At (s.handleRequest env req).io.count (s.handleRequest env req) := by
  let v : MitmSession L := ({ s with currentTransaction := s.tookTransaction env } : MitmSession L).emit
    (.took env.newRef req)
  let w : MitmSession L := v.emit (.tested env.newRef env.interceptEnabled)
  have hlog : exchanges v.log = exchanges s.log ++ [.took env.newRef req] := exchanges_append _ _
  have hv : Retains At v := by
    rw [Retains, hlog]
    exact h.take hfresh rfl
  have hw : Retains At w := hv.turn (.emit v rfl)
  have hnot : ¬ Awaiting w.io.count := hready.not_awaiting
  unfold handleRequest
  dsimp only
  split
  · -- the manager is asked
    have hasked (item : InterceptedRequest Ref) : Retains At (w.cancelTimer.intercept item) := by
      have hsame : exchanges (w.cancelTimer.intercept item).log = exchanges w.log :=
        (exchanges_append _ _).trans (List.append_nil _)
      rw [Retains, hsame]
      exact hw
    refine .of_busy (hasked _) rfl hresponse fun hawaiting => hnot ?_
    have hcancelled : Awaiting w.cancelTimer.io.count := hawaiting
    rwa [Awaiting, (Aside.closes.cancelTimer w).count .read (by simp),
      (Aside.closes.cancelTimer w).count .dial (by simp),
      (Aside.closes.cancelTimer w).count .clientHandshake (by simp),
      (Aside.closes.cancelTimer w).count .upstreamHandshake (by simp)] at hcancelled
  · exact .goes_on hw rfl hresponse hnot (Proceeds.forwards.writeUpstream _ _ _) (Goes.forwards.writeUpstream _ _ _)

theorem handleClientRead_reporting (h : ReportingAfter At .clientRead s) (hs : InvAfter b new .clientRead s)
    (hopen : s.isClosed = false) {env : Env} (hfresh : env.newRef ∉ tookRefs s.log) (o : Outcome) :
    Reporting At (s.handleClientRead env o).io.count (s.handleClientRead env o) := by
  have hawaiting : Awaiting (fun k => s.io.count k + Op.clientRead.weight k) := by
    have hweight : Op.clientRead.weight .read = 1 := rfl
    unfold Awaiting
    dsimp only
    omega
  have hnone := h.awaiting hopen hawaiting
  unfold handleClientRead
  rw [if_neg (by simp [hopen])]
  split
  · rename_i data
    have hread : Turn [] idle s.currentTransaction s (s.resetTimer.emit (.read data)) :=
      (Turn.emit s.resetTimer (e := .read data) rfl).after (Aside.resetTimer s)
    have hready : Ready b new (s.resetTimer.emit (.read data)) :=
      ((Calmly.resetTimer s).trans (Calmly.emit _ rfl)).ready (hs.ready_read (Or.inl rfl))
    have hnew : env.newRef ∉ tookRefs (s.resetTimer.emit (.read data)).log := by
      have hsame : s.resetTimer.log = s.log := rfl
      simpa [MitmSession.emit, tookRefs, hsame] using hfresh
    dsimp only
    rw [← hread.transaction] at hnone
    generalize s.resetTimer.emit (.read data) = v at hread hready hnone hnew
    have hfields (parser : HttpParser L) : Retains At { v with
        clientAccumulated := v.clientAccumulated ++ data, clientParser := parser } :=
      Retains.turn h.toKept (hread.before (.fields hread.transaction rfl rfl rfl))
    have hcalm (parser : HttpParser L) : Ready b new { v with
        clientAccumulated := v.clientAccumulated ++ data, clientParser := parser } := by
      have hsame : Calmly v { v with
          clientAccumulated := v.clientAccumulated ++ data, clientParser := parser } :=
        .same rfl rfl rfl rfl rfl rfl
      exact hsame.ready hready
    split
    · split
      · exact handleRequest_reporting (hfields _) hnone.2 (hcalm _) hnew _
      · exact .readClient (hfields _) hnone (hcalm _).not_busy
    · split
      · exact .readClient (hfields _) hnone (hcalm _).not_busy
      · exact .close (hfields _)
  · exact .close h.toKept

/-- After the report the next request is awaited, or nothing more is done. -/
theorem finishExchange_reporting {res : HttpResponse} (h : Retains At (s.respond .relayed res))
    (hready : Ready b new s) (env : Env) :
    Reporting At (s.finishExchange env res).io.count (s.finishExchange env res) := by
  have hready := (Calmly.respond s .relayed res).ready hready
  unfold finishExchange
  dsimp only
  split
  · exact .readClient h.restart ⟨rfl, rfl⟩ hready.not_busy
  · have hflag : Retains At { s.respond .relayed res with closeAfterWrite := true } := h
    split
    · exact .close hflag
    · exact .of_idle hflag hready.not_awaiting hready.not_busy

theorem handleUpstreamRead_reporting (hL : L.Reads At) (h : ReportingAfter At .upstreamRead s)
    (hs : InvAfter b new .upstreamRead s) (hopen : s.isClosed = false)
    (hfollows : s.upstreamParser.responseParser.Follows responseOps (receivedFor (exchanges s.log)))
    (env : Env) (data : Bytes) :
    Reporting At (s.handleUpstreamRead env (.bytes data)).io.count
      (s.handleUpstreamRead env (.bytes data)) := by
  obtain ⟨hrequest, hresponse⟩ := h.carried hopen (Or.inr (Or.inl rfl))
  obtain ⟨v, -, hcalm, hturn, heq⟩ := handleUpstreamRead_open hopen env data
  have hready := hcalm.ready (hs.ready_read (Or.inr (Or.inl rfl)))
  have hcalm (parser : HttpParser L) : Ready b new { v with upstreamParser := parser } := by
    have hsame : Calmly v { v with upstreamParser := parser } := .same rfl rfl rfl rfl rfl rfl
    exact hsame.ready hready
  rw [heq]
  split
  · -- the response is complete, and is reported
    refine finishExchange_reporting ?_ (hcalm _) env
    let response := (s.upstreamParser.feedResponse data).1.responseParser.collector.message
    have hlog : exchanges (v.respond .relayed response).log = exchanges s.log ++ [.received data,
        .queued .relayed data, .reported .relayed { s.currentTransaction with response := some response }] := by
      refine (exchanges_append _ _).trans ?_
      rw [hturn.log, ← hturn.transaction, List.append_assoc]
      rfl
    have htx : (v.respond .relayed response).currentTransaction =
        { s.currentTransaction with response := some response } := by rw [← hturn.transaction]; rfl
    have hreported : Retains At (v.respond .relayed response) := by
      rw [Retains, htx, hlog]
      exact h.toKept.finish hL hfollows hrequest hresponse rfl
    exact hreported
  · rename_i hmore
    have hmore : (s.upstreamParser.responseParser.feed responseOps data).2 = false :=
      Bool.eq_false_iff.mpr hmore
    let w : MitmSession L := { v with upstreamParser := (s.upstreamParser.feedResponse data).1 }
    have htx : w.currentTransaction = s.currentTransaction := hturn.transaction
    have hlog : exchanges w.log = exchanges s.log ++ [.received data, .queued .relayed data] := hturn.log
    have hw : Retains At w := by
      rw [Retains, htx, hlog]
      exact h.toKept.relay hL hfollows hmore
    exact .goes_on hw (htx ▸ hrequest) (htx ▸ hresponse) (hcalm _).not_awaiting (Proceeds.readUpstream w)
      (.readUpstream w)

/-- The upstream ends, and the bytes kept may make a response. Either way the session is closed. -/
theorem handleUpstreamRead_reporting_end (h : ReportingAfter At .upstreamRead s) (env : Env) {o : Outcome}
    (ho : ∀ data, o ≠ .bytes data) :
    Reporting At (s.handleUpstreamRead env o).io.count (s.handleUpstreamRead env o) := by
  have hclosed := handleUpstreamRead_closes s env ho
  rcases handleUpstreamRead_end s env ho with hturn | ⟨-, -, hresponse, response, -, hturn, -⟩
  · exact .of_closed (Retains.turn h.toKept hturn) hclosed
  · refine .of_closed ?_ hclosed
    rw [Retains, hturn.transaction, hturn.log]
    exact h.toKept.report hresponse rfl (by simp)

theorem handle_reporting (hL : L.Reads At) {env : Env} {o : Outcome} (h : ReportingAfter At op s)
    (hs : InvAfter b new op s) (hfresh : env.newRef ∉ tookRefs s.log)
    (hfollows : op = .upstreamRead → s.isClosed = false →
      s.upstreamParser.responseParser.Follows responseOps (receivedFor s.log)) :
    Reporting At (s.handle env op o).io.count (s.handle env op o) := by
  cases hclosed : s.isClosed with
  | true =>
    rw [handle_closed hclosed]
    exact h.drop
  | false =>
    have hle (k : OpKind) (_ : k ≠ .other) : s.io.count k ≤ s.io.count k + op.weight k :=
      Nat.le_add_right _ _
    cases op with
    | timer => exact h.rests (Aside.handleTimeout s o) hle
    | resolve => exact handleResolve_reporting h hs hclosed o
    | connect => exact handleConnected_reporting h hs hclosed o
    | established => exact handleEstablished_reporting h hs hclosed env o
    | clientHandshake => exact handleClientHandshake_reporting h hs hclosed o
    | upstreamHandshake => exact handleUpstreamHandshake_reporting h hs hclosed o
    | rawWrite data => exact .close h.toKept
    | clientRead => exact handleClientRead_reporting h hs hclosed hfresh o
    | clientWrite data => exact h.rests (Aside.handleClientWrite s o) hle
    | upstreamRead =>
      by_cases ho : ∃ data, o = .bytes data
      · obtain ⟨data, rfl⟩ := ho
        refine handleUpstreamRead_reporting hL h hs hclosed ?_ env data
        rw [receivedFor_exchanges]
        exact hfollows rfl hclosed
      · exact handleUpstreamRead_reporting_end h env fun data heq => ho ⟨data, heq⟩
    | upstreamWrite data => exact handleUpstreamWrite_reporting h hs hclosed o
    | serverWrite data => exact h.drop
    | decision a => exact handleDecision_reporting h hs hclosed env

theorem decided_reporting {ref : Ref} (h : Reporting At s.io.count s) (href : ref ∈ s.asked)
    (action : InterceptAction) :
    Reporting At (s.decided ref action).io.count (s.decided ref action) := by
  have hlog : exchanges (s.decided ref action).log = exchanges s.log :=
    (exchanges_append _ _).trans (List.append_nil _)
  have hasked : Busy s.io.count s := Or.inr (Or.inr (Or.inl (List.ne_nil_of_mem href)))
  refine ⟨hlog ▸ h.toKept, fun hopen hawaiting => ?_,
    fun hopen hresponse => absurd hasked (h.finished hopen hresponse), fun hopen _ => h.busy hopen hasked⟩
  refine h.awaiting hopen ?_
  simpa [Awaiting, MitmSession.decided, Op.weight, Op.kind] using hawaiting

theorem step_reporting (hL : L.Reads At) {a : Session.Label} (h : Reporting At s.io.count s) (hs : Holds s)
    (hparsing : Parsing False s.io.count s) (hstep : step s a = some t) :
    Reporting At t.io.count t := by
  cases moves_of_step hstep with
  | complete ht => exact h.rests (Aside.complete ht) fun _ _ => Nat.le_refl _
  | @handled k env _ hfresh ht =>
    obtain ⟨op, o, io, hio, rfl⟩ := dispatch_spec ht
    have htaken : ReportingAfter At op { s with io := io } := by
      rw [Io.count_take hio] at h
      exact ⟨h.toKept, h.awaiting, h.finished, h.busy⟩
    refine handle_reporting hL htaken (taken_inv hs hio env.newRef) hfresh fun hop hopen => ?_
    refine (hparsing.follows hopen (Or.inr (Or.inl ?_))).follows
    rw [Io.count_take hio, hop]
    exact Nat.lt_add_left _ Nat.one_pos
  | decide href => exact decided_reporting h href _
  | close => exact .close h.toKept

theorem started_reporting (targetHost : Bytes) (targetPort : UInt16) :
    let s : MitmSession L := started targetHost targetPort
    Reporting At s.io.count s := by
  refine .of_awaiting Kept.nil ⟨rfl, rfl⟩ ?_
  rintro (hbusy | hbusy | hbusy | ⟨a, hbusy⟩)
  · cases hbusy
  · cases hbusy
  · exact hbusy rfl
  · cases a <;> cases hbusy

theorem reached_reporting (hL : L.Reads At) (h : (system L).Reached s) : Reporting At s.io.count s := by
  refine h.invariant_of (J := fun s => (system L).Reached s) (I := fun s => Reporting At s.io.count s)
    (fun s hs => hs.reached) ?_ ?_
  · rintro _ ⟨targetHost, targetPort, rfl⟩
    exact started_reporting targetHost targetPort
  · intro s a t hreached hr _ hstep
    exact step_reporting hL hr (reached_holds hreached) (reached_parsing hreached) hstep

end MitmSession

/-- The history is complete and without duplicates for the replies whose end the response parser sees: in
plain sessions if the timer leaves a request alone while something else may still answer it and the
upstreams of blind tunnels can be reached, and in all sessions over TLS. -/
theorem history_is_complete {L : Llhttp} {At : L.State → List Piece → Prop} (hL : L.Reads At) :
    (∀ r, (Session.system L).ReachedUnder (fun r => r.session.UndisturbedStep) r →
      CompleteHistory At Reply.Recordable r.session.log) ∧
    ∀ s, (MitmSession.system L).Reached s → CompleteHistory At Reply.Recordable s.log := by
  refine ⟨fun r hr => ?_, fun s hs => ?_⟩
  · have hreporting := Session.reached_reporting hL hr
    exact hreporting.counted.completeHistory hreporting.recorded
  · have hreporting := MitmSession.reached_reporting hL hs
    exact hreporting.counted.completeHistory hreporting.recorded

section Examples

open Session (started env1 sentRun slowResolverRun)

/-- The reply comes in one read. -/
def replied (r : Reply) : List Session.Label := [.complete 1 (.bytes r.bytes), .dispatch 1 env1]

/-- The history has a request to which this reply was delivered. -/
def Reply.deliveredIn (r : Reply) (log : List Effect) : Bool :=
  (lastTaken log).any (fun e => e.2.method == r.method && e.2.method != str "CONNECT") &&
    (receivedFor log).flatten == r.bytes

theorem history_is_complete_plainReply :
    plainReply.Recordable ∧
    (∃ r, (Session.system (replying plainReply)).runUnder (fun r => r.session.UndisturbedStep)
      { session := started false } (sentRun ++ replied plainReply) = some r ∧
        plainReply.deliveredIn r.session.log = true ∧
        CompleteHistory (L := replying plainReply) Ahead Reply.Recordable r.session.log) ∧
    ∃ s, (MitmSession.system (replying plainReply)).run (MitmSession.started [] 443)
      (sentTlsRun ++ replied plainReply) = some s ∧ plainReply.deliveredIn s.log = true ∧
        CompleteHistory (L := replying plainReply) Ahead Reply.Recordable s.log := by
  have hrun : ((Session.system (replying plainReply)).runUnder (fun r => r.session.UndisturbedStep)
      { session := started false } (sentRun ++ replied plainReply)).any
        (fun r => plainReply.deliveredIn r.session.log) = true := by decide
  have htls : ((MitmSession.system (replying plainReply)).run (MitmSession.started [] 443)
      (sentTlsRun ++ replied plainReply)).any (fun s => plainReply.deliveredIn s.log) = true := by decide
  obtain ⟨r, hr, hdelivered⟩ := (Option.any_eq_true _ _).mp hrun
  obtain ⟨s, hs, hdelivered'⟩ := (Option.any_eq_true _ _).mp htls
  have hL := reads_replying plainReply
  exact ⟨⟨rfl, rfl, by decide, by decide⟩,
    ⟨r, hr, hdelivered, (history_is_complete hL).1 r (.runUnder (.init ⟨false, rfl⟩) hr)⟩,
    ⟨s, hs, hdelivered', (history_is_complete hL).2 s (.run (.init ⟨[], 443, rfl⟩) hs)⟩⟩

/-- Nothing but the end of the connection shows where this reply ends. -/
def closingReply : Reply :=
  { plainReply with
    final := { shortResponse with fields := [] }
    untilClose := true
    finalStatus := Nat.le_refl 200 }

/-- The upstream closes the connection after the reply. -/
def closingRun : List Session.Label := replied closingReply ++ [.complete 2 .eof, .dispatch 2 env1]

/-- A reply that ends with the connection is not reported by either class. When the timer runs out while
the name is resolved, the request is reported twice. -/
theorem history_is_incomplete :
    (¬ ∀ r, (Session.system (replying closingReply)).Reached r →
      Recorded (L := replying closingReply) Ahead (fun _ => True) r.session.log) ∧
    (¬ ∀ s, (MitmSession.system (replying closingReply)).Reached s →
      Recorded (L := replying closingReply) Ahead (fun _ => True) s.log) ∧
    ¬ ∀ r, (Session.system (replying closingReply)).Reached r → ∀ ref,
      r.session.log.countP (Effect.reports ref) ≤ 1 := by
  have hlost (log : List Effect) (hdelivered : (closingReply.deliveredIn log &&
      (log.contains .upstreamEnded && log.contains .closed) && !log.any Effect.isRelayed) = true) :
      ¬ Recorded (L := replying closingReply) Ahead (fun _ => True) log := by
    intro hrecorded
    simp only [Reply.deliveredIn, Bool.and_eq_true, Option.any_eq_true, beq_iff_eq, bne_iff_ne, ne_eq,
      List.contains_iff_mem, Bool.not_eq_true'] at hdelivered
    obtain ⟨⟨⟨⟨⟨ref, req⟩, htaken, hmethod, hconnect⟩, hbytes⟩, hended⟩, hnone⟩ := hdelivered
    obtain ⟨tx, htx, -⟩ := hrecorded ref req htaken hconnect closingReply trivial
      ⟨hmethod.symm, fun f hf => absurd hf List.not_mem_nil, ahead_replying closingReply, hbytes,
        fun _ => hended⟩
    rw [List.any_eq_false] at hnone
    exact hnone _ htx rfl
  refine ⟨fun hall => ?_, fun hall => ?_, fun hall => ?_⟩
  · have hrun : ((Session.system (replying closingReply)).run { session := started false }
        (sentRun ++ closingRun)).any (fun r => closingReply.deliveredIn r.session.log &&
          (r.session.log.contains .upstreamEnded && r.session.log.contains .closed) &&
            !r.session.log.any Effect.isRelayed) = true := by decide
    obtain ⟨r, hr, hdelivered⟩ := (Option.any_eq_true _ _).mp hrun
    exact hlost _ hdelivered (hall r (.run (.init ⟨false, rfl⟩) hr))
  · have hrun : ((MitmSession.system (replying closingReply)).run (MitmSession.started [] 443)
        (sentTlsRun ++ closingRun)).any (fun s => closingReply.deliveredIn s.log &&
          (s.log.contains .upstreamEnded && s.log.contains .closed) && !s.log.any Effect.isRelayed) = true := by
      decide
    obtain ⟨s, hs, hdelivered⟩ := (Option.any_eq_true _ _).mp hrun
    exact hlost _ hdelivered (hall s (.run (.init ⟨[], 443, rfl⟩) hs))
  · have hrun : ((Session.system (replying closingReply)).run { session := started false }
        slowResolverRun).any (fun r => r.session.log.countP (Effect.reports 0) == 2) = true := by decide
    obtain ⟨r, hr, htwice⟩ := (Option.any_eq_true _ _).mp hrun
    have hone := hall r (.run (.init ⟨false, rfl⟩) hr) 0
    rw [beq_iff_eq.mp htwice] at hone
    omega

end Examples

end BurpTUI
