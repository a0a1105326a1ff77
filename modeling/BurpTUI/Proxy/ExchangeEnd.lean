import BurpTUI.Http.Reply
import BurpTUI.Proxy.ReportedResponse
import BurpTUI.Proxy.SizeLimit
import BurpTUI.Proxy.Turn

namespace BurpTUI

/-- The transactions that were reported with a response of the upstream. -/
def relayedReports (log : List Effect) : List HttpTransaction :=
  log.filterMap fun
    | .reported .relayed tx => some tx
    | _ => none

theorem relayedReports_exchanges (log : List Effect) :
    relayedReports (exchanges log) = relayedReports log := by
  unfold relayedReports exchanges
  rw [List.filterMap_filter]
  congr
  funext e
  cases e with
  | reported origin tx => cases origin <;> rfl
  | _ => rfl

theorem relayedReports_aside {log log' : List Effect} (h : LogAside log log') :
    relayedReports log' = relayedReports log := by
  rw [← relayedReports_exchanges, exchanges_aside h, relayedReports_exchanges]

/-- An exchange goes on by these effects. -/
theorem relayedReports_grow {log log' es : List Effect} (h : exchanges log' = exchanges log ++ es) :
    relayedReports log' = relayedReports log ++ relayedReports es := by
  rw [← relayedReports_exchanges, h, ← relayedReports_exchanges log]
  exact List.filterMap_append

section Sessions

open Reader (Machine ReadyAtLast)

variable {L : Llhttp} {data : Bytes} {reads : List Bytes}

namespace Session

variable {s : Session L}

/-- The request is sent, and nothing of the response has come. -/
structure AwaitsReply (s : Session L) : Prop where
  plain : s.isConnect = false
  parser : s.parser.responseParser = .reset responseOps

/-- A session that reads from the upstream, from which nothing has come, is in this state. -/
theorem awaitsReply_of_reached {r : Running L} (h : (system L).Reached r)
    (hc : r.session.isConnect = false) (hread : 0 < r.session.io.count .receive)
    (hnone : receivedFor r.session.log = []) : r.session.AwaitsReply := by
  obtain ⟨chunks, ⟨hpre, hparser, -⟩, -⟩ := (reached_parsing h).follows hc (Or.inr (Or.inr (Or.inl hread)))
  rw [hnone, List.prefix_nil] at hpre
  subst hpre
  exact ⟨hc, hparser⟩

/-- The handlers of reads from the upstream, with what does not matter between them. -/
def relaying (L : Llhttp) : Machine (Session L) Bytes where
  aside := Aside
  read s data t := ∃ env, t = s.handleUpstreamRead env (.bytes data)

/-- The transaction is reported, and the session reads its client again or is about to close. -/
def Concluded (before : List HttpTransaction) (t : Session L) : Prop :=
  ∃ tx, relayedReports t.log = before ++ [tx] ∧
    (0 < t.io.count .read ∨ t.closeAfterWrite = true)

/-- The exchange ends with the last of the reads, and with none before. -/
def EndsExactly (s : Session L) (reads : List Bytes) : Prop :=
  (relaying L).EndsExactly (fun s => relayedReports s.log) Concluded s reads

theorem finishExchange_goesOn (s : Session L) (env : Env) (res : HttpResponse) :
    0 < (s.finishExchange env res).io.count .read ∨
      (s.finishExchange env res).closeAfterWrite = true := by
  unfold finishExchange
  dsimp only
  split
  · left
    rw [readClient, start, Io.count_start]
    simp [Op.weight, Op.kind]
  · right
    split
    · unfold close closeServer closeClient removeFromQueue
      split_ifs <;> rfl
    · rfl

/-- What a read outside a tunnel comes to. -/
theorem handleUpstreamRead_plain (hc : s.isConnect = false) (env : Env) (data : Bytes) :
    ∃ v : Session L, v.isConnect = false ∧ s.handleUpstreamRead env (.bytes data) =
      if (s.parser.feedResponse data).2 then
        finishExchange { v with parser := (s.parser.feedResponse data).1.takeResponse.2 } env
          (s.parser.feedResponse data).1.responseParser.collector.message
      else readUpstream { v with parser := (s.parser.feedResponse data).1 } := by
  let u : Session L := s.resetTimer.emit (.received data)
  have haside := Aside.writes.writeClient_queued u .relayed data
  have hparser : (u.writeClient .relayed data).parser = s.parser := haside.parser
  have hplain : (u.writeClient .relayed data).isConnect = false := haside.isConnect.trans hc
  refine ⟨u.writeClient .relayed data, hplain, ?_⟩
  unfold handleUpstreamRead
  dsimp only
  rw [if_neg (by simp [u, hplain]), hparser]
  split
  · rename_i hready
    rw [HttpParser.takeResponse_complete (HttpParser.feedResponse_complete hready)]
  · rfl

/-- An incomplete response is waited for. -/
theorem handleUpstreamRead_more (hc : s.isConnect = false)
    (hready : (s.parser.feedResponse data).2 = false) (env : Env) :
    (s.handleUpstreamRead env (.bytes data)).isConnect = false ∧
      (s.handleUpstreamRead env (.bytes data)).parser = (s.parser.feedResponse data).1 ∧
      relayedReports (s.handleUpstreamRead env (.bytes data)).log = relayedReports s.log := by
  obtain ⟨v, hv, heq⟩ := handleUpstreamRead_plain hc env data
  rw [hready, if_neg Bool.false_ne_true] at heq
  have hlog : relayedReports (s.handleUpstreamRead env (.bytes data)).log = relayedReports s.log := by
    rcases handleUpstreamRead_turn s env data with ⟨hturn, -⟩ | ⟨-, hnot, -⟩
    · exact (relayedReports_grow hturn.log).trans (List.append_nil _)
    · rw [hready] at hnot
      cases hnot
  exact ⟨by rw [heq]; exact hv, by rw [heq]; rfl, hlog⟩

theorem handleUpstreamRead_concluded (hc : s.isConnect = false)
    (hready : (s.parser.feedResponse data).2 = true) (env : Env) :
    Concluded (relayedReports s.log) (s.handleUpstreamRead env (.bytes data)) := by
  obtain ⟨v, -, heq⟩ := handleUpstreamRead_plain hc env data
  rw [if_pos hready] at heq
  rcases handleUpstreamRead_turn s env data with ⟨-, hnot⟩ | ⟨-, -, n, tx, tx', -, hturn, -⟩
  · rcases hnot with hnot | hnot
    · rw [hc] at hnot
      cases hnot
    · rw [hready] at hnot
      cases hnot
  · refine ⟨tx', (relayedReports_grow hturn.log).trans rfl, ?_⟩
    rw [heq]
    exact finishExchange_goesOn _ _ _

/-- Outside a tunnel the exchange ends where the parser says so. -/
theorem relaying_follows : (relaying L).Follows (fun s => relayedReports s.log) Concluded
    (MessageParser.feed responseOps) fun s p => s.isConnect = false ∧ s.parser.responseParser = p where
  refl _ := Aside.refl _
  can _ data := ⟨_, {}, rfl⟩
  aside := by
    rintro s t p ⟨hc, hp⟩ haside
    exact ⟨⟨haside.isConnect.trans hc, by rw [haside.parser, hp]⟩, relayedReports_aside haside.log⟩
  more := by
    rintro s _ _ data ⟨hc, rfl⟩ hready ⟨env, rfl⟩
    obtain ⟨hplain, hparser, hlog⟩ := handleUpstreamRead_more hc hready env
    exact ⟨⟨hplain, by rw [hparser]; rfl⟩, hlog⟩
  done := by
    rintro s _ _ data ⟨hc, rfl⟩ hready ⟨env, rfl⟩
    exact handleUpstreamRead_concluded hc hready env
  changed := by
    rintro s t ⟨tx, hlog, -⟩
    simp [hlog]

theorem AwaitsReply.endsExactly_iff (h : s.AwaitsReply) : s.EndsExactly reads ↔
    ReadyAtLast (MessageParser.feed responseOps) (.reset responseOps : MessageParser L HttpResponse)
      reads := relaying_follows.endsExactly_iff ⟨h.plain, h.parser⟩

end Session

namespace MitmSession

variable {s : MitmSession L}

/-- The same over TLS, on a session that is open. -/
structure AwaitsReply (s : MitmSession L) : Prop where
  opened : s.isClosed = false
  parser : s.upstreamParser.responseParser = .reset responseOps

theorem awaitsReply_of_reached (h : (system L).Reached s) (hopen : s.isClosed = false)
    (hread : 0 < s.io.count .receive) (hnone : receivedFor s.log = []) : s.AwaitsReply := by
  obtain ⟨chunks, ⟨hpre, hparser, -⟩, -⟩ := (reached_parsing h).follows hopen (Or.inr (Or.inl hread))
  rw [hnone, List.prefix_nil] at hpre
  subst hpre
  exact ⟨hopen, hparser⟩

/-- What happens between the reads leaves the session open. -/
def relaying (L : Llhttp) : Machine (MitmSession L) Bytes where
  aside s t := Aside s t ∧ t.isClosed = false
  read s data t := ∃ env, t = s.handleUpstreamRead env (.bytes data)

def Concluded (before : List HttpTransaction) (t : MitmSession L) : Prop :=
  ∃ tx, relayedReports t.log = before ++ [tx] ∧
    (0 < t.io.count .read ∨ t.closeAfterWrite = true)

def EndsExactly (s : MitmSession L) (reads : List Bytes) : Prop :=
  (relaying L).EndsExactly (fun s => relayedReports s.log) Concluded s reads

theorem finishExchange_goesOn (hopen : s.isClosed = false) (env : Env) (res : HttpResponse) :
    0 < (s.finishExchange env res).io.count .read ∨
      (s.finishExchange env res).closeAfterWrite = true := by
  have hstill : (s.respond .relayed res).isClosed = false := hopen
  unfold finishExchange
  dsimp only
  split
  · left
    rw [readClient, if_neg (by simp [hstill]), start, Io.count_start]
    simp [Op.weight, Op.kind]
  · right
    split
    · unfold close removeFromQueue
      split_ifs <;> rfl
    · rfl

theorem writeClient_isClosed (s : MitmSession L) (origin : Origin) (data : Bytes) :
    (s.writeClient origin data).isClosed = s.isClosed := by
  unfold writeClient doClientWrite
  dsimp only
  split
  · rfl
  · split
    · split
      · rfl
      · split <;> rfl
    · rfl

/-- The data is relayed, and goes to the parser. -/
theorem handleUpstreamRead_open (hopen : s.isClosed = false) (env : Env) (data : Bytes) :
    ∃ v : MitmSession L, v.isClosed = false ∧ Calmly s v ∧
      Turn [.received data, .queued .relayed data] Session.idle s.currentTransaction s v ∧
      s.handleUpstreamRead env (.bytes data) =
        if (s.upstreamParser.feedResponse data).2 then
          finishExchange { v with
              upstreamParser := (s.upstreamParser.feedResponse data).1.takeResponse.2 } env
            (s.upstreamParser.feedResponse data).1.responseParser.collector.message
        else readUpstream { v with upstreamParser := (s.upstreamParser.feedResponse data).1 } := by
  let u : MitmSession L := s.resetTimer.emit (.received data)
  let w : MitmSession L := u.writeClient .relayed data
  let v : MitmSession L := { w with upstreamAccumulated := w.upstreamAccumulated ++ data }
  have hu : u.isClosed = false := hopen
  have hparser : w.upstreamParser = s.upstreamParser := (Aside.writes.writeClient_queued hu .relayed data).parser
  have hcalm : Calmly s v :=
    (((Calmly.resetTimer s).trans (.emit _ rfl)).trans (.writeClient u _ _)).trans
      (.same rfl rfl rfl rfl rfl rfl)
  have hturn : Turn [.received data, .queued .relayed data] Session.idle s.currentTransaction s v := by
    have hreceived : Turn [.received data] Session.idle s.currentTransaction s u := by
      refine Turn.after (t := s.resetTimer) ?_ (Aside.resetTimer s)
      exact ⟨exchanges_append _ _, rfl, rfl, id, fun _ _ => rfl⟩
    have hall := hreceived.trans (.writeClient u hu .relayed data)
    exact ⟨hall.log, hall.transaction.trans hreceived.transaction, hall.asked, hall.stillOpen, hall.count⟩
  refine ⟨v, (writeClient_isClosed u .relayed data).trans hu, hcalm, hturn, ?_⟩
  unfold handleUpstreamRead
  rw [if_neg (by simp [hopen])]
  dsimp only
  rw [hparser]
  split
  · rename_i hready
    rw [HttpParser.takeResponse_complete (HttpParser.feedResponse_complete hready)]
  · rfl

theorem handleUpstreamRead_more (hopen : s.isClosed = false)
    (hready : (s.upstreamParser.feedResponse data).2 = false) (env : Env) :
    (s.handleUpstreamRead env (.bytes data)).isClosed = false ∧
      (s.handleUpstreamRead env (.bytes data)).upstreamParser = (s.upstreamParser.feedResponse data).1 ∧
      relayedReports (s.handleUpstreamRead env (.bytes data)).log = relayedReports s.log := by
  obtain ⟨v, hv, -, -, heq⟩ := handleUpstreamRead_open hopen env data
  rw [hready, if_neg Bool.false_ne_true, readUpstream, if_neg (by simp [hv])] at heq
  have hlog : relayedReports (s.handleUpstreamRead env (.bytes data)).log = relayedReports s.log := by
    rcases handleUpstreamRead_turn hopen env data with ⟨-, n, hturn, -⟩ | ⟨hnot, -⟩
    · exact (relayedReports_grow hturn.log).trans (List.append_nil _)
    · rw [hready] at hnot
      cases hnot
  exact ⟨by rw [heq]; exact hv, by rw [heq]; rfl, hlog⟩

theorem handleUpstreamRead_concluded (hopen : s.isClosed = false)
    (hready : (s.upstreamParser.feedResponse data).2 = true) (env : Env) :
    Concluded (relayedReports s.log) (s.handleUpstreamRead env (.bytes data)) := by
  obtain ⟨v, hv, -, -, heq⟩ := handleUpstreamRead_open hopen env data
  rw [if_pos hready] at heq
  rcases handleUpstreamRead_turn hopen env data with ⟨hnot, -⟩ | ⟨-, tx, tx', -, ⟨n, hturn, -⟩, -⟩
  · rw [hready] at hnot
    cases hnot
  · refine ⟨tx', (relayedReports_grow hturn.log).trans rfl, ?_⟩
    rw [heq]
    apply finishExchange_goesOn
    exact hv

theorem relaying_follows : (relaying L).Follows (fun s => relayedReports s.log) Concluded
    (MessageParser.feed responseOps)
    fun s p => s.isClosed = false ∧ s.upstreamParser.responseParser = p where
  refl hs := ⟨Aside.refl _, hs.1⟩
  can _ data := ⟨_, {}, rfl⟩
  aside := by
    rintro s t p ⟨-, hp⟩ ⟨haside, hopen⟩
    exact ⟨⟨hopen, by rw [haside.parser, hp]⟩, relayedReports_aside haside.log⟩
  more := by
    rintro s _ _ data ⟨hopen, rfl⟩ hready ⟨env, rfl⟩
    obtain ⟨hstill, hparser, hlog⟩ := handleUpstreamRead_more hopen hready env
    exact ⟨⟨hstill, by rw [hparser]; rfl⟩, hlog⟩
  done := by
    rintro s _ _ data ⟨hopen, rfl⟩ hready ⟨env, rfl⟩
    exact handleUpstreamRead_concluded hopen hready env
  changed := by
    rintro s t ⟨tx, hlog, -⟩
    simp [hlog]

theorem AwaitsReply.endsExactly_iff (h : s.AwaitsReply) : s.EndsExactly reads ↔
    ReadyAtLast (MessageParser.feed responseOps) (.reset responseOps : MessageParser L HttpResponse)
      reads := relaying_follows.endsExactly_iff ⟨h.opened, h.parser⟩

end MitmSession

section Replies

variable {At : L.State → List Piece → Prop} {s : Session L} {t : MitmSession L}

theorem Reply.completesLast_iff (hL : L.Reads At) (r : Reply) (hat : At (L.init .response) r.pieces)
    (hd : Division r.bytes reads) :
    ReadyAtLast (MessageParser.feed responseOps) (.reset responseOps : MessageParser L HttpResponse)
      reads ↔ r.CompletesLast reads := by
  apply r.readyAtLast_iff hL hat hd.1
  exact (hd.dropLast_length r.bytes_ne_nil).1

theorem Session.AwaitsReply.endsExactly_reply (hs : s.AwaitsReply) (hL : L.Reads At) (r : Reply)
    (hat : At (L.init .response) r.pieces) (hd : Division r.bytes reads) :
    s.EndsExactly reads ↔ r.CompletesLast reads :=
  hs.endsExactly_iff.trans (Reply.completesLast_iff hL r hat hd)

theorem MitmSession.AwaitsReply.endsExactly_reply (ht : t.AwaitsReply) (hL : L.Reads At) (r : Reply)
    (hat : At (L.init .response) r.pieces) (hd : Division r.bytes reads) :
    t.EndsExactly reads ↔ r.CompletesLast reads :=
  ht.endsExactly_iff.trans (Reply.completesLast_iff hL r hat hd)

/-- The two classes end an exchange with the last byte of the final response exactly if llhttp
completes its first message with the read that brings this byte. -/
theorem exchange_ends_exactly_iff (hL : L.Reads At) (r : Reply)
    (hat : At (L.init .response) r.pieces) (hs : s.AwaitsReply) (ht : t.AwaitsReply)
    (hd : Division r.bytes reads) :
    (s.EndsExactly reads ↔ r.CompletesLast reads) ∧ (t.EndsExactly reads ↔ r.CompletesLast reads) :=
  ⟨hs.endsExactly_reply hL r hat hd, ht.endsExactly_reply hL r hat hd⟩

end Replies

end Sessions

section Examples

open Session (sentRun)

def shortResponse : ResponseMessage :=
  { statusCode := 200, statusText := str "OK"
    fields := [{ name := str "Content-Length", value := str "2" }], body := .plain (str "hi") }

def continueResponse : ResponseMessage :=
  { statusCode := 100, statusText := str "Continue", fields := [], body := .plain [] }

def plainReply : Reply where
  method := str "GET"
  interims := []
  final := shortResponse
  interim := by simp
  finalStatus := by decide

/-- An interim response comes first. -/
def continuedReply : Reply where
  method := str "POST"
  interims := [continueResponse]
  final := shortResponse
  interim := by simp only [List.mem_singleton, forall_eq]; decide
  finalStatus := by decide

/-- The header section announces a body that does not come. -/
def headReply : Reply where
  method := str "HEAD"
  interims := []
  final := shortResponse
  interim := by simp
  finalStatus := by decide

/-- The upstream's side comes from the reply. -/
abbrev replying (r : Reply) : Llhttp := answering r.pieces

theorem reads_replying (r : Reply) : (replying r).Reads Ahead := scripted_reads _

theorem ahead_replying (r : Reply) : Ahead ((replying r).init .response) r.pieces :=
  ⟨[], .inl rfl, (List.append_nil _).symm⟩

theorem awaitsReply_started (L : Llhttp) : (Session.started true : Session L).AwaitsReply ∧
    (MitmSession.started (str "h") 443 : MitmSession L).AwaitsReply :=
  ⟨⟨rfl, rfl⟩, ⟨rfl, rfl⟩⟩

/-- The requests are sent, and the sessions read from their upstreams. -/
theorem exchange_ends_exactly_iff_plainReply :
    ∃ r s, (Session.system (replying plainReply)).run { session := Session.started false } sentRun = some r ∧
      (MitmSession.system (replying plainReply)).run (MitmSession.started [] 443) sentTlsRun = some s ∧
      (r.session.EndsExactly [plainReply.bytes] ↔ plainReply.CompletesLast [plainReply.bytes]) ∧
      (s.EndsExactly [plainReply.bytes] ↔ plainReply.CompletesLast [plainReply.bytes]) := by
  have hrun : ((Session.system (replying plainReply)).run { session := Session.started false }
      sentRun).any (fun r => r.session.isConnect = false ∧ 0 < r.session.io.count .receive ∧
        receivedFor r.session.log = []) = true := by decide
  have htls : ((MitmSession.system (replying plainReply)).run (MitmSession.started [] 443)
      sentTlsRun).any (fun s => s.isClosed = false ∧ 0 < s.io.count .receive ∧
        receivedFor s.log = []) = true := by decide
  obtain ⟨r, hr, hreading⟩ := (Option.any_eq_true _ _).mp hrun
  obtain ⟨s, hs, hreading'⟩ := (Option.any_eq_true _ _).mp htls
  obtain ⟨hplain, hread, hnone⟩ := of_decide_eq_true hreading
  obtain ⟨hopen, hread', hnone'⟩ := of_decide_eq_true hreading'
  have hawaits := Session.awaitsReply_of_reached (.run (.init ⟨false, rfl⟩) hr) hplain hread hnone
  have hawaits' := MitmSession.awaitsReply_of_reached (.run (.init ⟨[], 443, rfl⟩) hs) hopen hread' hnone'
  exact ⟨r, s, hr, hs, exchange_ends_exactly_iff (reads_replying _) plainReply (ahead_replying _)
    hawaits hawaits' ⟨by simp, by decide⟩⟩

/-- The exchange ends at the interim response, and after HEAD it does not end. -/
theorem exchange_ends_elsewhere :
    let reads := [continueResponse.message.wire, shortResponse.message.wire]
    Division continuedReply.bytes reads ∧
      (¬ (Session.started true : Session (replying continuedReply)).EndsExactly reads ∧
        ¬ (MitmSession.started (str "h") 443 : MitmSession (replying continuedReply)).EndsExactly reads) ∧
      ¬ (Session.started true : Session (replying headReply)).EndsExactly [headReply.bytes] ∧
        ¬ (MitmSession.started (str "h") 443 :
          MitmSession (replying headReply)).EndsExactly [headReply.bytes] := by
  intro reads
  have hd : Division continuedReply.bytes reads := ⟨by decide, by decide⟩
  have hhead : Division headReply.bytes [headReply.bytes] := ⟨by simp, by decide⟩
  have hnot : ¬ continuedReply.CompletesLast reads := by
    simp [Reply.CompletesLast, continuedReply, reads]
  have hnot' : ¬ headReply.CompletesLast [headReply.bytes] := by
    have hbody : wireOf headReply.final.body.pieces ≠ [] := by decide
    rintro ⟨-, hnone⟩
    exact hbody (hnone rfl)
  obtain ⟨hs, ht⟩ := awaitsReply_started (replying continuedReply)
  obtain ⟨hs', ht'⟩ := awaitsReply_started (replying headReply)
  have hL := reads_replying continuedReply
  have hL' := reads_replying headReply
  have hat := ahead_replying continuedReply
  have hat' := ahead_replying headReply
  refine ⟨hd, ⟨?_, ?_⟩, ?_, ?_⟩
  · exact fun h => hnot ((hs.endsExactly_reply hL _ hat hd).mp h)
  · exact fun h => hnot ((ht.endsExactly_reply hL _ hat hd).mp h)
  · exact fun h => hnot' ((hs'.endsExactly_reply hL' _ hat' hhead).mp h)
  · exact fun h => hnot' ((ht'.endsExactly_reply hL' _ hat' hhead).mp h)

end Examples

end BurpTUI
