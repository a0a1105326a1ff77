import BurpTUI.Tui.HeldRequest
import BurpTUI.Tui.PreparedRequest
import BurpTUI.Tui.RepeaterTab
import BurpTUI.Tui.RepeaterTarget

namespace BurpTUI

open RepeaterManager (Sending)

/-! ## Target -/

theorem cutPort_part (host port : Bytes) : (cutPort host port).1 <:+: host := by
  unfold cutPort
  split
  · rename_i before after hcut
    split
    · exact List.infix_rfl
    · have hs := (Search.cutLast_spec hcut).1
      exact ⟨[], 58 :: after, by simp [hs]⟩
  · exact List.infix_rfl

/-- A host that the clean-up of `executeRequest` leaves alone. -/
def HostKept (host : Bytes) : Prop :=
  47 ∉ host ∧ trimBlanks host = host ∧ (58 ∈ host → 93 ∈ host)

instance (host : Bytes) : Decidable (HostKept host) := inferInstanceAs (Decidable (_ ∧ _ ∧ _))

theorem deriveTarget_self_iff {host port : Bytes} {isHttps : Bool} (hport : port ≠ []) :
    deriveTarget ⟨host, port, isHttps⟩ = ⟨host, port, isHttps⟩ ↔ HostKept host := by
  constructor
  · intro h
    have hslash : 47 ∉ host := by
      have hhost := congrArg Target.host h
      have hpart := cutPort_part (cutPath (cutScheme (trimBlanks host) isHttps).1) port
      rw [show (cutPort (cutPath (cutScheme (trimBlanks host) isHttps).1) port).1 = host from hhost] at hpart
      exact fun hmem => slash_not_mem_cutPath _ (hpart.subset hmem)
    exact ⟨hslash, (deriveTarget_eq_self_iff hslash hport).mp h⟩
  · rintro ⟨hslash, hkept⟩
    exact (deriveTarget_eq_self_iff hslash hport).mpr hkept

theorem decimalInt_ne_nil (n : ℤ) : decimalInt n ≠ [] := by
  cases n with
  | ofNat n => exact (isPort_decimal n).1
  | negSucc n =>
    rw [decimalInt_negSucc]
    exact List.cons_ne_nil _ _

/-! ## Text -/

/-- The lines that the repeater adds of its own are all that it changes in a message that was parsed. -/
theorem prepareRequest_parsed (host req : Bytes) : prepareRequest host req =
    insertAfterFirst (parseRawHttpRequest req).serialize ((insertedLines host req).flatMap fun l => l ++ CRLF) := by
  obtain ⟨m, hm⟩ := exists_rawMessage (eraseMarkers req)
  rw [prepareRequest_text host hm, ← m.insertAfterFirst_text, hm, parseRawHttpRequest_serialize]

/-- A text that has a first line. -/
def Lined (s : Bytes) : Prop := ∃ l rest, Plain l ∧ s = l ++ CR :: LF :: rest

theorem lined_parsed (req : Bytes) : Lined (parseRawHttpRequest req).serialize := by
  obtain ⟨m, hm⟩ := exists_rawMessage (eraseMarkers req)
  rw [parseRawHttpRequest_serialize, ← hm]
  exact ⟨_, _, m.first_plain, rfl⟩

theorem HttpRequest.Delivered.lined {r : HttpRequest} (hr : r.Delivered) : Lined r.serialize := by
  refine ⟨r.method ++ str " " ++ r.url ++ str " " ++ r.version, serializeHeaders r.headers ++ CRLF ++ r.body,
    hr.plain_firstLine, ?_⟩
  simp [hr.serialize_eq, HttpRequest.requestLine, CRLF]

theorem Lined.insertAfterFirst_inj {a b : Bytes} (ha : Lined a) (hb : Lined b) (line : Bytes) :
    insertAfterFirst a line = insertAfterFirst b line ↔ a = b := by
  refine ⟨fun h => ?_, fun h => h ▸ rfl⟩
  obtain ⟨l, rest, hl, rfl⟩ := ha
  obtain ⟨l', rest', hl', rfl⟩ := hb
  rw [insertAfterFirst_line hl.1, insertAfterFirst_line hl'.1] at h
  obtain ⟨rfl, hrest⟩ := line_inj hl hl' h
  rw [List.append_cancel_left hrest]

/-! ## From the history to the repeater -/

section Resend

variable {r : HttpRequest} {tx : HttpTransaction} {job : Sending}

/-- What the editor of the repeater holds of an entry, and the job that it makes of it. -/
def editedText (r : HttpRequest) (tx : HttpTransaction) : Bytes :=
  normalizeCrlf (formatHttpRequestRaw r tx.isHttps tx.host)

def resendJob (r : HttpRequest) (tx : HttpTransaction) : Sending :=
  RepeaterTab.jobOf (HistoryTab.targetOf tx, editedText r tx)

/-- The job goes where the entry went, with the recorded request and the lines that the repeater adds. -/
structure Resends (job : Sending) (r : HttpRequest) (tx : HttpTransaction) : Prop where
  target : job.target = HistoryTab.targetOf tx
  req : job.req = insertAfterFirst r.serialize
    ((insertedLines job.target.host (editedText r tx)).flatMap fun l => l ++ CRLF)

theorem resendJob_req (r : HttpRequest) (tx : HttpTransaction) : (resendJob r tx).req =
    insertAfterFirst (resent {} r tx.isHttps tx.host)
      ((insertedLines (resendJob r tx).target.host (editedText r tx)).flatMap fun l => l ++ CRLF) := by
  rw [resent, getText_setText]
  exact prepareRequest_parsed _ _

/-- The repeater sends an entry again as it was recorded exactly if a held request would go on so when it
is forwarded untouched, and the host is kept. -/
theorem resends_iff (hr : r.Delivered) :
    Resends (resendJob r tx) r tx ↔ resent {} r tx.isHttps tx.host = r.serialize ∧ HostKept tx.host := by
  have htarget : (resendJob r tx).target = HistoryTab.targetOf tx ↔ HostKept tx.host :=
    deriveTarget_self_iff (decimalInt_ne_nil tx.port)
  have hreq := (lined_parsed (({} : TextEditor).setText (formatHttpRequestRaw r tx.isHttps tx.host)).getText)
    |>.insertAfterFirst_inj hr.lined ((insertedLines (resendJob r tx).target.host (editedText r tx)).flatMap
      fun l => l ++ CRLF)
  constructor
  · intro h
    exact ⟨hreq.mp ((resendJob_req r tx).symm.trans h.req), htarget.mp h.target⟩
  · rintro ⟨hsame, hkept⟩
    exact ⟨htarget.mpr hkept, (resendJob_req r tx).trans (hreq.mpr hsame)⟩

end Resend

/-- What the repeater does with a request that it is given: a frame shows it exactly if it is loaded afresh,
and while it is what was loaded last and every load was afresh, a click on Send makes `job` of it. -/
structure Carries (target : Target) (rawRequest : Bytes) (job : Sending) : Prop where
  shown : ∀ s : RepeaterTab, s.call = .idle → ∃ t u, s.step (.load target rawRequest) = some t ∧
    t.step .sync = some u ∧ (u.Showing target rawRequest ↔ s.LoadsAfresh (.load target rawRequest))
  sent : ∀ s, RepeaterTab.system.ReachedUnder RepeaterTab.LoadsAfresh s →
    s.fresh = some (target, rawRequest) → s.repeater.manager.isSending = false →
    ∃ t, RepeaterTab.system.run s RepeaterTab.sendRun = some t ∧
      t.repeater.sends.map RepeaterSends.Send.job = s.repeater.sends.map RepeaterSends.Send.job ++ [job]

theorem carries (target : Target) (rawRequest : Bytes) :
    Carries target rawRequest (RepeaterTab.jobOf (target, normalizeCrlf rawRequest)) := by
  refine ⟨fun s hidle => RepeaterTab.load_shown_iff hidle target rawRequest, fun s h hfresh hidle => ?_⟩
  obtain ⟨-, hsend⟩ := RepeaterTab.loaded_is_sent h hfresh
  obtain ⟨t, ht, -, hjobs⟩ := hsend hidle
  refine ⟨t, ht, ?_⟩
  rw [hjobs, (RepeaterTab.inv_of_reached h.reached).recorded.jobs]

/-- What was sent from the history is the target and the text of a listed entry, and the repeater makes the job
of that entry of it; this is the recorded message to the server of the entry exactly under the condition of
`resends_iff`. -/
theorem history_resent_iff {hist : HistoryTab} (hh : HistoryTab.system.ReachedUnder HistoryTab.Unwritten hist)
    {x : Sent} (hx : x ∈ hist.sent) :
    ∃ tx ∈ hist.entries, ∃ ref, tx.request = some ref ∧ x.target = HistoryTab.targetOf tx ∧
      x.rawRequest = formatHttpRequestRaw (hist.heap ref) tx.isHttps tx.host ∧
      Carries x.target x.rawRequest (resendJob (hist.heap ref) tx) ∧
      ((hist.heap ref).Delivered → (Resends (resendJob (hist.heap ref) tx) (hist.heap ref) tx ↔
        resent {} (hist.heap ref) tx.isHttps tx.host = (hist.heap ref).serialize ∧ HostKept tx.host)) := by
  obtain ⟨tx, htx, ref, hreq, htarget, hraw, -⟩ := (HistoryTab.inv_of_reached hh).sent x hx
  refine ⟨tx, htx, ref, hreq, htarget, hraw, ?_, fun hr => resends_iff hr⟩
  have hcarries := carries x.target x.rawRequest
  have hjob : RepeaterTab.jobOf (x.target, normalizeCrlf x.rawRequest) = resendJob (hist.heap ref) tx := by
    rw [htarget, hraw]
    rfl
  rwa [hjob] at hcarries

section Examples

open HistoryTab (oneRequest)

def listedEntry : HttpTransaction := { id := 1, host := str "h", port := 80, request := some 7 }

def sentEntry : Sent where
  target := HistoryTab.targetOf listedEntry
  rawRequest := str "GET /a HTTP/1.1\r\nHost: h\r\n\r\n"
  shown := str "GET /a HTTP/1.1\r\nHost: h\r\n\r\n"
  current := true

/-- The entry is sent from the history, loaded and sent by the repeater, as it was recorded. -/
theorem history_resent_iff_oneRequest : ∃ s t, RepeaterTab.system.runUnder RepeaterTab.LoadsAfresh {}
      [.load sentEntry.target sentEntry.rawRequest, .sync] = some s ∧
    RepeaterTab.system.run s RepeaterTab.sendRun = some t ∧
    t.repeater.sends.map RepeaterSends.Send.job =
      s.repeater.sends.map RepeaterSends.Send.job ++ [resendJob (oneRequest 7) listedEntry] ∧
    Resends (resendJob (oneRequest 7) listedEntry) (oneRequest 7) listedEntry := by
  have hhist : (HistoryTab.system.runUnder HistoryTab.Unwritten { heap := oneRequest }
      [.push listedEntry, .custom, .sendToRepeater]).any (fun hist =>
        hist.entries = [listedEntry] ∧ hist.sent = [sentEntry] ∧ hist.heap 7 = oneRequest 7) = true := by decide
  have hrun : (RepeaterTab.system.runUnder RepeaterTab.LoadsAfresh {}
      [.load sentEntry.target sentEntry.rawRequest, .sync]).any (fun s =>
        s.fresh = some (sentEntry.target, sentEntry.rawRequest) ∧ s.repeater.manager.isSending = false) = true := by
    decide
  obtain ⟨hist, hhist, hlast⟩ := (Option.any_eq_true _ _).mp hhist
  obtain ⟨hentries, hsent, hheap⟩ := of_decide_eq_true hlast
  obtain ⟨s, hs, hlast⟩ := (Option.any_eq_true _ _).mp hrun
  obtain ⟨hfresh, hidle⟩ := of_decide_eq_true hlast
  obtain ⟨tx, htx, ref, hreq, -, -, hcarries, hiff⟩ := history_resent_iff (x := sentEntry)
    (.runUnder (.init ⟨oneRequest, [], rfl⟩) hhist) (by rw [hsent]; exact List.mem_singleton_self _)
  rw [hentries, List.mem_singleton] at htx
  subst htx
  obtain rfl := Option.some.inj hreq
  rw [hheap] at hcarries hiff
  obtain ⟨t, ht, hjobs⟩ := hcarries.sent s (.runUnder (.init rfl) hs) hfresh hidle
  have hdelivered : (oneRequest 7).Delivered := by constructor <;> decide
  exact ⟨s, t, hs, ht, hjobs, (hiff hdelivered).mpr ⟨by decide, by decide⟩⟩

end Examples

end BurpTUI
