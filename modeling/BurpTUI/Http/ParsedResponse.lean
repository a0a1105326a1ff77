import BurpTUI.Http.Fragments

namespace BurpTUI

/-- The texts of the spans of one kind, one after another. -/
def spanned (kind : SpanKind) : List Callback → Bytes
  | [] => []
  | .span k text :: cbs => if k = kind then text ++ spanned kind cbs else spanned kind cbs
  | .messageComplete _ :: cbs => spanned kind cbs

def Callback.ofHeader : Callback → Bool
  | .span .headerField _ => true
  | .span .headerValue _ => true
  | _ => false

/-- `response` is what the callbacks say before the end `p` of the message, up to the truncation for the UI.
Its headers are those that the spans of names and values spell, each name and each value in one or more parts. -/
structure Parse (cbs : List Callback) (p : Completion) (response : HttpResponse) : Prop where
  version : response.version = httpVersion p
  statusCode : response.statusCode = p.statusCode
  statusText : response.statusText = spanned .status cbs
  headers : ∀ fs : List FieldParts, cbs.filter Callback.ofHeader = fs.flatMap FieldParts.callbacks →
    response.headers = fs.map FieldParts.header
  body : KeptBody (spanned .body cbs) response.body

/-- `response` is the first message that llhttp reports while it executes the chunks from its initial state,
from its first callback to its end. -/
def ParsedFrom (L : Llhttp) (chunks : List Bytes) (response : HttpResponse) : Prop :=
  ∃ front p rest, L.trace (L.init .response) chunks = front ++ .messageComplete p :: rest ∧
    NoCompletion front ∧ Parse front p response

/-- The first end of a message stands in one place. -/
theorem front_unique {a b rest rest' : List Callback} {p q : Completion} (ha : NoCompletion a)
    (hb : NoCompletion b) (h : a ++ .messageComplete p :: rest = b ++ .messageComplete q :: rest') : b = a := by
  rcases List.append_eq_append_iff.mp h with ⟨c, rfl, hc⟩ | ⟨c, rfl, hc⟩
  · cases c with
    | nil => exact List.append_nil a
    | cons cb c =>
      obtain rfl := (List.cons.inj hc).1
      exact absurd (by simp) (hb p)
  · cases c with
    | nil => exact (List.append_nil b).symm
    | cons cb c =>
      obtain rfl := (List.cons.inj hc).1
      exact absurd (by simp) (ha q)

section Collected

variable {c d : Collector Content} {cbs : List Callback}

theorem commitHeader_content (c : Collector Content) :
    (c.commitHeader contentOps).message.statusText = c.message.statusText ∧
      (c.commitHeader contentOps).message.body = c.message.body := by
  unfold Collector.commitHeader
  split <;> exact ⟨rfl, rfl⟩

/-- The status text and the body are the spans of their kinds. -/
theorem deliver_content (h : NoCompletion cbs) (c : Collector Content) :
    (deliver c cbs).message.statusText = c.message.statusText ++ spanned .status cbs ∧
      (deliver c cbs).message.body = c.message.body ++ spanned .body cbs := by
  induction cbs generalizing c with
  | nil => simp [deliver, spanned]
  | cons cb cbs ih =>
    have hrest := ih fun p hp => h p (List.mem_cons_of_mem _ hp)
    cases cb with
    | messageComplete p => exact absurd List.mem_cons_self (h p)
    | span kind text =>
      obtain ⟨hstatus, hbody⟩ := hrest (c.onSpan contentOps kind text)
      have hstep : deliver c (.span kind text :: cbs) = deliver (c.onSpan contentOps kind text) cbs := rfl
      rw [hstep, hstatus, hbody]
      cases kind with
      | status => simp [Collector.onSpan, contentOps, spanned]
      | body => simp [Collector.onSpan, contentOps, spanned]
      | url => simp [Collector.onSpan, contentOps, spanned]
      | headerValue => simp [Collector.onSpan, Collector.onHeaderValue, spanned]
      | headerField =>
        have hcommit := commitHeader_content c
        cases hfield : c.lastWasField <;>
          simp [Collector.onSpan, Collector.onHeaderField, spanned, hfield, hcommit]

def SameHeaders (a b : Content) : Prop := a.headers = b.headers

theorem contentOps_keepsHeaders : contentOps.Keeps SameHeaders where
  fresh := rfl
  onUrl _ _ _ h := h
  onStatus _ _ _ h := h
  pushHeader _ _ hd h := congrArg (· ++ [hd]) h
  onBody _ _ _ h := h
  onComplete _ _ _ h := h

/-- Only the spans of headers make headers. -/
theorem deliver_headers (h : NoCompletion cbs)
    (hc : Mirrors SameHeaders c d) :
    Mirrors SameHeaders (deliver c cbs) (deliver d (cbs.filter Callback.ofHeader)) := by
  induction cbs generalizing c d with
  | nil => exact hc
  | cons cb cbs ih =>
    have hrest {c d} := @ih c d fun p hp => h p (List.mem_cons_of_mem _ hp)
    cases cb with
    | messageComplete p => exact absurd List.mem_cons_self (h p)
    | span kind text =>
      cases kind with
      | headerField => exact hrest (hc.onCallback contentOps_keepsHeaders (.span .headerField text))
      | headerValue => exact hrest (hc.onCallback contentOps_keepsHeaders (.span .headerValue text))
      | url => exact hrest ⟨hc.message, hc.field, hc.value, hc.lastWasField⟩
      | status => exact hrest ⟨hc.message, hc.field, hc.value, hc.lastWasField⟩
      | body => exact hrest ⟨hc.message, hc.field, hc.value, hc.lastWasField⟩

/-- What a parser has collected at the end of a message is that message. -/
theorem collected_parse {front : List Callback} (h : NoCompletion front) (p : Completion) :
    Parse front p (collected responseOps (front ++ [.messageComplete p])).message := by
  have hfresh : Mirrors HoldsResponse { message := responseOps.fresh } { message := {} } :=
    ⟨responseOps_keeps.fresh, rfl, rfl, rfl⟩
  have hmirror := (hfresh.deliver responseOps_keeps front).commitHeader responseOps_keeps
  obtain ⟨hstatus, hheaders, hbody⟩ := hmirror.message
  obtain ⟨hcontent, hcontent'⟩ := deliver_content h { message := {} }
  obtain ⟨hcommit, hcommit'⟩ := commitHeader_content (deliver { message := {} } front)
  have hmessage : (collected responseOps (front ++ [.messageComplete p])).message =
      responseOps.onComplete ((front.foldl (Collector.onCallback responseOps.toMessageOps)
        { message := responseOps.fresh }).commitHeader responseOps.toMessageOps).message p := by
    rw [collected, List.foldl_append]
    rfl
  rw [hmessage]
  refine ⟨rfl, rfl, ?_, fun fs hfs => ?_, ?_⟩
  · exact hstatus.trans (hcommit.trans (by simpa using hcontent))
  · have hsame : Mirrors SameHeaders { message := {} } { message := {} } := ⟨rfl, rfl, rfl, rfl⟩
    have hspelled := deliver_headers h hsame
    rw [hfs, deliver_fields] at hspelled
    have hfields := (collect_fields (fs.map FieldParts.whole) (c := { message := {} }) ⟨rfl, fun _ => rfl⟩
      fun f hf => by
        obtain ⟨parts, -, rfl⟩ := List.mem_map.mp hf
        exact parts.named).2
    have hcommitted := (hspelled.commitHeader contentOps_keepsHeaders).message
    refine hheaders.trans (hcommitted.trans ?_)
    rw [← settled, hfields, List.map_map]
    rfl
  · rw [hcommit', hcontent'] at hbody
    exact hbody

end Collected

/-- A parser that has a message, and has seen nothing behind its end, has it from the bytes received. -/
theorem ParsedFrom.of_tracks {L : Llhttp} {p : MessageParser L HttpResponse} {received : List Bytes} {E : Prop}
    (h : p.Tracks responseOps E received) (hE : E) (hcomplete : p.collector.messageComplete = true) :
    ∃ chunks, chunks <+: received ∧ ParsedFrom L chunks p.collector.message := by
  obtain ⟨chunks, hfed, hlast⟩ := h
  obtain ⟨q, hq⟩ := hfed.completion hcomplete
  obtain ⟨front, hfront, htrace⟩ := exists_of_endsLast (hlast hE) hq
  have htrace : L.trace (L.init .response) chunks = front ++ [.messageComplete q] := htrace
  have hmessage : p.collector = collected responseOps (front ++ [.messageComplete q]) := by
    rw [hfed.state, ← htrace]
    rfl
  refine ⟨chunks, hfed.initial, front, q, [], htrace, hfront, ?_⟩
  rw [hmessage]
  exact collected_parse hfront q

end BurpTUI
