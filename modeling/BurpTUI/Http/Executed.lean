import BurpTUI.Http.TakenMessages

namespace BurpTUI

/-- All callbacks that llhttp makes while it executes the chunks one after another. -/
def Llhttp.trace (L : Llhttp) (st : L.State) : List Bytes → List Callback
  | [] => []
  | data :: rest => (L.execute st data).2.1 ++ L.trace (L.execute st data).1 rest

/-- The state of llhttp after the chunks. -/
def Llhttp.after (L : Llhttp) (st : L.State) (chunks : List Bytes) : L.State :=
  chunks.foldl (fun st data => (L.execute st data).1) st

theorem Llhttp.trace_append (L : Llhttp) (st : L.State) (a b : List Bytes) :
    L.trace st (a ++ b) = L.trace st a ++ L.trace (L.after st a) b := by
  induction a generalizing st with
  | nil => rfl
  | cons data a ih => simp [Llhttp.trace, Llhttp.after, ih]

/-- The text of a body span. -/
def Callback.bodyText : Callback → Option Bytes
  | .span .body text => some text
  | _ => none

/-- Nothing is reported behind the end of a message. -/
def endsLast : List Callback → Bool
  | [] => true
  | .span _ _ :: cbs => endsLast cbs
  | .messageComplete _ :: cbs => cbs.isEmpty

theorem endsLast_append {a b : List Callback} (h : NoCompletion a) : endsLast (a ++ b) = endsLast b := by
  induction a with
  | nil => rfl
  | cons cb a ih =>
    cases cb with
    | span kind text => exact ih fun p hp => h p (List.mem_cons_of_mem _ hp)
    | messageComplete p => exact absurd List.mem_cons_self (h p)

/-- Then the callbacks are those of one message, if they hold an end at all. -/
theorem exists_of_endsLast {cbs : List Callback} (h : endsLast cbs = true) {p : Completion}
    (hp : .messageComplete p ∈ cbs) : ∃ front, NoCompletion front ∧ cbs = front ++ [.messageComplete p] := by
  induction cbs with
  | nil => cases hp
  | cons cb cbs ih =>
    cases cb with
    | span kind text =>
      obtain ⟨front, hfront, rfl⟩ := ih h (by simpa using hp)
      exact ⟨.span kind text :: front, by simpa [NoCompletion] using hfront, rfl⟩
    | messageComplete q =>
      obtain rfl : cbs = [] := List.isEmpty_iff.mp h
      rw [List.mem_singleton.mp hp]
      exact ⟨[], by simp [NoCompletion], rfl⟩

/-- No callback takes the end of a message back. -/
theorem messageComplete_kept {M : Type} (ops : MessageOps M) (cbs : List Callback) {c : Collector M}
    (h : c.messageComplete = true) : (cbs.foldl (Collector.onCallback ops) c).messageComplete = true := by
  induction cbs generalizing c with
  | nil => exact h
  | cons cb cbs ih =>
    refine ih ?_
    cases cb with
    | span kind text => exact (onSpan_messageComplete ops c kind text).trans h
    | messageComplete p => rfl

namespace MessageParser

variable {L : Llhttp} {M : Type} (ops : ParserOps M)

/-- The parser that has executed the chunks, starting fresh. -/
def executed (chunks : List Bytes) : MessageParser L M where
  parser := L.after (L.init ops.parserType) chunks
  collector := (L.trace (L.init ops.parserType) chunks).foldl (Collector.onCallback ops.toMessageOps)
    { message := ops.fresh }

theorem execute_executed (chunks : List Bytes) (data : Bytes) :
    ((executed ops chunks : MessageParser L M).execute ops data).1 = executed ops (chunks ++ [data]) := by
  simp only [execute, executed, Llhttp.trace_append, Llhttp.trace, Llhttp.after, List.foldl_append,
    List.foldl_cons, List.foldl_nil, List.append_nil]

/-- The parser has executed `chunks`, which are the bytes received but for those that came when a message
was complete. -/
structure Fed (p : MessageParser L M) (chunks received : List Bytes) : Prop where
  initial : chunks <+: received
  state : p = executed ops chunks
  all : p.collector.messageComplete = false → chunks = received

def Follows (p : MessageParser L M) (received : List Bytes) : Prop := ∃ chunks, p.Fed ops chunks received

/-- Executing the data, llhttp reports nothing behind the end of a message. A parser that has a message
executes nothing. -/
def EndsLast (p : MessageParser L M) (data : Bytes) : Prop :=
  p.collector.messageComplete = false → endsLast (L.execute p.parser data).2.1 = true

instance (p : MessageParser L M) (data : Bytes) : Decidable (p.EndsLast data) :=
  inferInstanceAs (Decidable (_ → _))

/-- The parser follows the bytes received; if `E`, nothing was reported behind the end of a message. -/
def Tracks (E : Prop) (p : MessageParser L M) (received : List Bytes) : Prop :=
  ∃ chunks, p.Fed ops chunks received ∧ (E → endsLast (L.trace (L.init ops.parserType) chunks) = true)

variable {ops} {p : MessageParser L M} {chunks received : List Bytes} {E : Prop}

theorem Fed.reset : Fed ops (reset ops : MessageParser L M) [] [] := ⟨List.prefix_refl _, rfl, fun _ => rfl⟩

/-- More bytes are received and fed. -/
theorem Fed.feed (h : p.Fed ops chunks received) (data : Bytes) :
    (p.feed ops data).1.Fed ops (if p.collector.messageComplete then chunks else chunks ++ [data])
      (received ++ [data]) := by
  obtain ⟨hpre, hp, hall⟩ := h
  unfold MessageParser.feed
  split
  · rename_i hcomplete
    refine ⟨hpre.trans (List.prefix_append _ _), hp, fun hnot => ?_⟩
    rw [hcomplete] at hnot
    cases hnot
  · rename_i hcomplete
    have hchunks := hall (Bool.eq_false_iff.mpr hcomplete)
    subst hchunks hp
    exact ⟨List.prefix_refl _, execute_executed ops chunks data, fun _ => rfl⟩

theorem Follows.reset : Follows ops (reset ops : MessageParser L M) [] := ⟨[], .reset⟩

theorem Follows.feed (h : p.Follows ops received) (data : Bytes) :
    (p.feed ops data).1.Follows ops (received ++ [data]) := by
  obtain ⟨chunks, hfed⟩ := h
  exact ⟨_, hfed.feed data⟩

/-- A parser without a message has seen no end of one. -/
theorem Fed.noCompletion (h : p.Fed ops chunks received) (hnot : p.collector.messageComplete = false) :
    NoCompletion (L.trace (L.init ops.parserType) chunks) := by
  obtain ⟨-, rfl, -⟩ := h
  intro q hq
  obtain ⟨front, rest, hsplit⟩ := List.append_of_mem hq
  have htrue : (executed ops chunks : MessageParser L M).collector.messageComplete = true := by
    rw [executed, hsplit, List.foldl_append]
    exact messageComplete_kept _ rest rfl
  rw [hnot] at htrue
  cases htrue

/-- And one with a message has seen its end. -/
theorem Fed.completion (h : p.Fed ops chunks received) (hcomplete : p.collector.messageComplete = true) :
    ∃ q, .messageComplete q ∈ L.trace (L.init ops.parserType) chunks := by
  obtain ⟨-, rfl, -⟩ := h
  by_contra hnone
  have hnever := messageComplete_of_noCompletion ops.toMessageOps (fun q hq => hnone ⟨q, hq⟩)
    { message := ops.fresh }
  exact Bool.false_ne_true (hnever.symm.trans hcomplete)

theorem Tracks.follows (h : p.Tracks ops E received) : p.Follows ops received := by
  obtain ⟨chunks, hfed, -⟩ := h
  exact ⟨chunks, hfed⟩

theorem Tracks.reset : Tracks ops E (reset ops : MessageParser L M) [] := ⟨[], .reset, fun _ => rfl⟩

theorem Tracks.feed (h : p.Tracks ops E received) {data : Bytes} (hends : E → p.EndsLast data) :
    (p.feed ops data).1.Tracks ops E (received ++ [data]) := by
  obtain ⟨chunks, hfed, hlast⟩ := h
  refine ⟨_, hfed.feed data, fun hE => ?_⟩
  split
  · exact hlast hE
  · rename_i hnot
    have hnot := Bool.eq_false_iff.mpr hnot
    rw [Llhttp.trace_append, endsLast_append (hfed.noCompletion hnot)]
    have hdata := hends hE hnot
    obtain ⟨-, rfl, -⟩ := hfed
    simpa [Llhttp.trace, executed] using hdata

end MessageParser

theorem commitHeader_body (c : Collector HttpResponse) :
    (c.commitHeader responseOps.toMessageOps).message.body = c.message.body := by
  unfold Collector.commitHeader
  split <;> rfl

theorem onCallback_body (c : Collector HttpResponse) (cb : Callback) :
    (c.onCallback responseOps.toMessageOps cb).message.body =
      cb.bodyText.toList.foldl appendBody c.message.body := by
  cases cb with
  | messageComplete p => exact commitHeader_body c
  | span kind text =>
    cases kind with
    | headerField =>
      simp only [Collector.onCallback, Collector.onSpan, Collector.onHeaderField]
      split
      · rfl
      · exact commitHeader_body c
    | _ => rfl

theorem collected_body (cbs : List Callback) (c : Collector HttpResponse) :
    (cbs.foldl (Collector.onCallback responseOps.toMessageOps) c).message.body =
      (cbs.filterMap Callback.bodyText).foldl appendBody c.message.body := by
  induction cbs generalizing c with
  | nil => rfl
  | cons cb cbs ih =>
    rw [List.foldl_cons, ih, onCallback_body]
    cases hcb : cb.bodyText <;> simp [hcb]

namespace HttpParser

variable {L : Llhttp} {p q : HttpParser L} {received : List Bytes} {data : Bytes}

theorem takeRequest_response {request : Option HttpRequest} (h : p.takeRequest = (request, q)) :
    q.responseParser = p.responseParser := by
  have hq : p.takeRequest.2 = q := congrArg Prod.snd h
  rw [← hq]
  rfl

theorem feedResponse_complete (h : (p.feedResponse data).2 = true) :
    (p.feedResponse data).1.responseParser.collector.messageComplete = true := by
  have hfeed : (p.responseParser.feed responseOps data).2 = true := h
  show (p.responseParser.feed responseOps data).1.collector.messageComplete = true
  unfold MessageParser.feed at hfeed ⊢
  split
  · assumption
  · rename_i hnot
    rw [if_neg hnot] at hfeed
    exact (Bool.and_eq_true_iff.mp hfeed).2

theorem takeResponse_complete (h : p.responseParser.collector.messageComplete = true) :
    p.takeResponse = (some p.responseParser.collector.message, p.takeResponse.2) := by
  simp only [takeResponse, MessageParser.take, if_pos h]

theorem takeResponse_some {response : HttpResponse} (h : p.takeResponse = (some response, q)) :
    p.responseParser.collector.messageComplete = true ∧
      response = p.responseParser.collector.message := by
  have htake : (p.responseParser.take responseOps).1 = some response := congrArg Prod.fst h
  unfold MessageParser.take at htake
  split at htake
  · exact ⟨‹_›, (Option.some.inj htake).symm⟩
  · cases htake

theorem takeResponse_none (h : p.takeResponse = (none, q)) : q = p := by
  have htake : (p.responseParser.take responseOps).1 = none := congrArg Prod.fst h
  have hq : p.takeResponse.2 = q := congrArg Prod.snd h
  rw [← hq]
  show { p with responseParser := (p.responseParser.take responseOps).2 } = p
  unfold MessageParser.take at htake ⊢
  split
  · rename_i hcomplete
    rw [if_pos hcomplete] at htake
    cases htake
  · rfl

end HttpParser

end BurpTUI
