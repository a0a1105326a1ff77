import BurpTUI.Http.Script
import BurpTUI.Http.TakenMessages
import Mathlib.Data.List.Forall2

namespace BurpTUI

section Keeps

def HoldsRequest (r : HttpRequest) (d : Content) : Prop :=
  r.url = d.url ∧ r.headers = d.headers ∧ r.body = d.body ∧ r.rawOverride = []

theorem requestOps_keeps : requestOps.Keeps HoldsRequest where
  fresh := ⟨rfl, rfl, rfl, rfl⟩
  onUrl _ _ text h := ⟨congrArg (· ++ text) h.1, h.2⟩
  onStatus _ _ _ h := h
  pushHeader _ _ hd h := ⟨h.1, congrArg (· ++ [hd]) h.2.1, h.2.2⟩
  onBody _ _ text h := ⟨h.1, h.2.1, congrArg (· ++ text) h.2.2.1, h.2.2.2⟩
  onComplete _ _ _ h := h

/-- What is kept of a body: all of it up to the limit, else the part up to the limit. Whether the
mark stands behind it depends on where llhttp cuts the body. -/
def KeptBody (body kept : Bytes) : Prop :=
  if body.length ≤ maxBodySize then kept = body
  else kept = body.take maxBodySize ∨ kept = body.take maxBodySize ++ truncationMark

theorem KeptBody.append {body kept : Bytes} (h : KeptBody body kept) (text : Bytes) :
    KeptBody (body ++ text) (appendBody kept text) := by
  unfold KeptBody at h
  unfold KeptBody appendBody
  rw [List.length_append]
  split at h
  · rename_i hle
    subst h
    -- nothing is cut yet: the text fits, is cut, or finds no room
    by_cases hlt : kept.length < maxBodySize
    · rw [if_pos hlt]
      by_cases hfit : text.length ≤ maxBodySize - kept.length
      · have hmin : min text.length (maxBodySize - kept.length) = text.length := by omega
        have hsum : kept.length + text.length ≤ maxBodySize := by omega
        simp [hmin, hsum]
      · have hmin : min text.length (maxBodySize - kept.length) = maxBodySize - kept.length := by
          omega
        have hsum : ¬ kept.length + text.length ≤ maxBodySize := by omega
        have hcut : maxBodySize - kept.length < text.length := by omega
        have htake : kept.take maxBodySize = kept := List.take_of_length_le hle
        simp [hmin, hcut, hsum, List.take_append, htake]
    · rw [if_neg hlt]
      have heq : kept.length = maxBodySize := by omega
      by_cases hnil : text = []
      · simp [hnil, hle]
      · have hpos : 0 < text.length := List.length_pos_iff.mpr hnil
        have hsum : ¬ kept.length + text.length ≤ maxBodySize := by omega
        rw [if_neg hsum, List.take_append, List.take_of_length_le hle, heq]
        simp
  · rename_i hgt
    -- the limit was passed before, so the text is dropped
    have hbody : body.take maxBodySize = (body ++ text).take maxBodySize := by
      rw [List.take_append_of_le_length (by omega)]
    have hlen : (body.take maxBodySize).length = maxBodySize := by
      rw [List.length_take]
      omega
    have hkept : ¬ kept.length < maxBodySize := by
      rcases h with rfl | rfl
      · omega
      · rw [List.length_append]
        omega
    rw [if_neg (by omega), if_neg hkept, ← hbody]
    exact h

def HoldsResponse (r : HttpResponse) (d : Content) : Prop :=
  r.statusText = d.statusText ∧ r.headers = d.headers ∧ KeptBody d.body r.body

theorem responseOps_keeps : responseOps.Keeps HoldsResponse where
  fresh := ⟨rfl, rfl, by simp [KeptBody, responseOps]⟩
  onUrl _ _ _ h := h
  onStatus _ _ text h := ⟨congrArg (· ++ text) h.1, h.2⟩
  pushHeader _ _ hd h := ⟨h.1, congrArg (· ++ [hd]) h.2.1, h.2.2⟩
  onBody _ _ text h := ⟨h.1, h.2.1, h.2.2.append text⟩
  onComplete _ _ _ h := h

/-- The response that is taken for `m`: its body is cut for the UI if it is too long. -/
def CutForUi (m : ResponseMessage) (r : HttpResponse) : Prop :=
  r = { m.response with body := r.body } ∧ KeptBody m.body.data r.body

theorem request_of_taken {m : RequestMessage} {r : HttpRequest} (hn : m.message.NamesGiven)
    (h : TakenFrom requestOps HoldsRequest m.message r) : r = m.request := by
  obtain ⟨hholds, x, rfl⟩ := h
  rw [RequestMessage.collect_pieces hn] at hholds
  obtain ⟨hurl, hheaders, hbody, hraw⟩ := hholds
  simp only [requestOps] at hurl hheaders hbody hraw ⊢
  simp [RequestMessage.request, hurl, hheaders, hbody, hraw, RequestMessage.content,
    RequestMessage.message, RequestMessage.parser]

theorem response_of_taken {m : ResponseMessage} {r : HttpResponse} (hn : m.message.NamesGiven)
    (h : TakenFrom responseOps HoldsResponse m.message r) : CutForUi m r := by
  obtain ⟨hholds, x, rfl⟩ := h
  rw [ResponseMessage.collect_pieces hn] at hholds
  obtain ⟨hstatus, hheaders, hbody⟩ := hholds
  refine ⟨?_, hbody⟩
  simp only [responseOps] at hstatus hheaders ⊢
  simp [ResponseMessage.response, hstatus, hheaders, ResponseMessage.content,
    ResponseMessage.message, ResponseMessage.parser]

end Keeps

section Sequence

variable {L : Llhttp} {At : L.State → List Piece → Prop}

theorem regular_requestStart (m : RequestMessage) : Regular m.message.start := by
  simp [Regular, RequestMessage.message, Piece.isComplete]

theorem regular_responseStart (m : ResponseMessage) : Regular m.message.start :=
  (regular_silent _).append ((regular_optionalSpan (by decide) (by decide) m.statusText).append
    (regular_silent _))

theorem takeRequests_aligned (hL : L.Reads At) {ms : List RequestMessage} {chunks : List Bytes}
    (hms : ∀ m ∈ ms, m.message.NamesGiven ∧ At (L.init .request) m.message.pieces)
    (hal : Aligned (ms.map fun m => m.message.wire) chunks) :
    (HttpParser.new : HttpParser L).takeRequests chunks = ms.map RequestMessage.request := by
  have hread : ∀ m ∈ ms.map RequestMessage.message, Readable At requestOps.parserType m := by
    intro m hm
    obtain ⟨r, hr, rfl⟩ := List.mem_map.mp hm
    exact ⟨regular_requestStart r, (hms r hr).2⟩
  have htaken := takeEach_aligned hL requestOps_keeps hread (by rwa [List.map_map])
  rw [List.forall₂_map_left_iff] at htaken
  have heq : List.Forall₂ (· = ·) (ms.map RequestMessage.request)
      ((HttpParser.new : HttpParser L).takeRequests chunks) := by
    rw [List.forall₂_map_left_iff, HttpParser.takeRequests_eq]
    have hboth := (List.forall₂_and_left _ _).mpr ⟨hms, htaken⟩
    exact hboth.imp fun m r h => (request_of_taken h.1.1 h.2).symm
  rw [List.forall₂_eq_eq_eq] at heq
  exact heq.symm

theorem readable_responses {ms : List ResponseMessage}
    (hms : ∀ m ∈ ms, m.message.NamesGiven ∧ At (L.init .response) m.message.pieces) :
    ∀ m ∈ ms.map ResponseMessage.message, Readable At responseOps.parserType m := by
  intro m hm
  obtain ⟨r, hr, rfl⟩ := List.mem_map.mp hm
  exact ⟨regular_responseStart r, (hms r hr).2⟩

theorem cutForUi_of_taken {ms : List ResponseMessage} {rs : List HttpResponse}
    (hms : ∀ m ∈ ms, m.message.NamesGiven ∧ At (L.init .response) m.message.pieces)
    (h : List.Forall₂ (TakenFrom responseOps HoldsResponse) (ms.map ResponseMessage.message) rs) :
    List.Forall₂ CutForUi ms rs := by
  rw [List.forall₂_map_left_iff] at h
  have hboth := (List.forall₂_and_left _ _).mpr ⟨hms, h⟩
  exact hboth.imp fun m r h => response_of_taken h.1.1 h.2

theorem takeResponses_aligned (hL : L.Reads At) {ms : List ResponseMessage} {chunks : List Bytes}
    (hms : ∀ m ∈ ms, m.message.NamesGiven ∧ At (L.init .response) m.message.pieces)
    (hal : Aligned (ms.map fun m => m.message.wire) chunks) :
    List.Forall₂ CutForUi ms ((HttpParser.new : HttpParser L).takeResponses chunks) := by
  rw [HttpParser.takeResponses_eq]
  apply cutForUi_of_taken hms
  exact takeEach_aligned hL responseOps_keeps (readable_responses hms) (by rwa [List.map_map])

/-- The last response is read until the connection ends, which nobody tells llhttp. -/
theorem takeResponses_unendedLast (hL : L.Reads At) {ms : List ResponseMessage} {last : ResponseMessage}
    {chunks : List Bytes} (hms : ∀ m ∈ ms, m.message.NamesGiven ∧ At (L.init .response) m.message.pieces)
    (hlast : At (L.init .response) last.message.core)
    (hal : Aligned ((ms ++ [last]).map fun m => m.message.wire) chunks) :
    List.Forall₂ CutForUi ms ((HttpParser.new : HttpParser L).takeResponses chunks) := by
  rw [HttpParser.takeResponses_eq]
  apply cutForUi_of_taken hms
  have hal : Aligned ((ms.map ResponseMessage.message ++ [last.message]).map WireMessage.wire) chunks := by
    rw [List.map_append, List.map_map]
    rwa [List.map_append] at hal
  exact takeEach_unendedLast hL responseOps_keeps (readable_responses hms) (regular_responseStart last) hlast hal

/-- If no feed gets bytes of two messages, the messages whose end llhttp reports with their last byte are
taken one by one, in order and whole, except that the body of a long response is cut. Behind the responses
may come one that only the end of the connection ends. -/
theorem messages_taken_in_order (hL : L.Reads At) :
    (∀ (ms : List RequestMessage) (chunks : List Bytes),
      (∀ m ∈ ms, m.message.NamesGiven ∧ At (L.init .request) m.message.pieces) →
      Aligned (ms.map fun m => m.message.wire) chunks →
      (HttpParser.new : HttpParser L).takeRequests chunks = ms.map RequestMessage.request) ∧
    (∀ (ms : List ResponseMessage) (chunks : List Bytes),
      (∀ m ∈ ms, m.message.NamesGiven ∧ At (L.init .response) m.message.pieces) →
      Aligned (ms.map fun m => m.message.wire) chunks →
      List.Forall₂ CutForUi ms ((HttpParser.new : HttpParser L).takeResponses chunks)) ∧
    ∀ (ms : List ResponseMessage) (last : ResponseMessage) (chunks : List Bytes),
      (∀ m ∈ ms, m.message.NamesGiven ∧ At (L.init .response) m.message.pieces) →
      At (L.init .response) last.message.core →
      Aligned ((ms ++ [last]).map fun m => m.message.wire) chunks →
      List.Forall₂ CutForUi ms ((HttpParser.new : HttpParser L).takeResponses chunks) :=
  ⟨fun _ _ hms hal => takeRequests_aligned hL hms hal, fun _ _ hms hal => takeResponses_aligned hL hms hal,
    fun _ _ _ hms hlast hal => takeResponses_unendedLast hL hms hlast hal⟩

end Sequence

section Examples

def getA : RequestMessage :=
  { method := str "GET", url := str "/a", fields := [{ name := str "Host", value := str "a" }]
    body := .plain [] }

def okResponse (body : Bytes) : ResponseMessage :=
  { statusCode := 200, statusText := str "OK", fields := [], body := .plain body }

/-- Two requests, and one response. -/
def sampleScript (body : Bytes) : ParserType → List Piece
  | .request => getA.message.pieces ++ getA.message.pieces
  | .response => (okResponse body).message.pieces

theorem ahead_getA (body : Bytes) :
    Ahead (sampleScript body .request) getA.message.pieces := by
  refine ⟨getA.message.pieces, .inr ⟨71, str "ET ", ?_⟩, rfl⟩
  exact ⟨getA.message.pieces.tail, rfl⟩

theorem ahead_okResponse (body : Bytes) :
    Ahead (sampleScript body .response) (okResponse body).message.pieces :=
  ⟨[], .inl rfl, by simp [sampleScript]⟩

theorem getA_namesGiven : getA.message.NamesGiven := by
  unfold WireMessage.NamesGiven
  decide

theorem okResponse_namesGiven (body : Bytes) : (okResponse body).message.NamesGiven := by
  intro f hf
  cases hf

/-- A response of which llhttp does not see the end. -/
def closingScript (m : ResponseMessage) : ParserType → List Piece
  | .request => []
  | .response => m.message.core

theorem ahead_closing (m : ResponseMessage) : Ahead (closingScript m .response) m.message.core :=
  ⟨[], .inl rfl, (List.append_nil _).symm⟩

theorem messages_taken_in_order_getA :
    (HttpParser.new : HttpParser (scripted (sampleScript (str "ok")))).takeRequests
        [getA.message.wire.take 3, getA.message.wire.drop 3, getA.message.wire] =
      [getA.request, getA.request] ∧
    List.Forall₂ CutForUi [okResponse (str "ok")]
      ((HttpParser.new : HttpParser (scripted (sampleScript (str "ok")))).takeResponses
        [(okResponse (str "ok")).message.wire]) ∧
    List.Forall₂ CutForUi []
      ((HttpParser.new : HttpParser (scripted (closingScript (okResponse (str "ok"))))).takeResponses
        [(okResponse (str "ok")).message.wire]) := by
  obtain ⟨hreq, hres, -⟩ := messages_taken_in_order (scripted_reads (sampleScript (str "ok")))
  obtain ⟨-, -, hclosing⟩ := messages_taken_in_order (scripted_reads (closingScript (okResponse (str "ok"))))
  refine ⟨?_, ?_, ?_⟩
  · refine hreq [getA, getA] _ (fun m hm => ?_) ⟨[[_, _], [_]], rfl, by decide⟩
    simp only [List.mem_cons, List.not_mem_nil, or_false, or_self] at hm
    exact hm ▸ ⟨getA_namesGiven, ahead_getA (str "ok")⟩
  · refine hres [okResponse (str "ok")] _ (fun m hm => ?_) ⟨[[_]], rfl, by decide⟩
    rw [List.mem_singleton.mp hm]
    exact ⟨okResponse_namesGiven _, ahead_okResponse _⟩
  · exact hclosing [] (okResponse (str "ok")) _ (List.forall_mem_nil _) (ahead_closing _)
      ⟨[[_]], rfl, by decide⟩

/-- The requests taken are the messages, however their bytes are divided. -/
def RequestsTakenExactly (L : Llhttp) (At : L.State → List Piece → Prop) : Prop :=
  ∀ (ms : List RequestMessage) (chunks : List Bytes), (∀ m ∈ ms, m.message.NamesGiven) →
    (∀ t, t <:+ ms → At (L.init .request) (t.flatMap fun m => m.message.pieces)) →
    chunks.flatten = ms.flatMap (fun m => m.message.wire) →
    (HttpParser.new : HttpParser L).takeRequests chunks = ms.map RequestMessage.request

def ResponsesTakenExactly (L : Llhttp) (At : L.State → List Piece → Prop) : Prop :=
  ∀ (ms : List ResponseMessage) (chunks : List Bytes), (∀ m ∈ ms, m.message.NamesGiven) →
    (∀ t, t <:+ ms → At (L.init .response) (t.flatMap fun m => m.message.pieces)) →
    chunks.flatten = ms.flatMap (fun m => m.message.wire) →
    (HttpParser.new : HttpParser L).takeResponses chunks = ms.map ResponseMessage.response

/-- A response that the end of the connection ends is taken like the others. -/
def ClosingTaken (L : Llhttp) (At : L.State → List Piece → Prop) : Prop :=
  ∀ (m : ResponseMessage) (chunks : List Bytes), m.message.NamesGiven →
    At (L.init .response) m.message.core → chunks.flatten = m.message.wire →
    (HttpParser.new : HttpParser L).takeResponses chunks = [m.response]

theorem not_closingTaken : ¬ ClosingTaken (scripted (closingScript (okResponse (str "ok")))) Ahead := by
  intro h
  have htaken := h (okResponse (str "ok")) [(okResponse (str "ok")).message.wire] (okResponse_namesGiven _)
    (ahead_closing _) (by simp)
  exact absurd htaken (by decide)

theorem not_keptBody {body : Bytes} (hlen : body.length = maxBodySize + 1) :
    ¬ KeptBody body body := by
  have hmark : truncationMark.length = 33 := by decide
  intro h
  rw [KeptBody, if_neg (by omega)] at h
  rcases h with h | h
  · have hl := congrArg List.length h
    rw [List.length_take] at hl
    omega
  · have hl := congrArg List.length h
    rw [List.length_append, List.length_take] at hl
    omega

theorem not_requestsTakenExactly : ¬ RequestsTakenExactly (scripted (sampleScript [])) Ahead := by
  intro h
  have htaken := h [getA, getA] [getA.message.wire ++ getA.message.wire]
    (by simp [getA_namesGiven]) ?_ (by simp)
  · exact absurd htaken (by decide)
  · intro t ht
    show Ahead (sampleScript [] .request) _
    rcases List.suffix_cons_iff.mp ht with rfl | ht
    · exact ⟨[], .inl rfl, by simp [sampleScript]⟩
    · rcases List.suffix_cons_iff.mp ht with rfl | ht
      · simpa using ahead_getA []
      · rw [List.suffix_nil.mp ht]
        exact ⟨sampleScript [] .request, .inr ⟨71, str "ET ", _, rfl⟩, rfl⟩

theorem not_responsesTakenExactly {body : Bytes} (hb : ¬ KeptBody body body) :
    ¬ ResponsesTakenExactly (scripted (sampleScript body)) Ahead := by
  intro h
  have hahead : ∀ t, t <:+ [okResponse body] →
      Ahead (sampleScript body .response) (t.flatMap fun m => m.message.pieces) := by
    intro t ht
    rcases List.suffix_cons_iff.mp ht with rfl | ht
    · simpa using ahead_okResponse body
    · rw [List.suffix_nil.mp ht]
      exact ⟨sampleScript body .response, .inr ⟨72, _, _, rfl⟩, rfl⟩
  have hread : ∀ m ∈ [okResponse body], m.message.NamesGiven ∧
      Ahead (sampleScript body .response) m.message.pieces := by
    intro m hm
    rw [List.mem_singleton.mp hm]
    exact ⟨okResponse_namesGiven body, ahead_okResponse body⟩
  have htaken := h [okResponse body] [(okResponse body).message.wire]
    (fun m hm => (hread m hm).1) hahead (by simp)
  have hcut := takeResponses_aligned (scripted_reads (sampleScript body)) hread
    ⟨[[(okResponse body).message.wire]], rfl, by simp⟩
  simp only [List.flatten_cons, List.flatten_nil, List.append_nil] at hcut
  rw [htaken, List.map_cons, List.map_nil, List.forall₂_cons] at hcut
  exact hb hcut.1.2

/-- Two requests in one chunk come out as one, a long response comes out cut, and a response that the end
of the connection ends does not come out. -/
theorem messages_not_taken_exactly :
    (¬ ∀ (L : Llhttp) (At : L.State → List Piece → Prop), L.Reads At →
      RequestsTakenExactly L At) ∧
    (¬ ∀ (L : Llhttp) (At : L.State → List Piece → Prop), L.Reads At →
      ResponsesTakenExactly L At) ∧
    ¬ ∀ (L : Llhttp) (At : L.State → List Piece → Prop), L.Reads At → ClosingTaken L At :=
  ⟨fun h => not_requestsTakenExactly (h _ _ (scripted_reads _)),
    fun h => not_responsesTakenExactly
      (not_keptBody (List.length_replicate (n := maxBodySize + 1) (a := 0)))
      (h _ _ (scripted_reads _)),
    fun h => not_closingTaken (h _ _ (scripted_reads _))⟩

end Examples

end BurpTUI
