import BurpTUI.Http.Wire

namespace BurpTUI

section Delivers

variable {ps ps' : List Piece} {data : Bytes} {cbs : List Callback}

theorem wireOf_append (ps qs : List Piece) : wireOf (ps ++ qs) = wireOf ps ++ wireOf qs := by
  simp [wireOf]

theorem wireOf_cons (p : Piece) (ps : List Piece) : wireOf (p :: ps) = p.bytes ++ wireOf ps := by
  simp [wireOf]

theorem Delivers.bytes (h : Delivers ps data cbs ps') : wireOf ps = data ++ wireOf ps' := by
  induction h with
  | stop => rfl
  | skip _ ih => simpa [wireOf_cons, Piece.bytes] using ih
  | silent _ ih => simpa [wireOf_cons, Piece.bytes] using ih
  | span _ ih => simpa [wireOf_cons, Piece.bytes] using ih
  | endSpan _ ih => simpa [wireOf_cons, Piece.bytes] using ih
  | complete _ ih => simpa [wireOf_cons, Piece.bytes] using ih

def NoCompletion (cbs : List Callback) : Prop := ∀ p, .messageComplete p ∉ cbs

/-- Pieces of one message without its end. -/
def Inner (core : List Piece) : Prop := ∀ p ∈ core, p.isComplete = false

theorem Inner.tail {p : Piece} {core : List Piece} (h : Inner (p :: core)) : Inner core :=
  fun q hq => h q (by simp [hq])

theorem Inner.cons {p : Piece} {core : List Piece} (hp : p.isComplete = false)
    (h : Inner core) : Inner (p :: core) := by
  intro q hq
  rcases List.mem_cons.mp hq with rfl | hq
  · exact hp
  · exact h q hq

theorem completionDue_of_empty {core : List Piece} (p : Completion) (more : List Piece)
    (hw : wireOf core = []) : completionDue (core ++ .complete p :: more) = true := by
  induction core with
  | nil => rfl
  | cons q core ih =>
    rw [wireOf_cons, List.append_eq_nil_iff] at hw
    cases q with
    | complete _ => rfl
    | silent _ => simpa [completionDue, hw.1] using ih hw.2
    | span _ _ _ => simpa [completionDue, hw.1] using ih hw.2

/-- A piece that ends no message comes from `core`. -/
theorem core_of_cons {core tail ps : List Piece} {q : Piece} (hq : q.isComplete = false)
    (htail : ∀ q ∈ tail.head?, q.isComplete = true) (h : core ++ tail = q :: ps) :
    ∃ core', core = q :: core' ∧ core' ++ tail = ps := by
  cases core with
  | nil =>
    have hend := htail q (by rw [show tail = q :: ps from h]; rfl)
    rw [hq] at hend
    cases hend
  | cons q' core' =>
    obtain ⟨rfl, hrest⟩ := List.cons.inj h
    exact ⟨core', rfl, hrest⟩

/-- The end of a message is reported when all its bytes have come, and only then. Nothing may stand
behind `core`, or the end of the message and more. -/
theorem Delivers.within {core tail : List Piece} (hi : Inner core)
    (htail : ∀ q ∈ tail.head?, q.isComplete = true) (h : Delivers (core ++ tail) data cbs ps') :
    (∃ p more rest cbs₁ cbs₂, tail = .complete p :: more ∧ data = wireOf core ++ rest ∧
        cbs = cbs₁ ++ .messageComplete p :: cbs₂ ∧ Delivers more rest cbs₂ ps') ∨
      ∃ core', ps' = core' ++ tail ∧ Inner core' ∧ NoCompletion cbs ∧
        (tail ≠ [] → wireOf core' ≠ []) := by
  generalize hps : core ++ tail = ps at h
  induction h generalizing core with
  | stop hdue =>
    -- no completion is due, so bytes of the core are left
    refine .inr ⟨core, hps.symm, hi, by simp [NoCompletion], fun hne hw => ?_⟩
    obtain ⟨q, more, rfl⟩ := List.exists_cons_of_ne_nil hne
    have hq := htail q rfl
    cases q with
    | complete p =>
      rw [← hps, completionDue_of_empty p more hw] at hdue
      cases hdue
    | silent bytes => cases hq
    | span kind begun text => cases hq
  | skip _ ih =>
    obtain ⟨core, rfl, hcore⟩ := core_of_cons rfl htail hps
    simpa [wireOf_cons, Piece.bytes] using ih hi.tail hcore
  | silent _ ih =>
    obtain ⟨core, rfl, hcore⟩ := core_of_cons rfl htail hps
    refine (ih (hi.tail.cons rfl) (by rw [List.cons_append, hcore])).imp_left ?_
    rintro ⟨p, more, rest, cbs₁, cbs₂, htail, hdata, hcbs, hrest⟩
    refine ⟨p, more, rest, cbs₁, cbs₂, htail, ?_, hcbs, hrest⟩
    simp [hdata, wireOf_cons, Piece.bytes]
  | span _ ih =>
    obtain ⟨core, rfl, hcore⟩ := core_of_cons rfl htail hps
    rcases ih (hi.tail.cons rfl) (by rw [List.cons_append, hcore]) with hend | hmore
    · obtain ⟨p, more, rest, cbs₁, cbs₂, htail, hdata, hcbs, hrest⟩ := hend
      refine .inl ⟨p, more, rest, _ :: cbs₁, cbs₂, htail, ?_, by rw [hcbs, List.cons_append], hrest⟩
      simp [hdata, wireOf_cons, Piece.bytes]
    · obtain ⟨core', hps', hin, hno, hne⟩ := hmore
      exact .inr ⟨core', hps', hin, by simpa [NoCompletion] using hno, hne⟩
  | endSpan _ ih =>
    obtain ⟨core, rfl, hcore⟩ := core_of_cons rfl htail hps
    simpa [wireOf_cons, Piece.bytes] using ih hi.tail hcore
  | complete hd ih =>
    -- the core has no completion: this is the one behind it
    cases core with
    | nil => exact .inl ⟨_, _, _, [], _, hps, rfl, rfl, hd⟩
    | cons q core =>
      obtain ⟨hq, -⟩ := List.cons.inj hps
      have hinner := hi q (by simp)
      rw [hq] at hinner
      cases hinner

/-- The end of a message is reported with its last byte, and only then. -/
theorem Delivers.inner {core : List Piece} {p : Completion} (hi : Inner core)
    (h : Delivers (core ++ [.complete p]) data cbs ps') :
    (ps' = [] ∧ ∃ cbs', cbs = cbs' ++ [.messageComplete p]) ∨
      ∃ core', ps' = core' ++ [.complete p] ∧ Inner core' ∧ wireOf core' ≠ [] ∧
        NoCompletion cbs := by
  rcases h.within hi (by simp [Piece.isComplete]) with hend | ⟨core', hps', hin, hno, hne⟩
  · obtain ⟨q, more, rest, cbs₁, cbs₂, htail, -, rfl, hrest⟩ := hend
    obtain ⟨hq, rfl⟩ := List.cons.inj htail
    obtain rfl := Piece.complete.inj hq
    cases hrest
    exact .inl ⟨rfl, cbs₁, rfl⟩
  · exact .inr ⟨core', hps', hin, hne (by simp), hno⟩

end Delivers

/-- The parts of a message, whole. -/
structure Content where
  url : Bytes := []
  statusText : Bytes := []
  headers : List Header := []
  body : Bytes := []
  deriving DecidableEq, Repr

/-- The parser that just collects everything. -/
def contentOps : MessageOps Content where
  fresh := {}
  onUrl c text := { c with url := c.url ++ text }
  onStatus c text := { c with statusText := c.statusText ++ text }
  pushHeader c h := { c with headers := c.headers ++ [h] }
  onBody c text := { c with body := c.body ++ text }
  onComplete c _ := c

/-- What a piece leaves behind, however its text is cut. -/
def collectPiece (c : Collector Content) : Piece → Collector Content
  | .silent _ => c
  | .span kind _ text => c.onSpan contentOps kind text
  | .complete p => c.onMessageComplete contentOps p

def collect (c : Collector Content) (ps : List Piece) : Collector Content :=
  ps.foldl collectPiece c

def deliver (c : Collector Content) (cbs : List Callback) : Collector Content :=
  cbs.foldl (fun c cb => c.onCallback contentOps cb) c

section Collect

variable {c : Collector Content}

theorem onSpan_append (c : Collector Content) (kind : SpanKind) (a b : Bytes) :
    (c.onSpan contentOps kind a).onSpan contentOps kind b =
      c.onSpan contentOps kind (a ++ b) := by
  cases kind <;> simp [Collector.onSpan, Collector.onHeaderField, Collector.onHeaderValue,
    contentOps]

/-- Spans that are not part of a header can be reported empty. -/
theorem onSpan_nil {kind : SpanKind} (c : Collector Content) (hf : kind ≠ .headerField)
    (hv : kind ≠ .headerValue) : c.onSpan contentOps kind [] = c := by
  cases kind
  case headerField => exact absurd rfl hf
  case headerValue => exact absurd rfl hv
  all_goals simp [Collector.onSpan, contentOps]

/-- A span that was begun was reported to `c`, unless it may stay out. -/
def Fits : List Piece → Collector Content → Prop
  | [], _ => True
  | p :: ps, c => (∀ kind text, p = .span kind true text → c.onSpan contentOps kind [] = c) ∧
      ∀ kind text, .span kind true text ∈ ps → kind ≠ .headerField ∧ kind ≠ .headerValue

theorem Fits.tail {p : Piece} {ps : List Piece} (h : Fits (p :: ps) c)
    (d : Collector Content) : Fits ps d := by
  cases ps with
  | nil => trivial
  | cons q ps =>
    refine ⟨fun kind text hq => ?_, fun kind text hm => h.2 kind text (by simp [hm])⟩
    have hfree := h.2 kind text (by simp [hq])
    exact onSpan_nil d hfree.1 hfree.2

/-- Fragmentation does not matter. -/
theorem Delivers.collect {ps ps' : List Piece} {data : Bytes} {cbs : List Callback}
    (h : Delivers ps data cbs ps') (hf : Fits ps c) :
    collect (deliver c cbs) ps' = BurpTUI.collect c ps ∧ Fits ps' (deliver c cbs) := by
  induction h generalizing c with
  | stop _ => exact ⟨rfl, hf⟩
  | skip _ ih => exact ih (hf.tail c)
  | silent _ ih =>
    refine ih ⟨fun kind text hs => ?_, hf.2⟩
    cases hs
  | @span kind begun part text ps _ cbs _ _ ih =>
    have hfit : Fits (.span kind true text :: ps) (c.onSpan contentOps kind part) := by
      refine ⟨fun k t hs => ?_, hf.2⟩
      cases hs
      simpa using onSpan_append c kind part []
    obtain ⟨hc, hf'⟩ := ih hfit
    refine ⟨?_, hf'⟩
    have hstep : deliver c (.span kind part :: cbs) =
        deliver (c.onSpan contentOps kind part) cbs := rfl
    rw [hstep, hc]
    simp [BurpTUI.collect, collectPiece, onSpan_append]
  | @endSpan kind ps _ _ _ _ ih =>
    obtain ⟨hc, hf'⟩ := ih (hf.tail c)
    refine ⟨?_, hf'⟩
    rw [hc]
    simp [BurpTUI.collect, collectPiece, hf.1 kind [] rfl]
  | complete _ ih => exact ih (hf.tail _)

end Collect

section Content

/-- The header that is being collected is a whole one. -/
def Tidy (c : Collector Content) : Prop :=
  c.lastWasField = false ∧ (c.currentHeaderField = [] → c.currentHeaderValue = [])

def settled (c : Collector Content) : Content := (c.commitHeader contentOps).message

theorem collect_append (c : Collector Content) (ps qs : List Piece) :
    collect c (ps ++ qs) = collect (collect c ps) qs :=
  List.foldl_append

theorem collect_field {c : Collector Content} (f : Field) (hc : Tidy c) (hf : f.name ≠ []) :
    Tidy (collect c f.pieces) ∧
      settled (collect c f.pieces) =
        { settled c with headers := (settled c).headers ++ [f.header] } := by
  obtain ⟨hlast, hempty⟩ := hc
  have hcommit : (c.commitHeader contentOps).currentHeaderField = [] ∧
      (c.commitHeader contentOps).currentHeaderValue = [] := by
    unfold Collector.commitHeader
    split
    · exact ⟨rfl, rfl⟩
    · rename_i h
      have hnil := not_not.mp h
      exact ⟨hnil, hempty hnil⟩
  have hpieces : collect c f.pieces = { c.commitHeader contentOps with
      currentHeaderField := f.name, currentHeaderValue := f.value, lastWasField := false } := by
    simp [collect, Field.pieces, collectPiece, Collector.onSpan, Collector.onHeaderField,
      Collector.onHeaderValue, hlast, hcommit]
  rw [hpieces]
  refine ⟨⟨rfl, fun h => absurd h hf⟩, ?_⟩
  simp [settled, Collector.commitHeader, hf, contentOps, Field.header]

theorem collect_fields {c : Collector Content} (fs : List Field) (hc : Tidy c)
    (hf : ∀ f ∈ fs, f.name ≠ []) :
    Tidy (collect c (fs.flatMap Field.pieces)) ∧
      settled (collect c (fs.flatMap Field.pieces)) =
        { settled c with headers := (settled c).headers ++ fs.map Field.header } := by
  induction fs generalizing c with
  | nil => exact ⟨hc, by simp [collect]⟩
  | cons f fs ih =>
    have h1 := collect_field f hc (hf f (by simp))
    have h2 := ih h1.1 fun g hg => hf g (by simp [hg])
    rw [List.flatMap_cons, collect_append]
    refine ⟨h2.1, ?_⟩
    rw [h2.2, h1.2]
    simp

theorem collect_body {c : Collector Content} (text : Bytes) (begun : Bool) (hc : Tidy c) :
    Tidy (collect c [.span .body begun text]) ∧
      settled (collect c [.span .body begun text]) =
        { settled c with body := (settled c).body ++ text } := by
  refine ⟨hc, ?_⟩
  by_cases h : c.currentHeaderField = []
  · simp [collect, collectPiece, Collector.onSpan, settled, Collector.commitHeader, contentOps, h]
  · simp [collect, collectPiece, Collector.onSpan, settled, Collector.commitHeader, contentOps, h]

theorem collect_chunks {c : Collector Content} (chunks : List (Bytes × Bytes)) (hc : Tidy c) :
    Tidy (collect c (chunks.flatMap WireBody.chunkPieces)) ∧
      settled (collect c (chunks.flatMap WireBody.chunkPieces)) =
        { settled c with body := (settled c).body ++ chunks.flatMap Prod.snd } := by
  induction chunks generalizing c with
  | nil => exact ⟨hc, by simp [collect]⟩
  | cons chunk chunks ih =>
    have h1 := collect_body chunk.2 (chunk.2 == []) hc
    have h2 := ih h1.1
    rw [List.flatMap_cons, collect_append]
    refine ⟨h2.1, ?_⟩
    have hstep : collect c (WireBody.chunkPieces chunk) =
        collect c [.span .body (chunk.2 == []) chunk.2] := rfl
    rw [hstep, h2.2, h1.2]
    simp

theorem collect_wireBody {c : Collector Content} (b : WireBody) (hc : Tidy c)
    (hf : ∀ f ∈ b.trailers, f.name ≠ []) :
    Tidy (collect c b.pieces) ∧
      settled (collect c b.pieces) =
        { settled c with
          headers := (settled c).headers ++ b.trailers.map Field.header
          body := (settled c).body ++ b.data } := by
  cases b with
  | plain data =>
    have h := collect_body data (data == []) hc
    have hstep : (WireBody.plain data).pieces = [.span .body (data == []) data] := rfl
    rw [hstep]
    refine ⟨h.1, ?_⟩
    rw [h.2]
    simp [WireBody.trailers, WireBody.data]
  | chunked chunks last trailers =>
    have h1 := collect_chunks chunks hc
    have h2 := collect_fields trailers h1.1 hf
    have hstep : collect c (WireBody.pieces (.chunked chunks last trailers)) =
        collect (collect c (chunks.flatMap WireBody.chunkPieces))
          (trailers.flatMap Field.pieces) := by
      simp [WireBody.pieces, collect, collectPiece]
    rw [hstep]
    refine ⟨h2.1, ?_⟩
    rw [h2.2, h1.2]
    rfl

/-- What a whole message leaves behind, after a first line that leaves `d` behind. -/
theorem collect_message {m : WireMessage} {d : Content} (hn : m.NamesGiven)
    (hs : collect { message := {} } m.start = { message := d }) :
    (collect { message := {} } m.pieces).message =
      { d with headers := d.headers ++ m.headers, body := d.body ++ m.body.data } := by
  have hd : Tidy ({ message := d } : Collector Content) := ⟨rfl, fun _ => rfl⟩
  have h1 := collect_fields m.fields hd fun f hf => hn f (by simp [hf])
  have h2 := collect_wireBody m.body h1.1 fun f hf => hn f (by simp [hf])
  have hstep : collect { message := {} } m.pieces =
      (collect (collect { message := d } (m.fields.flatMap Field.pieces))
        m.body.pieces).onMessageComplete contentOps m.parser := by
    rw [WireMessage.pieces, WireMessage.core, collect_append, collect_append, collect_append, hs]
    rfl
  rw [hstep]
  have hsettled : ∀ c : Collector Content,
      (c.onMessageComplete contentOps m.parser).message = settled c := fun _ => rfl
  rw [hsettled, h2.2, h1.2]
  have hempty : settled { message := d } = d := rfl
  simp [hempty, WireMessage.headers]

def RequestMessage.content (m : RequestMessage) : Content :=
  { url := m.url, headers := m.message.headers, body := m.body.data }

def ResponseMessage.content (m : ResponseMessage) : Content :=
  { statusText := m.statusText, headers := m.message.headers, body := m.body.data }

theorem RequestMessage.collect_pieces {m : RequestMessage} (hn : m.message.NamesGiven) :
    (collect { message := {} } m.message.pieces).message = m.content := by
  have hs : collect { message := {} } m.message.start = { message := { url := m.url } } := by
    simp [collect, RequestMessage.message, collectPiece, Collector.onSpan, contentOps]
  rw [collect_message hn hs]
  simp [RequestMessage.content, RequestMessage.message]

theorem ResponseMessage.collect_pieces {m : ResponseMessage} (hn : m.message.NamesGiven) :
    (collect { message := {} } m.message.pieces).message = m.content := by
  have hs : collect { message := {} } m.message.start =
      { message := { statusText := m.statusText } } := by
    simp [collect, ResponseMessage.message, collectPiece, Collector.onSpan, contentOps,
      optionalSpan]
  rw [collect_message hn hs]
  simp [ResponseMessage.content, ResponseMessage.message]

end Content

end BurpTUI
