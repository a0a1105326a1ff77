import BurpTUI.Http.ParserDelivery

namespace BurpTUI

section Mirrors

variable {M : Type}

/-- `R m d` says that the message `m` holds the parts `d`, as far as its parser keeps them. -/
structure MessageOps.Keeps (ops : MessageOps M) (R : M → Content → Prop) : Prop where
  fresh : R ops.fresh {}
  onUrl : ∀ m d text, R m d → R (ops.onUrl m text) (contentOps.onUrl d text)
  onStatus : ∀ m d text, R m d → R (ops.onStatus m text) (contentOps.onStatus d text)
  pushHeader : ∀ m d h, R m d → R (ops.pushHeader m h) (contentOps.pushHeader d h)
  onBody : ∀ m d text, R m d → R (ops.onBody m text) (contentOps.onBody d text)
  onComplete : ∀ m d p, R m d → R (ops.onComplete m p) (contentOps.onComplete d p)

structure Mirrors (R : M → Content → Prop) (c : Collector M) (d : Collector Content) : Prop where
  message : R c.message d.message
  field : c.currentHeaderField = d.currentHeaderField
  value : c.currentHeaderValue = d.currentHeaderValue
  lastWasField : c.lastWasField = d.lastWasField

variable {ops : MessageOps M} {R : M → Content → Prop} {c : Collector M} {d : Collector Content}

theorem Mirrors.commitHeader (hops : ops.Keeps R) (h : Mirrors R c d) :
    Mirrors R (c.commitHeader ops) (d.commitHeader contentOps) := by
  unfold Collector.commitHeader
  rw [h.field]
  split
  · refine ⟨?_, rfl, rfl, h.lastWasField⟩
    rw [h.value]
    exact hops.pushHeader _ _ _ h.message
  · exact h

theorem Mirrors.onHeaderField (hops : ops.Keeps R) (h : Mirrors R c d) (text : Bytes) :
    Mirrors R (c.onHeaderField ops text) (d.onHeaderField contentOps text) := by
  unfold Collector.onHeaderField
  rw [h.lastWasField]
  have hc := h.commitHeader hops
  cases d.lastWasField with
  | true => exact ⟨h.message, congrArg (· ++ text) h.field, h.value, rfl⟩
  | false => exact ⟨hc.message, congrArg (· ++ text) hc.field, hc.value, rfl⟩

theorem Mirrors.onCallback (hops : ops.Keeps R) (h : Mirrors R c d) (cb : Callback) :
    Mirrors R (c.onCallback ops cb) (d.onCallback contentOps cb) := by
  cases cb with
  | messageComplete p =>
    have hc := h.commitHeader hops
    exact ⟨hops.onComplete _ _ p hc.message, hc.field, hc.value, hc.lastWasField⟩
  | span kind text =>
    cases kind with
    | url => exact ⟨hops.onUrl _ _ text h.message, h.field, h.value, h.lastWasField⟩
    | status => exact ⟨hops.onStatus _ _ text h.message, h.field, h.value, h.lastWasField⟩
    | headerField => exact h.onHeaderField hops text
    | headerValue => exact ⟨h.message, h.field, congrArg (· ++ text) h.value, rfl⟩
    | body => exact ⟨hops.onBody _ _ text h.message, h.field, h.value, h.lastWasField⟩

theorem Mirrors.deliver (hops : ops.Keeps R) (h : Mirrors R c d) (cbs : List Callback) :
    Mirrors R (cbs.foldl (fun c cb => c.onCallback ops cb) c) (deliver d cbs) := by
  induction cbs generalizing c d with
  | nil => exact h
  | cons cb cbs ih => exact ih (h.onCallback hops cb)

theorem commitHeader_messageComplete (ops : MessageOps M) (c : Collector M) :
    (c.commitHeader ops).messageComplete = c.messageComplete := by
  unfold Collector.commitHeader
  split <;> rfl

theorem onSpan_messageComplete (ops : MessageOps M) (c : Collector M) (kind : SpanKind)
    (text : Bytes) : (c.onSpan ops kind text).messageComplete = c.messageComplete := by
  cases kind
  case headerField =>
    simp only [Collector.onSpan, Collector.onHeaderField]
    split
    · rfl
    · exact commitHeader_messageComplete ops c
  all_goals rfl

theorem messageComplete_of_noCompletion (ops : MessageOps M) {cbs : List Callback}
    (h : NoCompletion cbs) (c : Collector M) :
    (cbs.foldl (fun c cb => c.onCallback ops cb) c).messageComplete = c.messageComplete := by
  induction cbs generalizing c with
  | nil => rfl
  | cons cb cbs ih =>
    rw [List.foldl_cons, ih fun p hp => h p (by simp [hp])]
    cases cb with
    | span kind text => exact onSpan_messageComplete ops c kind text
    | messageComplete p => exact absurd (by simp) (h p)

end Mirrors

section Feed

variable {L : Llhttp} {M : Type} (At : L.State → List Piece → Prop) (ops : ParserOps M)
  (R : M → Content → Prop)

/-- The parser is inside the message `m` and still has to read `core`. -/
structure Waiting (m : WireMessage) (p : MessageParser L M) (core : List Piece) : Prop where
  reads : At p.parser (core ++ [.complete m.parser])
  inner : Inner core
  more : wireOf core ≠ []
  incomplete : p.collector.messageComplete = false
  collected : ∃ d, Mirrors R p.collector d ∧ Fits (core ++ [.complete m.parser]) d ∧
    collect d (core ++ [.complete m.parser]) = collect { message := {} } m.pieces

/-- The message that a parser makes of `m`. -/
def TakenFrom (m : WireMessage) (r : M) : Prop :=
  R r (collect { message := {} } m.pieces).message ∧ ∃ x, r = ops.onComplete x m.parser

variable {At ops R} {m : WireMessage} {p : MessageParser L M} {core : List Piece} {data : Bytes}

theorem Waiting.feed (hL : L.Reads At) (hops : ops.Keeps R) (hw : Waiting At R m p core)
    (hd : data <+: wireOf core) :
    (wireOf core = data ∧ (p.feed ops data).2 = true ∧
      ∃ r, (p.feed ops data).1.take ops = (some r, .reset ops) ∧ TakenFrom ops R m r) ∨
    ∃ core', wireOf core = data ++ wireOf core' ∧ (p.feed ops data).2 = false ∧
      Waiting At R m (p.feed ops data).1 core' := by
  obtain ⟨d, hmir, hfit, hcol⟩ := hw.collected
  have hbytes : wireOf (core ++ [.complete m.parser]) = wireOf core := by
    simp [wireOf, Piece.bytes]
  obtain ⟨ps', hdel, hat, herr⟩ := hL p.parser _ data hw.reads (by rwa [hbytes])
  have hwire := hdel.bytes
  rw [hbytes] at hwire
  obtain ⟨hcol', hfit'⟩ := hdel.collect hfit
  have hmir' := hmir.deliver hops (L.execute p.parser data).2.1
  have hfeed : p.feed ops data =
      ((p.execute ops data).1, (p.execute ops data).1.collector.messageComplete) := by
    simp [MessageParser.feed, MessageParser.execute, hw.incomplete, herr]
  rw [hfeed]
  simp only [MessageParser.execute]
  rcases hdel.inner hw.inner with ⟨rfl, cbs, hcbs⟩ | ⟨core', rfl, hin, hne, hno⟩
  · refine .inl ⟨by simpa [wireOf] using hwire, ?_⟩
    rw [hcbs, List.foldl_append] at hmir' ⊢
    refine ⟨rfl, _, rfl, ?_, _, rfl⟩
    have hR := hmir'.message
    rw [← hcol, ← hcol', hcbs]
    exact hR
  · refine .inr ⟨core', by simpa [wireOf, Piece.bytes] using hwire, ?_, ?_⟩
    · rw [messageComplete_of_noCompletion _ hno]
      exact hw.incomplete
    · refine ⟨hat, hin, hne, ?_, _, hmir', hfit', by rw [hcol', hcol]⟩
      rw [messageComplete_of_noCompletion _ hno]
      exact hw.incomplete

/-- Pieces of which only those that may stay out count as begun. -/
def Regular (ps : List Piece) : Prop :=
  ∀ p ∈ ps, p.isComplete = false ∧
    ∀ kind text, p = .span kind true text → kind ≠ .headerField ∧ kind ≠ .headerValue

theorem Regular.append {ps qs : List Piece} (hp : Regular ps) (hq : Regular qs) :
    Regular (ps ++ qs) := by
  intro p h
  rcases List.mem_append.mp h with h | h
  · exact hp p h
  · exact hq p h

theorem Regular.flatMap {α : Type} {f : α → List Piece} (hf : ∀ a, Regular (f a)) (l : List α) :
    Regular (l.flatMap f) := by
  intro p h
  obtain ⟨a, -, ha⟩ := List.mem_flatMap.mp h
  exact hf a p ha

theorem regular_silent (bytes : Bytes) : Regular [.silent bytes] := by
  simp [Regular, Piece.isComplete]

theorem regular_optionalSpan {kind : SpanKind} (hf : kind ≠ .headerField)
    (hv : kind ≠ .headerValue) (text : Bytes) : Regular [optionalSpan kind text] := by
  intro p h
  rw [List.mem_singleton.mp h]
  refine ⟨rfl, fun k t hs => ?_⟩
  rw [optionalSpan, Piece.span.injEq] at hs
  exact hs.1 ▸ ⟨hf, hv⟩

theorem regular_field (f : Field) : Regular f.pieces := by
  simp [Regular, Field.pieces, Piece.isComplete]

theorem regular_body (b : WireBody) : Regular b.pieces := by
  have hspan (text : Bytes) : Regular [optionalSpan .body text] :=
    regular_optionalSpan (by decide) (by decide) text
  cases b with
  | plain data => exact hspan data
  | chunked chunks last trailers =>
    have hchunk (c : Bytes × Bytes) : Regular (WireBody.chunkPieces c) :=
      ((regular_silent _).append (hspan c.2)).append (regular_silent _)
    exact (Regular.flatMap hchunk chunks).append ((regular_silent _).append
      ((Regular.flatMap regular_field trailers).append (regular_silent _)))

theorem regular_core (hm : Regular m.start) : Regular m.core :=
  (hm.append (Regular.flatMap regular_field m.fields)).append
    ((regular_silent _).append (regular_body m.body))

theorem Regular.fits {ps : List Piece} (h : Regular ps) (q : Completion)
    (c : Collector Content) : Fits (ps ++ [.complete q]) c := by
  have hfree : ∀ kind text, .span kind true text ∈ ps ++ [.complete q] →
      kind ≠ .headerField ∧ kind ≠ .headerValue := by
    intro kind text hm
    rcases List.mem_append.mp hm with hm | hm
    · exact (h _ hm).2 kind text rfl
    · cases List.mem_singleton.mp hm
  cases hps : ps ++ [.complete q] with
  | nil => trivial
  | cons p qs =>
    rw [hps] at hfree
    refine ⟨fun kind text hp => ?_, fun kind text hm => hfree kind text (by simp [hm])⟩
    have hk := hfree kind text (by simp [hp])
    exact onSpan_nil c hk.1 hk.2

theorem wireOf_core_ne_nil (m : WireMessage) : wireOf m.core ≠ [] := by
  simp [WireMessage.core, wireOf_append, wireOf_cons, Piece.bytes, CRLF]

theorem wire_eq_core (m : WireMessage) : m.wire = wireOf m.core := by
  simp [WireMessage.wire, WireMessage.pieces, wireOf, Piece.bytes]

/-- llhttp reads `m` from its initial state. -/
def Readable (At : L.State → List Piece → Prop) (type : ParserType) (m : WireMessage) : Prop :=
  Regular m.start ∧ At (L.init type) m.pieces

theorem Readable.waiting (hops : ops.Keeps R) (hm : Readable At ops.parserType m) :
    Waiting At R m (.reset ops : MessageParser L M) m.core where
  reads := hm.2
  inner := fun p hp => (regular_core hm.1 p hp).1
  more := wireOf_core_ne_nil m
  incomplete := rfl
  collected := ⟨{ message := {} }, ⟨hops.fresh, rfl, rfl, rfl⟩,
    (regular_core hm.1).fits m.parser _, rfl⟩

theorem Waiting.takeEach_empty (hL : L.Reads At) (hops : ops.Keeps R)
    (hw : Waiting At R m p core) {chunks : List Bytes} (hc : ∀ c ∈ chunks, c = []) :
    p.takeEach ops chunks = [] := by
  induction chunks generalizing p core with
  | nil => rfl
  | cons data rest ih =>
    have hdata : data = [] := hc data (by simp)
    rw [hdata]
    rcases hw.feed hL hops (List.nil_prefix) with ⟨hnil, -⟩ | ⟨core', -, hready, hw'⟩
    · exact absurd hnil hw.more
    · have hrest := ih hw' fun c hm => hc c (by simp [hm])
      rw [MessageParser.takeEach]
      simp only [hready]
      exact hrest

/-- The parts that make up the rest of `m` yield `m`; only empty ones can be left over. -/
theorem Waiting.takeEach_group (hL : L.Reads At) (hops : ops.Keeps R)
    (hw : Waiting At R m p core) {group : List Bytes} (hg : group.flatten = wireOf core) :
    ∃ r left, TakenFrom ops R m r ∧ (∀ c ∈ left, c = []) ∧ ∀ rest,
      p.takeEach ops (group ++ rest) = r :: (.reset ops : MessageParser L M).takeEach ops
        (left ++ rest) := by
  induction group generalizing p core with
  | nil => exact absurd hg.symm hw.more
  | cons data group ih =>
    rw [List.flatten_cons] at hg
    have hpre : data <+: wireOf core := ⟨group.flatten, hg⟩
    rcases hw.feed hL hops hpre with ⟨hall, hready, r, htake, htaken⟩ | ⟨core', hc, hready, hw'⟩
    · rw [hall, List.append_right_eq_self] at hg
      refine ⟨r, group, htaken, List.flatten_eq_nil_iff.mp hg, fun rest => ?_⟩
      rw [List.cons_append, MessageParser.takeEach]
      simp only [hready, htake]
      rfl
    · rw [hc, List.append_cancel_left_eq] at hg
      obtain ⟨r, left, htaken, hleft, hrest⟩ := ih hw' hg
      refine ⟨r, left, htaken, hleft, fun rest => ?_⟩
      rw [List.cons_append, MessageParser.takeEach]
      simp only [hready]
      exact hrest rest

/-- No part holds bytes of two messages: the parts come in groups, one for each message. -/
def Aligned (wires chunks : List Bytes) : Prop :=
  ∃ groups : List (List Bytes), chunks = groups.flatten ∧ groups.map List.flatten = wires

/-- The parts of some messages yield these messages, before anything else is taken. Only empty parts can be
left over. -/
theorem takeEach_groups (hL : L.Reads At) (hops : ops.Keeps R) {ms : List WireMessage}
    {groups : List (List Bytes)} (hms : ∀ m ∈ ms, Readable At ops.parserType m)
    (hg : groups.map List.flatten = ms.map WireMessage.wire) {left : List Bytes}
    (hleft : ∀ c ∈ left, c = []) :
    ∃ taken left', List.Forall₂ (TakenFrom ops R) ms taken ∧ (∀ c ∈ left', c = []) ∧
      (ms = [] → left' = left) ∧ ∀ rest,
        (.reset ops : MessageParser L M).takeEach ops (left ++ groups.flatten ++ rest) =
          taken ++ (.reset ops : MessageParser L M).takeEach ops (left' ++ rest) := by
  induction ms generalizing groups left with
  | nil =>
    rw [List.map_nil, List.map_eq_nil_iff] at hg
    exact ⟨[], left, .nil, hleft, fun _ => rfl, fun rest => by simp [hg]⟩
  | cons m ms ih =>
    obtain ⟨group, groups, rfl, hgroup, hgroups⟩ := List.map_eq_cons_iff.mp hg
    have hm := hms m (by simp)
    have hnil : left.flatten = [] := List.flatten_eq_nil_iff.mpr hleft
    have hwire : (left ++ group).flatten = wireOf m.core := by
      rw [List.flatten_append, hnil, List.nil_append, hgroup, wire_eq_core]
    obtain ⟨r, left', htaken, hleft', hfirst⟩ := (hm.waiting hops).takeEach_group hL hops hwire
    obtain ⟨taken, left'', hrest, hleft'', -, hall⟩ :=
      ih (fun m' h => hms m' (by simp [h])) hgroups hleft'
    refine ⟨r :: taken, left'', .cons htaken hrest, hleft'', fun h => absurd h (by simp), fun rest => ?_⟩
    rw [List.flatten_cons, ← List.append_assoc, List.append_assoc, hfirst, ← List.append_assoc, hall]
    rfl

theorem takeEach_aligned (hL : L.Reads At) (hops : ops.Keeps R) {ms : List WireMessage}
    {chunks : List Bytes} (hms : ∀ m ∈ ms, Readable At ops.parserType m)
    (hal : Aligned (ms.map WireMessage.wire) chunks) :
    List.Forall₂ (TakenFrom ops R) ms
      ((.reset ops : MessageParser L M).takeEach ops chunks) := by
  obtain ⟨groups, rfl, hg⟩ := hal
  obtain ⟨taken, left, htaken, hleft, hnone, hall⟩ :=
    takeEach_groups (L := L) hL hops hms hg (List.forall_mem_nil _)
  have hrest : (.reset ops : MessageParser L M).takeEach ops left = [] := by
    cases ms with
    | nil =>
      rw [hnone rfl]
      rfl
    | cons m ms => exact ((hms m (by simp)).waiting hops).takeEach_empty hL hops hleft
  have heq := hall []
  rw [List.nil_append, List.append_nil, List.append_nil, hrest, List.append_nil] at heq
  rwa [heq]

/-- Where llhttp does not see the end of a message, none is taken. -/
theorem takeEach_unended (hL : L.Reads At) {chunks : List Bytes} (hread : At p.parser core) (hi : Inner core)
    (hp : p.collector.messageComplete = false) (hc : chunks.flatten <+: wireOf core) :
    p.takeEach ops chunks = [] := by
  induction chunks generalizing p core with
  | nil => rfl
  | cons data rest ih =>
    rw [List.flatten_cons] at hc
    obtain ⟨ps', hdel, hat, herr⟩ := hL p.parser core data hread ((List.prefix_append _ _).trans hc)
    have hbytes := hdel.bytes
    have hdel' : Delivers (core ++ []) data (L.execute p.parser data).2.1 ps' := by
      rw [List.append_nil]
      exact hdel
    rcases hdel'.within hi (by simp) with ⟨q, more, -, -, -, hnil, -⟩ | ⟨core', rfl, hin, hno, -⟩
    · cases hnil
    · have hnever : (p.execute ops data).1.collector.messageComplete = false :=
        (messageComplete_of_noCompletion _ hno _).trans hp
      have hfeed : p.feed ops data = ((p.execute ops data).1, false) := by
        rw [MessageParser.feed, if_neg (by simp [hp])]
        simp [hnever]
      rw [List.append_nil] at hat hbytes
      rw [hbytes, List.prefix_append_right_inj] at hc
      rw [MessageParser.takeEach, hfeed]
      exact ih hat hin hnever hc

/-- Behind the other messages comes one that llhttp reads without seeing its end. -/
theorem takeEach_unendedLast (hL : L.Reads At) (hops : ops.Keeps R) {ms : List WireMessage} {last : WireMessage}
    {chunks : List Bytes} (hms : ∀ m ∈ ms, Readable At ops.parserType m) (hstart : Regular last.start)
    (hlast : At (L.init ops.parserType) last.core)
    (hal : Aligned ((ms ++ [last]).map WireMessage.wire) chunks) :
    List.Forall₂ (TakenFrom ops R) ms ((.reset ops : MessageParser L M).takeEach ops chunks) := by
  obtain ⟨groups, rfl, hg⟩ := hal
  rw [List.map_append] at hg
  obtain ⟨first, final, rfl, hfirst, hfinal⟩ := List.map_eq_append_iff.mp hg
  obtain ⟨group, rest, rfl, hgroup, hnone⟩ := List.map_eq_cons_iff.mp hfinal
  obtain rfl := List.map_eq_nil_iff.mp hnone
  obtain ⟨taken, left, htaken, hleft, -, hall⟩ :=
    takeEach_groups (L := L) hL hops hms hfirst (List.forall_mem_nil _)
  have hrest : (.reset ops : MessageParser L M).takeEach ops (left ++ group) = [] := by
    have hflat : (left ++ group).flatten = wireOf last.core := by
      rw [List.flatten_append, List.flatten_eq_nil_iff.mpr hleft, List.nil_append, hgroup, wire_eq_core]
    exact takeEach_unended hL hlast (fun q hq => (regular_core hstart q hq).1) rfl
      (hflat ▸ List.prefix_refl _)
  have heq := hall group
  rw [List.nil_append, hrest, List.append_nil] at heq
  rw [List.flatten_append, List.flatten_singleton, heq]
  exact htaken

end Feed

end BurpTUI
