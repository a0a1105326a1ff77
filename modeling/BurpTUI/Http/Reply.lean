import BurpTUI.Base.Reader
import BurpTUI.Http.TakenMessages

namespace BurpTUI

/-- An informational response that another response follows: any 1xx but 101. -/
def ResponseMessage.Interim (m : ResponseMessage) : Prop :=
  100 ≤ m.statusCode ∧ m.statusCode < 200 ∧ m.statusCode ≠ 101 ∧ m.body = .plain []

instance (m : ResponseMessage) : Decidable m.Interim := inferInstanceAs (Decidable (_ ∧ _))

/-- The header section. -/
def WireMessage.head (m : WireMessage) : List Piece :=
  m.start ++ m.fields.flatMap Field.pieces ++ [.silent CRLF]

/-- What the upstream answers to a request with this method. If `untilClose`, nothing but the end
of the connection shows where the final response ends. -/
structure Reply where
  method : Bytes
  interims : List ResponseMessage
  final : ResponseMessage
  untilClose : Bool := false
  interim : ∀ m ∈ interims, m.Interim
  finalStatus : 200 ≤ final.statusCode

namespace Reply

/-- What llhttp expects, to which nobody says the method. -/
def pieces (r : Reply) : List Piece :=
  (r.interims.flatMap fun m => m.message.pieces) ++
    if r.untilClose then r.final.message.core else r.final.message.pieces

/-- The bytes that come. The response to HEAD ends with its header section. -/
def bytes (r : Reply) : Bytes :=
  (r.interims.flatMap fun m => m.message.wire) ++
    if r.method = str "HEAD" then wireOf r.final.message.head else r.final.message.wire

/-- The first message that llhttp completes in these reads is completed by the last of them. -/
def CompletesLast (r : Reply) (reads : List Bytes) : Prop :=
  match r.interims with
  | [] => r.untilClose = false ∧ (r.method = str "HEAD" → wireOf r.final.body.pieces = [])
  | first :: _ => reads.dropLast.flatten.length < first.message.wire.length

end Reply

theorem messageComplete_of_mem {M : Type} (ops : MessageOps M) {cbs : List Callback} {p : Completion}
    (h : .messageComplete p ∈ cbs) (c : Collector M) :
    (cbs.foldl (fun c cb => c.onCallback ops cb) c).messageComplete = true := by
  obtain ⟨cbs₁, cbs₂, rfl⟩ := List.append_of_mem h
  rw [List.foldl_append, List.foldl_cons]
  -- nothing but `reset` clears the flag
  have hkept (cbs : List Callback) (c : Collector M) (hc : c.messageComplete = true) :
      (cbs.foldl (fun c cb => c.onCallback ops cb) c).messageComplete = true := by
    induction cbs generalizing c with
    | nil => exact hc
    | cons cb cbs ih =>
      apply ih
      cases cb with
      | span kind text => exact (onSpan_messageComplete ops c kind text).trans hc
      | messageComplete q => rfl
  exact hkept _ _ rfl

namespace MessageParser

open Reader (ReadyAtLast)

variable {L : Llhttp} {M : Type} {ops : ParserOps M}

/-- The parser reads `core`, and then `tail`, which is empty or starts with the end of a message. -/
structure Expecting (At : L.State → List Piece → Prop) (p : MessageParser L M)
    (core tail : List Piece) : Prop where
  reads : At p.parser (core ++ tail)
  inner : Inner core
  boundary : ∀ q ∈ tail.head?, q.isComplete = true
  more : tail ≠ [] → wireOf core ≠ []
  incomplete : p.collector.messageComplete = false

variable {At : L.State → List Piece → Prop} {p : MessageParser L M} {core tail : List Piece}
  {data : Bytes} {reads : List Bytes}

theorem Expecting.feed (ops : ParserOps M) (hL : L.Reads At) (h : Expecting At p core tail)
    (hd : data <+: wireOf (core ++ tail)) :
    (tail ≠ [] ∧ (wireOf core).length ≤ data.length ∧ (p.feed ops data).2 = true) ∨
      ∃ core', wireOf core = data ++ wireOf core' ∧ (p.feed ops data).2 = false ∧
        Expecting At (p.feed ops data).1 core' tail := by
  obtain ⟨ps', hdel, hat, herr⟩ := hL p.parser _ data h.reads hd
  have hwire := hdel.bytes
  have hfeed : p.feed ops data =
      ((p.execute ops data).1, (p.execute ops data).1.collector.messageComplete) := by
    simp [MessageParser.feed, MessageParser.execute, h.incomplete, herr]
  rw [hfeed]
  simp only [MessageParser.execute]
  rcases hdel.within h.inner h.boundary with hend | ⟨core', rfl, hin, hno, hne⟩
  · obtain ⟨c, more, rest, cbs₁, cbs₂, rfl, rfl, hcbs, -⟩ := hend
    refine .inl ⟨by simp, by simp, messageComplete_of_mem _ (p := c) ?_ _⟩
    rw [hcbs]
    simp
  · have hflag := messageComplete_of_noCompletion ops.toMessageOps hno p.collector
    rw [wireOf_append, wireOf_append, ← List.append_assoc, List.append_cancel_right_eq] at hwire
    exact .inr ⟨core', hwire, hflag.trans h.incomplete, hat, hin, h.boundary, hne,
      hflag.trans h.incomplete⟩

theorem Expecting.readyAtLast_iff (hL : L.Reads At) (h : Expecting At p core tail)
    (hreads : reads ≠ []) (hd : reads.flatten <+: wireOf (core ++ tail)) :
    ReadyAtLast (MessageParser.feed ops) p reads ↔ tail ≠ [] ∧ reads.dropLast.flatten.length < (wireOf core).length ∧
      (wireOf core).length ≤ reads.flatten.length := by
  induction reads generalizing p core with
  | nil => exact absurd rfl hreads
  | cons data rest ih =>
    have hdata : data <+: wireOf (core ++ tail) := (List.prefix_append _ _).trans hd
    rw [ReadyAtLast]
    -- the parser reports the end with the read that holds the last byte of the core
    by_cases hrest : rest = []
    · subst hrest
      simp only [iff_true, ne_eq, not_true_eq_false, false_implies, and_true, List.dropLast_singleton,
        List.flatten_nil, List.length_nil, List.flatten_singleton]
      rcases h.feed ops hL hdata with ⟨htail, hle, hready⟩ | ⟨core', hcore, hready, h'⟩
      · have hpos := List.length_pos_iff.mpr (h.more htail)
        simp [hready, htail, hpos, hle]
      · rw [hready, hcore, List.length_append]
        simp only [Bool.false_eq_true, false_iff]
        rintro ⟨htail, -, hle⟩
        have hpos := List.length_pos_iff.mpr (h'.more htail)
        omega
    · have hlen : (data :: rest).dropLast.flatten.length = data.length + rest.dropLast.flatten.length := by
        rw [List.dropLast_cons_of_ne_nil hrest, List.flatten_cons, List.length_append]
      rw [hlen, List.flatten_cons, List.length_append]
      simp only [hrest, iff_false, Bool.not_eq_true, ne_eq, not_false_eq_true, true_implies]
      rcases h.feed ops hL hdata with ⟨htail, hle, hready⟩ | ⟨core', hcore, hready, h'⟩
      · rw [hready]
        simp only [Bool.true_eq_false, false_and, false_iff]
        omega
      · have hd' : rest.flatten <+: wireOf (core' ++ tail) := by
          rw [wireOf_append, hcore, List.append_assoc, List.flatten_cons,
            List.prefix_append_right_inj, ← wireOf_append] at hd
          exact hd
        rw [ih h' hrest hd', hready, hcore, List.length_append]
        simp only [true_and]
        refine and_congr_right fun _ => ?_
        omega

end MessageParser

namespace Reply

variable {L : Llhttp} {At : L.State → List Piece → Prop} {r : Reply} {reads : List Bytes}

theorem inner_core (m : ResponseMessage) : Inner m.message.core := by
  have hstart : Regular m.message.start :=
    (regular_silent _).append ((regular_optionalSpan (by decide) (by decide) m.statusText).append
      (regular_silent _))
  exact fun q hq => (regular_core hstart q hq).1

theorem expecting_reset {core tail : List Piece} (hat : At (L.init .response) (core ++ tail))
    (hi : Inner core) (htail : ∀ q ∈ tail.head?, q.isComplete = true) (hmore : wireOf core ≠ []) :
    MessageParser.Expecting At (.reset responseOps : MessageParser L HttpResponse) core tail :=
  ⟨hat, hi, htail, fun _ => hmore, rfl⟩

/-- The body that llhttp expects comes behind the header section. -/
theorem wire_eq_head (m : ResponseMessage) :
    m.message.wire = wireOf m.message.head ++ wireOf m.body.pieces := by
  rw [wire_eq_core]
  simp [WireMessage.core, WireMessage.head, wireOf, ResponseMessage.message]

theorem bytes_prefix (r : Reply) : r.bytes <+: wireOf r.pieces := by
  have hinterims : wireOf (r.interims.flatMap fun m => m.message.pieces) =
      r.interims.flatMap fun m => m.message.wire := List.flatMap_assoc
  have hexpected : wireOf (if r.untilClose then r.final.message.core else r.final.message.pieces) =
      r.final.message.wire := by
    split
    · exact (wire_eq_core _).symm
    · rfl
  rw [bytes, pieces, wireOf_append, hinterims, hexpected, List.prefix_append_right_inj]
  split
  · rw [wire_eq_head]
    exact List.prefix_append _ _
  · exact List.prefix_refl _

theorem bytes_ne_nil (r : Reply) : r.bytes ≠ [] := by
  intro hnil
  have hfinal := (List.append_eq_nil_iff.mp hnil).2
  split at hfinal
  · simp [WireMessage.head, wireOf_append, wireOf_cons, Piece.bytes, CRLF] at hfinal
  · rw [wire_eq_core] at hfinal
    exact wireOf_core_ne_nil _ hfinal

theorem readyAtLast_iff (hL : L.Reads At) (hat : At (L.init .response) r.pieces)
    (hflat : reads.flatten = r.bytes) (hlast : reads.dropLast.flatten.length < r.bytes.length) :
    Reader.ReadyAtLast (MessageParser.feed responseOps)
      (.reset responseOps : MessageParser L HttpResponse) reads ↔ r.CompletesLast reads := by
  have hreads : reads ≠ [] := by
    rintro rfl
    rw [← hflat] at hlast
    cases hlast
  have hd : reads.flatten <+: wireOf r.pieces := hflat ▸ r.bytes_prefix
  unfold CompletesLast
  split
  · rename_i hnone
    have hpieces : r.pieces = r.final.message.core ++
        if r.untilClose then [] else [.complete r.final.message.parser] := by
      rw [pieces, hnone]
      split
      · simp
      · rfl
    rw [hpieces] at hat hd
    have hexpecting := expecting_reset hat (inner_core _) (by split <;> simp [Piece.isComplete])
      (wireOf_core_ne_nil _)
    rw [hexpecting.readyAtLast_iff hL hreads hd, ← wire_eq_core, hflat]
    have hwire := congrArg List.length (wire_eq_head r.final)
    rw [List.length_append] at hwire
    -- the response to HEAD ends with its head, whatever length it announces
    by_cases hhead : r.method = str "HEAD"
    · have hbytes : r.bytes = wireOf r.final.message.head := by
        rw [bytes, hnone, if_pos hhead]
        rfl
      rw [hbytes] at hlast ⊢
      rw [← List.length_eq_zero_iff]
      cases r.untilClose with
      | true => simp
      | false =>
        simp only [hhead, Bool.false_eq_true, if_false, ne_eq, List.cons_ne_self, not_false_eq_true,
          true_and, true_implies]
        omega
    · have hbytes : r.bytes = r.final.message.wire := by
        rw [bytes, hnone, if_neg hhead]
        rfl
      rw [hbytes] at hlast ⊢
      cases r.untilClose with
      | true => simp
      | false => exact ⟨fun _ => ⟨rfl, fun h => absurd h hhead⟩, fun _ => ⟨by simp, hlast, Nat.le_refl _⟩⟩
  · rename_i first more hsome
    have hpieces : ∃ tail, r.pieces = first.message.core ++ .complete first.message.parser :: tail := by
      rw [pieces, hsome, List.flatMap_cons, List.append_assoc]
      exact ⟨_, List.append_assoc _ _ _⟩
    obtain ⟨tail, hpieces⟩ := hpieces
    rw [hpieces] at hat hd
    have hexpecting := expecting_reset hat (inner_core _) (by simp [Piece.isComplete])
      (wireOf_core_ne_nil _)
    rw [hexpecting.readyAtLast_iff hL hreads hd, ← wire_eq_core, hflat]
    have hle : first.message.wire.length ≤ r.bytes.length := by
      rw [bytes, hsome, List.flatMap_cons, List.append_assoc, List.length_append]
      omega
    simp [hle]

end Reply

end BurpTUI
