import BurpTUI.Http.Executed
import BurpTUI.Http.MessageSequence
import BurpTUI.Http.Reply
import Mathlib.Data.List.Induction

namespace BurpTUI

/-- A reply that one parser can take as it is: one response, whose end is seen in its bytes by who
does not know the method, with a body that is not cut for the UI. -/
structure Reply.Recordable (r : Reply) : Prop where
  alone : r.interims = []
  ends : r.untilClose = false
  bodiless : r.method = str "HEAD" → wireOf r.final.body.pieces = []
  fits : r.final.body.data.length ≤ maxBodySize

variable {L : Llhttp} {At : L.State → List Piece → Prop}

namespace MessageParser

variable {M : Type} {ops : ParserOps M} {R : M → Content → Prop} {m : WireMessage}
  {p : MessageParser L M} {core : List Piece} {received : List Bytes} {data : Bytes}

theorem waiting_executed (hL : L.Reads At) (hops : ops.Keeps R)
    (hw : Waiting At R m (.reset ops : MessageParser L M) core) {rest : Bytes} (hrest : rest ≠ [])
    (hwire : wireOf core = received.flatten ++ rest) :
    ∃ core', wireOf core' = rest ∧ Waiting At R m (executed ops received : MessageParser L M) core' := by
  induction received using List.reverseRecOn generalizing rest with
  | nil => exact ⟨core, hwire, hw⟩
  | append_singleton received data ih =>
    rw [List.flatten_append, List.flatten_singleton, List.append_assoc] at hwire
    obtain ⟨core', hcore', hw'⟩ := ih (by simp [hrest]) hwire
    have hpre : data <+: wireOf core' := ⟨rest, hcore'.symm⟩
    have hexecute : ((executed ops received : MessageParser L M).feed ops data).1 =
        executed ops (received ++ [data]) := by
      rw [← execute_executed, MessageParser.feed, if_neg (by simp [hw'.incomplete])]
    rcases hw'.feed hL hops hpre with ⟨hall, -⟩ | ⟨core'', hcore'', -, hw''⟩
    · rw [hall, List.self_eq_append_right] at hcore'
      exact absurd hcore' hrest
    · rw [hcore', List.append_cancel_left_eq] at hcore''
      exact ⟨core'', hcore''.symm, hexecute ▸ hw''⟩

/-- The parser that follows the bytes of a message completes it with the last of them. -/
theorem feed_last (hL : L.Reads At) (hops : ops.Keeps R)
    (hw : Waiting At R m (.reset ops : MessageParser L M) core) (hp : p.Follows ops received)
    (hdata : data ≠ []) (hwire : wireOf core = received.flatten ++ data) :
    (p.feed ops data).2 = true ∧ TakenFrom ops R m (p.feed ops data).1.collector.message := by
  obtain ⟨chunks, ⟨later, rfl⟩, hp, hall⟩ := hp
  rw [List.flatten_append, List.append_assoc] at hwire
  obtain ⟨core', hcore', hw'⟩ := waiting_executed hL hops hw (by simp [hdata]) hwire
  rw [← hp] at hw'
  -- nothing was complete before, so nothing was left out
  have hlater : later = [] := List.append_right_eq_self.mp (hall hw'.incomplete).symm
  rw [hlater, List.flatten_nil, List.nil_append] at hcore'
  rcases hw'.feed hL hops ⟨[], by rw [List.append_nil, hcore']⟩ with
    ⟨-, hready, r, htake, htaken⟩ | ⟨core'', hcore'', -, hw''⟩
  · refine ⟨hready, ?_⟩
    have hsome := congrArg Prod.fst htake
    unfold MessageParser.take at hsome
    split at hsome
    · exact Option.some.inj hsome ▸ htaken
    · cases hsome
  · rw [hcore', List.self_eq_append_right] at hcore''
    exact absurd hcore'' hw''.more

end MessageParser

theorem Reply.Recordable.taken {r : Reply} (h : r.Recordable) (hL : L.Reads At)
    (hnames : r.final.message.NamesGiven) (hat : At (L.init .response) r.pieces)
    {p : MessageParser L HttpResponse} {received : List Bytes} {data : Bytes}
    (hp : p.Follows responseOps received) (hdata : data ≠ [])
    (hbytes : received.flatten ++ data = r.bytes) :
    (p.feed responseOps data).2 = true ∧
      (p.feed responseOps data).1.collector.message = r.final.response := by
  have hpieces : r.pieces = r.final.message.pieces := by
    simp [Reply.pieces, h.alone, h.ends]
  have hwire : r.bytes = wireOf r.final.message.core := by
    rw [← wire_eq_core]
    unfold Reply.bytes
    rw [h.alone]
    split
    · rename_i hhead
      rw [wire_eq_head, h.bodiless hhead]
      simp
    · rfl
  have hread : Readable At responseOps.parserType r.final.message :=
    ⟨regular_responseStart _, hpieces ▸ hat⟩
  obtain ⟨hready, htaken⟩ := MessageParser.feed_last hL responseOps_keeps
    (hread.waiting responseOps_keeps) hp hdata (hwire ▸ hbytes.symm)
  obtain ⟨heq, hkept⟩ := response_of_taken hnames htaken
  rw [KeptBody, if_pos h.fits] at hkept
  refine ⟨hready, heq.trans ?_⟩
  rw [hkept]
  rfl

end BurpTUI
