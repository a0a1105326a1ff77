import BurpTUI.Base.Grows
import BurpTUI.Proxy.Chores

namespace BurpTUI

/-- Effects that belong to no exchange: they come from closing a session, from completions and from
the write queues. -/
def Effect.aside : Effect → Bool
  | .removed _ => true
  | .closed => true
  | .wrote _ => true
  | .upstreamEnded => true
  | .clientFailed => true
  | .pushed _ => true
  | .sent _ _ => true
  | _ => false

theorem Op.completion_aside (op : Op) (o : Outcome) : ∀ e ∈ op.completion o, e.aside = true := by
  intro e he
  rcases Op.mem_completion he with ⟨data, -, -, rfl⟩ | ⟨-, -, rfl⟩ | ⟨-, -, rfl⟩ <;> rfl

/-- Only effects of that kind are added. -/
abbrev LogAside (l l' : List Effect) : Prop := Grows (fun e => e.aside = true) l l'

theorem LogAside.completion (l : List Effect) (op : Op) (o : Outcome) :
    LogAside l (l ++ op.completion o) := ⟨_, rfl, op.completion_aside o⟩

namespace Session

variable {L : Llhttp} {s t u : Session L}

/-- `t` is `s` but for timers, client writes, writes of a tunnel and what is closed. -/
structure Aside (s t : Session L) : Prop where
  log : LogAside s.log t.log
  transaction : t.currentTransaction = s.currentTransaction
  isConnect : t.isConnect = s.isConnect
  asked : t.asked = s.asked
  parser : t.parser = s.parser
  serverData : t.serverData = s.serverData
  count : ∀ k, k ≠ .other → t.io.count k = s.io.count k

namespace Aside

theorem refl (s : Session L) : Aside s s := ⟨.refl _, rfl, rfl, rfl, rfl, rfl, fun _ _ => rfl⟩

theorem trans (h : Aside s t) (h' : Aside t u) : Aside s u where
  log := h.log.trans h'.log
  transaction := h'.transaction.trans h.transaction
  isConnect := h'.isConnect.trans h.isConnect
  asked := h'.asked.trans h.asked
  parser := h'.parser.trans h.parser
  serverData := h'.serverData.trans h.serverData
  count k hk := (h'.count k hk).trans (h.count k hk)

theorem emit (s : Session L) {e : Effect} (he : e.aside = true) : Aside s (s.emit e) :=
  ⟨.snoc _ he, rfl, rfl, rfl, rfl, rfl, fun _ _ => rfl⟩

theorem cancel (s : Session L) (p : Op → Bool) : Aside s (s.cancel p) :=
  ⟨.refl _, rfl, rfl, rfl, rfl, rfl, fun k _ => Io.count_cancel s.io p .aborted k⟩

theorem start (s : Session L) {op : Op} (hop : op.kind = .other) : Aside s (s.start op) := by
  refine ⟨.refl _, rfl, rfl, rfl, rfl, rfl, fun k hk => ?_⟩
  rw [Session.start, Io.count_start]
  simp [Op.weight, hop, hk.symm]

theorem closes : AllowsClose (Aside (L := L)) where
  refl := refl
  trans := trans
  cancel := cancel
  removed s _ := emit s rfl
  clientGone _ := ⟨.refl _, rfl, rfl, rfl, rfl, rfl, fun _ _ => rfl⟩
  closed s := emit s rfl
  serverGone _ := ⟨.refl _, rfl, rfl, rfl, rfl, rfl, fun _ _ => rfl⟩

theorem writes : AllowsWrite (Aside (L := L)) where
  refl := refl
  trans := trans
  send s _ := (emit s rfl).trans (start _ rfl)
  sendServer s _ := (emit s rfl).trans (start _ rfl)

theorem resetTimer (s : Session L) : Aside s s.resetTimer := closes.resetTimer (fun s => start s rfl) s

theorem writeServerBlind (s : Session L) (data : Bytes) : Aside s (s.writeServerBlind data) :=
  writes.writeServerBlind ⟨.snoc _ rfl, rfl, rfl, rfl, rfl, rfl, fun _ _ => rfl⟩

theorem handleClientWrite (s : Session L) (o : Outcome) : Aside s (s.handleClientWrite o) :=
  writes.handleClientWrite closes.close ⟨.refl _, rfl, rfl, rfl, rfl, rfl, fun _ _ => rfl⟩ o

theorem handleServerWrite (s : Session L) (o : Outcome) : Aside s (s.handleServerWrite o) :=
  writes.handleServerWrite (fun _ _ => closes.close s) ⟨.refl _, rfl, rfl, rfl, rfl, rfl, fun _ _ => rfl⟩

theorem complete {k : ℕ} {o : Outcome} (hok : s.complete k o = some t) : Aside s t := by
  obtain ⟨op, io, hio, -, rfl⟩ := complete_spec hok
  exact ⟨.completion _ op o, rfl, rfl, rfl, rfl, rfl, fun k _ => congrFun (Io.count_complete hio) k⟩

end Aside

theorem close_closed (s : Session L) : s.close.clientOpen = false ∧ s.close.serverOpen = false := by
  unfold close
  generalize s.cancelTimer.removeFromQueue = v
  have hclient : v.closeClient.clientOpen = false := by
    unfold closeClient
    split
    · rfl
    · rename_i hc
      exact Bool.eq_false_iff.mpr hc
  unfold closeServer
  split
  · exact ⟨hclient, rfl⟩
  · rename_i hopen
    exact ⟨hclient, Bool.eq_false_iff.mpr hopen⟩

end Session

namespace MitmSession

variable {L : Llhttp} {s t u : MitmSession L}

/-- `t` is `s` but for timers, client writes and being closed. -/
structure Aside (s t : MitmSession L) : Prop where
  log : LogAside s.log t.log
  transaction : t.currentTransaction = s.currentTransaction
  asked : t.asked = s.asked
  parser : t.upstreamParser = s.upstreamParser
  accumulated : t.upstreamAccumulated = s.upstreamAccumulated
  clientDone : t.clientHandshakeDone = s.clientHandshakeDone
  stillOpen : t.isClosed = false → s.isClosed = false
  count : ∀ k, k ≠ .other → t.io.count k = s.io.count k

namespace Aside

theorem refl (s : MitmSession L) : Aside s s :=
  ⟨.refl _, rfl, rfl, rfl, rfl, rfl, id, fun _ _ => rfl⟩

theorem trans (h : Aside s t) (h' : Aside t u) : Aside s u where
  log := h.log.trans h'.log
  transaction := h'.transaction.trans h.transaction
  asked := h'.asked.trans h.asked
  parser := h'.parser.trans h.parser
  accumulated := h'.accumulated.trans h.accumulated
  clientDone := h'.clientDone.trans h.clientDone
  stillOpen hu := h.stillOpen (h'.stillOpen hu)
  count k hk := (h'.count k hk).trans (h.count k hk)

theorem emit (s : MitmSession L) {e : Effect} (he : e.aside = true) : Aside s (s.emit e) :=
  ⟨.snoc _ he, rfl, rfl, rfl, rfl, rfl, id, fun _ _ => rfl⟩

theorem cancel (s : MitmSession L) (p : Op → Bool) : Aside s (s.cancel p) :=
  ⟨.refl _, rfl, rfl, rfl, rfl, rfl, id, fun k _ => Io.count_cancel s.io p .aborted k⟩

theorem start (s : MitmSession L) {op : Op} (hop : op.kind = .other) : Aside s (s.start op) := by
  refine ⟨.refl _, rfl, rfl, rfl, rfl, rfl, id, fun k hk => ?_⟩
  rw [MitmSession.start, Io.count_start]
  simp [Op.weight, hop, hk.symm]

theorem closes : AllowsClose (Aside (L := L)) where
  refl := refl
  trans := trans
  cancel := cancel
  removed s _ := emit s rfl
  gone _ := ⟨.refl _, rfl, rfl, rfl, rfl, rfl, (fun h => by cases h), fun _ _ => rfl⟩
  closed s := emit s rfl

theorem writes : AllowsWrite (Aside (L := L)) where
  refl := refl
  trans := trans
  send s _ := (emit s rfl).trans (start _ rfl)

theorem resetTimer (s : MitmSession L) : Aside s s.resetTimer := closes.resetTimer (fun s => start s rfl) s

theorem handleTimeout (s : MitmSession L) (o : Outcome) : Aside s (s.handleTimeout o) :=
  handleTimeout_of closes.toChain fun _ => closes.close s

theorem handleClientWrite (s : MitmSession L) (o : Outcome) : Aside s (s.handleClientWrite o) :=
  writes.handleClientWrite closes.close ⟨.refl _, rfl, rfl, rfl, rfl, rfl, id, fun _ _ => rfl⟩ o

theorem complete {k : ℕ} {o : Outcome} (hok : s.complete k o = some t) : Aside s t := by
  obtain ⟨op, io, hio, -, rfl⟩ := complete_spec hok
  exact ⟨.completion _ op o, rfl, rfl, rfl, rfl, rfl, id,
    fun k _ => congrFun (Io.count_complete hio) k⟩

end Aside

theorem close_closed (s : MitmSession L) : s.close.isClosed = true := by
  unfold close
  split
  · assumption
  · unfold removeFromQueue
    split
    · rfl
    · rfl

theorem close_of_closed (hclosed : s.isClosed = true) : s.close = s := by
  unfold close
  rw [if_pos hclosed]

/-- Every handler looks first. -/
theorem handle_closed (hclosed : s.isClosed = true) (env : Env) (op : Op) (o : Outcome) :
    s.handle env op o = s := by
  cases op with
  | timer =>
    simp only [handle, handleTimeout, close_of_closed hclosed]
    split <;> rfl
  | rawWrite data => exact close_of_closed hclosed
  | resolve => exact if_pos hclosed
  | connect => exact if_pos hclosed
  | established => exact if_pos hclosed
  | clientHandshake => exact if_pos hclosed
  | upstreamHandshake => exact if_pos hclosed
  | clientRead => exact if_pos hclosed
  | clientWrite data => exact if_pos hclosed
  | upstreamRead => exact if_pos hclosed
  | upstreamWrite data => exact if_pos hclosed
  | decision action => exact if_pos hclosed
  | serverWrite data => rfl

end MitmSession

end BurpTUI
