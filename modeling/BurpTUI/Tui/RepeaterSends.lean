import BurpTUI.Base.StepSystem
import BurpTUI.Tui.RepeaterManager

namespace BurpTUI

namespace RepeaterSends

inductive Phase
  /-- the request is copied out and being rewritten -/
  | preparing
  /-- the target is written back and the thread runs -/
  | sending
  | finished
  deriving DecidableEq, Repr

/-- A call of `executeRequest` that the flag let through, with what it copied out under the lock. -/
structure Send where
  target : Target
  rawRequest : Bytes
  phase : Phase := .preparing
  deriving DecidableEq, Repr

/-- What its thread is given. -/
def Send.job (d : Send) : RepeaterManager.Sending :=
  { target := deriveTarget d.target, req := prepareRequest (deriveTarget d.target).host d.rawRequest }

/-- How the exchange of a thread ended, with an exception if `errStr` is not empty. -/
structure Reply where
  errStr : Bytes := []
  response : Bytes := []
  elapsedMs : ℕ := 0
  deriving DecidableEq, Repr

/-- A result was stored when the manager held this request; it only records the run. -/
structure Stored where
  send : ℕ
  target : Target
  rawRequest : Bytes
  deriving DecidableEq, Repr

/-- The manager and its response text, and every send so far. -/
structure State where
  manager : RepeaterManager := {}
  rawResponse : Bytes := str "(Send request to see real response here)"
  sends : List Send := []
  stored : List Stored := []
  deriving DecidableEq, Repr

/-- The parts of the calls that hold the lock. -/
inductive Label
  | setTarget (target : Target)
  | setRequest (target : Target) (rawRequest : Bytes)
  | setRawRequest (raw : Bytes)
  | setRawResponse (raw : Bytes)
  | executeRequest
  | writeBack (k : ℕ)
  | finish (k : ℕ) (reply : Reply)
  deriving DecidableEq, Repr

def start (s : State) : State :=
  { s with
    manager := { s.manager with isSending := true }
    sends := s.sends ++ [{ target := s.manager.target, rawRequest := s.manager.rawRequest }] }

def connecting (target : Target) : Bytes :=
  str "Connecting to " ++ target.host ++ str ":" ++ target.port ++ str "..."

def writeBack (s : State) (k : ℕ) (d : Send) : State :=
  { s with
    manager := { s.manager with target := d.job.target, statusText := connecting d.job.target }
    sends := s.sends.set k { d with phase := .sending } }

def statusOf (reply : Reply) : Bytes :=
  if reply.errStr ≠ [] then str "Error: " ++ reply.errStr
  else str "Done (" ++ decimal reply.response.length ++ str " B in " ++ decimal reply.elapsedMs ++ str " ms)"

def responseOf (target : Target) (reply : Reply) : Bytes :=
  if reply.errStr ≠ [] then str "HTTP Connection Failed: " ++ reply.errStr ++ str "\nTarget: " ++
    (if target.isHttps then str "https://" else str "http://") ++ target.host ++ str ":" ++ target.port
  else reply.response

def finish (s : State) (k : ℕ) (d : Send) (reply : Reply) : State :=
  { manager := { s.manager with isSending := false, statusText := statusOf reply }
    rawResponse := responseOf d.job.target reply
    sends := s.sends.set k { d with phase := .finished }
    stored := s.stored ++ [{ send := k, target := s.manager.target, rawRequest := s.manager.rawRequest }] }

def step (s : State) : Label → Option State
  | .setTarget target => some { s with manager := s.manager.setTarget target }
  | .setRequest target raw => some { s with manager := s.manager.setRequest target raw }
  | .setRawRequest raw => some { s with manager := s.manager.setRawRequest raw }
  | .setRawResponse raw => some { s with rawResponse := raw }
  | .executeRequest => if s.manager.isSending then some s else some (start s)
  | .writeBack k => (s.sends[k]?).bind fun d => if d.phase = .preparing then some (writeBack s k d) else none
  | .finish k reply => (s.sends[k]?).bind fun d => if d.phase = .sending then some (finish s k d reply) else none

def system : StepSystem.System State Label where
  init s := s = {}
  step := step

def Unfinished (d : Send) : Bool := d.phase ≠ .finished

/-- The flag is set exactly while one send has not finished. -/
def OneInFlight (s : State) : Prop :=
  s.sends.countP Unfinished ≤ 1 ∧ (s.manager.isSending = true ↔ s.sends.countP Unfinished = 1)

def StoredOnce (s : State) : Prop := (s.stored.map Stored.send).Nodup

/-- Each result was stored when the manager held the request that it belongs to. -/
def StoredForHeld (s : State) : Prop :=
  ∀ r ∈ s.stored, ∃ d, s.sends[r.send]? = some d ∧ r.target = deriveTarget d.target ∧
    r.rawRequest = d.rawRequest

/-- While a send has not finished, no other request is loaded; a target that is written over at once may
be. -/
def LoadsApart (s : State) : Label → Prop
  | .setTarget target => s.manager.isSending = true →
    (∃ d ∈ s.sends, d.phase = .preparing) ∨ target = s.manager.target
  | .setRequest target raw => s.manager.isSending = true → raw = s.manager.rawRequest ∧
    ((∃ d ∈ s.sends, d.phase = .preparing) ∨ target = s.manager.target)
  | .setRawRequest raw => s.manager.isSending = true → raw = s.manager.rawRequest
  | _ => True

instance (s : State) (a : Label) : Decidable (LoadsApart s a) :=
  match a with
  | .setTarget _ => inferInstanceAs (Decidable (_ → _ ∨ _))
  | .setRequest _ _ => inferInstanceAs (Decidable (_ → _ ∧ _))
  | .setRawRequest _ => inferInstanceAs (Decidable (_ → _))
  | .setRawResponse _ | .executeRequest | .writeBack _ | .finish _ _ => inferInstanceAs (Decidable True)

/-- What a step can be: a load, which leaves the sends alone, or a part of a send. -/
inductive Moves (s : State) : Label → State → Prop
  | load {a : Label} {t : State} (hsends : t.sends = s.sends) (hstored : t.stored = s.stored)
    (hflag : t.manager.isSending = s.manager.isSending)
    (hheld : LoadsApart s a → s.manager.isSending = true → t.manager.rawRequest = s.manager.rawRequest ∧
      ((∃ d ∈ s.sends, d.phase = .preparing) ∨ t.manager.target = s.manager.target)) : Moves s a t
  | started (hidle : s.manager.isSending = false) : Moves s .executeRequest (start s)
  | written {k : ℕ} {d : Send} (hk : s.sends[k]? = some d) (hphase : d.phase = .preparing) :
    Moves s (.writeBack k) (writeBack s k d)
  | finished {k : ℕ} {d : Send} (reply : Reply) (hk : s.sends[k]? = some d) (hphase : d.phase = .sending) :
    Moves s (.finish k reply) (finish s k d reply)

theorem moves_of_step {s t : State} {a : Label} (h : step s a = some t) : Moves s a t := by
  cases a with
  | setTarget target =>
    cases h
    exact .load rfl rfl rfl fun hc hflag => ⟨rfl, hc hflag⟩
  | setRequest target raw =>
    cases h
    exact .load rfl rfl rfl fun hc hflag => hc hflag
  | setRawRequest raw =>
    cases h
    exact .load rfl rfl rfl fun hc hflag => ⟨hc hflag, .inr rfl⟩
  | setRawResponse raw =>
    cases h
    exact .load rfl rfl rfl fun _ _ => ⟨rfl, .inr rfl⟩
  | executeRequest =>
    rw [step] at h
    split at h
    · cases h
      exact .load rfl rfl rfl fun _ _ => ⟨rfl, .inr rfl⟩
    · rename_i hidle
      cases h
      exact .started (Bool.eq_false_iff.mpr hidle)
  | writeBack k =>
    simp only [step, Option.bind_eq_some_iff, Option.ite_none_right_eq_some, Option.some.injEq] at h
    obtain ⟨d, hk, hphase, rfl⟩ := h
    exact .written hk hphase
  | finish k reply =>
    simp only [step, Option.bind_eq_some_iff, Option.ite_none_right_eq_some, Option.some.injEq] at h
    obtain ⟨d, hk, hphase, rfl⟩ := h
    exact .finished reply hk hphase

/-- Only the last send can be open. -/
structure Inv (s : State) : Prop where
  idle : s.manager.isSending = false → ∀ d ∈ s.sends, d.phase = .finished
  busy : s.manager.isSending = true →
    ∃ l d, s.sends = l ++ [d] ∧ (∀ e ∈ l, e.phase = .finished) ∧ d.phase ≠ .finished
  stored : ∀ r ∈ s.stored, ∃ d, s.sends[r.send]? = some d ∧ d.phase = .finished
  once : StoredOnce s

section Sends

variable {s t : State} {a : Label} {k : ℕ} {d e : Send}

theorem Inv.open_last (h : Inv s) (hk : s.sends[k]? = some d) (hd : d.phase ≠ .finished) :
    s.manager.isSending = true ∧
      ∃ l, s.sends = l ++ [d] ∧ k = l.length ∧ ∀ e ∈ l, e.phase = .finished := by
  have hmem := List.mem_of_getElem? hk
  cases hflag : s.manager.isSending with
  | false => exact absurd (h.idle hflag d hmem) hd
  | true =>
    obtain ⟨l, d', hsends, hl, -⟩ := h.busy hflag
    rw [hsends] at hk
    by_cases hlt : k < l.length
    · rw [List.getElem?_append_left hlt] at hk
      exact absurd (hl d (List.mem_of_getElem? hk)) hd
    · rw [List.getElem?_append_right (Nat.le_of_not_lt hlt), List.getElem?_singleton] at hk
      split at hk
      · obtain rfl := Option.some.inj hk
        exact ⟨rfl, l, hsends, by omega, hl⟩
      · cases hk

theorem Inv.open_mem (h : Inv s) (hmem : d ∈ s.sends) (hd : d.phase ≠ .finished) :
    s.manager.isSending = true ∧ ∃ l, s.sends = l ++ [d] ∧ ∀ e ∈ l, e.phase = .finished := by
  obtain ⟨k, hk⟩ := List.getElem?_of_mem hmem
  obtain ⟨hflag, l, hsends, -, hl⟩ := h.open_last hk hd
  exact ⟨hflag, l, hsends, hl⟩

theorem set_last (l : List Send) (d e : Send) : (l ++ [d]).set l.length e = l ++ [e] := by
  rw [List.set_append_right _ _ (Nat.le_refl _), Nat.sub_self]
  rfl

/-- A send that has finished is not the one that goes on. -/
theorem getElem?_set_open {j : ℕ} (hk : s.sends[k]? = some d) (hd : d.phase ≠ .finished)
    (hj : s.sends[j]? = some e) (he : e.phase = .finished) (d' : Send) :
    (s.sends.set k d')[j]? = some e := by
  rw [List.getElem?_set_ne, hj]
  rintro rfl
  obtain rfl := Option.some.inj (hk.symm.trans hj)
  exact hd he

theorem Inv.stored_set (h : Inv s) (hk : s.sends[k]? = some d) (hd : d.phase ≠ .finished) (d' : Send) :
    ∀ r ∈ s.stored, ∃ e, (s.sends.set k d')[r.send]? = some e ∧ e.phase = .finished := by
  intro r hr
  obtain ⟨e, he, hdone⟩ := h.stored r hr
  exact ⟨e, getElem?_set_open hk hd he hdone d', hdone⟩

theorem inv_step (h : Inv s) (hm : Moves s a t) : Inv t := by
  cases hm with
  | load hsends hstored hflag hheld =>
    refine ⟨?_, ?_, ?_, ?_⟩
    · rw [hflag, hsends]
      exact h.idle
    · rw [hflag, hsends]
      exact h.busy
    · rw [hstored, hsends]
      exact h.stored
    · rw [StoredOnce, hstored]
      exact h.once
  | started hidle =>
    refine ⟨?_, ?_, ?_, h.once⟩
    · intro hfalse
      cases hfalse
    · intro _
      exact ⟨s.sends, _, rfl, h.idle hidle, by simp⟩
    · intro r hr
      obtain ⟨d, hd, hphase⟩ := h.stored r hr
      refine ⟨d, ?_, hphase⟩
      rw [start, List.getElem?_append_left (List.getElem?_eq_some_iff.mp hd).1, hd]
  | @written k d hk hphase =>
    have hopen := hphase.trans_ne (by decide : Phase.preparing ≠ .finished)
    have hstored := h.stored_set hk hopen { d with phase := .sending }
    obtain ⟨hflag, l, hsends, rfl, hl⟩ := h.open_last hk hopen
    refine ⟨?_, ?_, hstored, h.once⟩
    · intro hfalse
      rw [writeBack, hflag] at hfalse
      cases hfalse
    · intro _
      rw [writeBack, hsends, set_last]
      exact ⟨l, _, rfl, hl, by simp⟩
  | @finished k d reply hk hphase =>
    have hopen := hphase.trans_ne (by decide : Phase.sending ≠ .finished)
    have hstored := h.stored_set hk hopen { d with phase := .finished }
    obtain ⟨hflag, l, hsends, rfl, hl⟩ := h.open_last hk hopen
    refine ⟨?_, ?_, ?_, ?_⟩
    · intro _
      rw [finish, hsends, set_last]
      simpa [or_imp, forall_and] using hl
    · intro htrue
      cases htrue
    · intro r hr
      rw [finish, List.mem_append, List.mem_singleton] at hr
      rcases hr with hr | rfl
      · exact hstored r hr
      · refine ⟨{ d with phase := .finished }, ?_, rfl⟩
        rw [finish, hsends, set_last, List.getElem?_concat_length]
    · rw [StoredOnce, finish, List.map_append, List.nodup_append]
      refine ⟨h.once, by simp, ?_⟩
      intro j hj j' hj'
      obtain ⟨r, hr, rfl⟩ := List.mem_map.mp hj
      obtain ⟨e, he, hdone⟩ := h.stored r hr
      rw [List.map_singleton, List.mem_singleton] at hj'
      rintro rfl
      rw [hj', hk] at he
      obtain rfl := Option.some.inj he
      exact hopen hdone

/-- The manager still holds what the open send was started with. -/
def Held (s : State) : Prop := ∀ d ∈ s.sends, d.phase ≠ .finished →
  s.manager.rawRequest = d.rawRequest ∧ (d.phase = .sending → s.manager.target = deriveTarget d.target)

theorem held_step (hinv : Inv s) (h : Held s) (hc : LoadsApart s a) (hm : Moves s a t) : Held t := by
  cases hm with
  | load hsends hstored hflag hheld =>
    intro d hmem hopen
    rw [hsends] at hmem
    obtain ⟨hsending, l, hlast, hl⟩ := hinv.open_mem hmem hopen
    obtain ⟨hraw, htarget⟩ := h d hmem hopen
    obtain ⟨hraw', hor⟩ := hheld hc hsending
    refine ⟨hraw'.trans hraw, fun hphase => ?_⟩
    rcases hor with ⟨e, he, hpreparing⟩ | hsame
    · -- the only open send would be in two phases
      obtain ⟨-, l', hlast', -⟩ := hinv.open_mem he (by simp [hpreparing])
      rw [hlast'] at hlast
      obtain rfl := List.singleton_inj.mp (List.append_inj_right' hlast rfl)
      rw [hpreparing] at hphase
      cases hphase
    · exact hsame.trans (htarget hphase)
  | started hidle =>
    intro d hmem hopen
    rw [start, List.mem_append, List.mem_singleton] at hmem
    rcases hmem with hmem | rfl
    · exact absurd (hinv.idle hidle d hmem) hopen
    · refine ⟨rfl, fun hphase => ?_⟩
      cases hphase
  | @written k d hk hphase =>
    have hopen := hphase.trans_ne (by decide : Phase.preparing ≠ .finished)
    obtain ⟨-, l, hsends, rfl, hl⟩ := hinv.open_last hk hopen
    have hraw := (h d (List.mem_of_getElem? hk) hopen).1
    intro e hmem hopen'
    rw [writeBack, hsends, set_last, List.mem_append, List.mem_singleton] at hmem
    rcases hmem with hmem | rfl
    · exact absurd (hl e hmem) hopen'
    · exact ⟨hraw, fun _ => rfl⟩
  | @finished k d reply hk hphase =>
    have hdone := (inv_step hinv (.finished reply hk hphase)).idle rfl
    intro e hmem hopen
    exact absurd (hdone e hmem) hopen

theorem copied_set {j : ℕ} (p : Phase) (hj : s.sends[j]? = some e) (hd : s.sends[k]? = some d) :
    ∃ d', (s.sends.set j { e with phase := p })[k]? = some d' ∧ d'.target = d.target ∧
      d'.rawRequest = d.rawRequest := by
  by_cases hjk : j = k
  · subst hjk
    obtain rfl := Option.some.inj (hj.symm.trans hd)
    rw [List.getElem?_set_self (List.getElem?_eq_some_iff.mp hd).1]
    exact ⟨_, rfl, rfl, rfl⟩
  · rw [List.getElem?_set_ne hjk]
    exact ⟨d, hd, rfl, rfl⟩

/-- A send keeps what it has copied out. -/
theorem copied_step (hm : Moves s a t) (hd : s.sends[k]? = some d) :
    ∃ e, t.sends[k]? = some e ∧ e.target = d.target ∧ e.rawRequest = d.rawRequest := by
  cases hm with
  | load hsends =>
    rw [hsends]
    exact ⟨d, hd, rfl, rfl⟩
  | started hidle =>
    rw [start, List.getElem?_append_left (List.getElem?_eq_some_iff.mp hd).1]
    exact ⟨d, hd, rfl, rfl⟩
  | written hk hphase => exact copied_set .sending hk hd
  | finished reply hk hphase => exact copied_set .finished hk hd

theorem storedForHeld_step (h : StoredForHeld s) (hheld : Held s) (hm : Moves s a t) : StoredForHeld t := by
  have hkept : ∀ r ∈ s.stored, ∃ d, t.sends[r.send]? = some d ∧ r.target = deriveTarget d.target ∧
      r.rawRequest = d.rawRequest := by
    intro r hr
    obtain ⟨d, hd, htarget, hraw⟩ := h r hr
    obtain ⟨e, he, hetarget, heraw⟩ := copied_step hm hd
    exact ⟨e, he, by rw [hetarget, htarget], by rw [heraw, hraw]⟩
  cases hm with
  | load hsends hstored hflag hload =>
    rw [StoredForHeld, hstored]
    exact hkept
  | started hidle => exact hkept
  | written hk hphase => exact hkept
  | @finished k d reply hk hphase =>
    intro r hr
    rw [finish, List.mem_append, List.mem_singleton] at hr
    rcases hr with hr | rfl
    · exact hkept r hr
    · obtain ⟨hraw, htarget⟩ := hheld d (List.mem_of_getElem? hk) (by simp [hphase])
      obtain ⟨e, he, hetarget, heraw⟩ := copied_step (.finished reply hk hphase) hk
      exact ⟨e, he, by rw [hetarget, htarget hphase], by rw [heraw, hraw]⟩

theorem Inv.oneInFlight (h : Inv s) : OneInFlight s := by
  have hdone {l : List Send} (hl : ∀ e ∈ l, e.phase = .finished) : l.countP Unfinished = 0 := by
    rw [List.countP_eq_zero]
    intro e he
    simp [Unfinished, hl e he]
  cases hflag : s.manager.isSending with
  | false =>
    rw [OneInFlight, hflag, hdone (h.idle hflag)]
    decide
  | true =>
    obtain ⟨l, d, hsends, hl, hd⟩ := h.busy hflag
    have hone : [d].countP Unfinished = 1 := by simp [Unfinished, hd]
    rw [OneInFlight, hflag, hsends, List.countP_append, hdone hl, hone]
    decide

end Sends

theorem inv_of_reached {s : State} (h : system.Reached s) : Inv s := by
  refine h.invariant ?_ ?_
  · rintro _ rfl
    refine ⟨?_, ?_, ?_, ?_⟩
    · intro _ d hd
      cases hd
    · intro hflag
      cases hflag
    · intro r hr
      cases hr
    · exact List.nodup_nil
  · intro s a t hinv _ hstep
    exact inv_step hinv (moves_of_step hstep)

theorem storedForHeld_of_reachedUnder {s : State} (h : system.ReachedUnder LoadsApart s) :
    Held s ∧ StoredForHeld s := by
  refine h.invariant_of (I := fun s => Held s ∧ StoredForHeld s) (fun _ ht => inv_of_reached ht.reached) ?_ ?_
  · rintro _ rfl
    refine ⟨?_, ?_⟩
    · intro d hd
      cases hd
    · intro r hr
      cases hr
  · rintro s a t hinv ⟨hheld, hstored⟩ hc hstep
    have hm := moves_of_step hstep
    exact ⟨held_step hinv hheld hc hm, storedForHeld_step hstored hheld hm⟩

/-- The flag lets one send through at a time and each stores one result. That of a request is stored
beside another only if another is loaded while the send has not finished. -/
theorem sends_exclusive {s : State} (h : system.Reached s) :
    OneInFlight s ∧ StoredOnce s ∧ (system.ReachedUnder LoadsApart s → StoredForHeld s) :=
  ⟨(inv_of_reached h).oneInFlight, (inv_of_reached h).once, fun hunder =>
    (storedForHeld_of_reachedUnder hunder).2⟩

/-- One request sent, and its response stored before the next is loaded. -/
theorem sends_exclusive_one : ∃ s, s.stored.length = 1 ∧ s.rawResponse = str "OK" ∧
    OneInFlight s ∧ StoredOnce s ∧ StoredForHeld s := by
  have hrun : system.runUnder LoadsApart {} [.executeRequest, .writeBack 0, .finish 0 { response := str "OK" },
      .setRawRequest (str "GET / HTTP/1.1\r\n\r\n")] = some _ := rfl
  have hunder := StepSystem.System.ReachedUnder.runUnder (.init rfl) hrun
  obtain ⟨hflight, honce, hheld⟩ := sends_exclusive hunder.reached
  exact ⟨_, rfl, rfl, hflight, honce, hheld hunder⟩

/-- The user edits the request and presses Send again before the first response is there. -/
theorem reply_beside_edited : ∃ s, system.Reached s ∧ s.sends.length = 1 ∧
    s.manager.rawRequest = str "GET / HTTP/1.1\r\n\r\n" ∧ s.rawResponse = str "OK" ∧ ¬ StoredForHeld s := by
  have hrun : system.run {} [.executeRequest, .writeBack 0, .setRawRequest (str "GET / HTTP/1.1\r\n\r\n"),
      .executeRequest, .finish 0 { response := str "OK" }] = some _ := rfl
  refine ⟨_, .run (.init rfl) hrun, rfl, rfl, rfl, ?_⟩
  intro h
  obtain ⟨d, hd, -, hraw⟩ := h _ (List.mem_singleton_self _)
  cases hd
  exact absurd hraw (by decide)

end RepeaterSends

end BurpTUI
