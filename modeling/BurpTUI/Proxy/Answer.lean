import BurpTUI.Proxy.ExchangeFlow

namespace BurpTUI

/-- What has been queued for the client, and received from the upstream, for one request. -/
structure Answer where
  queued : List (Origin × Bytes) := []
  received : List Bytes := []
  deriving DecidableEq, Repr

namespace Answer

def add (a : Answer) (origin : Origin) (data : Bytes) : Answer :=
  { a with queued := a.queued ++ [(origin, data)] }

/-- Everything comes from the upstream, or there is exactly one response of the proxy. -/
def One (a : Answer) : Prop :=
  ((∀ q ∈ a.queued, q.1 = .relayed) ∧ a.queued.flatMap Prod.snd <+: a.received.flatten) ∨
    a.queued.map Prod.fst = [.generated]

instance (a : Answer) : Decidable a.One := inferInstanceAs (Decidable (_ ∨ _))

/-- Everything that was received has been relayed. -/
structure Relayed (a : Answer) : Prop where
  origin : ∀ q ∈ a.queued, q.1 = .relayed
  bytes : a.queued.flatMap Prod.snd = a.received.flatten

theorem Relayed.one {a : Answer} (h : a.Relayed) : a.One :=
  Or.inl ⟨h.origin, h.bytes ▸ List.prefix_refl _⟩

theorem Relayed.chunk {a : Answer} (h : a.Relayed) (data : Bytes) :
    ({ a with received := a.received ++ [data] }.add .relayed data).Relayed := by
  refine ⟨fun q hq => ?_, ?_⟩
  · rcases List.mem_append.mp hq with hq | hq
    · exact h.origin q hq
    · rw [List.mem_singleton.mp hq]
  · simp [add, h.bytes]

theorem one_received {a : Answer} (h : a.One) (data : Bytes) :
    One { a with received := a.received ++ [data] } := by
  rcases h with ⟨horigin, hbytes⟩ | h
  · refine Or.inl ⟨horigin, hbytes.trans ?_⟩
    rw [List.flatten_append]
    exact List.prefix_append _ _
  · exact Or.inr h

end Answer

/-- The answer to the last request that was read, as long as nothing more was read and the client
socket was not closed. Only a request of `answersTo` has one. -/
def trackAnswer (answersTo : HttpRequest → Bool) : Option Answer → Effect → Option Answer
  | _, .took _ request => if answersTo request then some {} else none
  | _, .read _ => none
  | _, .closed => none
  | some a, .queued origin data => some (a.add origin data)
  | some a, .received data => some { a with received := a.received ++ [data] }
  | a, _ => a

def openAnswer (answersTo : HttpRequest → Bool) (log : List Effect) : Option Answer :=
  log.foldl (trackAnswer answersTo) none

/-- At every moment of the record the request at hand has one answer. -/
def AnsweredOnce (answersTo : HttpRequest → Bool) (log : List Effect) : Prop :=
  ∀ l, l <+: log → ∀ a, openAnswer answersTo l = some a → a.One

/-- A CONNECT request over a plain connection opens a tunnel. -/
def Session.answersTo (request : HttpRequest) : Bool := request.method != str "CONNECT"

/-- Over TLS a CONNECT request is forwarded and answered as any other. -/
def MitmSession.answersTo (_ : HttpRequest) : Bool := true

variable {answersTo : HttpRequest → Bool}

/-- What a completed operation records is no part of an answer. -/
theorem trackAnswer_completion {op : Op} {o : Outcome} {e : Effect} (he : e ∈ op.completion o)
    (a : Option Answer) : trackAnswer answersTo a e = a := by
  rcases Op.mem_completion he with ⟨data, -, -, rfl⟩ | ⟨-, -, rfl⟩ | ⟨-, -, rfl⟩ <;> cases a <;> rfl

theorem openAnswer_append (log es : List Effect) :
    openAnswer answersTo (log ++ es) = es.foldl (trackAnswer answersTo) (openAnswer answersTo log) :=
  List.foldl_append

theorem openAnswer_silent {log es : List Effect} (hes : ∀ e ∈ es, ∀ a, trackAnswer answersTo a e = a) :
    openAnswer answersTo (log ++ es) = openAnswer answersTo log := by
  rw [openAnswer_append]
  induction es with
  | nil => rfl
  | cons e es ih =>
    rw [List.foldl_cons, hes e (by simp)]
    exact ih fun e' he' => hes e' (by simp [he'])

/-- Without an open request nothing is received for one. -/
theorem openAnswer_received {log : List Effect} {data : Bytes} {a : Answer}
    (ha : openAnswer answersTo (log ++ [.received data]) = some a) :
    ∃ a', openAnswer answersTo log = some a' ∧ a = { a' with received := a'.received ++ [data] } := by
  rw [openAnswer_append] at ha
  cases hopen : openAnswer answersTo log with
  | none =>
    rw [hopen] at ha
    cases ha
  | some a' =>
    rw [hopen] at ha
    exact ⟨a', rfl, (Option.some.inj ha).symm⟩

theorem openAnswer_relayed {log : List Effect} {data : Bytes} {origin : Origin} {a : Answer}
    (ha : openAnswer answersTo (log ++ [.received data] ++ [.queued origin data]) = some a) :
    ∃ a', openAnswer answersTo log = some a' ∧
      a = ({ a' with received := a'.received ++ [data] } : Answer).add origin data := by
  rw [openAnswer_append] at ha
  cases hopen : openAnswer answersTo (log ++ [.received data]) with
  | none =>
    rw [hopen] at ha
    cases ha
  | some a₁ =>
    obtain ⟨a', hfirst, rfl⟩ := openAnswer_received hopen
    rw [hopen] at ha
    exact ⟨a', hfirst, (Option.some.inj ha).symm⟩

theorem answeredOnce_nil : AnsweredOnce answersTo [] := by
  intro l hl a ha
  rw [List.prefix_nil.mp hl] at ha
  cases ha

namespace AnsweredOnce

variable {log : List Effect}

theorem emit (h : AnsweredOnce answersTo log) {e : Effect}
    (he : ∀ a, openAnswer answersTo (log ++ [e]) = some a → a.One) : AnsweredOnce answersTo (log ++ [e]) := by
  intro l hl a ha
  rcases List.prefix_concat_iff.mp hl with rfl | hl
  · exact he a ha
  · exact h l hl a ha

/-- Effects that are no part of an answer. -/
theorem append (h : AnsweredOnce answersTo log) {es : List Effect}
    (hes : ∀ e ∈ es, ∀ a, trackAnswer answersTo a e = a) :
    AnsweredOnce answersTo (log ++ es) ∧ openAnswer answersTo (log ++ es) = openAnswer answersTo log := by
  induction es generalizing log with
  | nil => simpa using h
  | cons e es ih =>
    have he : openAnswer answersTo (log ++ [e]) = openAnswer answersTo log := by
      rw [openAnswer_append]
      exact hes e (by simp) _
    have hemit : AnsweredOnce answersTo (log ++ [e]) := h.emit fun a ha => by
      rw [he] at ha
      exact h log (List.prefix_refl _) a ha
    obtain ⟨h1, h2⟩ := ih hemit fun e' he' => hes e' (by simp [he'])
    rw [List.append_assoc] at h1 h2
    exact ⟨h1, h2.trans he⟩

/-- The record of a request that is read starts a new answer. -/
theorem fresh (h : AnsweredOnce answersTo log) {e : Effect}
    (he : trackAnswer answersTo (openAnswer answersTo log) e = none ∨
      trackAnswer answersTo (openAnswer answersTo log) e = some {}) : AnsweredOnce answersTo (log ++ [e]) := by
  refine h.emit fun a ha => ?_
  have ha : trackAnswer answersTo (openAnswer answersTo log) e = some a := by
    rw [← ha, openAnswer_append]
    rfl
  rcases he with he | he
  · rw [he] at ha
    cases ha
  · rw [he] at ha
    cases ha
    exact Or.inl ⟨by simp, by simp⟩

end AnsweredOnce

end BurpTUI
