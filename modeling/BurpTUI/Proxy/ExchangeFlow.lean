import BurpTUI.Proxy.Exchange

namespace BurpTUI

/-- What the exchange of a session is about: its record, the requests given to the intercept
manager, the request of the transaction, and the number of outstanding operations of each kind. -/
structure Flow where
  log : List Effect
  asked : List Ref
  request : Option Ref
  tunnel : Bool
  count : OpKind → ℕ

namespace Flow

variable {b f g h : Flow} {new ref : Ref} {op : Op}

def emit (f : Flow) (e : Effect) : Flow := { f with log := f.log ++ [e] }

def start (f : Flow) (op : Op) : Flow := { f with count := fun k => f.count k + op.weight k }

/-- `g` differs from `f` in nothing but effects that are not about a request and operations that
do not carry an exchange. -/
structure Quietly (f g : Flow) : Prop where
  log : ∃ es, g.log = f.log ++ es ∧ ∀ e ∈ es, e.subject = none
  asked : g.asked = f.asked
  request : g.request = f.request
  tunnel : g.tunnel = f.tunnel
  count : ∀ k, k ≠ .other → g.count k = f.count k

namespace Quietly

theorem refl (f : Flow) : Quietly f f := ⟨⟨[], by simp, by simp⟩, rfl, rfl, rfl, fun _ _ => rfl⟩

theorem trans (hfg : Quietly f g) (hgh : Quietly g h) : Quietly f h := by
  obtain ⟨es, hes, hsilent⟩ := hfg.log
  obtain ⟨es', hes', hsilent'⟩ := hgh.log
  refine ⟨⟨es ++ es', ?_, ?_⟩, hgh.asked.trans hfg.asked, hgh.request.trans hfg.request,
    hgh.tunnel.trans hfg.tunnel, fun k hk => (hgh.count k hk).trans (hfg.count k hk)⟩
  · rw [hes', hes, List.append_assoc]
  · intro e he
    rcases List.mem_append.mp he with he | he
    · exact hsilent e he
    · exact hsilent' e he

theorem emit (f : Flow) {e : Effect} (he : e.subject = none) : Quietly f (f.emit e) :=
  ⟨⟨[e], rfl, by simp [he]⟩, rfl, rfl, rfl, fun _ _ => rfl⟩

theorem start (f : Flow) (hop : op.kind = .other) : Quietly f (f.start op) := by
  refine ⟨⟨[], by simp [Flow.start], by simp⟩, rfl, rfl, rfl, fun k hk => ?_⟩
  simp [Flow.start, Op.weight, hop, hk.symm]

end Quietly

/-- The stage that the outstanding operations `n` stand for. In a tunnel reading and writing go
on side by side, but nothing is intercepted any more. -/
def Fits (n : OpKind → ℕ) (f : Flow) : Stage → Prop
  | .quiet => f.asked = [] ∧ (∀ a, n (.decision a) = 0) ∧
      (f.tunnel = false → n .dial = 0 ∧ n .read + n .send + n .receive ≤ 1)
  | .asked r => f.tunnel = false ∧ f.request = some r ∧ f.asked = [r] ∧
      (∀ a, n (.decision a) = 0) ∧ n .dial = 0 ∧ n .read + n .send + n .receive = 0
  | .ruled r a => f.tunnel = false ∧ f.request = some r ∧ f.asked = [] ∧
      (∀ b, n (.decision b) = if b = a then 1 else 0) ∧ n .dial = 0 ∧
      n .read + n .send + n .receive = 0
  | .cleared r => f.tunnel = false ∧ f.request = some r ∧ f.asked = [] ∧
      (∀ a, n (.decision a) = 0) ∧ n .dial = 1 ∧ n .read + n .send + n .receive = 0

/-- The invariant of a session. -/
def Holds (f : Flow) : Prop := ∃ st, Proper f.log st ∧ Fits f.count f st

/-- What a handler may have added since it started at `b`: no decision, no request but `new`, and
every request given to the manager is noted. -/
def Since (b : Flow) (new : Ref) (f : Flow) : Prop :=
  ∃ es, f.log = b.log ++ es ∧ f.asked = b.asked ++ es.filterMap Effect.asks ∧
    (∀ r a, .decided r a ∉ es) ∧ ∀ r ∈ tookRefs es, r = new

/-- The invariant at the end of a handler that started at `b`. -/
structure Sound (b : Flow) (new : Ref) (f : Flow) : Prop where
  holds : Holds f
  since : Since b new f

/-- The invariant while the handler of `op` runs. -/
structure SoundAfter (b : Flow) (new : Ref) (op : Op) (f : Flow) : Prop where
  holds : ∃ st, Proper f.log st ∧ Fits (fun k => f.count k + op.weight k) f st
  since : Since b new f

/-- Nothing is outstanding that carries an exchange. -/
structure Idle (b : Flow) (new : Ref) (f : Flow) : Prop where
  since : Since b new f
  proper : Proper f.log .quiet
  asked : f.asked = []
  decision : ∀ a, f.count (.decision a) = 0
  plain : f.tunnel = false →
    f.count .dial = 0 ∧ f.count .read + f.count .send + f.count .receive = 0

/-- The same, with a request that may be handed over. -/
structure Cleared (b : Flow) (new ref : Ref) (f : Flow) : Prop where
  since : Since b new f
  proper : Proper f.log (.cleared ref)
  asked : f.asked = []
  decision : ∀ a, f.count (.decision a) = 0
  tunnel : f.tunnel = false
  request : f.request = some ref
  dial : f.count .dial = 0
  rest : f.count .read + f.count .send + f.count .receive = 0

theorem Quietly.proper (hq : Quietly f g) {st : Stage} (hp : Proper f.log st) :
    Proper g.log st := by
  obtain ⟨es, hes, hsilent⟩ := hq.log
  rw [hes]
  exact hp.silent hsilent

theorem Since.refl (f : Flow) : Since f new f := ⟨[], by simp, by simp, by simp, by simp [tookRefs]⟩

/-- Effects that decide nothing. -/
theorem Since.append (hs : Since b new f) {es : List Effect} (hlog : g.log = f.log ++ es)
    (hasked : g.asked = f.asked ++ es.filterMap Effect.asks) (hnot : ∀ r a, .decided r a ∉ es)
    (htook : ∀ r ∈ tookRefs es, r = new) : Since b new g := by
  obtain ⟨fs, hfs, hfasked, hfnot, hftook⟩ := hs
  refine ⟨fs ++ es, ?_, ?_, fun r a hmem => ?_, fun r hr => ?_⟩
  · rw [hlog, hfs, List.append_assoc]
  · rw [hasked, hfasked, List.filterMap_append, List.append_assoc]
  · rcases List.mem_append.mp hmem with hmem | hmem
    · exact hfnot r a hmem
    · exact hnot r a hmem
  · rw [Proper.tookRefs_append] at hr
    rcases List.mem_append.mp hr with hr | hr
    · exact hftook r hr
    · exact htook r hr

theorem Quietly.since (hq : Quietly f g) (hs : Since b new f) : Since b new g := by
  obtain ⟨es, hes, hsilent⟩ := hq.log
  have hasks : es.filterMap Effect.asks = [] := by
    rw [List.filterMap_eq_nil_iff]
    intro e he
    have hsubject := hsilent e he
    cases e <;> simp_all [Effect.subject, Effect.asks]
  refine hs.append hes ?_ (fun r a hmem => ?_) fun r hr => ?_
  · rw [hasks, List.append_nil]
    exact hq.asked
  · have hsubject := hsilent _ hmem
    cases hsubject
  · obtain ⟨e, he, hr⟩ := List.mem_filterMap.mp hr
    have hsubject := hsilent e he
    cases e <;> simp_all [Effect.subject]

theorem Quietly.since_start (hq : Quietly f g) (new : Ref) : Since f new g :=
  hq.since (Since.refl f)

theorem Quietly.idle (hq : Quietly f g) (hi : Idle b new f) : Idle b new g where
  since := hq.since hi.since
  proper := hq.proper hi.proper
  asked := hq.asked.trans hi.asked
  decision a := (hq.count _ (by simp)).trans (hi.decision a)
  plain ht := by
    rw [hq.count _ (by simp), hq.count _ (by simp), hq.count _ (by simp), hq.count _ (by simp)]
    exact hi.plain (hq.tunnel ▸ ht)

theorem Quietly.cleared (hq : Quietly f g) (hi : Cleared b new ref f) : Cleared b new ref g where
  since := hq.since hi.since
  proper := hq.proper hi.proper
  asked := hq.asked.trans hi.asked
  decision a := (hq.count _ (by simp)).trans (hi.decision a)
  tunnel := hq.tunnel.trans hi.tunnel
  request := hq.request.trans hi.request
  dial := (hq.count _ (by simp)).trans hi.dial
  rest := by
    rw [hq.count _ (by simp), hq.count _ (by simp), hq.count _ (by simp)]
    exact hi.rest

theorem Quietly.holds (hq : Quietly f g) (hf : Holds f) : Holds g := by
  obtain ⟨st, hp, hfits⟩ := hf
  refine ⟨st, hq.proper hp, ?_⟩
  have hread := hq.count .read (by simp)
  have hdial := hq.count .dial (by simp)
  have hsend := hq.count .send (by simp)
  have hreceive := hq.count .receive (by simp)
  have hdecision (a : InterceptAction) := hq.count (.decision a) (by simp)
  cases st <;>
    simpa only [Fits, hread, hdial, hsend, hreceive, hdecision, hq.asked, hq.tunnel, hq.request]
      using hfits

theorem Quietly.sound (hq : Quietly f g) (hf : Sound b new f) : Sound b new g :=
  ⟨hq.holds hf.holds, hq.since hf.since⟩

/-- The same while a handler runs. -/
theorem Quietly.soundAfter (hq : Quietly f g) (hf : SoundAfter b new op f) :
    SoundAfter b new op g := by
  obtain ⟨⟨st, hp, hfits⟩, hsince⟩ := hf
  refine ⟨⟨st, hq.proper hp, ?_⟩, hq.since hsince⟩
  have hread := hq.count .read (by simp)
  have hdial := hq.count .dial (by simp)
  have hsend := hq.count .send (by simp)
  have hreceive := hq.count .receive (by simp)
  have hdecision (a : InterceptAction) := hq.count (.decision a) (by simp)
  cases st <;>
    simpa only [Fits, hread, hdial, hsend, hreceive, hdecision, hq.asked, hq.tunnel, hq.request]
      using hfits

theorem Cleared.idle (hc : Cleared b new ref f) : Idle b new f where
  since := hc.since
  proper := hc.proper.giveUp
  asked := hc.asked
  decision := hc.decision
  plain _ := ⟨hc.dial, hc.rest⟩

theorem Idle.sound (hi : Idle b new f) : Sound b new f := by
  refine ⟨⟨.quiet, hi.proper, hi.asked, hi.decision, fun ht => ?_⟩, hi.since⟩
  have hplain := hi.plain ht
  omega

/-- An idle session may start to read, to write to the upstream or to read from it. -/
theorem Idle.start (hi : Idle b new f) (hop : op.kind = .read ∨ op.kind = .send ∨ op.kind = .receive) :
    Sound b new (f.start op) := by
  refine ⟨⟨.quiet, hi.proper, hi.asked, fun a => ?_, fun ht => ?_⟩, hi.since⟩
  · have hdecision := hi.decision a
    rcases hop with hop | hop | hop <;> simp [Flow.start, Op.weight, hop, hdecision]
  · have hplain := hi.plain ht
    rcases hop with hop | hop | hop <;> simp [Flow.start, Op.weight, hop] <;> omega

/-- In a tunnel operations may be outstanding side by side. -/
theorem Idle.start_tunnel (hi : Idle b new f) (ht : f.tunnel = true) (hop : ∀ a, op.kind ≠ .decision a) :
    Idle b new (f.start op) where
  since := hi.since
  proper := hi.proper
  asked := hi.asked
  decision a := by simp [Flow.start, Op.weight, hop a, hi.decision a]
  plain hfalse := by
    have htunnel : f.tunnel = false := hfalse
    rw [ht] at htunnel
    cases htunnel

theorem Sound.start_handshake (hs : Sound b new f)
    (hop : op.kind = .clientHandshake ∨ op.kind = .upstreamHandshake) : Sound b new (f.start op) := by
  obtain ⟨⟨st, hp, hfits⟩, hsince⟩ := hs
  refine ⟨⟨st, hp, ?_⟩, hsince⟩
  rcases hop with hop | hop <;> cases st <;> simpa [Fits, Flow.start, Op.weight, hop] using hfits

theorem Cleared.start (hc : Cleared b new ref f) (hop : op.kind = .dial) : Sound b new (f.start op) := by
  have hdial := hc.dial
  have hrest := hc.rest
  refine ⟨⟨.cleared ref, hc.proper, hc.tunnel, hc.request, hc.asked, fun a => ?_, ?_, ?_⟩, hc.since⟩
  · simp [Flow.start, Op.weight, hop, hc.decision a]
  · simp [Flow.start, Op.weight, hop]
    omega
  · simp [Flow.start, Op.weight, hop]
    omega

theorem Cleared.hand (hc : Cleared b new ref f) (data : Bytes) : Idle b new (f.emit (.handed ref data)) where
  since := hc.since.append rfl (by simp [Flow.emit, Effect.asks]) (by simp) (by simp [tookRefs])
  proper := hc.proper.hand data
  asked := hc.asked
  decision := hc.decision
  plain _ := ⟨hc.dial, hc.rest⟩

theorem Idle.take (hi : Idle b new f) (req : HttpRequest) : Idle b new (f.emit (.took new req)) where
  since := hi.since.append rfl (by simp [Flow.emit, Effect.asks]) (by simp) (by simp [tookRefs])
  proper := hi.proper.take new req
  asked := hi.asked
  decision := hi.decision
  plain := hi.plain

/-- A new request is taken and tested, and the callback for it registered. -/
theorem Idle.ask (hi : Idle b new f) (ht : f.tunnel = false) (hfresh : new ∉ tookRefs f.log)
    (req : HttpRequest) {item : InterceptedRequest Ref} (hitem : item.onDecision = new) :
    Sound b new { f with
      log := f.log ++ [.took new req, .tested new true] ++ [.intercepted item]
      asked := f.asked ++ [new], request := some new } := by
  obtain ⟨hdial, hrest⟩ := hi.plain ht
  have hasked : f.asked ++ [new] = [new] := by rw [hi.asked, List.nil_append]
  refine ⟨⟨.asked new, (hi.proper.test hfresh req true).ask hitem, ht, rfl, hasked, hi.decision,
    hdial, hrest⟩, hi.since.append (List.append_assoc _ _ _) ?_ (by simp) (by simp [tookRefs])⟩
  simp [List.filterMap_cons, Effect.asks, hitem]

/-- A new request is taken and tested, and interception is off. -/
theorem Idle.pass (hi : Idle b new f) (ht : f.tunnel = false) (hfresh : new ∉ tookRefs f.log)
    (req : HttpRequest) : Cleared b new new { f with
      log := f.log ++ [.took new req, .tested new false], request := some new } := by
  obtain ⟨hdial, hrest⟩ := hi.plain ht
  refine ⟨hi.since.append rfl ?_ (by simp) (by simp [tookRefs]), hi.proper.test hfresh req false,
    hi.asked, hi.decision, ht, rfl, hdial, hrest⟩
  simp [Effect.asks]

/-- The callback is called, and posts the decision. -/
theorem Holds.decide (hs : Holds f) (href : ref ∈ f.asked) (a : InterceptAction) :
    Holds { f with
      log := f.log ++ [.decided ref a]
      asked := f.asked.erase ref
      count := fun k => f.count k + (Op.decision a).weight k } := by
  obtain ⟨st, hp, hfits⟩ := hs
  cases st with
  | asked r =>
    obtain ⟨ht, hr, hasked, hd, hdial, hrest⟩ := hfits
    have hsame : ref = r := by simpa [hasked] using href
    subst hsame
    refine ⟨.ruled ref a, hp.decide a, ht, hr, ?_, fun b => ?_, ?_, ?_⟩
    · simp [hasked]
    · simp [hd b, Op.weight, Op.kind, eq_comm]
    · simpa [Op.weight, Op.kind] using hdial
    · simpa [Op.weight, Op.kind] using hrest
  | quiet => simp [hfits.1] at href
  | ruled r b => simp [hfits.2.2.1] at href
  | cleared r => simp [hfits.2.2.1] at href

/-! What is known when a handler starts. -/

theorem SoundAfter.other (hs : SoundAfter b new op f)
    (hop : op.kind = .other ∨ op.kind = .clientHandshake ∨ op.kind = .upstreamHandshake) :
    Sound b new f := by
  obtain ⟨⟨st, hp, hfits⟩, hsince⟩ := hs
  refine ⟨⟨st, hp, ?_⟩, hsince⟩
  rcases hop with hop | hop | hop <;> cases st <;> simpa [Fits, Op.weight, hop] using hfits

theorem SoundAfter.idle (hs : SoundAfter b new op f) (hop : op.kind = .read ∨ op.kind = .send ∨
    op.kind = .receive) : Idle b new f := by
  obtain ⟨⟨st, hp, hfits⟩, hsince⟩ := hs
  have hweight : op.weight .read + op.weight .send + op.weight .receive = 1 := by
    rcases hop with hop | hop | hop <;> simp [Op.weight, hop]
  have hdecision (a : InterceptAction) : op.weight (.decision a) = 0 := by
    rcases hop with hop | hop | hop <;> simp [Op.weight, hop]
  cases st with
  | quiet =>
    simp only [Fits] at hfits
    obtain ⟨hasked, hd, hplain⟩ := hfits
    refine ⟨hsince, hp, hasked, fun a => ?_, fun ht => ?_⟩
    · have := hd a
      omega
    · have := hplain ht
      omega
  | asked r =>
    simp only [Fits] at hfits
    have := hfits.2.2.2.2.2
    omega
  | ruled r a =>
    simp only [Fits] at hfits
    have := hfits.2.2.2.2.2
    omega
  | cleared r =>
    simp only [Fits] at hfits
    have := hfits.2.2.2.2.2
    omega

theorem SoundAfter.dialed (hs : SoundAfter b new op f) (hop : op.kind = .dial) :
    (Idle b new f ∧ f.tunnel = true) ∨ ∃ r, Cleared b new r f := by
  obtain ⟨⟨st, hp, hfits⟩, hsince⟩ := hs
  have hweight : op.weight .dial = 1 := by simp [Op.weight, hop]
  have hrest : op.weight .read + op.weight .send + op.weight .receive = 0 := by
    simp [Op.weight, hop]
  have hdecision (a : InterceptAction) : op.weight (.decision a) = 0 := by simp [Op.weight, hop]
  -- `asked` and `ruled` leave no dialling handler
  cases st with
  | quiet =>
    simp only [Fits] at hfits
    obtain ⟨hasked, hd, hplain⟩ := hfits
    have htunnel : f.tunnel = true := by
      by_contra ht
      have := hplain (by simpa using ht)
      omega
    refine Or.inl ⟨⟨hsince, hp, hasked, fun a => ?_, fun ht => ?_⟩, htunnel⟩
    · have := hd a
      omega
    · rw [htunnel] at ht
      cases ht
  | asked r =>
    simp only [Fits] at hfits
    have := hfits.2.2.2.2.1
    omega
  | ruled r a =>
    simp only [Fits] at hfits
    have := hfits.2.2.2.2.1
    omega
  | cleared r =>
    simp only [Fits] at hfits
    obtain ⟨ht, hr, hasked, hd, hdial, hfree⟩ := hfits
    refine Or.inr ⟨r, hsince, hp, hasked, fun a => ?_, ht, hr, ?_, ?_⟩
    · have := hd a
      omega
    · omega
    · omega

/-- The decision that runs is the one about the request of the session. -/
theorem SoundAfter.decided {a : InterceptAction} (hs : SoundAfter b new (.decision a) f) :
    Idle b new f ∧ (a = .forward → ∃ r, Cleared b new r f) := by
  obtain ⟨⟨st, hp, hfits⟩, hsince⟩ := hs
  have hweight (b : InterceptAction) :
      (Op.decision a).weight (.decision b) = if b = a then 1 else 0 := by
    simp [Op.weight, Op.kind, eq_comm]
  have hself : (Op.decision a).weight (.decision a) = 1 := by simp [hweight]
  have hrest : (Op.decision a).weight .dial = 0 ∧ (Op.decision a).weight .read +
      (Op.decision a).weight .send + (Op.decision a).weight .receive = 0 := by
    simp [Op.weight, Op.kind]
  -- only `ruled` leaves a posted decision
  cases st with
  | quiet =>
    simp only [Fits] at hfits
    have := hfits.2.1 a
    omega
  | asked r =>
    simp only [Fits] at hfits
    have := hfits.2.2.2.1 a
    omega
  | cleared r =>
    simp only [Fits] at hfits
    have := hfits.2.2.2.1 a
    omega
  | ruled r b =>
    simp only [Fits] at hfits
    obtain ⟨ht, hr, hasked, hd, hdial, hfree⟩ := hfits
    have hsame : a = b := by
      by_contra hne
      have := hd a
      rw [if_neg hne] at this
      omega
    subst hsame
    have hnone (b : InterceptAction) : f.count (.decision b) = 0 := by
      have := hd b
      rw [hweight] at this
      omega
    refine ⟨⟨hsince, hp.giveUp, hasked, hnone, fun _ => by omega⟩, fun hforward => ⟨r, ?_⟩⟩
    subst hforward
    exact ⟨hsince, hp.clear, hasked, hnone, ht, hr, by omega, by omega⟩

/-- A decision is about a request. -/
theorem SoundAfter.decided_request {a : InterceptAction} (hs : SoundAfter b new (.decision a) f) :
    f.request ≠ none := by
  obtain ⟨⟨st, -, hfits⟩, -⟩ := hs
  have hself : (Op.decision a).weight (.decision a) = 1 := by simp [Op.weight, Op.kind]
  cases st with
  | quiet =>
    simp only [Fits] at hfits
    have := hfits.2.1 a
    omega
  | asked r =>
    simp only [Fits] at hfits
    exact hfits.2.1 ▸ Option.some_ne_none r
  | ruled r b =>
    simp only [Fits] at hfits
    exact hfits.2.1 ▸ Option.some_ne_none r
  | cleared r =>
    simp only [Fits] at hfits
    exact hfits.2.1 ▸ Option.some_ne_none r

end Flow

end BurpTUI
