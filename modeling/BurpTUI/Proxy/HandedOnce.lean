import BurpTUI.Http.Script
import BurpTUI.Proxy.ProxySystem
import Mathlib.Data.List.Perm.Basic

namespace BurpTUI

namespace Peer

variable {L : Llhttp} {p q : Peer L}

def Holds : Peer L → Prop
  | .plain s => s.flow.Holds
  | .mitm s => s.Holds

theorem Holds.hands (h : p.Holds) : HandsProperly p.log := by
  cases p with
  | plain s =>
    obtain ⟨st, hp, -⟩ := h
    exact hp.hands
  | mitm s =>
    obtain ⟨st, hp, -⟩ := h.flow
    exact hp.hands

theorem Holds.handed_took (h : p.Holds) {ref : Ref} {data : Bytes} (hh : .handed ref data ∈ p.log) :
    ref ∈ tookRefs p.log := by
  cases p with
  | plain s =>
    obtain ⟨st, hp, -⟩ := h
    exact hp.known _ hh ref rfl
  | mitm s =>
    obtain ⟨st, hp, -⟩ := h.flow
    exact hp.known _ hh ref rfl

/-- What a session may add to its record when it goes from `p` to `q`. -/
def Since (p : Peer L) (new : Ref) (q : Peer L) : Prop :=
  ∃ es, q.log = p.log ++ es ∧ q.asked = p.asked ++ es.filterMap Effect.asks ∧
    ∀ r ∈ tookRefs es, r = new

theorem complete_holds (h : p.Holds) {k : ℕ} {o : Outcome} (hq : p.complete k o = some q)
    (new : Ref) : q.Holds ∧ p.Since new q := by
  cases p with
  | plain s =>
    obtain ⟨t, ht, rfl⟩ := Option.map_eq_some_iff.mp hq
    have hquiet := Session.complete_quietly ht
    obtain ⟨es, hlog, hasked, -, hnew⟩ := hquiet.since_start new
    exact ⟨hquiet.holds h, es, hlog, hasked, hnew⟩
  | mitm s =>
    obtain ⟨t, ht, rfl⟩ := Option.map_eq_some_iff.mp hq
    have hcalm := MitmSession.complete_calmly ht
    obtain ⟨es, hlog, hasked, -, hnew⟩ := hcalm.flow.since_start new
    exact ⟨hcalm.holds h, es, hlog, hasked, hnew⟩

theorem close_holds (h : p.Holds) (new : Ref) : p.close.Holds ∧ p.Since new p.close := by
  cases p with
  | plain s =>
    have hquiet := Session.Quietly.closes.close s
    obtain ⟨es, hlog, hasked, -, hnew⟩ := hquiet.since_start new
    exact ⟨hquiet.holds h, es, hlog, hasked, hnew⟩
  | mitm s =>
    have hcalm := MitmSession.Calmly.closes.close s
    obtain ⟨es, hlog, hasked, -, hnew⟩ := hcalm.flow.since_start new
    exact ⟨hcalm.holds h, es, hlog, hasked, hnew⟩

theorem dispatch_holds (h : p.Holds) {k : ℕ} {env : Env} (hfresh : env.newRef ∉ tookRefs p.log)
    (hq : p.dispatch k env = some (.ok q)) : q.Holds ∧ p.Since env.newRef q := by
  cases p with
  | plain s =>
    obtain ⟨r, hr, hq⟩ := Option.map_eq_some_iff.mp hq
    cases r with
    | error e => cases hq
    | ok t =>
      cases hq
      have hsound := Session.dispatch_sound h hfresh hr
      obtain ⟨es, hlog, hasked, -, hnew⟩ := hsound.since
      exact ⟨hsound.holds, es, hlog, hasked, hnew⟩
  | mitm s =>
    obtain ⟨t, ht, hq⟩ := Option.map_eq_some_iff.mp hq
    cases hq
    have hinv := MitmSession.dispatch_inv h hfresh ht
    obtain ⟨es, hlog, hasked, -, hnew⟩ := hinv.sound.since
    exact ⟨⟨hinv.sound.holds, hinv.setup⟩, es, hlog, hasked, hnew⟩

theorem decided_holds (h : p.Holds) {ref : Ref} (href : ref ∈ p.asked) (a : InterceptAction) :
    (p.decided ref a).Holds := by
  cases p with
  | plain s => exact Session.decided_holds h href a
  | mitm s => exact MitmSession.decided_holds h href a

theorem decided_asked (p : Peer L) (ref : Ref) (a : InterceptAction) :
    (p.decided ref a).asked = p.asked.erase ref := by
  cases p <;> rfl

theorem decided_tookRefs (p : Peer L) (ref : Ref) (a : InterceptAction) :
    tookRefs (p.decided ref a).log = tookRefs p.log := by
  cases p <;> simp [decided, log, Session.decided, MitmSession.decided, tookRefs]

end Peer

namespace ProxySystem

variable {L : Llhttp} {σ τ : ProxySystem L}

/-- All requests that the manager was, or is about to be, asked about and whose callback was not
called. -/
def waiting (σ : ProxySystem L) : List OnDecision :=
  (σ.between ++ σ.manager.queue ++ σ.taken.map Prod.fst).map InterceptedRequest.onDecision

def askedOf (σ : ProxySystem L) (i : ℕ) : List Ref := (σ.peers[i]?.map Peer.asked).getD []

structure Inv (σ : ProxySystem L) : Prop where
  holds : ∀ (i : ℕ) (p : Peer L), σ.peers[i]? = some p → p.Holds
  fresh : ∀ (i : ℕ) (p : Peer L), σ.peers[i]? = some p → ∀ r ∈ tookRefs p.log, r < σ.heap.length
  apart : ∀ (i j : ℕ) (p q : Peer L), σ.peers[i]? = some p → σ.peers[j]? = some q →
    ∀ r ∈ tookRefs p.log, r ∈ tookRefs q.log → i = j
  waiting : ∀ c : OnDecision, σ.waiting.count c ≤ (σ.askedOf c.peer).count c.ref

theorem inv_init : Inv ({} : ProxySystem L) := by
  refine ⟨?_, ?_, ?_, ?_⟩ <;> simp [ProxySystem.waiting]

/-- What a session takes gets the next addresses. -/
theorem length_tookRequest (es : List Effect) :
    (es.filterMap tookRequest).length = (tookRefs es).length := by
  induction es with
  | nil => rfl
  | cons e es ih =>
    simp only [tookRefs] at ih ⊢
    cases e <;> simpa [tookRequest, List.filterMap_cons] using ih

theorem interceptCall_onDecision (i : ℕ) (es : List Effect) :
    (es.filterMap (interceptCall i)).map InterceptedRequest.onDecision =
      (es.filterMap Effect.asks).map fun r => { peer := i, ref := r } := by
  induction es with
  | nil => rfl
  | cons e es ih => cases e <;> simpa [interceptCall, Effect.asks, List.filterMap_cons] using ih

theorem count_callbacks (c : OnDecision) (i : ℕ) (refs : List Ref) :
    (refs.map fun r => ({ peer := i, ref := r } : OnDecision)).count c =
      if c.peer = i then refs.count c.ref else 0 := by
  induction refs with
  | nil => simp
  | cons r refs ih =>
    obtain ⟨j, ref⟩ := c
    simp only [List.map_cons, List.count_cons, ih]
    by_cases hj : j = i
    · subst hj
      simp
    · simp [hj, Ne.symm hj]

theorem removed_sublist (ids : List ℤ) (m : InterceptManager OnDecision) :
    (ids.foldl InterceptManager.removeById m).queue.Sublist m.queue := by
  induction ids generalizing m with
  | nil => exact List.Sublist.refl _
  | cons id ids ih => exact (ih _).trans List.filter_sublist

/-- The sessions after session number `i` has gone from `p` to `q`. -/
theorem peers_absorb {i j : ℕ} {p q r : Peer L} {es : List Effect} (hp : σ.peers[i]? = some p)
    (hr : (σ.absorb i q es).peers[j]? = some r) :
    (j = i ∧ r = q) ∨ (j ≠ i ∧ σ.peers[j]? = some r) ∨
      (σ.peers[j]? = none ∧ ∃ host port, r = .mitm (MitmSession.started host port)) := by
  have hi : i < σ.peers.length := by
    by_contra hge
    rw [List.getElem?_eq_none (by omega)] at hp
    cases hp
  simp only [absorb] at hr
  by_cases hj : j < (σ.peers.set i q).length
  · rw [List.getElem?_append_left hj] at hr
    by_cases hij : j = i
    · subst hij
      rw [List.getElem?_set_self hi] at hr
      exact Or.inl ⟨rfl, (Option.some.inj hr).symm⟩
    · rw [List.getElem?_set_ne (Ne.symm hij)] at hr
      exact Or.inr (Or.inl ⟨hij, hr⟩)
  · rw [List.getElem?_append_right (by omega)] at hr
    obtain ⟨e, -, he⟩ := List.mem_filterMap.mp (List.mem_of_getElem? hr)
    rw [List.length_set] at hj
    refine Or.inr (Or.inr ⟨List.getElem?_eq_none (by omega), ?_⟩)
    cases e <;> simp [spawnedPeer] at he
    exact ⟨_, _, he.symm⟩

theorem askedOf_absorb {i : ℕ} {p q : Peer L} {es : List Effect} (hp : σ.peers[i]? = some p)
    (j : ℕ) : (σ.absorb i q es).askedOf j = if j = i then q.asked else σ.askedOf j := by
  have hi : i < σ.peers.length := by
    by_contra hge
    rw [List.getElem?_eq_none (by omega)] at hp
    cases hp
  unfold askedOf
  cases hr : (σ.absorb i q es).peers[j]? with
  | some r =>
    rcases peers_absorb hp hr with ⟨rfl, rfl⟩ | ⟨hne, hold⟩ | ⟨hnone, host, port, rfl⟩
    · simp
    · simp [hne, hold]
    · have hne : j ≠ i := by
        rintro rfl
        rw [hnone] at hp
        cases hp
      simp [hne, hnone, Peer.asked, MitmSession.started, MitmSession.connectUpstream,
        MitmSession.start, MitmSession.resetTimer, MitmSession.cancelTimer, MitmSession.cancel]
  | none =>
    have hlength : σ.peers.length ≤ j := by
      have hj := List.getElem?_eq_none_iff.mp hr
      simp only [absorb, List.length_append, List.length_set] at hj
      omega
    have hne : j ≠ i := by omega
    simp [hne, List.getElem?_eq_none hlength]

/-- One step of one session. -/
theorem absorb_inv (h : Inv σ) {i : ℕ} {p q : Peer L} {es : List Effect}
    (hp : σ.peers[i]? = some p) (hq : q.Holds) (hlog : q.log = p.log ++ es)
    (hasked : q.asked = p.asked ++ es.filterMap Effect.asks)
    (hnew : ∀ r ∈ tookRefs es, r = σ.heap.length) : Inv (σ.absorb i q es) := by
  have htook : ∀ r ∈ tookRefs q.log, r ∈ tookRefs p.log ∨ r ∈ tookRefs es := by
    intro r hr
    rw [hlog, Proper.tookRefs_append] at hr
    exact List.mem_append.mp hr
  have hstarted (host : Bytes) (port : UInt16) :
      tookRefs (Peer.mitm (MitmSession.started host port : MitmSession L)).log = [] := rfl
  refine ⟨?_, ?_, ?_, ?_⟩
  · intro j r hr
    rcases peers_absorb hp hr with ⟨rfl, rfl⟩ | ⟨-, hold⟩ | ⟨-, host, port, rfl⟩
    · exact hq
    · exact h.holds j r hold
    · exact MitmSession.started_holds host port
  · intro j r hr ref href
    have hheap : (σ.absorb i q es).heap.length = σ.heap.length + (tookRefs es).length := by
      simp [absorb, length_tookRequest]
    rw [hheap]
    rcases peers_absorb hp hr with ⟨rfl, rfl⟩ | ⟨-, hold⟩ | ⟨-, host, port, rfl⟩
    · rcases htook ref href with href | href
      · exact Nat.lt_add_right _ (h.fresh j p hp ref href)
      · have hpos : 0 < (tookRefs es).length := List.length_pos_of_mem href
        rw [hnew ref href]
        exact Nat.lt_add_of_pos_right hpos
    · exact Nat.lt_add_right _ (h.fresh j r hold ref href)
    · rw [hstarted] at href
      cases href
  · intro j k r r' hr hr' ref href href'
    -- a new address is not the address of an old request
    have hold (k : ℕ) (r : Peer L) (hr : σ.peers[k]? = some r) (href : ref ∈ tookRefs r.log) :
        ref ∉ tookRefs es := by
      intro hes
      have hlt := h.fresh k r hr ref href
      rw [hnew ref hes] at hlt
      exact Nat.lt_irrefl _ hlt
    rcases peers_absorb hp hr with ⟨rfl, rfl⟩ | ⟨-, hj⟩ | ⟨-, host, port, rfl⟩
    · rcases peers_absorb hp hr' with ⟨rfl, rfl⟩ | ⟨-, hk⟩ | ⟨-, host, port, rfl⟩
      · rfl
      · have hin := (htook ref href).resolve_right (hold k r' hk href')
        exact h.apart j k p r' hp hk ref hin href'
      · rw [hstarted] at href'
        cases href'
    · rcases peers_absorb hp hr' with ⟨rfl, rfl⟩ | ⟨-, hk⟩ | ⟨-, host, port, rfl⟩
      · have hin := (htook ref href').resolve_right (hold j r hj href)
        exact h.apart j k r p hj hp ref href hin
      · exact h.apart j k r r' hj hk ref href href'
      · rw [hstarted] at href'
        cases href'
    · rw [hstarted] at href
      cases href
  · intro c
    have hold := h.waiting c
    have hqueue := ((removed_sublist (es.filterMap removedId) σ.manager).map
      InterceptedRequest.onDecision).count_le c
    rw [askedOf_absorb hp]
    simp only [ProxySystem.waiting, absorb, List.map_append, List.count_append,
      interceptCall_onDecision, count_callbacks] at hold hqueue ⊢
    -- only the callbacks of this session are added
    by_cases hc : c.peer = i
    · have hbefore : σ.askedOf i = p.asked := by simp [askedOf, hp]
      rw [hc, hbefore] at hold
      rw [if_pos hc, if_pos hc, hasked, List.count_append]
      omega
    · rw [if_neg hc, if_neg hc]
      omega

theorem move_inv (h : Inv σ) {i : ℕ} {p q : Peer L} (hp : σ.peers[i]? = some p) (hq : q.Holds)
    (hsince : p.Since σ.heap.length q) : Inv (σ.move i p q) := by
  obtain ⟨es, hlog, hasked, hnew⟩ := hsince
  have hes : q.log.drop p.log.length = es := by
    rw [hlog]
    exact List.drop_left
  rw [move, hes]
  exact absorb_inv h hp hq hlog hasked hnew

/-- Steps that only hand requests on between `between`, the queue and `taken`. -/
theorem Inv.same_peers (h : Inv σ) (hpeers : τ.peers = σ.peers)
    (hheap : τ.heap.length = σ.heap.length) (hwaiting : ∀ c, τ.waiting.count c ≤ σ.waiting.count c) :
    Inv τ := by
  have hasked (i : ℕ) : τ.askedOf i = σ.askedOf i := by simp only [askedOf, hpeers]
  refine ⟨hpeers ▸ h.holds, ?_, hpeers ▸ h.apart, fun c => ?_⟩
  · rw [hpeers, hheap]
    exact h.fresh
  · rw [hasked]
    exact (hwaiting c).trans (h.waiting c)

theorem take_inv (h : Inv σ) {r : List (InterceptManager.Taken OnDecision) ×
    InterceptManager OnDecision} (hr : σ.manager.queue = r.1.map Prod.fst ++ r.2.queue) :
    Inv (σ.take r) := by
  refine h.same_peers rfl rfl fun c => ?_
  simp only [waiting, take, hr, List.map_append, List.count_append]
  omega

theorem popFront_inv (h : Inv σ) (a : InterceptAction) : Inv (σ.popFront a) := by
  apply take_inv h
  cases hq : σ.manager.queue <;> simp [hq]

theorem accept_inv (h : Inv σ) (hasCertCache : Bool) :
    Inv { σ with peers := σ.peers ++ [.plain (Session.started hasCertCache)] } := by
  have hpeers (j : ℕ) (r : Peer L)
      (hr : (σ.peers ++ [.plain (Session.started hasCertCache)])[j]? = some r) :
      σ.peers[j]? = some r ∨ (σ.peers[j]? = none ∧ r = .plain (Session.started hasCertCache)) := by
    by_cases hj : j < σ.peers.length
    · rw [List.getElem?_append_left hj] at hr
      exact Or.inl hr
    · rw [List.getElem?_append_right (by omega)] at hr
      have hr := List.mem_of_getElem? hr
      rw [List.mem_singleton] at hr
      exact Or.inr ⟨List.getElem?_eq_none (by omega), hr⟩
  have hlog : tookRefs (Peer.plain (Session.started hasCertCache : Session L)).log = [] := rfl
  refine ⟨?_, ?_, ?_, fun c => ?_⟩
  · intro j r hr
    rcases hpeers j r hr with hr | ⟨-, rfl⟩
    · exact h.holds j r hr
    · exact Session.started_holds hasCertCache
  · intro j r hr ref href
    rcases hpeers j r hr with hr | ⟨-, rfl⟩
    · exact h.fresh j r hr ref href
    · rw [hlog] at href
      cases href
  · intro j k r r' hr hr' ref href href'
    rcases hpeers j r hr with hr | ⟨-, rfl⟩
    · rcases hpeers k r' hr' with hr' | ⟨-, rfl⟩
      · exact h.apart j k r r' hr hr' ref href href'
      · rw [hlog] at href'
        cases href'
    · rw [hlog] at href
      cases href
  · have hasked : askedOf { σ with peers := σ.peers ++ [.plain (Session.started hasCertCache)] }
        c.peer = σ.askedOf c.peer := by
      unfold askedOf
      cases hr : (σ.peers ++ [.plain (Session.started hasCertCache)])[c.peer]? with
      | some r =>
        rcases hpeers _ r hr with hold | ⟨hnone, rfl⟩
        · simp [hold]
        · rw [hnone]
          rfl
      | none =>
        have hj := List.getElem?_eq_none_iff.mp hr
        rw [List.length_append] at hj
        simp [List.getElem?_eq_none (show σ.peers.length ≤ c.peer by omega)]
    rw [hasked]
    exact h.waiting c

/-- The callback that is called is one that its session waits for. -/
theorem onDecision_inv (h : Inv σ) {k : ℕ} {item : InterceptedRequest OnDecision}
    {a : InterceptAction} {p : Peer L} (hk : σ.taken[k]? = some (item, a))
    (hp : σ.peers[item.onDecision.peer]? = some p) :
    Inv { σ with
      taken := σ.taken.eraseIdx k
      peers := σ.peers.set item.onDecision.peer (p.decided item.onDecision.ref a) } := by
  obtain ⟨hlt, hitem⟩ := List.getElem?_eq_some_iff.mp hk
  have hperm : ((item, a) :: σ.taken.eraseIdx k).Perm σ.taken :=
    hitem ▸ List.getElem_cons_eraseIdx_perm hlt
  have hcount (c : OnDecision) : σ.waiting.count c =
      (σ.between.map InterceptedRequest.onDecision).count c +
        (σ.manager.queue.map InterceptedRequest.onDecision).count c +
        (((σ.taken.eraseIdx k).map Prod.fst).map InterceptedRequest.onDecision).count c +
        if item.onDecision = c then 1 else 0 := by
    have htaken := (((hperm.map Prod.fst).map InterceptedRequest.onDecision).count_eq c).symm
    simp only [List.map_cons, List.count_cons, beq_iff_eq] at htaken
    simp only [waiting, List.map_append, List.count_append, htaken]
    omega
  have hbefore : σ.askedOf item.onDecision.peer = p.asked := by simp [askedOf, hp]
  -- the callback was waiting, so its session still counts on it
  have hself := h.waiting item.onDecision
  rw [hcount, if_pos rfl, hbefore] at hself
  have href : item.onDecision.ref ∈ p.asked := List.count_pos_iff.mp (by omega)
  have hi : item.onDecision.peer < σ.peers.length := by
    by_contra hge
    rw [List.getElem?_eq_none (by omega)] at hp
    cases hp
  have hpeers (j : ℕ) : (σ.peers.set item.onDecision.peer (p.decided item.onDecision.ref a))[j]? =
      if j = item.onDecision.peer then some (p.decided item.onDecision.ref a)
      else σ.peers[j]? := by
    by_cases hj : j = item.onDecision.peer
    · rw [if_pos hj, hj, List.getElem?_set_self hi]
    · rw [if_neg hj, List.getElem?_set_ne (Ne.symm hj)]
  -- what a session has taken does not change
  have hold (j : ℕ) (r : Peer L)
      (hr : (σ.peers.set item.onDecision.peer (p.decided item.onDecision.ref a))[j]? = some r) :
      ∃ r', σ.peers[j]? = some r' ∧ tookRefs r.log = tookRefs r'.log ∧ (r'.Holds → r.Holds) := by
    rw [hpeers] at hr
    split at hr
    · rename_i hj
      cases hr
      exact ⟨p, hj ▸ hp, p.decided_tookRefs _ _, fun hh => Peer.decided_holds hh href a⟩
    · exact ⟨r, hr, rfl, id⟩
  refine ⟨?_, ?_, ?_, fun c => ?_⟩
  · intro j r hr
    obtain ⟨r', hr', -, hh⟩ := hold j r hr
    exact hh (h.holds j r' hr')
  · intro j r hr ref hin
    obtain ⟨r', hr', htook, -⟩ := hold j r hr
    exact h.fresh j r' hr' ref (htook ▸ hin)
  · intro j l r s hr hs ref hin hin'
    obtain ⟨r', hr', htook, -⟩ := hold j r hr
    obtain ⟨s', hs', htook', -⟩ := hold l s hs
    exact h.apart j l r' s' hr' hs' ref (htook ▸ hin) (htook' ▸ hin')
  · have hc := h.waiting c
    rw [hcount] at hc
    simp only [waiting, askedOf, List.map_append, List.count_append, hpeers]
    split
    · rename_i hpeer
      have hasked : (σ.askedOf c.peer) = p.asked := by rw [hpeer, hbefore]
      rw [hasked] at hc
      simp only [Option.map_some, Option.getD_some, Peer.decided_asked, List.count_erase, beq_iff_eq]
      by_cases hsame : item.onDecision = c
      · rw [if_pos hsame] at hc
        rw [hsame, if_pos rfl]
        omega
      · rw [if_neg hsame] at hc
        have hne : item.onDecision.ref ≠ c.ref := by
          intro he
          apply hsame
          cases hcb : item.onDecision
          cases c
          simp_all
        rw [if_neg hne]
        omega
    · rename_i hpeer
      have hne : item.onDecision ≠ c := fun he => hpeer (he ▸ rfl)
      rw [if_neg hne, Nat.add_zero] at hc
      simpa only [askedOf] using hc

theorem step_inv (h : Inv σ) {a : Label} (hstep : σ.step a = some τ) : Inv τ := by
  cases a with
  | accept hasCertCache =>
    cases hstep
    exact accept_inv h hasCertCache
  | complete i k o =>
    simp only [step] at hstep
    split at hstep
    · rename_i p hp
      obtain ⟨q, hq, rfl⟩ := Option.map_eq_some_iff.mp hstep
      obtain ⟨hholds, hsince⟩ := Peer.complete_holds (h.holds i p hp) hq σ.heap.length
      exact move_inv h hp hholds hsince
    · cases hstep
  | dispatch i k caCert caCertPath sslContext =>
    simp only [step] at hstep
    split at hstep
    · cases hstep
    · split at hstep
      · rename_i p hp
        have hfresh : σ.heap.length ∉ tookRefs p.log := fun hmem =>
          Nat.lt_irrefl _ (h.fresh i p hp _ hmem)
        split at hstep
        · rename_i q hq
          cases hstep
          obtain ⟨hholds, hsince⟩ := Peer.dispatch_holds (h.holds i p hp) hfresh hq
          exact move_inv h hp hholds hsince
        · cases hstep
          exact h.same_peers rfl rfl fun _ => Nat.le_refl _
        · cases hstep
      · cases hstep
  | close i =>
    simp only [step] at hstep
    split at hstep
    · rename_i p hp
      cases hstep
      obtain ⟨hholds, hsince⟩ := Peer.close_holds (h.holds i p hp) σ.heap.length
      exact move_inv h hp hholds hsince
    · cases hstep
  | interceptRequest k =>
    simp only [step] at hstep
    split at hstep
    · rename_i item hitem
      cases hstep
      obtain ⟨hlt, hitem⟩ := List.getElem?_eq_some_iff.mp hitem
      -- the item moves on from `between` to the queue
      have hperm : (item :: σ.between.eraseIdx k).Perm σ.between :=
        hitem ▸ List.getElem_cons_eraseIdx_perm hlt
      refine h.same_peers rfl rfl fun c => ?_
      have hcount := (hperm.map InterceptedRequest.onDecision).count_eq c
      simp only [List.map_cons, List.count_cons] at hcount
      simp only [waiting, InterceptManager.interceptRequest_queue, List.map_append, List.map_cons,
        List.map_nil, List.count_append, List.count_cons, List.count_nil, ← hcount]
      omega
    · cases hstep
  | storeEnabled enabled =>
    cases hstep
    exact h.same_peers rfl rfl fun _ => Nat.le_refl _
  | forwardCurrent =>
    cases hstep
    exact popFront_inv h .forward
  | dropCurrent =>
    cases hstep
    exact popFront_inv h .drop
  | forwardAll =>
    cases hstep
    exact take_inv h (by simp [InterceptManager.popAll, Function.comp_def])
  | dropAll =>
    cases hstep
    exact take_inv h (by simp [InterceptManager.popAll, Function.comp_def])
  | onDecision k =>
    simp only [step] at hstep
    split at hstep
    · rename_i item a hk
      split at hstep
      · rename_i p hp
        cases hstep
        exact onDecision_inv h hk hp
      · cases hstep
    · cases hstep
  | overwrite ref request =>
    cases hstep
    exact h.same_peers rfl List.length_set fun _ => Nat.le_refl _

theorem reached_inv (h : (system L).Reached σ) : Inv σ := by
  refine h.invariant (fun σ h0 => ?_) fun σ a τ hs _ hstep => ?_
  · have h0 : σ = {} := h0
    exact h0 ▸ inv_init
  · exact step_inv hs hstep

theorem sum_le_one {l : List ℕ} (hle : ∀ n ∈ l, n ≤ 1)
    (hone : ∀ i j : ℕ, l[i]? = some 1 → l[j]? = some 1 → i = j) : l.sum ≤ 1 := by
  induction l with
  | nil => simp
  | cons n l ih =>
    have hn := hle n (by simp)
    have htail := ih (fun m hm => hle m (by simp [hm])) fun i j hi hj => by
      have := hone (i + 1) (j + 1) (by simpa using hi) (by simpa using hj)
      omega
    rw [List.sum_cons]
    by_cases hzero : n = 0
    · omega
    · -- no other entry is positive
      have hrest : l.sum = 0 := by
        rw [List.sum_eq_zero_iff_forall_eq_nat]
        intro m hm
        obtain ⟨j, hj⟩ := List.mem_iff_getElem?.mp hm
        by_contra hpos
        have hm1 : m = 1 := by
          have := hle m (by simp [hm])
          omega
        have := hone 0 (j + 1) (by simp; omega) (by simpa [hm1] using hj)
        omega
      omega

/-- In all sessions together no request is handed to the upstream twice. In each session a request
that interception was on for is handed over only after its callback was called with `forward`, and
one whose callback was called with `drop` is not handed over at all. -/
theorem requests_handed_properly (h : (system L).Reached σ) :
    (∀ ref, (σ.peers.map fun p => p.log.countP (Effect.hands ref)).sum ≤ 1) ∧
      ∀ p ∈ σ.peers, HandsProperly p.log := by
  have hinv := reached_inv h
  have hands : ∀ p ∈ σ.peers, HandsProperly p.log := by
    intro p hp
    obtain ⟨i, hi⟩ := List.mem_iff_getElem?.mp hp
    exact (hinv.holds i p hi).hands
  refine ⟨fun ref => sum_le_one ?_ fun i j hi hj => ?_, hands⟩
  · intro n hn
    obtain ⟨p, hp, rfl⟩ := List.mem_map.mp hn
    exact (hands p hp).once ref
  · have htook (i : ℕ)
        (hi : (σ.peers.map fun p => p.log.countP (Effect.hands ref))[i]? = some 1) :
        ∃ p, σ.peers[i]? = some p ∧ ref ∈ tookRefs p.log := by
      rw [List.getElem?_map, Option.map_eq_some_iff] at hi
      obtain ⟨p, hp, hcount⟩ := hi
      obtain ⟨e, he, hh⟩ := List.countP_pos_iff.mp (by omega : 0 < p.log.countP (Effect.hands ref))
      refine ⟨p, hp, ?_⟩
      cases e <;> simp [Effect.hands] at hh
      exact (hinv.holds i p hp).handed_took (hh ▸ he)
    obtain ⟨p, hp, href⟩ := htook i hi
    obtain ⟨q, hq, href'⟩ := htook j hj
    exact hinv.apart i j p q hp hq ref href href'

section Examples

/-- `GET http://h/ HTTP/1.1` without headers. -/
def getRequest : RequestMessage :=
  { method := str "GET", url := str "http://h/", fields := [], body := .plain [] }

/-- With interception on, the request is read, released by a Forward click and handed over. -/
def forwardRun : List Label :=
  [.storeEnabled true, .accept true,
    .complete 0 1 (.bytes getRequest.message.wire), .dispatch 0 0 [] [] true,
    .interceptRequest 0, .forwardCurrent, .onDecision 0, .dispatch 0 2 [] [] true,
    .complete 0 1 .ok, .dispatch 0 2 [] [] true, .complete 0 1 .ok, .dispatch 0 2 [] [] true]

theorem requests_handed_properly_forwardRun :
    ∃ σ, (system (scripted fun _ => getRequest.message.pieces)).run {} forwardRun = some σ ∧
      (σ.peers.any fun p => p.log.any (Effect.hands 0)) = true ∧
      (∀ ref, (σ.peers.map fun p => p.log.countP (Effect.hands ref)).sum ≤ 1) ∧
      ∀ p ∈ σ.peers, HandsProperly p.log := by
  have hrun : ((system (scripted fun _ => getRequest.message.pieces)).run {} forwardRun).any
      (fun σ => σ.peers.any fun p => p.log.any (Effect.hands 0)) = true := by decide
  cases hσ : (system (scripted fun _ => getRequest.message.pieces)).run {} forwardRun with
  | none => simp [hσ] at hrun
  | some σ =>
    rw [hσ] at hrun
    exact ⟨σ, rfl, hrun, requests_handed_properly (.run (.init rfl) hσ)⟩

end Examples

end ProxySystem

end BurpTUI
