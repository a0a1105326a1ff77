import BurpTUI.Base.Recency
import BurpTUI.Base.Tenure
import BurpTUI.Proxy.CertCache

namespace LinkedList

variable {α : Type*} [DecidableEq α] {l l' : LinkedList α} {it : ℕ} {a : α}

/-- Without repetitions a node is taken out with its element. -/
theorem erase_elems (hn : l.elems.Nodup) (h : l.Holds it a) (he : l.erase it = some l') :
    l'.elems = l.elems.filter fun b => b ≠ a := by
  have hmem : it ∈ l.nodes.map Prod.fst := List.mem_map_of_mem h
  rw [erase, if_pos hmem, Option.some.injEq] at he
  subst he
  show (l.nodes.filter _).map Prod.snd = (l.nodes.map Prod.snd).filter _
  rw [List.filter_map]
  congr 1
  apply List.filter_congr
  intro x hx
  have hiff : x.1 ≠ it ↔ x.2 ≠ a := by
    constructor
    · rintro hne rfl
      exact hne (congrArg Prod.fst (List.inj_on_of_nodup_map hn hx h rfl))
    · rintro hne rfl
      exact hne (congrArg Prod.snd (List.inj_on_of_nodup_map l.nodup hx h rfl))
  simp [hiff]

end LinkedList

namespace BurpTUI

namespace CertCache

variable {Ctx : Type} {c c' : CertCache Ctx} {hostname : Bytes}

deriving instance DecidableEq for Entry

/-- What a generation that did not fail puts into the cache. -/
def Minted.success : Minted Ctx → Option (Entry Ctx)
  | .threw => none
  | .returned keyPair loaded =>
    if keyPair.certPem = [] ∨ keyPair.keyPem = [] then none
    else some { certKeyPair := keyPair, sslContext := createSslContext keyPair loaded }

/-! What the sections do to the order of the list and to the entries. -/

theorem promote_spec {item : CacheItem Ctx} (h : c.Consistent)
    (hitem : c.cache.lookup hostname = some item) (hp : c.promote hostname item = some c') :
    c'.lruList.elems = hostname :: c.lruList.elems.filter (fun b => b ≠ hostname) ∧
      c'.maxEntries = c.maxEntries ∧ ∀ b, c'.findEntry b = c.findEntry b := by
  obtain ⟨l, hl, rfl⟩ := Option.map_eq_some_iff.mp hp
  refine ⟨?_, rfl, ?_⟩
  · rw [LinkedList.elems_pushFront, LinkedList.erase_elems h.nodup (h.lruIt hostname item hitem) hl]
  · intro b
    by_cases hb : b = hostname
    · subst hb
      simp [findEntry, hitem]
    · simp [findEntry, AList.lookup_insert_ne hb]

theorem findEntry_isSome {b : Bytes} : (c.findEntry b).isSome ↔ b ∈ c.cache := by
  rw [findEntry, Option.isSome_map, AList.lookup_isSome]

theorem findEntry_eq_none {b : Bytes} : c.findEntry b = none ↔ b ∉ c.cache := by
  rw [← findEntry_isSome]
  simp

/-- A full cache loses its last element, any other cache loses nothing. -/
theorem evictOldest_spec (hpos : 0 < c.maxEntries) :
    c.evictOldest.lruList.elems =
        (if c.maxEntries ≤ c.size then c.lruList.elems.dropLast else c.lruList.elems) ∧
      ∀ b, c.evictOldest.findEntry b = if b ∈ c.evictOldest.cache then c.findEntry b else none := by
  have hkeep (b : Bytes) : c.findEntry b = if b ∈ c.cache then c.findEntry b else none := by
    split
    · rfl
    · rename_i hb
      exact findEntry_eq_none.mpr hb
  unfold evictOldest
  split
  · rename_i oldest hback
    split
    · rename_i hfull
      have hsplit := LinkedList.back_eq hback
      refine ⟨?_, ?_⟩
      · rw [if_pos hfull.2, hsplit, List.dropLast_concat]
      · intro b
        -- every other hostname keeps its entry
        by_cases hb : b = oldest
        · subst hb
          simp [findEntry]
        · have hlookup : (c.cache.erase oldest).lookup b = c.cache.lookup b :=
            AList.lookup_erase_ne hb
          have hmem : b ∈ c.cache.erase oldest ↔ b ∈ c.cache := by
            rw [AList.mem_erase, and_iff_right hb]
          rw [findEntry, hlookup]
          simp only [hmem]
          exact hkeep b
    · rename_i hroom
      exact ⟨by rw [if_neg fun hle => hroom ⟨hpos, hle⟩], hkeep⟩
  · rename_i hback
    have hnil : c.lruList.elems = [] := by
      simp only [LinkedList.back, Option.map_eq_none_iff, List.getLast?_eq_none_iff] at hback
      rw [LinkedList.elems, hback, List.map_nil]
    refine ⟨?_, hkeep⟩
    split
    · rw [hnil, List.dropLast_nil]
    · rfl

theorem insertFront_spec (hpos : 0 < c.maxEntries) (hnew : hostname ∉ c.cache) (keyPair : CertKeyPair)
    (context : Option Ctx) :
    (c.insertFront hostname keyPair context).lruList.elems = hostname :: c.lruList.elems ∧
      (c.insertFront hostname keyPair context).maxEntries = c.maxEntries ∧
      ∀ b, (c.insertFront hostname keyPair context).findEntry b =
        if b = hostname then some { certKeyPair := keyPair, sslContext := context }
        else c.findEntry b := by
  unfold insertFront
  rw [if_pos hpos]
  dsimp only
  unfold emplace
  rw [if_neg hnew]
  refine ⟨rfl, rfl, ?_⟩
  intro b
  by_cases hb : b = hostname
  · subst hb
    simp [findEntry]
  · simp [findEntry, AList.lookup_insert_ne hb, hb]

/-- A successful generation for a host that is not cached. -/
theorem mint_spec (h : c.Consistent) (hpos : 0 < c.maxEntries) (hnew : hostname ∉ c.cache)
    {minted : Minted Ctx} {e : Entry Ctx} (hm : minted.success = some e) :
    (c.mint hostname minted).1 = e ∧
      (c.mint hostname minted).2.lruList.elems = hostname ::
        (if c.maxEntries ≤ c.size then c.lruList.elems.dropLast else c.lruList.elems) ∧
      (c.mint hostname minted).2.maxEntries = c.maxEntries ∧
      (∀ b, (c.mint hostname minted).2.findEntry b =
        if b = hostname then some e
        else if b ∈ (c.mint hostname minted).2.cache then c.findEntry b else none) := by
  cases minted with
  | threw => cases hm
  | returned keyPair loaded =>
    simp only [Minted.success] at hm
    split at hm
    · cases hm
    · rename_i hloaded
      obtain rfl := Option.some.inj hm
      obtain ⟨hcons, hmax, hstill, -⟩ := h.evictOldest
      obtain ⟨helems, hfind⟩ := evictOldest_spec hpos
      obtain ⟨hfront, hmax', hfind'⟩ := insertFront_spec (hmax.symm ▸ hpos) (hstill hostname hnew)
        keyPair (createSslContext keyPair loaded)
      have hmint : c.mint hostname (.returned keyPair loaded) =
          ({ certKeyPair := keyPair, sslContext := createSslContext keyPair loaded },
            c.evictOldest.insertFront hostname keyPair (createSslContext keyPair loaded)) := by
        rw [mint, if_neg hloaded]
      rw [hmint]
      refine ⟨rfl, ?_, hmax'.trans hmax, ?_⟩
      · rw [hfront, helems]
      · intro b
        rw [hfind']
        split
        · rfl
        · rename_i hb
          have hmem : b ∈ (c.evictOldest.insertFront hostname keyPair
              (createSslContext keyPair loaded)).cache ↔ b ∈ c.evictOldest.cache := by
            rw [← findEntry_isSome, ← findEntry_isSome, hfind', if_neg hb]
          rw [hfind]
          simp only [hmem]

/-- A generation that fails leaves everything as it is. -/
theorem mint_of_failed {minted : Minted Ctx} (hm : minted.success = none) :
    (c.mint hostname minted).2 = c := by
  cases minted with
  | threw => rfl
  | returned keyPair loaded =>
    simp only [Minted.success] at hm
    split at hm
    · rename_i hfailed
      rw [mint, if_pos hfailed]
    · cases hm

/-- The cache with the record of its uses, the latest one first, and of what happened to the entries.
A call uses its host in its last section. -/
structure History (Ctx : Type) where
  state : State Ctx
  uses : List Bytes := []
  events : List (Tenure.Event Bytes (Entry Ctx)) := []

def used (s : State Ctx) : Label Ctx → Option Bytes
  | .getEntry hostname => if hostname = [] then none else (s.cache.findEntry hostname).map fun _ => hostname
  | .getOrMint k _ => s.calls[k]?
  | .touch hostname => some hostname
  | .clear => none

/-- The successful `generate`, with what it made. -/
def generated (s : State Ctx) : Label Ctx → Option (Bytes × Entry Ctx)
  | .getOrMint k minted => (s.calls[k]?).bind fun hostname =>
    if hostname ∈ s.cache.cache then none else minted.success.map fun e => (hostname, e)
  | _ => none

/-- The call that returns in this section, unless its generation failed. -/
def returned (s : State Ctx) : Label Ctx → Option (Bytes × Entry Ctx)
  | .getEntry hostname =>
    if hostname = [] then none else (s.cache.findEntry hostname).map fun e => (hostname, e)
  | .getOrMint k minted => (s.calls[k]?).bind fun hostname =>
    if hostname ∈ s.cache.cache ∨ minted.success.isSome then
      (s.cache.getOrMint hostname minted).map fun r => (hostname, r.1)
    else none
  | _ => none

/-- The hosts that were cached before a section and are not after it. -/
def removed (s t : State Ctx) : List Bytes := s.cache.cache.keys.filter fun b => b ∉ t.cache.cache

def events (s t : State Ctx) (a : Label Ctx) : List (Tenure.Event Bytes (Entry Ctx)) :=
  (generated s a).toList.map (fun p => .made p.1 p.2) ++ (removed s t).map .removed ++
    (returned s a).toList.map fun p => .served p.1 p.2

def history (Ctx : Type) (maxEntries : ℕ) : StepSystem.System (History Ctx) (Label Ctx) where
  init h := h = { state := { cache := { maxEntries := maxEntries } } }
  step h a := (step h.state a).map fun t =>
    { state := t, uses := (used h.state a).toList ++ h.uses, events := h.events ++ events h.state t a }

theorem history_step {n : ℕ} {h h' : History Ctx} {a : Label Ctx}
    (hstep : (history Ctx n).step h a = some h') : step h.state a = some h'.state ∧
      h'.uses = (used h.state a).toList ++ h.uses ∧
      h'.events = h.events ++ events h.state h'.state a := by
  obtain ⟨t, ht, rfl⟩ := Option.map_eq_some_iff.mp hstep
  exact ⟨ht, rfl, rfl⟩

theorem history_reached {n : ℕ} {C : History Ctx → Label Ctx → Prop} {h : History Ctx}
    (hr : (history Ctx n).ReachedUnder C h) : (system Ctx n).Reached h.state := by
  induction hr with
  | init h0 =>
    obtain rfl := h0
    exact .init rfl
  | step _ _ hstep ih => exact .step ih trivial (history_step hstep).1

/-- What a section does, in the terms of the order and of the entries: its host, if it has one, moves
to the front or stays away, and at most one new entry comes in for one old one. -/
inductive Section (s t : State Ctx) : Label Ctx → Prop
  | missed {hostname : Bytes} (hsame : t.cache = s.cache)
      (hnone : hostname = [] ∨ s.cache.findEntry hostname = none) : Section s t (.getEntry hostname)
  | hit {hostname : Bytes} {e : Entry Ctx} (hsame : t.cache = s.cache) (hne : hostname ≠ [])
      (he : s.cache.findEntry hostname = some e) : Section s t (.getEntry hostname)
  | again {k : ℕ} {minted : Minted Ctx} {hostname : Bytes} {item : CacheItem Ctx} {c' : CertCache Ctx}
      (hcall : s.calls[k]? = some hostname) (hitem : s.cache.cache.lookup hostname = some item)
      (hp : s.cache.promote hostname item = some c') (ht : t.cache = c') :
      Section s t (.getOrMint k minted)
  | made {k : ℕ} {minted : Minted Ctx} {hostname : Bytes} {e : Entry Ctx}
      (hcall : s.calls[k]? = some hostname) (hnew : hostname ∉ s.cache.cache)
      (hm : minted.success = some e) (ht : t.cache = (s.cache.mint hostname minted).2) :
      Section s t (.getOrMint k minted)
  | failed {k : ℕ} {minted : Minted Ctx} {hostname : Bytes}
      (hcall : s.calls[k]? = some hostname) (hnew : hostname ∉ s.cache.cache)
      (hm : minted.success = none) (ht : t.cache = s.cache) : Section s t (.getOrMint k minted)
  | touched {hostname : Bytes} {item : CacheItem Ctx} {c' : CertCache Ctx}
      (hitem : s.cache.cache.lookup hostname = some item)
      (hp : s.cache.promote hostname item = some c') (ht : t.cache = c') :
      Section s t (.touch hostname)
  | absent {hostname : Bytes} (hnew : hostname ∉ s.cache.cache) (ht : t.cache = s.cache) :
      Section s t (.touch hostname)
  | cleared (ht : t.cache = s.cache.clear) : Section s t .clear

/-- Every step is one of these sections. -/
theorem step_section {s t : State Ctx} {a : Label Ctx} (hs : s.cache.Consistent)
    (hstep : step s a = some t) : Section s t a := by
  cases a with
  | getEntry hostname =>
    simp only [step] at hstep
    split at hstep
    · rename_i hcase
      obtain rfl := Option.some.inj hstep
      by_cases hempty : hostname = []
      · exact .missed rfl (Or.inl hempty)
      · have hsome := hcase.resolve_left hempty
        exact .hit rfl hempty (Option.some_get hsome).symm
    · rename_i hcase
      obtain rfl := Option.some.inj hstep
      rw [not_or, Bool.not_eq_true, Option.isSome_eq_false_iff, Option.isNone_iff_eq_none] at hcase
      exact .missed rfl (Or.inr hcase.2)
  | getOrMint k minted =>
    obtain ⟨hostname, hcall, rfl⟩ := Option.map_eq_some_iff.mp hstep
    cases hitem : s.cache.cache.lookup hostname with
    | some item =>
      obtain ⟨c', hp, -⟩ := hs.promote hitem
      exact .again hcall hitem hp (by simp [getOrMint, hitem, hp, State.update])
    | none =>
      have hnew := AList.lookup_eq_none.mp hitem
      have hcache : ({ s with calls := s.calls.eraseIdx k }.update
          ((s.cache.getOrMint hostname minted).map Prod.snd)).cache =
            (s.cache.mint hostname minted).2 := by
        simp [getOrMint, hitem, State.update]
      cases hm : minted.success with
      | some e => exact .made hcall hnew hm hcache
      | none => exact .failed hcall hnew hm (hcache.trans (mint_of_failed hm))
  | touch hostname =>
    obtain rfl := Option.some.inj hstep
    cases hitem : s.cache.cache.lookup hostname with
    | some item =>
      obtain ⟨c', hp, -⟩ := hs.promote hitem
      exact .touched hitem hp (by simp [touch, hitem, hp, State.update])
    | none => exact .absent (AList.lookup_eq_none.mp hitem) (by simp [touch, hitem, State.update])
  | clear =>
    obtain rfl := Option.some.inj hstep
    exact .cleared rfl

theorem Section.maxEntries {s t : State Ctx} {a : Label Ctx} (h : Section s t a)
    (hs : s.cache.Consistent) (hpos : 0 < s.cache.maxEntries) :
    t.cache.maxEntries = s.cache.maxEntries := by
  cases h with
  | missed hsame _ => rw [hsame]
  | hit hsame _ _ => rw [hsame]
  | again _ hitem hp ht => rw [ht, (promote_spec hs hitem hp).2.1]
  | made _ hnew hm ht => rw [ht, (mint_spec hs hpos hnew hm).2.2.1]
  | failed _ _ _ ht => rw [ht]
  | touched hitem hp ht => rw [ht, (promote_spec hs hitem hp).2.1]
  | absent _ ht => rw [ht]
  | cleared ht => rw [ht]; rfl

theorem reached_maxEntries {n : ℕ} (hn : 1 ≤ n) {s : State Ctx} (h : (system Ctx n).Reached s) :
    s.cache.maxEntries = n := by
  refine h.invariant_of (I := fun s => s.cache.maxEntries = n) (J := fun s => s.cache.Consistent)
    (fun s hs => consistent_of_reached hs.reached) ?_ ?_
  · rintro _ rfl
    rfl
  · intro s a t hs hmax _ hstep
    rw [(step_section hs hstep).maxEntries hs (by omega), hmax]

/-! The order of the list. -/

/-- A hit under the shared lock is on the entry that was used last. -/
def HitsFront (h : History Ctx) : Label Ctx → Prop
  | .getEntry hostname =>
    (h.state.cache.findEntry hostname).isSome → h.state.cache.lruList.elems.head? = some hostname
  | _ => True

instance (h : History Ctx) (a : Label Ctx) : Decidable (HitsFront h a) := by
  unfold HitsFront
  split <;> infer_instance

theorem Section.ordered {s t : State Ctx} {a : Label Ctx} (h : Section s t a)
    (hs : s.cache.Consistent) (hpos : 0 < s.cache.maxEntries) {uses : List Bytes}
    (hord : Recency.Ordered uses s.cache.lruList.elems)
    (hfront : ∀ hostname, a = .getEntry hostname → (s.cache.findEntry hostname).isSome →
      s.cache.lruList.elems.head? = some hostname) :
    Recency.Ordered ((used s a).toList ++ uses) t.cache.lruList.elems := by
  have haway {hostname : Bytes} (hnew : hostname ∉ s.cache.cache) :
      hostname ∉ s.cache.lruList.elems := fun hmem => hnew ((hs.keys hostname).mp hmem)
  cases h with
  | @missed hostname hsame hnone =>
    have hused : used s (.getEntry hostname) = none := by
      rcases hnone with rfl | hnone
      · simp [used]
      · simp [used, hnone]
    rw [hsame, hused]
    exact hord
  | @hit hostname e hsame hne he =>
    have hused : used s (.getEntry hostname) = some hostname := by simp [used, hne, he]
    obtain ⟨l, hl⟩ := List.head?_eq_some_iff.mp (hfront hostname rfl (by rw [he]; rfl))
    rw [hsame, hused, hl]
    rw [hl] at hord
    exact hord.use_front
  | again hcall hitem hp ht =>
    rw [ht, (promote_spec hs hitem hp).1, used, hcall]
    exact hord.use_moved _
  | made hcall hnew hm ht =>
    rw [ht, (mint_spec hs hpos hnew hm).2.1, used, hcall]
    -- a full cache drops the last hostname before the new one comes in
    split
    · have hsub := List.dropLast_sublist s.cache.lruList.elems
      exact (hord.sublist hsub).use_new fun hmem => haway hnew (hsub.subset hmem)
    · exact hord.use_new (haway hnew)
  | failed hcall hnew hm ht =>
    rw [ht, used, hcall]
    exact hord.use_other (haway hnew)
  | touched hitem hp ht =>
    rw [ht, (promote_spec hs hitem hp).1]
    exact hord.use_moved _
  | absent hnew ht =>
    rw [ht]
    exact hord.use_other (haway hnew)
  | cleared ht =>
    rw [ht]
    exact .nil _

theorem history_ordered {n : ℕ} (hn : 1 ≤ n) {h : History Ctx}
    (hr : (history Ctx n).ReachedUnder HitsFront h) :
    Recency.Ordered h.uses h.state.cache.lruList.elems := by
  refine hr.invariant_of (I := fun h => Recency.Ordered h.uses h.state.cache.lruList.elems)
    (J := fun h => h.state.cache.Consistent ∧ h.state.cache.maxEntries = n)
    (fun h hr => ⟨consistent_of_reached (history_reached hr), reached_maxEntries hn (history_reached hr)⟩)
    ?_ ?_
  · rintro _ rfl
    exact .nil _
  · intro h a h' ⟨hs, hmax⟩ hord hfront hstep
    obtain ⟨hstep, huses, -⟩ := history_step hstep
    rw [huses]
    refine (step_section hs hstep).ordered hs (by omega) hord ?_
    rintro hostname rfl
    exact hfront

/-- The eviction of a full cache takes the last element of the list. -/
theorem mint_full {s : State Ctx} (hs : s.cache.Consistent) (hpos : 0 < s.cache.maxEntries)
    {minted : Minted Ctx} {e : Entry Ctx} (hnew : hostname ∉ s.cache.cache)
    (hm : minted.success = some e) (hfull : s.cache.size = s.cache.maxEntries) :
    ∃ init oldest, s.cache.lruList.elems = init ++ [oldest] ∧
      ∀ b, b ∈ (s.cache.mint hostname minted).2.cache ↔
        b = hostname ∨ b ∈ s.cache.cache ∧ b ≠ oldest := by
  have hne : s.cache.lruList.elems ≠ [] := by
    intro hnil
    have hlen := hs.size_eq
    rw [hnil, List.length_nil] at hlen
    omega
  obtain ⟨init, oldest, hsplit⟩ : ∃ init oldest, s.cache.lruList.elems = init ++ [oldest] :=
    ⟨_, _, (List.dropLast_append_getLast hne).symm⟩
  obtain ⟨-, helems, -, -⟩ := mint_spec hs hpos hnew hm
  rw [if_pos (by omega), hsplit, List.dropLast_concat] at helems
  have hnodup := hs.nodup
  rw [hsplit, List.nodup_append] at hnodup
  refine ⟨init, oldest, hsplit, ?_⟩
  intro b
  rw [← (hs.mint hnew minted).keys, helems, List.mem_cons, ← hs.keys, hsplit, List.mem_append,
    List.mem_singleton]
  apply or_congr_right
  constructor
  · intro hb
    exact ⟨Or.inl hb, hnodup.2.2 b hb _ (by simp)⟩
  · rintro ⟨hb | hb, hother⟩
    · exact hb
    · exact absurd hb hother

/-- A promotion changes nothing exactly when the entry is in front already. -/
theorem promote_elems_eq {item : CacheItem Ctx} (h : c.Consistent)
    (hitem : c.cache.lookup hostname = some item) (hp : c.promote hostname item = some c') :
    c'.lruList.elems = c.lruList.elems ↔ c.lruList.elems.head? = some hostname := by
  rw [(promote_spec h hitem hp).1]
  constructor
  · intro heq
    rw [← heq, List.head?_cons]
  · intro hhead
    obtain ⟨l, hl⟩ := List.head?_eq_some_iff.mp hhead
    have hnodup := h.nodup
    rw [hl, List.nodup_cons] at hnodup
    rw [hl, List.filter_cons_of_neg (by simp), List.filter_eq_self.mpr]
    intro b hb
    have hne : b ≠ hostname := by
      rintro rfl
      exact hnodup.1 hb
    simpa using hne

/-- As long as no call hits an entry behind the first one under the shared lock, the list is in the
order of last use, and what a full cache evicts is the entry whose last use is oldest. The two
hits leave the same order on the first entry only. -/
theorem lru_of_front_hits {n : ℕ} (hn : 1 ≤ n) {h : History Ctx}
    (hr : (history Ctx n).ReachedUnder HitsFront h) :
    Recency.Ordered h.uses h.state.cache.lruList.elems ∧
      (∀ k minted e hostname h', (history Ctx n).step h (.getOrMint k minted) = some h' →
        h.state.calls[k]? = some hostname → hostname ∉ h.state.cache.cache →
        minted.success = some e → h.state.cache.size = n →
        ∃ oldest, Recency.LeastRecent h.uses h.state.cache.cache.keys oldest ∧
          ∀ b, b ∈ h'.state.cache.cache ↔ b = hostname ∨ b ∈ h.state.cache.cache ∧ b ≠ oldest) ∧
      (∀ hostname item c', h.state.cache.cache.lookup hostname = some item →
        h.state.cache.promote hostname item = some c' →
        (c'.lruList.elems = h.state.cache.lruList.elems ↔
          h.state.cache.lruList.elems.head? = some hostname)) := by
  have hs := consistent_of_reached (history_reached hr)
  have hmax := reached_maxEntries hn (history_reached hr)
  have hord := history_ordered hn hr
  refine ⟨hord, ?_, fun hostname item c' hitem hp => promote_elems_eq hs hitem hp⟩
  intro k minted e hostname h' hstep hcall hnew hm hfull
  obtain ⟨init, oldest, hsplit, hafter⟩ := mint_full hs (by omega) hnew hm (by omega)
  -- the call mints, because its hostname is absent and minting succeeds
  have hcache : h'.state.cache = (h.state.cache.mint hostname minted).2 := by
    have hsection := step_section hs (history_step hstep).1
    cases hsection with
    | again hcall' hitem _ _ =>
      obtain rfl := Option.some.inj (hcall.symm.trans hcall')
      exact absurd (AList.lookup_isSome.mp (by rw [hitem]; rfl)) hnew
    | made hcall' _ _ ht =>
      obtain rfl := Option.some.inj (hcall.symm.trans hcall')
      exact ht
    | failed _ _ hm' _ =>
      rw [hm] at hm'
      cases hm'
  rw [hsplit] at hord
  have hleast := hord.leastRecent
  have hkeys (b : Bytes) : b ∈ h.state.cache.cache.keys ↔ b ∈ init ++ [oldest] := by
    rw [← AList.mem_keys, ← hs.keys, hsplit]
  refine ⟨oldest, ⟨(hkeys oldest).mpr hleast.1, ?_⟩, ?_⟩
  · intro b hb hother
    exact hleast.2 b ((hkeys b).mp hb) hother
  · rw [hcache]
    exact hafter

def someCert : Minted Unit := .returned { certPem := str "c", keyPem := str "k" } (some ())

/-- In a cache of two hosts the second one is asked for again, then the first one is touched. -/
def frontHitsRun : List (Label Unit) :=
  [.getEntry (str "a"), .getOrMint 0 someCert, .getEntry (str "b"), .getOrMint 0 someCert,
    .getEntry (str "b"), .touch (str "a"), .getEntry (str "a"), .getEntry (str "c")]

theorem lru_of_front_hits_frontHitsRun : ∃ h,
    (history Unit 2).runUnder HitsFront { state := { cache := { maxEntries := 2 } } } frontHitsRun =
      some h ∧
    (∃ h', (history Unit 2).step h (.getOrMint 0 someCert) = some h' ∧
      h'.state.cache.lruList.elems = [str "c", str "a"]) ∧
    ∃ oldest, Recency.LeastRecent h.uses h.state.cache.cache.keys oldest := by
  have hrun : ((history Unit 2).runUnder HitsFront { state := { cache := { maxEntries := 2 } } }
      frontHitsRun).any (fun h =>
        h.state.calls[0]? = some (str "c") ∧ str "c" ∉ h.state.cache.cache ∧ h.state.cache.size = 2 ∧
        ((history Unit 2).step h (.getOrMint 0 someCert)).any fun h' =>
          h'.state.cache.lruList.elems = [str "c", str "a"]) = true := by decide
  obtain ⟨h, hh, hfacts⟩ := (Option.any_eq_true _ _).mp hrun
  simp only [decide_eq_true_eq] at hfacts
  obtain ⟨hcall, hnew, hfull, hstep⟩ := hfacts
  obtain ⟨h', hh', helems⟩ := (Option.any_eq_true _ _).mp hstep
  have hreached : (history Unit 2).ReachedUnder HitsFront h := .runUnder (.init rfl) hh
  obtain ⟨oldest, holdest, -⟩ := (lru_of_front_hits (by omega) hreached).2.1 0 someCert _ (str "c") h'
    hh' hcall hnew rfl hfull
  exact ⟨h, hh, ⟨h', hh', by simpa using helems⟩, oldest, holdest⟩

/-- Of two cached hosts the older one is hit under the shared lock; a third host then evicts it all
the same. -/
theorem shared_hit_is_forgotten : ∃ h h' : History Unit, (history Unit 2).Reached h ∧
    (history Unit 2).step h (.getOrMint 0 someCert) = some h' ∧
    str "a" ∈ h.state.cache.cache ∧ str "a" ∉ h'.state.cache.cache ∧ str "b" ∈ h'.state.cache.cache ∧
    h.uses.idxOf (str "a") < h.uses.idxOf (str "b") := by
  have hrun : ((history Unit 2).run { state := { cache := { maxEntries := 2 } } }
      [.getEntry (str "a"), .getOrMint 0 someCert, .getEntry (str "b"), .getOrMint 0 someCert,
        .getEntry (str "a"), .getEntry (str "c")]).any (fun h =>
        ((history Unit 2).step h (.getOrMint 0 someCert)).any fun h' =>
          str "a" ∈ h.state.cache.cache ∧ str "a" ∉ h'.state.cache.cache ∧
          str "b" ∈ h'.state.cache.cache ∧ h.uses.idxOf (str "a") < h.uses.idxOf (str "b")) =
      true := by decide
  obtain ⟨h, hh, hfacts⟩ := (Option.any_eq_true _ _).mp hrun
  obtain ⟨h', hh', hfacts⟩ := (Option.any_eq_true _ _).mp hfacts
  have hreached : (history Unit 2).Reached h := .run (.init rfl) hh
  exact ⟨h, h', hreached, hh', by simpa using hfacts⟩

/-! The entries between two removals. -/

theorem mem_removed {s t : State Ctx} {b : Bytes} :
    b ∈ removed s t ↔ b ∈ s.cache.cache ∧ b ∉ t.cache.cache := by
  simp [removed, AList.mem_keys]

/-- The entries after a section that makes none: those that are still there. -/
theorem findEntry_of_still {s t : State Ctx}
    (h : ∀ b, b ∈ t.cache.cache → t.cache.findEntry b = s.cache.findEntry b) (b : Bytes) :
    t.cache.findEntry b = if b ∈ removed s t then none else s.cache.findEntry b := by
  split
  · rename_i hb
    exact findEntry_eq_none.mpr (mem_removed.mp hb).2
  · rename_i hb
    by_cases ht : b ∈ t.cache.cache
    · exact h b ht
    · have hs : b ∉ s.cache.cache := fun hmem => hb (mem_removed.mpr ⟨hmem, ht⟩)
      rw [findEntry_eq_none.mpr ht, findEntry_eq_none.mpr hs]

theorem findEntry_of_same {s t : State Ctx} (h : ∀ b, t.cache.findEntry b = s.cache.findEntry b)
    (b : Bytes) : t.cache.findEntry b = if b ∈ removed s t then none else s.cache.findEntry b :=
  findEntry_of_still (fun b _ => h b) b

/-- What a section makes, loses and serves, against the entries before and after it. -/
theorem Section.entries {s t : State Ctx} {a : Label Ctx} (h : Section s t a)
    (hs : s.cache.Consistent) (hpos : 0 < s.cache.maxEntries) :
    (∀ p ∈ generated s a, s.cache.findEntry p.1 = none) ∧
      (∀ b, t.cache.findEntry b = if b ∈ removed s t then none else
        if (generated s a).map Prod.fst = some b then (generated s a).map Prod.snd
        else s.cache.findEntry b) ∧
      (∀ p ∈ returned s a, t.cache.findEntry p.1 = some p.2) := by
  cases h with
  | @missed hostname hsame hnone =>
    have hreturned : returned s (.getEntry hostname) = none := by
      rcases hnone with rfl | hnone
      · simp [returned]
      · simp [returned, hnone]
    rw [hreturned]
    refine ⟨by simp [generated], ?_, by simp⟩
    simpa [generated] using findEntry_of_same fun b => by rw [hsame]
  | @hit hostname e hsame hne he =>
    have hreturned : returned s (.getEntry hostname) = some (hostname, e) := by
      simp [returned, hne, he]
    rw [hreturned]
    refine ⟨by simp [generated], ?_, ?_⟩
    · simpa [generated] using findEntry_of_same fun b => by rw [hsame]
    · rintro p ⟨rfl⟩
      rw [hsame, he]
  | @again k minted hostname item c' hcall hitem hp ht =>
    have hmem : hostname ∈ s.cache.cache := AList.lookup_isSome.mp (by rw [hitem]; rfl)
    have hfind := (promote_spec hs hitem hp).2.2
    have hgenerated : generated s (.getOrMint k minted) = none := by simp [generated, hcall, hmem]
    have hreturned : returned s (.getOrMint k minted) =
        some (hostname, { certKeyPair := item.keyPair, sslContext := item.context }) := by
      simp [returned, hcall, hmem, getOrMint, hitem, hp]
    rw [hgenerated, hreturned]
    refine ⟨by simp, ?_, ?_⟩
    · simpa using findEntry_of_same fun b => by rw [ht, hfind]
    · rintro p ⟨rfl⟩
      rw [ht, hfind]
      simp [findEntry, hitem]
  | @made k minted hostname e hcall hnew hm ht =>
    obtain ⟨hanswer, -, -, hfind⟩ := mint_spec hs hpos hnew hm
    have hgenerated : generated s (.getOrMint k minted) = some (hostname, e) := by
      simp [generated, hcall, hnew, hm]
    have hhost : t.cache.findEntry hostname = some e := by
      rw [ht, hfind, if_pos rfl]
    have hreturned : returned s (.getOrMint k minted) = some (hostname, e) := by
      have hlookup := AList.lookup_eq_none.mpr hnew
      simp [returned, hcall, hm, getOrMint, hlookup, hanswer]
    rw [hgenerated, hreturned]
    refine ⟨?_, ?_, ?_⟩
    · rintro p ⟨rfl⟩
      exact findEntry_eq_none.mpr hnew
    · intro b
      by_cases hb : b = hostname
      · subst hb
        have hnot : b ∉ removed s t := fun hmem => hnew (mem_removed.mp hmem).1
        rw [if_neg hnot, hhost]
        simp
      · have hb' : hostname ≠ b := Ne.symm hb
        simp only [Option.map_some, Option.some.injEq, if_neg hb']
        rw [ht, hfind, if_neg hb, ← ht]
        -- another hostname is found as before, unless it was evicted
        by_cases hbt : b ∈ t.cache.cache
        · have hnot : b ∉ removed s t := fun hmem => (mem_removed.mp hmem).2 hbt
          rw [if_pos hbt, if_neg hnot]
        · rw [if_neg hbt]
          split
          · rfl
          · rename_i hnot
            refine (findEntry_eq_none.mpr ?_).symm
            intro hbs
            exact hnot (mem_removed.mpr ⟨hbs, hbt⟩)
    · rintro p ⟨rfl⟩
      exact hhost
  | @failed k minted hostname hcall hnew hm ht =>
    have hgenerated : generated s (.getOrMint k minted) = none := by simp [generated, hcall, hm]
    have hreturned : returned s (.getOrMint k minted) = none := by simp [returned, hcall, hnew, hm]
    rw [hgenerated, hreturned]
    refine ⟨by simp, ?_, by simp⟩
    simpa using findEntry_of_same fun b => by rw [ht]
  | touched hitem hp ht =>
    refine ⟨by simp [generated], ?_, by simp [returned]⟩
    simpa [generated] using findEntry_of_same fun b => by rw [ht, (promote_spec hs hitem hp).2.2]
  | absent hnew ht =>
    refine ⟨by simp [generated], ?_, by simp [returned]⟩
    simpa [generated] using findEntry_of_same fun b => by rw [ht]
  | cleared ht =>
    refine ⟨by simp [generated], ?_, by simp [returned]⟩
    have hnone (b : Bytes) : b ∉ t.cache.cache := by
      rw [ht]
      simp [clear]
    simpa [generated] using findEntry_of_still fun b hb => absurd hb (hnone b)

/-- The record is lawful, and what it says to be held is what the cache holds. -/
theorem history_kept {n : ℕ} (hn : 1 ≤ n) {h : History Ctx} (hr : (history Ctx n).Reached h) :
    Tenure.Kept h.events ∧ ∀ b, Tenure.held h.events b = h.state.cache.findEntry b := by
  refine hr.invariant_of
    (I := fun h => Tenure.Kept h.events ∧ ∀ b, Tenure.held h.events b = h.state.cache.findEntry b)
    (J := fun h => h.state.cache.Consistent ∧ h.state.cache.maxEntries = n)
    (fun h hr => ⟨consistent_of_reached (history_reached hr), reached_maxEntries hn (history_reached hr)⟩)
    ?_ ?_
  · rintro _ rfl
    exact ⟨.nil, fun b => by simp [findEntry]⟩
  · rintro h a h' ⟨hs, hmax⟩ ⟨hkept, hheld⟩ - hstep
    obtain ⟨hstep, -, hevents⟩ := history_step hstep
    obtain ⟨hmade, hnext, hserved⟩ := (step_section hs hstep).entries hs (by omega)
    rw [hevents]
    apply hkept.turn _ _ _ _ _ hserved
    · intro p hp
      rw [hheld]
      exact hmade p hp
    · intro b
      rw [hheld]
      convert hnext b

/-- In a stretch of a run in which a host is not removed, one generation for it succeeds at most, and
all calls that return in it return the same key pair and the same context. -/
theorem one_entry_between_removals {n : ℕ} (hn : 1 ≤ n) {h : History Ctx}
    (hr : (history Ctx n).Reached h) (hostname : Bytes)
    (before during after : List (Tenure.Event Bytes (Entry Ctx)))
    (hevents : h.events = before ++ during ++ after) (hstay : .removed hostname ∉ during) :
    Tenure.makings hostname during ≤ 1 ∧
      ∀ e e', .served hostname e ∈ during → .served hostname e' ∈ during → e = e' := by
  have hkept := (history_kept hn hr).1
  rw [hevents] at hkept
  obtain ⟨hserved, hone, -⟩ := hkept.of_append.stretch hstay
  refine ⟨hone, ?_⟩
  intro e e' he he'
  have hsame := (hserved e he).symm.trans (hserved e' he')
  exact Option.some.inj hsame

/-- Two calls race for one host; after a clear it gets another certificate. -/
def racingRun : List (Label Unit) :=
  [.getEntry (str "a"), .getEntry (str "a"), .getOrMint 1 someCert, .getOrMint 0 .threw, .clear,
    .getEntry (str "a"), .getOrMint 0 (.returned { certPem := str "d", keyPem := str "k" } none)]

theorem one_entry_between_removals_racingRun : ∃ h,
    (history Unit 1).run { state := { cache := { maxEntries := 1 } } } racingRun = some h ∧
      h.events.length = 6 ∧ Tenure.makings (str "a") (h.events.take 3) ≤ 1 := by
  have hrun : ((history Unit 1).run { state := { cache := { maxEntries := 1 } } } racingRun).any
      (fun h => h.events.length = 6 ∧ .removed (str "a") ∉ h.events.take 3) = true := by decide
  obtain ⟨h, hh, hfacts⟩ := (Option.any_eq_true _ _).mp hrun
  obtain ⟨hlen, hstay⟩ := of_decide_eq_true hfacts
  have hreached : (history Unit 1).Reached h := .run (.init rfl) hh
  have hone := one_entry_between_removals (by omega) hreached (str "a") [] (h.events.take 3)
    (h.events.drop 3) (by simp) hstay
  exact ⟨h, hh, hlen, hone.1⟩

end CertCache

end BurpTUI
