import BurpTUI.Proxy.CacheHistory

namespace BurpTUI

namespace CertCache

variable {Ctx : Type} {c c' : CertCache Ctx} {hostname : Bytes} {minted : Minted Ctx}

/-- A whole call of `getEntry`, with no other thread in between. -/
def getEntry (c : CertCache Ctx) (hostname : Bytes) (minted : Minted Ctx) :
    Option (Entry Ctx × CertCache Ctx) :=
  if hostname = [] then some ({}, c)
  else match c.findEntry hostname with
    | some e => some (e, c)
    | none => c.getOrMint hostname minted

/-- The entry that is returned in a section, if a call ends in it. -/
def answer (s : State Ctx) : Label Ctx → Option (Entry Ctx)
  | .getEntry hostname => if hostname = [] then some {} else s.cache.findEntry hostname
  | .getOrMint k minted => (s.calls[k]?).bind fun hostname =>
    (s.cache.getOrMint hostname minted).map Prod.fst
  | _ => none

/-- The cached hosts with their entries and the order of the hosts. -/
structure Unchanged (c c' : CertCache Ctx) : Prop where
  order : c'.lruList.elems = c.lruList.elems
  entries : ∀ b, c'.findEntry b = c.findEntry b

theorem Unchanged.refl (c : CertCache Ctx) : c.Unchanged c := ⟨rfl, fun _ => rfl⟩

/-- `generate` has made a certificate and a key, and OpenSSL does not load them. -/
def Minted.LoadFails : Minted Ctx → Prop
  | .threw => False
  | .returned keyPair loaded => keyPair.certPem ≠ [] ∧ keyPair.keyPem ≠ [] ∧ loaded = none

/-- The host is not cached, there may be entries, and what is generated for it cannot be loaded. -/
def Unloadable (c : CertCache Ctx) (hostname : Bytes) (minted : Minted Ctx) : Prop :=
  hostname ∉ c.cache ∧ 0 < c.maxEntries ∧ minted.LoadFails

def NoNull (c : CertCache Ctx) : Prop := ∀ b e, c.findEntry b = some e → e.sslContext ≠ none

/-! What the exclusive section leaves of a host that is not cached. -/

theorem evictOldest_kept (c : CertCache Ctx) : c.evictOldest.maxEntries = c.maxEntries ∧
    ∀ b, b ∉ c.cache → b ∉ c.evictOldest.cache := by
  unfold evictOldest
  split
  · split
    · exact ⟨rfl, fun b hb hmem => hb (AList.mem_erase.mp hmem).2⟩
    · exact ⟨rfl, fun b hb => hb⟩
  · exact ⟨rfl, fun b hb => hb⟩

/-- Without capacity nothing is evicted or inserted. -/
theorem mint_no_capacity (h : c.maxEntries = 0) : (c.mint hostname minted).2 = c := by
  have hevicted : c.evictOldest = c := by
    unfold evictOldest
    split
    · rw [if_neg (by omega)]
    · rfl
  cases minted with
  | threw => rfl
  | returned keyPair loaded =>
    rw [mint]
    split
    · rfl
    · simp only [hevicted, insertFront, h, Nat.lt_irrefl, if_false]

/-- A pair that is not empty is cached with what OpenSSL made of it. -/
theorem mint_cached (hpos : 0 < c.maxEntries) (hnew : hostname ∉ c.cache) {keyPair : CertKeyPair}
    {loaded : Option Ctx} (hcert : keyPair.certPem ≠ []) (hkey : keyPair.keyPem ≠ []) :
    (c.mint hostname (.returned keyPair loaded)).1.sslContext = loaded ∧
      ∀ b, (c.mint hostname (.returned keyPair loaded)).2.findEntry b =
        if b = hostname then some { certKeyPair := keyPair, sslContext := loaded }
        else c.evictOldest.findEntry b := by
  have hpair : ¬ (keyPair.certPem = [] ∨ keyPair.keyPem = []) := by simp [hcert, hkey]
  have hcontext : createSslContext keyPair loaded = loaded := if_neg hpair
  obtain ⟨hmax, hstill⟩ := c.evictOldest_kept
  obtain ⟨-, -, hfind⟩ := insertFront_spec (hmax.symm ▸ hpos) (hstill hostname hnew) keyPair loaded
  rw [mint, if_neg hpair]
  dsimp only
  rw [hcontext]
  exact ⟨rfl, hfind⟩

/-- The cache is left alone, or a pair that is not empty is cached. -/
theorem mint_cases (c : CertCache Ctx) (hostname : Bytes) (minted : Minted Ctx) :
    ((c.mint hostname minted).2 = c ∧ ¬ c.Unloadable hostname minted) ∨
      (0 < c.maxEntries ∧ ∃ keyPair loaded, minted = .returned keyPair loaded ∧ keyPair.certPem ≠ [] ∧
        keyPair.keyPem ≠ []) := by
  by_cases hpos : 0 < c.maxEntries
  · cases minted with
    | threw => exact .inl ⟨rfl, fun h => h.2.2⟩
    | returned keyPair loaded =>
      by_cases hempty : keyPair.certPem = [] ∨ keyPair.keyPem = []
      · refine .inl ⟨by rw [mint, if_pos hempty], fun h => ?_⟩
        exact hempty.elim h.2.2.1 h.2.2.2.1
      · rw [not_or] at hempty
        exact .inr ⟨hpos, keyPair, loaded, rfl, hempty⟩
  · exact .inl ⟨mint_no_capacity (Nat.eq_zero_of_not_pos hpos), fun h => hpos h.2.1⟩

/-- For a host that is not cached, a null context leaves the cache alone in all cases but one. -/
theorem mint_unchanged_iff (hnew : hostname ∉ c.cache) :
    ((c.mint hostname minted).1.sslContext = none → c.Unchanged (c.mint hostname minted).2) ↔
      ¬ c.Unloadable hostname minted := by
  rcases c.mint_cases hostname minted with ⟨hsame, hloads⟩ | ⟨hpos, keyPair, loaded, rfl, hcert, hkey⟩
  · rw [hsame]
    exact ⟨fun _ => hloads, fun _ _ => .refl c⟩
  · obtain ⟨hcontext, hfind⟩ := @mint_cached _ c hostname hpos hnew keyPair loaded hcert hkey
    rw [hcontext]
    constructor
    · rintro hunchanged ⟨-, -, -, -, hnull⟩
      -- the entry with the null context is new
      have hentry := (hunchanged hnull).entries hostname
      rw [hfind, if_pos rfl, findEntry_eq_none.mpr hnew] at hentry
      cases hentry
    · intro h hnull
      exact absurd ⟨hnew, hpos, hcert, hkey, hnull⟩ h

theorem NoNull.mint (h : c.NoNull) (hnew : hostname ∉ c.cache) (hload : ¬ c.Unloadable hostname minted) :
    (c.mint hostname minted).2.NoNull := by
  rcases c.mint_cases hostname minted with ⟨hsame, -⟩ | ⟨hpos, keyPair, loaded, rfl, hcert, hkey⟩
  · rwa [hsame]
  · have hfind := (@mint_cached _ c hostname hpos hnew keyPair loaded hcert hkey).2
    intro b e he
    rw [hfind] at he
    split at he
    · obtain rfl := Option.some.inj he
      exact fun hnull => hload ⟨hnew, hpos, hcert, hkey, hnull⟩
    · rw [(evictOldest_spec hpos).2] at he
      split at he
      · exact h b e he
      · cases he

theorem NoNull.of_same (h : c.NoNull) (hsame : ∀ b, c'.findEntry b = c.findEntry b) : c'.NoNull :=
  fun b e he => h b e ((hsame b).symm.trans he)

/-- Alone, a call that returns a null context leaves every cache as it is, up to one case. -/
theorem getEntry_unchanged_iff (c : CertCache Ctx) (hostname : Bytes) (minted : Minted Ctx) :
    (∃ e c', c.getEntry hostname minted = some (e, c') ∧ (e.sslContext = none → c.Unchanged c')) ↔
      (hostname ≠ [] → ¬ c.Unloadable hostname minted) := by
  by_cases hempty : hostname = []
  · refine ⟨fun _ hne => absurd hempty hne, fun _ => ⟨{}, c, ?_, fun _ => .refl c⟩⟩
    rw [getEntry, if_pos hempty]
  · rw [getEntry, if_neg hempty]
    cases hfind : c.findEntry hostname with
    | some e =>
      have hmem : hostname ∈ c.cache := findEntry_isSome.mp (by simp [hfind])
      exact ⟨fun _ _ h => h.1 hmem, fun _ => ⟨e, c, rfl, fun _ => .refl c⟩⟩
    | none =>
      have hnew := findEntry_eq_none.mp hfind
      have hmint : c.getOrMint hostname minted = some (c.mint hostname minted) := by
        rw [getOrMint, AList.lookup_eq_none.mpr hnew]
      simp only [hmint, Option.some.injEq, ne_eq, hempty, not_false_eq_true, true_implies]
      rw [← mint_unchanged_iff hnew]
      constructor
      · rintro ⟨e, c', heq, hunchanged⟩
        rw [heq]
        exact hunchanged
      · exact fun h => ⟨_, _, rfl, h⟩

/-! Runs of several threads. -/

/-- No section generates something that cannot be loaded. -/
def Loads (s : State Ctx) : Label Ctx → Prop
  | .getOrMint k minted => ∀ hostname, s.calls[k]? = some hostname → ¬ s.cache.Unloadable hostname minted
  | _ => True

theorem noNull_step {s t : State Ctx} {a : Label Ctx} (hs : s.cache.Consistent) (h : s.cache.NoNull)
    (hload : Loads s a) (hstep : step s a = some t) : t.cache.NoNull := by
  cases step_section hs hstep with
  | missed hsame _ => rwa [hsame]
  | hit hsame _ _ => rwa [hsame]
  | again _ hitem hp ht =>
    rw [ht]
    exact h.of_same (promote_spec hs hitem hp).2.2
  | made hcall hnew _ ht =>
    rw [ht]
    exact h.mint hnew (hload _ hcall)
  | failed _ _ _ ht => rwa [ht]
  | touched hitem hp ht =>
    rw [ht]
    exact h.of_same (promote_spec hs hitem hp).2.2
  | absent _ ht => rwa [ht]
  | cleared ht =>
    rw [ht]
    intro b e he
    simp [findEntry, CertCache.clear] at he

theorem noNull_of_reached {n : ℕ} {s : State Ctx} (h : (system Ctx n).ReachedUnder Loads s) :
    s.cache.NoNull := by
  refine h.invariant_of (I := fun s => s.cache.NoNull) (J := fun s => s.cache.Consistent)
    (fun s hs => consistent_of_reached hs.reached) ?_ ?_
  · rintro _ rfl b e he
    simp [findEntry] at he
  · exact fun s a t hs hnull hload hstep => noNull_step hs hnull hload hstep

/-- Where no entry has a null context, the sections that return one do not change the cache, unless
something cannot be loaded. -/
theorem answer_unchanged_iff {s t : State Ctx} {a : Label Ctx} (hs : s.cache.Consistent)
    (hnull : s.cache.NoNull) (hstep : step s a = some t) :
    (∀ e, answer s a = some e → e.sslContext = none → s.cache.Unchanged t.cache) ↔ Loads s a := by
  cases a with
  | getEntry hostname =>
    refine ⟨fun _ => trivial, fun _ e _ _ => ?_⟩
    have hsame : t.cache = s.cache := by
      cases step_section hs hstep with
      | missed hsame _ => exact hsame
      | hit hsame _ _ => exact hsame
    rw [hsame]
    exact .refl _
  | getOrMint k minted =>
    obtain ⟨hostname, hcall, rfl⟩ := Option.map_eq_some_iff.mp hstep
    have hanswer : answer s (.getOrMint k minted) =
        (s.cache.getOrMint hostname minted).map Prod.fst := by
      rw [answer, hcall]
      rfl
    have hloads : Loads s (.getOrMint k minted) ↔ ¬ s.cache.Unloadable hostname minted := by
      simp only [Loads, hcall, Option.some.injEq, forall_eq']
    rw [hanswer, hloads]
    cases hitem : s.cache.cache.lookup hostname with
    | some item =>
      -- a hit is not null
      have hmem : hostname ∈ s.cache.cache := AList.lookup_isSome.mp (by simp [hitem])
      obtain ⟨c', hp, -⟩ := hs.promote hitem
      refine ⟨fun _ h => h.1 hmem, fun _ e he hcontext => ?_⟩
      simp only [getOrMint, hitem, hp, Option.map_some, Option.some.injEq] at he
      subst he
      exact absurd hcontext (hnull hostname _ (by rw [findEntry, hitem]; rfl))
    | none =>
      have hnew := AList.lookup_eq_none.mp hitem
      rw [getOrMint, hitem, ← mint_unchanged_iff hnew]
      exact ⟨fun h => h _ rfl, fun h e he hcontext => h ((Option.some.inj he).symm ▸ hcontext)⟩
  | touch hostname => exact ⟨fun _ => trivial, fun _ e he _ => by cases he⟩
  | clear => exact ⟨fun _ => trivial, fun _ e he _ => by cases he⟩

/-- A lookup that returns a null context leaves the cache as it was, and no entry has a null context,
as long as nothing is generated that cannot be loaded. -/
theorem failed_lookup_iff (Ctx : Type) (maxEntries : ℕ) :
    (∀ (c : CertCache Ctx) hostname minted,
      (∃ e c', c.getEntry hostname minted = some (e, c') ∧ (e.sslContext = none → c.Unchanged c')) ↔
        (hostname ≠ [] → ¬ c.Unloadable hostname minted)) ∧
    ∀ s, (system Ctx maxEntries).ReachedUnder Loads s → s.cache.NoNull ∧
      ∀ a t, step s a = some t →
        ((∀ e, answer s a = some e → e.sslContext = none → s.cache.Unchanged t.cache) ↔ Loads s a) := by
  refine ⟨getEntry_unchanged_iff, fun s hs => ?_⟩
  have hnull := noNull_of_reached hs
  exact ⟨hnull, fun a t => answer_unchanged_iff (consistent_of_reached hs.reached) hnull⟩

/-- A thread that finds nothing cached for `a`, with a pair that OpenSSL loads. -/
def loadedRun : List (Label Unit) :=
  [.getEntry (str "a"), .getOrMint 0 (.returned { certPem := str "c", keyPem := str "k" } (some ()))]

/-- A pair that OpenSSL does not load, as when it wants longer keys. -/
def unloaded : Minted Unit := .returned { certPem := str "c", keyPem := str "k" } none

theorem failed_lookup_iff_loadedRun : ∃ s, (system Unit 1).run { cache := { maxEntries := 1 } } loadedRun =
    some s ∧ s.cache.lruList.elems = [str "a"] ∧ s.cache.NoNull := by
  have hrun : ((system Unit 1).run { cache := { maxEntries := 1 } } loadedRun).any
      (fun s => s.cache.lruList.elems == [str "a"]) = true := by decide
  obtain ⟨s, hs, helems⟩ := (Option.any_eq_true _ _).mp hrun
  have hfirst : (system Unit 1).ReachedUnder Loads
      { cache := { maxEntries := 1 }, calls := [str "a"] } := by
    apply StepSystem.System.ReachedUnder.step (.init rfl) (a := .getEntry (str "a")) trivial
    rfl
  have hload : Loads ({ cache := { maxEntries := 1 }, calls := [str "a"] } : State Unit)
      (.getOrMint 0 (.returned { certPem := str "c", keyPem := str "k" } (some ()))) :=
    fun hostname _ h => Option.some_ne_none _ h.2.2.2.2
  have hreached : (system Unit 1).ReachedUnder Loads s :=
    .step hfirst hload hs
  exact ⟨s, hs, eq_of_beq helems, ((failed_lookup_iff Unit 1).2 s hreached).1⟩

/-- The entry of `a` is evicted for a failure, which is then found as a hit. -/
theorem failure_remembered : ∃ s, (system Unit 1).run { cache := { maxEntries := 1 } } loadedRun = some s ∧
    ∃ e c', s.cache.getEntry (str "b") unloaded = some (e, c') ∧ e.sslContext = none ∧
      ¬ s.cache.Unchanged c' ∧ str "a" ∉ c'.cache ∧ c'.findEntry (str "b") = some e := by
  refine ⟨_, rfl, _, _, rfl, rfl, ?_, by decide, rfl⟩
  intro h
  exact absurd h.order (by decide)

end CertCache

end BurpTUI
