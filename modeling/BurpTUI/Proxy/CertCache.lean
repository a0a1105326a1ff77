import BurpTUI.Base.LinkedList
import BurpTUI.Base.StepSystem
import BurpTUI.Http.Message
import Mathlib.Data.List.AList

namespace AList

variable {α : Type*} {β : α → Type*} [DecidableEq α] {s : AList β} {a : α}

theorem length_keys_erase (h : a ∈ s) : (s.erase a).keys.length + 1 = s.keys.length := by
  have hpos := List.length_pos_of_mem (mem_keys.mp h)
  rw [keys_erase, List.length_erase_of_mem (mem_keys.mp h)]
  omega

theorem length_keys_insert (b : β a) (h : a ∈ s) : (s.insert a b).keys.length = s.keys.length := by
  have hpos := List.length_pos_of_mem (mem_keys.mp h)
  rw [keys_insert, List.length_cons, List.length_erase_of_mem (mem_keys.mp h)]
  omega

theorem length_keys_insert_new (b : β a) (h : a ∉ s) :
    (s.insert a b).keys.length = s.keys.length + 1 := by
  rw [keys_insert, List.length_cons, List.erase_of_not_mem fun hmem => h (mem_keys.mpr hmem)]

end AList

namespace BurpTUI

structure CertKeyPair where
  certPem : Bytes := []
  keyPem : Bytes := []
  deriving DecidableEq, Repr

/-- `Ctx` stands for SSL contexts. -/
structure CacheItem (Ctx : Type) where
  keyPair : CertKeyPair
  context : Option Ctx
  lruIt : ℕ

/-- What the mutex guards, and the capacity. -/
structure CertCache (Ctx : Type) where
  maxEntries : ℕ
  lruList : LinkedList Bytes := {}
  cache : AList fun _ : Bytes => CacheItem Ctx := ∅

namespace CertCache

variable {Ctx : Type}

structure Entry (Ctx : Type) where
  certKeyPair : CertKeyPair := {}
  sslContext : Option Ctx := none

/-- What `generate` returns, and what OpenSSL makes of it. An exception leaves the section. -/
inductive Minted (Ctx : Type)
  | threw
  | returned (keyPair : CertKeyPair) (loaded : Option Ctx)

def createSslContext (pair : CertKeyPair) (loaded : Option Ctx) : Option Ctx :=
  if pair.certPem = [] ∨ pair.keyPem = [] then none else loaded

variable (c : CertCache Ctx)

def size : ℕ := c.cache.keys.length

/-- The hostname moves to the front. There is no result when the stored iterator is not valid. -/
def promote (hostname : Bytes) (item : CacheItem Ctx) : Option (CertCache Ctx) :=
  (c.lruList.erase item.lruIt).map fun l =>
    { c with
      lruList := l.pushFront hostname
      cache := c.cache.insert hostname { item with lruIt := (l.pushFront hostname).begin } }

def evictOldest : CertCache Ctx :=
  match c.lruList.back with
  | some oldest =>
    if 0 < c.maxEntries ∧ c.maxEntries ≤ c.size then
      { c with lruList := c.lruList.popBack, cache := c.cache.erase oldest }
    else c
  | none => c

/-- `emplace` does not replace an entry. -/
def emplace (hostname : Bytes) (item : CacheItem Ctx) : CertCache Ctx :=
  if hostname ∈ c.cache then c else { c with cache := c.cache.insert hostname item }

def insertFront (hostname : Bytes) (keyPair : CertKeyPair) (context : Option Ctx) : CertCache Ctx :=
  if 0 < c.maxEntries then
    let l := c.lruList.pushFront hostname
    { c with lruList := l }.emplace hostname
      { keyPair := keyPair, context := context, lruIt := l.begin }
  else c

/-- The certificate is minted, unless that fails. -/
def mint (hostname : Bytes) : Minted Ctx → Entry Ctx × CertCache Ctx
  | .threw => ({}, c)
  | .returned keyPair loaded =>
    if keyPair.certPem = [] ∨ keyPair.keyPem = [] then ({ certKeyPair := keyPair }, c)
    else
      let context := createSslContext keyPair loaded
      ({ certKeyPair := keyPair, sslContext := context },
        c.evictOldest.insertFront hostname keyPair context)

/-- The section of `getEntry` under the shared lock. -/
def findEntry (hostname : Bytes) : Option (Entry Ctx) :=
  (c.cache.lookup hostname).map fun item =>
    { certKeyPair := item.keyPair, sslContext := item.context }

/-- The section of `getEntry` under the exclusive lock. -/
def getOrMint (hostname : Bytes) (minted : Minted Ctx) : Option (Entry Ctx × CertCache Ctx) :=
  match c.cache.lookup hostname with
  | some item => (c.promote hostname item).map fun c =>
    ({ certKeyPair := item.keyPair, sslContext := item.context }, c)
  | none => some (c.mint hostname minted)

def clear : CertCache Ctx := { c with cache := ∅, lruList := c.lruList.clear }

def touch (hostname : Bytes) : Option (CertCache Ctx) :=
  match c.cache.lookup hostname with
  | some item => c.promote hostname item
  | none => some c

/-- List, map and iterators are in step. -/
structure Consistent (c : CertCache Ctx) : Prop where
  nodup : c.lruList.elems.Nodup
  keys : ∀ hostname, hostname ∈ c.lruList.elems ↔ hostname ∈ c.cache
  lruIt : ∀ hostname item, c.cache.lookup hostname = some item → c.lruList.Holds item.lruIt hostname
  size : c.size ≤ c.maxEntries

/-- The threads that use the cache. `calls` holds the calls of `getEntry` that have missed under
the shared lock; `undefined` notes that an iterator was used that was not valid. -/
structure State (Ctx : Type) where
  cache : CertCache Ctx
  calls : List Bytes := []
  undefined : Bool := false

/-- `get` and `getContext` are calls of `getEntry`. -/
inductive Label (Ctx : Type)
  | getEntry (hostname : Bytes)
  | getOrMint (k : ℕ) (minted : Minted Ctx)
  | touch (hostname : Bytes)
  | clear

def State.update (s : State Ctx) : Option (CertCache Ctx) → State Ctx
  | some c => { s with cache := c }
  | none => { s with undefined := true }

def step (s : State Ctx) : Label Ctx → Option (State Ctx)
  | .getEntry hostname =>
    if hostname = [] ∨ (s.cache.findEntry hostname).isSome then some s
    else some { s with calls := s.calls ++ [hostname] }
  | .getOrMint k minted =>
    s.calls[k]?.map fun hostname =>
      { s with calls := s.calls.eraseIdx k }.update
        ((s.cache.getOrMint hostname minted).map Prod.snd)
  | .touch hostname => some (s.update (s.cache.touch hostname))
  | .clear => some { s with cache := s.cache.clear }

def system (Ctx : Type) (maxEntries : ℕ) : StepSystem.System (State Ctx) (Label Ctx) where
  init s := s = { cache := { maxEntries := maxEntries } }
  step := step

namespace Consistent

variable {c} {hostname : Bytes} {item : CacheItem Ctx}

theorem empty (maxEntries : ℕ) : Consistent ({ maxEntries := maxEntries } : CertCache Ctx) := by
  refine ⟨List.nodup_nil, fun hostname => ?_, fun hostname item h => ?_, Nat.zero_le _⟩
  · simp [LinkedList.elems]
  · simp at h

theorem clear (c : CertCache Ctx) : c.clear.Consistent := by
  refine ⟨List.nodup_nil, fun hostname => ?_, fun hostname item hitem => ?_, Nat.zero_le _⟩
  · simp [CertCache.clear]
  · simp [CertCache.clear] at hitem

/-- The map has an entry for each element of the list. -/
theorem size_eq (h : c.Consistent) : c.size = c.lruList.elems.length := by
  have hperm : c.cache.keys.Perm c.lruList.elems := by
    rw [List.perm_ext_iff_of_nodup c.cache.keys_nodup h.nodup]
    intro hostname
    rw [h.keys, AList.mem_keys]
  exact hperm.length_eq

/-- The stored iterator is valid, and the hostname stays in step. -/
theorem promote (h : c.Consistent) (hitem : c.cache.lookup hostname = some item) :
    ∃ c', c.promote hostname item = some c' ∧ c'.Consistent := by
  obtain ⟨l, hl, hsub, hholds⟩ := LinkedList.erase_spec (h.lruIt hostname item hitem)
  have hin : hostname ∈ c.cache := AList.lookup_isSome.mp (by simp [hitem])
  -- the iterator that is erased is the only one at this hostname
  have helems (b : Bytes) : b ∈ l.elems ↔ b ∈ c.lruList.elems ∧ b ≠ hostname := by
    constructor
    · intro hb
      obtain ⟨it, hit⟩ := LinkedList.exists_holds hb
      obtain ⟨hc, hne⟩ := (hholds it b).mp hit
      refine ⟨hc.mem, fun heq => hne ?_⟩
      subst heq
      exact hc.unique h.nodup (h.lruIt b item hitem)
    · rintro ⟨hb, hne⟩
      obtain ⟨it, hit⟩ := LinkedList.exists_holds hb
      refine ((hholds it b).mpr ⟨hit, fun heq => hne ?_⟩).mem
      subst heq
      have hpair := c.lruList.nodup
      have hsame := List.inj_on_of_nodup_map hpair hit (h.lruIt hostname item hitem) rfl
      exact congrArg Prod.snd hsame
  have hnot : hostname ∉ l.elems := fun hmem => ((helems hostname).mp hmem).2 rfl
  let c' : CertCache Ctx := { c with
    lruList := l.pushFront hostname
    cache := c.cache.insert hostname { item with lruIt := (l.pushFront hostname).begin } }
  have hc' : c.promote hostname item = some c' := by
    rw [CertCache.promote, hl]
    rfl
  refine ⟨c', hc', ?_, fun b => ?_, fun b item' hb => ?_, ?_⟩
  · exact List.nodup_cons.mpr ⟨hnot, h.nodup.sublist (LinkedList.elems_sublist hsub)⟩
  · show b ∈ (l.pushFront hostname).elems ↔ b ∈ c.cache.insert hostname _
    rw [LinkedList.elems_pushFront, List.mem_cons, helems, h.keys, AList.mem_insert]
    constructor
    · rintro (heq | ⟨hb, -⟩)
      · exact Or.inl heq
      · exact Or.inr hb
    · rintro (heq | hb)
      · exact Or.inl heq
      · by_cases heq : b = hostname
        · exact Or.inl heq
        · exact Or.inr ⟨hb, heq⟩
  · have hb : (c.cache.insert hostname { item with lruIt := (l.pushFront hostname).begin }).lookup b =
        some item' := hb
    by_cases heq : b = hostname
    · subst heq
      rw [AList.lookup_insert] at hb
      cases hb
      exact l.holds_begin b
    · rw [AList.lookup_insert_ne heq] at hb
      -- erasing leaves the other iterators valid
      have hkept : l.Holds item'.lruIt b := by
        refine (hholds item'.lruIt b).mpr ⟨h.lruIt b item' hb, fun hit => heq ?_⟩
        have hsame := List.inj_on_of_nodup_map c.lruList.nodup (h.lruIt b item' hb)
          (h.lruIt hostname item hitem) hit
        exact congrArg Prod.snd hsame
      exact hkept.pushFront hostname
  · have hsize := h.size
    show (c.cache.insert hostname _).keys.length ≤ c.maxEntries
    rw [AList.length_keys_insert _ hin]
    exact hsize

/-- After the eviction there is room, if there is any at all. -/
theorem evictOldest (h : c.Consistent) : c.evictOldest.Consistent ∧
    c.evictOldest.maxEntries = c.maxEntries ∧
    (∀ hostname, hostname ∉ c.cache → hostname ∉ c.evictOldest.cache) ∧
    (0 < c.maxEntries → c.evictOldest.size < c.maxEntries) := by
  have hsize := h.size_eq
  have hbound := h.size
  unfold CertCache.evictOldest
  split
  · rename_i oldest hback
    have hsplit := LinkedList.back_eq hback
    have holdest : oldest ∈ c.cache := by
      rw [← h.keys, hsplit]
      simp
    have hlen : (c.cache.erase oldest).keys.length + 1 = c.size := AList.length_keys_erase holdest
    split
    · have hnodup := h.nodup
      rw [hsplit, List.nodup_append] at hnodup
      refine ⟨⟨hnodup.1, fun b => ?_, fun b item hb => ?_, ?_⟩, rfl, fun b hb => ?_, fun _ => ?_⟩
      · show b ∈ c.lruList.popBack.elems ↔ b ∈ c.cache.erase oldest
        rw [AList.mem_erase, ← h.keys, hsplit, List.mem_append, List.mem_singleton]
        constructor
        · intro hb
          exact ⟨fun heq => hnodup.2.2 b hb oldest (by simp) heq, Or.inl hb⟩
        · rintro ⟨hne, hb | hb⟩
          · exact hb
          · exact absurd hb hne
      · have hb : (c.cache.erase oldest).lookup b = some item := hb
        have hne : b ≠ oldest := fun heq => by
          subst heq
          rw [AList.lookup_erase] at hb
          cases hb
        rw [AList.lookup_erase_ne hne] at hb
        exact (h.lruIt b item hb).popBack h.nodup hback hne
      · show (c.cache.erase oldest).keys.length ≤ c.maxEntries
        omega
      · intro hmem
        exact hb (AList.mem_erase.mp hmem).2
      · show (c.cache.erase oldest).keys.length < c.maxEntries
        omega
    · rename_i hroom
      refine ⟨h, rfl, fun b hb => hb, fun hpos => ?_⟩
      omega
  · rename_i hback
    -- there is nothing to evict
    have hnil : c.lruList.elems = [] := by
      simp only [LinkedList.back, Option.map_eq_none_iff, List.getLast?_eq_none_iff] at hback
      rw [LinkedList.elems, hback, List.map_nil]
    rw [hnil, List.length_nil] at hsize
    refine ⟨h, rfl, fun b hb => hb, fun hpos => ?_⟩
    omega

theorem insertFront (h : c.Consistent) (hnew : hostname ∉ c.cache)
    (hroom : 0 < c.maxEntries → c.size < c.maxEntries) (keyPair : CertKeyPair) (context : Option Ctx) :
    (c.insertFront hostname keyPair context).Consistent := by
  unfold CertCache.insertFront
  split
  · rename_i hpos
    have hnot : hostname ∉ c.lruList.elems := fun hmem => hnew ((h.keys hostname).mp hmem)
    dsimp only
    unfold CertCache.emplace
    rw [if_neg hnew]
    refine ⟨List.nodup_cons.mpr ⟨hnot, h.nodup⟩, fun b => ?_, fun b item hb => ?_, ?_⟩
    · show b ∈ (c.lruList.pushFront hostname).elems ↔ b ∈ c.cache.insert hostname _
      rw [LinkedList.elems_pushFront, List.mem_cons, h.keys, AList.mem_insert]
    · have hb : (c.cache.insert hostname
          { keyPair, context, lruIt := (c.lruList.pushFront hostname).begin }).lookup b = some item := hb
      by_cases heq : b = hostname
      · subst heq
        rw [AList.lookup_insert] at hb
        cases hb
        exact c.lruList.holds_begin b
      · rw [AList.lookup_insert_ne heq] at hb
        exact (h.lruIt b item hb).pushFront hostname
    · show (AList.insert _ _ c.cache).keys.length ≤ c.maxEntries
      rw [AList.length_keys_insert_new _ hnew]
      exact hroom hpos
  · exact h

theorem mint (h : c.Consistent) (hnew : hostname ∉ c.cache) (minted : Minted Ctx) :
    (c.mint hostname minted).2.Consistent := by
  cases minted with
  | threw => exact h
  | returned keyPair loaded =>
    unfold CertCache.mint
    dsimp only
    split
    · exact h
    · obtain ⟨hevicted, hmax, hstill, hroom⟩ := h.evictOldest
      apply hevicted.insertFront (hstill hostname hnew)
      rw [hmax]
      exact hroom

theorem touch (h : c.Consistent) (hostname : Bytes) :
    ∃ c', c.touch hostname = some c' ∧ c'.Consistent := by
  unfold CertCache.touch
  split
  · rename_i item hitem
    obtain ⟨c', hc', hcons⟩ := h.promote hitem
    exact ⟨c', hc', hcons⟩
  · exact ⟨c, rfl, h⟩

theorem getOrMint (h : c.Consistent) (hostname : Bytes) (minted : Minted Ctx) :
    ∃ c', (c.getOrMint hostname minted).map Prod.snd = some c' ∧ c'.Consistent := by
  unfold CertCache.getOrMint
  split
  · rename_i item hitem
    obtain ⟨c', hc', hcons⟩ := h.promote hitem
    exact ⟨c', by simp [hc'], hcons⟩
  · rename_i hitem
    exact ⟨_, rfl, h.mint (AList.lookup_eq_none.mp hitem) minted⟩

end Consistent

theorem consistent_step {s t : State Ctx} {a : Label Ctx} (h : s.cache.Consistent) (hstep : step s a = some t) :
    t.cache.Consistent := by
  cases a with
  | getEntry hostname =>
    simp only [step] at hstep
    split at hstep
    · obtain rfl := Option.some.inj hstep
      exact h
    · obtain rfl := Option.some.inj hstep
      exact h
  | getOrMint k minted =>
    obtain ⟨hostname, -, rfl⟩ := Option.map_eq_some_iff.mp hstep
    obtain ⟨c', hc', hcons⟩ := h.getOrMint hostname minted
    rw [hc']
    exact hcons
  | touch hostname =>
    obtain rfl := Option.some.inj hstep
    obtain ⟨c', hc', hcons⟩ := h.touch hostname
    rw [hc']
    exact hcons
  | clear =>
    obtain rfl := Option.some.inj hstep
    exact .clear _

theorem consistent_of_reached {maxEntries : ℕ} {s : State Ctx} (h : (system Ctx maxEntries).Reached s) :
    s.cache.Consistent := by
  refine h.invariant (I := fun s => s.cache.Consistent) ?_ ?_
  · rintro _ rfl
    exact .empty maxEntries
  · intro s a t hs _ hstep
    exact consistent_step hs hstep

/-- The cache is consistent after every section of every thread, and no iterator is used that is
not valid. -/
theorem cache_consistent {maxEntries : ℕ} {s : State Ctx} (h : (system Ctx maxEntries).Reached s) :
    s.cache.Consistent ∧ s.undefined = false := by
  refine h.invariant (I := fun s => s.cache.Consistent ∧ s.undefined = false) ?_ ?_
  · rintro _ rfl
    exact ⟨.empty maxEntries, rfl⟩
  · rintro s a t ⟨hs, hdefined⟩ - hstep
    cases a with
    | getEntry hostname =>
      simp only [system, step] at hstep
      split at hstep
      · cases hstep
        exact ⟨hs, hdefined⟩
      · cases hstep
        exact ⟨hs, hdefined⟩
    | getOrMint k minted =>
      obtain ⟨hostname, -, rfl⟩ := Option.map_eq_some_iff.mp hstep
      obtain ⟨c', hc', hcons⟩ := hs.getOrMint hostname minted
      rw [hc']
      exact ⟨hcons, hdefined⟩
    | touch hostname =>
      cases hstep
      obtain ⟨c', hc', hcons⟩ := hs.touch hostname
      rw [hc']
      exact ⟨hcons, hdefined⟩
    | clear =>
      cases hstep
      exact ⟨.clear _, hdefined⟩

/-- Two threads ask for `a`, then `b` takes its place in a cache of one entry. -/
def evictionRun : List (Label Unit) :=
  let pair : CertKeyPair := { certPem := str "c", keyPem := str "k" }
  [.getEntry (str "a"), .getEntry (str "a"), .getOrMint 0 (.returned pair (some ())),
    .getOrMint 0 .threw, .getEntry (str "b"), .getOrMint 0 (.returned pair none), .touch (str "b")]

theorem cache_consistent_evictionRun : ∃ s,
    (system Unit 1).run { cache := { maxEntries := 1 } } evictionRun = some s ∧
      s.cache.lruList.elems = [str "b"] ∧ s.cache.Consistent ∧ s.undefined = false := by
  have hrun : ((system Unit 1).run { cache := { maxEntries := 1 } } evictionRun).any
      (fun s => s.cache.lruList.elems == [str "b"]) = true := by decide
  obtain ⟨s, hs, helems⟩ := (Option.any_eq_true _ _).mp hrun
  have hreached : (system Unit 1).Reached s := .run (.init rfl) hs
  exact ⟨s, hs, eq_of_beq helems, cache_consistent hreached⟩

end CertCache

end BurpTUI
