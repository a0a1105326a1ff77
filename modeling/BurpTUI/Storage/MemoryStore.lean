import BurpTUI.Http.Message
import Mathlib.Data.List.Nodup
import Mathlib.Data.List.Perm.Basic

namespace BurpTUI

structure ProxyEntry where
  id : UInt64 := 0
  method : Bytes := []
  host : Bytes := []
  url : Bytes := []
  statusCode : Int32 := 0
  responseLen : UInt64 := 0
  timestamp : Bytes := []
  rawRequest : Bytes := []
  rawResponse : Bytes := []
  deriving DecidableEq, Repr

structure MemoryStore where
  entries : List ProxyEntry := []
  nextId : UInt64 := 1
  deriving DecidableEq, Repr

namespace MemoryStore

def save (s : MemoryStore) (entry : ProxyEntry) : MemoryStore :=
  if entry.id = 0 then
    { entries := s.entries ++ [{ entry with id := s.nextId }], nextId := s.nextId + 1 }
  else { s with entries := s.entries ++ [entry] }

def list (s : MemoryStore) : List ProxyEntry := s.entries

def get (s : MemoryStore) (id : UInt64) : Option ProxyEntry := s.entries.find? fun e => e.id == id

def clear (s : MemoryStore) : MemoryStore := { s with entries := [], nextId := 1 }

inductive Call
  | save (entry : ProxyEntry)
  | clear
  deriving DecidableEq, Repr

def step (s : MemoryStore) : Call → MemoryStore
  | .save entry => s.save entry
  | .clear => s.clear

/-- A store from its construction on. -/
def run (calls : List Call) : MemoryStore := calls.foldl step {}

/-- The entries given to `save` since the last `clear`, with the ids that they were given with. -/
def record (given : List ProxyEntry) : Call → List ProxyEntry
  | .save entry => given ++ [entry]
  | .clear => []

def given (calls : List Call) : List ProxyEntry := calls.foldl record []

def explicitIds (given : List ProxyEntry) : List UInt64 := (given.map ProxyEntry.id).filter (· ≠ 0)

/-- How many of the ids the store had to choose. -/
def chosen (given : List ProxyEntry) : ℕ := (given.map ProxyEntry.id).count 0

/-- Every entry can be told from the others by its id. -/
structure Retrievable (s : MemoryStore) : Prop where
  distinct : (s.list.map ProxyEntry.id).Nodup
  nonzero : ∀ e ∈ s.list, e.id ≠ 0
  found : ∀ e ∈ s.list, s.get e.id = some e

section Numbers

variable {n : ℕ}

/-- The ids that the store chooses, as far as the counter goes. -/
def numbers (n : ℕ) : List UInt64 := (List.range n).map fun i => UInt64.ofNat (i + 1)

theorem numbers_succ (n : ℕ) : numbers (n + 1) = numbers n ++ [UInt64.ofNat (n + 1)] := by
  rw [numbers, List.range_succ, List.map_append]
  rfl

theorem toNat_number (hn : n < UInt64.size) {i : ℕ} (hi : i < n) : (UInt64.ofNat (i + 1)).toNat = i + 1 :=
  UInt64.toNat_ofNat_of_lt' (by omega)

theorem mem_numbers (hn : n < UInt64.size) (x : UInt64) : x ∈ numbers n ↔ 0 < x.toNat ∧ x.toNat ≤ n := by
  rw [numbers, List.mem_map]
  constructor
  · rintro ⟨i, hi, rfl⟩
    rw [List.mem_range] at hi
    rw [toNat_number hn hi]
    omega
  · rintro ⟨hpos, hle⟩
    refine ⟨x.toNat - 1, List.mem_range.mpr (by omega), ?_⟩
    rw [Nat.sub_add_cancel hpos, UInt64.ofNat_toNat]

theorem nodup_numbers (hn : n < UInt64.size) : (numbers n).Nodup := by
  apply List.Nodup.map_on _ List.nodup_range
  intro i hi j hj heq
  rw [List.mem_range] at hi hj
  have hval := congrArg UInt64.toNat heq
  rw [toNat_number hn hi, toNat_number hn hj] at hval
  omega

/-- The counter comes to zero in the end. -/
theorem zero_mem_numbers (hn : UInt64.size ≤ n) : 0 ∈ numbers n :=
  List.mem_map.mpr ⟨UInt64.size - 1, List.mem_range.mpr hn, rfl⟩

end Numbers

/-- The ids in a store and its counter, by the entries that were given to it. -/
structure Numbered (s : MemoryStore) (given : List ProxyEntry) : Prop where
  ids : (s.entries.map ProxyEntry.id).Perm (explicitIds given ++ numbers (chosen given))
  next : s.nextId = UInt64.ofNat (chosen given + 1)

section Run

variable {s : MemoryStore} {es : List ProxyEntry}

theorem numbered_save (h : Numbered s es) (e : ProxyEntry) : Numbered (s.save e) (es ++ [e]) := by
  obtain ⟨hids, hnext⟩ := h
  rw [save]
  by_cases he : e.id = 0
  · have hexplicit : explicitIds (es ++ [e]) = explicitIds es := by
      simp [explicitIds, he]
    have hchosen : chosen (es ++ [e]) = chosen es + 1 := by
      simp [chosen, he]
    rw [if_pos he]
    refine ⟨?_, ?_⟩
    · rw [hexplicit, hchosen, numbers_succ, List.map_append, ← List.append_assoc, hnext]
      exact hids.append_right _
    · rw [hchosen, hnext]
      exact (UInt64.ofNat_add _ 1).symm
  · have hexplicit : explicitIds (es ++ [e]) = explicitIds es ++ [e.id] := by
      simp [explicitIds, he]
    have hchosen : chosen (es ++ [e]) = chosen es := by
      simp [chosen, he]
    rw [if_neg he]
    refine ⟨?_, ?_⟩
    · rw [hexplicit, hchosen, List.map_append, List.append_assoc]
      exact (hids.append_right _).trans (by
        rw [List.append_assoc]
        exact List.perm_append_comm.append_left _)
    · rw [hchosen]
      exact hnext

theorem numbered_step (h : Numbered s es) (call : Call) : Numbered (s.step call) (record es call) := by
  cases call with
  | save e => exact numbered_save h e
  | clear => exact ⟨.nil, rfl⟩

theorem numbered_run (calls : List Call) : Numbered (run calls) (given calls) := by
  have hfold (calls : List Call) : ∀ s es, Numbered s es →
      Numbered (calls.foldl step s) (calls.foldl record es) := by
    induction calls with
    | nil => exact fun _ _ h => h
    | cons call calls ih => exact fun _ _ h => ih _ _ (numbered_step h call)
  exact hfold calls {} [] ⟨.nil, rfl⟩

end Run

theorem find?_key {α κ : Type*} [DecidableEq κ] {f : α → κ} {l : List α} (h : (l.map f).Nodup) {e : α}
    (he : e ∈ l) : l.find? (fun x => f x == f e) = some e := by
  induction l with
  | nil => cases he
  | cons a l ih =>
    rw [List.map_cons, List.nodup_cons] at h
    rcases List.mem_cons.mp he with rfl | he
    · simp
    · have hne : f a ≠ f e := by
        intro heq
        exact h.1 (heq ▸ List.mem_map_of_mem he)
      rw [List.find?_cons_of_neg (by simpa using hne), ih h.2 he]

/-- An entry is found by its id when no other has that id. -/
theorem retrievable_iff (s : MemoryStore) :
    s.Retrievable ↔ (s.entries.map ProxyEntry.id).Nodup ∧ 0 ∉ s.entries.map ProxyEntry.id := by
  have hzero : 0 ∉ s.entries.map ProxyEntry.id ↔ ∀ e ∈ s.entries, e.id ≠ 0 := by
    simp
  rw [hzero]
  constructor
  · intro h
    exact ⟨h.distinct, h.nonzero⟩
  · rintro ⟨hdistinct, hnonzero⟩
    exact ⟨hdistinct, hnonzero, fun e he => find?_key hdistinct he⟩

/-- The ids are told apart if the counter has not come to zero and has not reached one that was given. -/
theorem distinct_ids_iff {ids : List UInt64} {n : ℕ} (hnodup : ids.Nodup) (hzero : 0 ∉ ids) :
    ((ids ++ numbers n).Nodup ∧ 0 ∉ ids ++ numbers n) ↔
      n < UInt64.size ∧ ∀ id ∈ ids, n < id.toNat := by
  have hpos : ∀ id ∈ ids, 0 < id.toNat := by
    intro id hid
    rw [Nat.pos_iff_ne_zero]
    intro h
    have hid0 : id = 0 := UInt64.toNat_inj.mp h
    exact hzero (hid0 ▸ hid)
  rw [List.nodup_append, List.mem_append, not_or]
  constructor
  · rintro ⟨⟨-, -, hapart⟩, -, hnumbers⟩
    have hn : n < UInt64.size := by
      by_contra hn
      exact hnumbers (zero_mem_numbers (Nat.le_of_not_lt hn))
    refine ⟨hn, fun id hid => ?_⟩
    by_contra hle
    exact hapart id hid id ((mem_numbers hn id).mpr ⟨hpos id hid, Nat.le_of_not_lt hle⟩) rfl
  · rintro ⟨hn, hids⟩
    refine ⟨⟨hnodup, nodup_numbers hn, ?_⟩, hzero, ?_⟩
    · rintro id hid _ hnumber rfl
      have hle := ((mem_numbers hn id).mp hnumber).2
      exact absurd (hids id hid) (Nat.not_lt_of_le hle)
    · intro h
      exact absurd ((mem_numbers hn 0).mp h).1 (Nat.lt_irrefl 0)

/-- The entries stay retrievable exactly if each id that was given is larger than the number of those
that the store had to choose. -/
theorem retrievable_run_iff (calls : List Call) (h : (explicitIds (given calls)).Nodup) :
    (run calls).Retrievable ↔ chosen (given calls) < UInt64.size ∧
      ∀ id ∈ explicitIds (given calls), chosen (given calls) < id.toNat := by
  have hids := (numbered_run calls).ids
  have hzero : 0 ∉ explicitIds (given calls) := by
    intro hmem
    simpa using (List.mem_filter.mp hmem).2
  rw [retrievable_iff, hids.nodup_iff, hids.mem_iff, distinct_ids_iff h hzero]

theorem retrievable_run_iff_mixed :
    (run [.save {}, .clear, .save { id := 3 }, .save {}, .save {}]).Retrievable ↔ 2 < UInt64.size ∧
      ∀ id ∈ [(3 : UInt64)], 2 < id.toNat :=
  retrievable_run_iff [.save {}, .clear, .save { id := 3 }, .save {}, .save {}] (by decide)

/-- The first id that the store chooses is that of the entry before. -/
theorem not_retrievable_one : (explicitIds (given [.save { id := 1 }, .save { method := str "GET" }])).Nodup ∧
    ¬ (run [.save { id := 1 }, .save { method := str "GET" }]).Retrievable := by
  refine ⟨by decide, ?_⟩
  intro h
  exact absurd h.distinct (by decide)

end MemoryStore

end BurpTUI
