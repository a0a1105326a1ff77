import Mathlib.Data.List.Basic
import Mathlib.Data.List.Infix

namespace Search

variable {α : Type*} [DecidableEq α]

/-- The parts before and after the first occurrence of `pat`. -/
def cut (pat : List α) : List α → Option (List α × List α)
  | [] => if pat = [] then some ([], []) else none
  | c :: cs =>
    if pat.isPrefixOf (c :: cs) then some ([], (c :: cs).drop pat.length)
    else (cut pat cs).map fun p => (c :: p.1, p.2)

def contains (pat s : List α) : Bool := (cut pat s).isSome

def eraseFirst (pat s : List α) : List α :=
  match cut pat s with
  | some (a, b) => a ++ b
  | none => s

theorem cut_spec {pat s a b : List α} (h : cut pat s = some (a, b)) : s = a ++ pat ++ b := by
  induction s generalizing a with
  | nil =>
    unfold cut at h
    split at h
    · simp_all
    · cases h
  | cons c cs ih =>
    unfold cut at h
    split at h
    · rename_i hp
      simp only [Option.some.injEq, Prod.mk.injEq] at h
      obtain ⟨rfl, rfl⟩ := h
      exact List.prefix_iff_eq_append.mp (List.isPrefixOf_iff_prefix.mp hp) |>.symm
    · simp only [Option.map_eq_some_iff, Prod.mk.injEq] at h
      obtain ⟨⟨a', b'⟩, hc, rfl, rfl⟩ := h
      simp [ih hc]

theorem cut_isSome_of_occurs {pat s : List α} (h : pat <:+: s) : (cut pat s).isSome := by
  induction s with
  | nil => simp [cut, List.infix_nil.mp h]
  | cons c cs ih =>
    unfold cut
    split
    · rfl
    · rename_i hp
      rcases List.infix_cons_iff.mp h with hp' | hi
      · exact absurd (List.isPrefixOf_iff_prefix.mpr hp') hp
      · simpa using ih hi

theorem contains_iff {pat s : List α} : contains pat s = true ↔ pat <:+: s := by
  constructor
  · intro h
    obtain ⟨⟨a, b⟩, hc⟩ := Option.isSome_iff_exists.mp h
    exact ⟨a, b, (cut_spec hc).symm⟩
  · exact cut_isSome_of_occurs

theorem cut_eq_none_iff {pat s : List α} : cut pat s = none ↔ ¬ pat <:+: s := by
  rw [← contains_iff, contains]
  simp

theorem eraseFirst_of_absent {pat s : List α} (h : ¬ pat <:+: s) : eraseFirst pat s = s := by
  simp [eraseFirst, cut_eq_none_iff.mpr h]

theorem eraseFirst_length {pat s : List α} (h : pat <:+: s) :
    (eraseFirst pat s).length + pat.length = s.length := by
  obtain ⟨⟨a, b⟩, hc⟩ := Option.isSome_iff_exists.mp (cut_isSome_of_occurs h)
  have hs := congrArg List.length (cut_spec hc)
  simp only [eraseFirst, hc, List.length_append] at hs ⊢
  omega

theorem eraseFirst_length_le (pat s : List α) : (eraseFirst pat s).length ≤ s.length := by
  by_cases h : pat <:+: s
  · have := eraseFirst_length h
    omega
  · rw [eraseFirst_of_absent h]

omit [DecidableEq α] in
theorem prefix_of_prefix_append_cons {pat l rest : List α} {sep : α} (hp : sep ∉ pat)
    (h : pat <+: l ++ sep :: rest) : pat <+: l := by
  rcases List.prefix_or_prefix_of_prefix h (List.prefix_append l _) with h' | ⟨t, rfl⟩
  · exact h'
  · rw [List.prefix_append_right_inj] at h
    cases t with
    | nil => simp
    | cons x xs =>
      have hx : x = sep := (List.cons_prefix_cons.mp h).1
      simp [hx] at hp

/-- An occurrence of `pat` cannot cover a letter that is not in `pat`. -/
theorem cut_append_cons {pat l rest : List α} {sep : α} (hp : sep ∉ pat) (hne : pat ≠ []) :
    cut pat (l ++ sep :: rest) = match cut pat l with
      | some (a, b) => some (a, b ++ sep :: rest)
      | none => (cut pat rest).map fun p => (l ++ sep :: p.1, p.2) := by
  induction l with
  | nil =>
    have hn : ¬ pat <+: sep :: rest := by
      intro h
      exact hne (List.prefix_nil.mp (prefix_of_prefix_append_cons (l := []) hp h))
    rw [← List.isPrefixOf_iff_prefix] at hn
    simp [cut, hne, hn]
  | cons c cs ih =>
    by_cases h : pat <+: c :: cs
    · have hp1 : pat.isPrefixOf (c :: cs) = true := List.isPrefixOf_iff_prefix.mpr h
      have hp2 : pat.isPrefixOf (c :: (cs ++ sep :: rest)) = true :=
        List.isPrefixOf_iff_prefix.mpr (h.trans (List.prefix_append (c :: cs) _))
      have hlen : pat.length ≤ (c :: cs).length := h.length_le
      simp only [cut, List.cons_append, hp1, hp2, if_true]
      rw [← List.cons_append, List.drop_append_of_le_length hlen]
    · have hp1 : ¬ pat.isPrefixOf (c :: cs) = true := fun e => h (List.isPrefixOf_iff_prefix.mp e)
      have hp2 : ¬ pat.isPrefixOf (c :: (cs ++ sep :: rest)) = true := fun e =>
        h (prefix_of_prefix_append_cons hp (l := c :: cs) (List.isPrefixOf_iff_prefix.mp e))
      simp only [cut, List.cons_append, hp1, hp2, ih]
      cases cut pat cs with
      | none => cases cut pat rest <;> simp
      | some p => simp

theorem eraseFirst_append_cons {pat l : List α} {sep : α} (rest : List α) (hp : sep ∉ pat) (hne : pat ≠ []) :
    eraseFirst pat (l ++ sep :: rest) =
      if contains pat l then eraseFirst pat l ++ sep :: rest
      else l ++ sep :: eraseFirst pat rest := by
  unfold eraseFirst contains
  rw [cut_append_cons hp hne]
  cases cut pat l with
  | none => cases cut pat rest <;> simp
  | some p => simp

/-- The part before the first occurrence contains none. -/
theorem cut_first {pat s a b : List α} (hne : pat ≠ []) (h : cut pat s = some (a, b)) :
    ¬ pat <:+: a := by
  induction s generalizing a with
  | nil => simp [cut, hne] at h
  | cons c cs ih =>
    unfold cut at h
    split at h
    · simp only [Option.some.injEq, Prod.mk.injEq] at h
      rw [← h.1, List.infix_nil]
      exact hne
    · rename_i hp
      simp only [Option.map_eq_some_iff, Prod.mk.injEq] at h
      obtain ⟨⟨a', b'⟩, hc, rfl, rfl⟩ := h
      rw [List.infix_cons_iff, not_or]
      refine ⟨fun hpre => hp (List.isPrefixOf_iff_prefix.mpr ?_), ih hc⟩
      rw [cut_spec hc, List.append_assoc]
      exact hpre.trans (List.prefix_append (c :: a') _)

/-- Letters that cannot start an occurrence are skipped. -/
theorem cut_skip {x : α} {p a s : List α} (h : x ∉ a) :
    cut (x :: p) (a ++ s) = (cut (x :: p) s).map fun q => (a ++ q.1, q.2) := by
  induction a with
  | nil => cases hs : cut (x :: p) s <;> simp [hs]
  | cons c cs ih =>
    have hc : x ≠ c := fun e => h (by simp [e])
    have hcs : x ∉ cs := fun e => h (by simp [e])
    simp only [List.cons_append, cut, List.isPrefixOf, ih hcs, beq_eq_false_iff_ne.mpr hc]
    cases cut (x :: p) s <;> simp

/-- A one-letter pattern splits the text at its first occurrence. -/
theorem cut_singleton (x : α) (a b : List α) (h : x ∉ a) : cut [x] (a ++ x :: b) = some (a, b) := by
  induction a with
  | nil => simp [cut]
  | cons c cs ih =>
    have hc : x ≠ c := fun e => h (by simp [e])
    have hcs : x ∉ cs := fun e => h (by simp [e])
    simp [cut, hc, ih hcs]

theorem cut_singleton_eq_none_iff {x : α} {s : List α} : cut [x] s = none ↔ x ∉ s := by
  rw [cut_eq_none_iff, List.singleton_infix_iff]

theorem cut_singleton_not_mem {x : α} {s a b : List α} (h : cut [x] s = some (a, b)) : x ∉ a := by
  induction s generalizing a with
  | nil => simp [cut] at h
  | cons c cs ih =>
    unfold cut at h
    split at h
    · simp only [Option.some.injEq, Prod.mk.injEq] at h
      simp [← h.1]
    · rename_i hp
      simp only [Option.map_eq_some_iff, Prod.mk.injEq] at h
      obtain ⟨⟨a', b'⟩, hc, rfl, rfl⟩ := h
      have hx : x ≠ c := by simpa using hp
      simp [hx, ih hc]

/-- The parts before and after the last occurrence of a letter. -/
def cutLast (x : α) (s : List α) : Option (List α × List α) :=
  (cut [x] s.reverse).map fun p => (p.2.reverse, p.1.reverse)

theorem cutLast_append {x : α} {b : List α} (a : List α) (h : x ∉ b) :
    cutLast x (a ++ x :: b) = some (a, b) := by
  have hrev : (a ++ x :: b).reverse = b.reverse ++ x :: a.reverse := by simp
  rw [cutLast, hrev, cut_singleton x b.reverse a.reverse (by simpa using h)]
  simp

theorem cutLast_spec {x : α} {s a b : List α} (h : cutLast x s = some (a, b)) :
    s = a ++ x :: b ∧ x ∉ b := by
  obtain ⟨⟨c, d⟩, hcut, hsides⟩ := Option.map_eq_some_iff.mp h
  obtain ⟨rfl, rfl⟩ := Prod.mk.inj hsides
  have hs := congrArg List.reverse (cut_spec hcut)
  refine ⟨?_, fun hmem => cut_singleton_not_mem hcut (List.mem_reverse.mp hmem)⟩
  simpa using hs

theorem cutLast_eq_none_iff {x : α} {s : List α} : cutLast x s = none ↔ x ∉ s := by
  rw [cutLast, Option.map_eq_none_iff, cut_singleton_eq_none_iff, List.mem_reverse]

/-! ## Parts between separators -/

variable {pat : List α} {sep : α}

theorem contains_nil (hne : pat ≠ []) : contains pat [] = false := by
  simp [contains, cut, hne]

theorem contains_append_cons (hp : sep ∉ pat) (hne : pat ≠ []) (l rest : List α) :
    contains pat (l ++ sep :: rest) = (contains pat l || contains pat rest) := by
  unfold contains
  rw [cut_append_cons hp hne]
  cases cut pat l with
  | none => simp
  | some p => simp

/-- An occurrence lies in one of the parts between the separators. -/
theorem contains_intercalate (hp : sep ∉ pat) (hne : pat ≠ []) (ls : List (List α)) :
    contains pat ([sep].intercalate ls) = ls.any fun l => contains pat l := by
  induction ls with
  | nil => simpa using contains_nil hne
  | cons l ls ih =>
    cases ls with
    | nil => simp
    | cons l' ls =>
      rw [List.intercalate_cons_cons, List.append_assoc, List.singleton_append,
        contains_append_cons hp hne, ih]
      rfl

theorem contains_splitOn (hp : sep ∉ pat) (hne : pat ≠ []) (s : List α) :
    contains pat s = (s.splitOn sep).any fun l => contains pat l := by
  have hjoin : [sep].intercalate (s.splitOn sep) = s := List.intercalate_splitOn sep
  rw [← contains_intercalate hp hne, hjoin]

/-- Letters that are not in the pattern can be cut off at both ends. -/
theorem contains_trim (hne : pat ≠ []) {a m b : List α} (ha : ∀ c ∈ a, c ∉ pat) (hb : ∀ c ∈ b, c ∉ pat) :
    contains pat (a ++ m ++ b) = contains pat m := by
  have hleft : contains pat (a ++ m) = contains pat m := by
    induction a with
    | nil => rfl
    | cons c a ih =>
      have hc : c ∉ pat := ha c (by simp)
      have hcons := contains_append_cons hc hne [] (a ++ m)
      rw [contains_nil hne, Bool.false_or] at hcons
      exact hcons.trans (ih fun c hmem => ha c (by simp [hmem]))
  cases b with
  | nil => rw [List.append_nil, hleft]
  | cons c b =>
    have hnone : contains pat b = false := by
      rw [Bool.eq_false_iff]
      intro hb'
      obtain ⟨x, hx⟩ := List.exists_mem_of_ne_nil pat hne
      exact hb x (List.mem_cons_of_mem c ((contains_iff.mp hb').subset hx)) hx
    rw [contains_append_cons (hb c (by simp)) hne, hleft, hnone, Bool.or_false]

/-- A letter of a part is a letter of the text, but not the separator. -/
theorem mem_splitOn {s : List α} {x : α} : ∀ l ∈ s.splitOn x, ∀ c ∈ l, c ∈ s ∧ c ≠ x := by
  induction s with
  | nil => simp
  | cons b s ih =>
    obtain ⟨l₀, ls, hl⟩ := List.exists_cons_of_ne_nil (List.splitOn_ne_nil x s)
    rw [hl, List.forall_mem_cons] at ih
    rw [List.splitOn_cons_eq_if_modifyHead, hl]
    have hlater : ∀ l ∈ ls, ∀ c ∈ l, c ∈ b :: s ∧ c ≠ x := fun l hmem c hc =>
      ⟨List.mem_cons_of_mem b (ih.2 l hmem c hc).1, (ih.2 l hmem c hc).2⟩
    have hfirst : ∀ c ∈ l₀, c ∈ b :: s ∧ c ≠ x := fun c hc =>
      ⟨List.mem_cons_of_mem b (ih.1 c hc).1, (ih.1 c hc).2⟩
    split
    · simp only [List.forall_mem_cons]
      exact ⟨by simp, hfirst, hlater⟩
    · rename_i hne
      simp only [List.modifyHead_cons, List.forall_mem_cons]
      refine ⟨⟨⟨by simp, by simpa using hne⟩, hfirst⟩, hlater⟩

end Search
