import BurpTUI.Http.RawText

namespace BurpTUI

/-- A text without CR and LF. -/
def Plain (s : Bytes) : Prop := CR ∉ s ∧ LF ∉ s

instance (s : Bytes) : Decidable (Plain s) := inferInstanceAs (Decidable (CR ∉ s ∧ LF ∉ s))

theorem Plain.nil : Plain [] := ⟨List.not_mem_nil, List.not_mem_nil⟩

theorem Plain.append {a b : Bytes} (ha : Plain a) (hb : Plain b) : Plain (a ++ b) := by
  simp only [Plain, List.mem_append, not_or]
  exact ⟨⟨ha.1, hb.1⟩, ha.2, hb.2⟩

theorem Plain.left {a b : Bytes} (h : Plain (a ++ b)) : Plain a := by
  simp only [Plain, List.mem_append, not_or] at h
  exact ⟨h.1.1, h.2.1⟩

theorem Plain.right {a b : Bytes} (h : Plain (a ++ b)) : Plain b := by
  simp only [Plain, List.mem_append, not_or] at h
  exact ⟨h.1.2, h.2.2⟩

theorem line_inj {l l' rest rest' : Bytes} (h : Plain l) (h' : Plain l')
    (he : l ++ CR :: LF :: rest = l' ++ CR :: LF :: rest') : l = l' ∧ rest = rest' := by
  have hc := Search.cut_singleton CR l (LF :: rest) h.1
  rw [he, Search.cut_singleton CR l' _ h'.1] at hc
  simpa [eq_comm] using hc

theorem plain_of_noBlank {s : Bytes} (h : NoBlank s) : Plain s :=
  ⟨fun hc => (h _ hc).2.1 rfl, fun hc => (h _ hc).2.2 rfl⟩

/-- Texts in which CR and LF occur only as CRLF pairs. -/
inductive CrlfText : Bytes → Prop
  | last {l : Bytes} : Plain l → CrlfText l
  | line {l rest : Bytes} : Plain l → CrlfText rest → CrlfText (l ++ CR :: LF :: rest)

theorem normalizeCrlf_append (a b : Bytes) :
    normalizeCrlf (a ++ b) = normalizeCrlf a ++ normalizeCrlf b := by
  simp [normalizeCrlf]

theorem normalizeCrlf_plain {l : Bytes} (h : Plain l) : normalizeCrlf l = l := by
  induction l with
  | nil => rfl
  | cons c cs ih =>
    have hc : c ≠ CR := fun e => h.1 (by simp [e])
    have hl : c ≠ LF := fun e => h.2 (by simp [e])
    have hcs : normalizeCrlf cs = cs := ih (Plain.right (a := [c]) h)
    rw [← List.singleton_append, normalizeCrlf_append, hcs]
    simp [normalizeCrlf, hc, hl]

theorem normalizeCrlf_crlf (s : Bytes) :
    normalizeCrlf (CR :: LF :: s) = CR :: LF :: normalizeCrlf s := rfl

theorem CrlfText.normalize {s : Bytes} (h : CrlfText s) : normalizeCrlf s = s := by
  induction h with
  | last h => exact normalizeCrlf_plain h
  | line h _ ih => rw [normalizeCrlf_append, normalizeCrlf_plain h, normalizeCrlf_crlf, ih]

theorem CrlfText.cons {c : UInt8} {s : Bytes} (hc : Plain [c]) (h : CrlfText s) :
    CrlfText (c :: s) := by
  cases h with
  | last h => exact .last (hc.append h)
  | line h hr => exact .line (l := c :: _) (hc.append h) hr

theorem crlfText_normalize (s : Bytes) : CrlfText (normalizeCrlf s) := by
  induction s with
  | nil => exact .last .nil
  | cons c cs ih =>
    rw [← List.singleton_append, normalizeCrlf_append]
    by_cases hc : c = CR
    · simpa [normalizeCrlf, hc] using ih
    · by_cases hl : c = LF
      · subst hl
        exact .line .nil ih
      · have hp : Plain [c] := ⟨by simpa using Ne.symm hc, by simpa using Ne.symm hl⟩
        rw [normalizeCrlf_plain hp]
        exact ih.cons hp

theorem crlfText_iff {s : Bytes} : CrlfText s ↔ normalizeCrlf s = s :=
  ⟨CrlfText.normalize, fun h => h ▸ crlfText_normalize s⟩

theorem CrlfText.append {a b : Bytes} (ha : CrlfText a) (hb : CrlfText b) : CrlfText (a ++ b) := by
  rw [crlfText_iff, normalizeCrlf_append, ha.normalize, hb.normalize]

theorem CrlfText.crlf : CrlfText CRLF := crlfText_iff.mpr rfl

/-- A canonical prefix can be taken away. -/
theorem CrlfText.of_append {a b : Bytes} (ha : CrlfText a) (h : CrlfText (a ++ b)) :
    CrlfText b := by
  rw [crlfText_iff, normalizeCrlf_append, ha.normalize, List.append_cancel_left_eq] at h
  exact crlfText_iff.mpr h

theorem CrlfText.lines {ls : List Bytes} (h : ∀ l ∈ ls, Plain l) {s : Bytes} (hs : CrlfText s) :
    CrlfText ((ls.flatMap fun l => l ++ CRLF) ++ s) := by
  induction ls with
  | nil => exact hs
  | cons l ls ih =>
    rw [List.forall_mem_cons] at h
    have hline := CrlfText.line h.1 (ih h.2)
    simpa [CRLF] using hline

theorem filter_noCr {l : Bytes} (h : CR ∉ l) : l.filter (· ≠ CR) = l := by
  rw [List.filter_eq_self]
  intro c hc
  have hne : c ≠ CR := fun e => h (e ▸ hc)
  simpa using hne

theorem crlfText_intercalate {ls : List Bytes} (h : ∀ l ∈ ls, Plain l) : CrlfText (CRLF.intercalate ls) := by
  induction ls with
  | nil => exact .last .nil
  | cons l ls ih =>
    rw [List.forall_mem_cons] at h
    cases ls with
    | nil => simpa using CrlfText.last h.1
    | cons l' ls =>
      have hline := CrlfText.line h.1 (ih h.2)
      rw [List.intercalate_cons_cons]
      simpa [CRLF] using hline

theorem not_crlfText_lf (b : Bytes) : ¬ CrlfText (LF :: b) := by
  intro h
  have hn := h.normalize
  have hlen : (normalizeCrlf (LF :: b)).head? = some CR := rfl
  rw [hn] at hlen
  exact absurd (Option.some.inj hlen) (by decide)

theorem plain_eraseFirst (m : Bytes) {l : Bytes} (h : Plain l) : Plain (Search.eraseFirst m l) := by
  by_cases hi : m <:+: l
  · obtain ⟨⟨a, b⟩, hc⟩ := Option.isSome_iff_exists.mp (Search.cut_isSome_of_occurs hi)
    have hs := Search.cut_spec hc
    simp only [Search.eraseFirst, hc]
    rw [hs] at h
    exact h.left.left.append h.right
  · rwa [Search.eraseFirst_of_absent hi]

section Erase

variable {m : Bytes} (hm : Plain m) (hne : m ≠ [])
include hm hne

theorem eraseFirst_crlf (l rest : Bytes) :
    Search.eraseFirst m (l ++ CR :: LF :: rest) =
      if Search.contains m l then Search.eraseFirst m l ++ CR :: LF :: rest
      else l ++ CR :: LF :: Search.eraseFirst m rest := by
  have hnil : Search.contains m [] = false := by simp [Search.contains, Search.cut, hne]
  have hlf : Search.eraseFirst m (LF :: rest) = LF :: Search.eraseFirst m rest := by
    have h := Search.eraseFirst_append_cons (l := []) (rest) hm.2 hne
    simpa only [List.nil_append, hnil, Bool.false_eq_true, if_false] using h
  rw [Search.eraseFirst_append_cons _ hm.1 hne, hlf]

theorem CrlfText.eraseFirst {s : Bytes} (h : CrlfText s) : CrlfText (Search.eraseFirst m s) := by
  induction h with
  | last h => exact .last (plain_eraseFirst m h)
  | line h hr ih =>
    rw [eraseFirst_crlf hm hne]
    split
    · exact .line (plain_eraseFirst m h) hr
    · exact .line h ih

/-- The blank line survives, since no marker covers CR or LF. -/
theorem blankLine_eraseFirst {s : Bytes} (h : CRLF ++ CRLF <:+: s) :
    CRLF ++ CRLF <:+: Search.eraseFirst m s := by
  obtain ⟨a, b, rfl⟩ := h
  have h1 := eraseFirst_crlf hm hne a (CR :: LF :: b)
  have h2 := eraseFirst_crlf hm hne [] b
  have hnil : Search.contains m [] = false := by simp [Search.contains, Search.cut, hne]
  simp only [List.nil_append, hnil, Bool.false_eq_true, if_false] at h2
  simp only [CRLF, List.append_assoc, List.cons_append, List.nil_append] at h1 ⊢
  rw [h1, h2]
  split
  · exact ⟨Search.eraseFirst m a, b, by simp⟩
  · exact ⟨a, Search.eraseFirst m b, by simp⟩

end Erase

end BurpTUI
