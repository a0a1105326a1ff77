import BurpTUI.Http.CrlfText

namespace BurpTUI

theorem endHeaders_of_blankLine {s : Bytes} (h : CRLF ++ CRLF <:+: s) : endHeaders s = s := by
  simp [endHeaders, Search.contains_iff.mpr h]

theorem CrlfText.endHeaders {s : Bytes} (h : CrlfText s) : CrlfText (endHeaders s) := by
  unfold BurpTUI.endHeaders
  split
  · exact h
  · split
    · exact h.append .crlf
    · exact (h.append .crlf).append .crlf

theorem blankLine_endHeaders (s : Bytes) : CRLF ++ CRLF <:+: endHeaders s := by
  unfold endHeaders
  split
  · rename_i h
    exact Search.contains_iff.mp h
  · split
    · rename_i h
      obtain ⟨a, rfl⟩ := List.isSuffixOf_iff_suffix.mp h
      exact ⟨a, [], by simp⟩
    · exact ⟨s, [], by simp⟩

theorem endHeaders_ne_nil (s : Bytes) : endHeaders s ≠ [] := by
  unfold endHeaders
  split
  · rename_i h
    intro hs
    rw [hs] at h
    exact absurd h (by decide)
  · split <;> simp [CRLF]

theorem parseRawHttpRequest_rawOverride (raw : Bytes) :
    (parseRawHttpRequest raw).rawOverride = endHeaders (normalizeCrlf (eraseMarkers raw)) := by
  unfold parseRawHttpRequest
  dsimp only
  split <;> rfl

theorem parseRawHttpRequest_serialize (raw : Bytes) :
    (parseRawHttpRequest raw).serialize = endHeaders (normalizeCrlf (eraseMarkers raw)) := by
  unfold HttpRequest.serialize
  rw [parseRawHttpRequest_rawOverride, if_pos (endHeaders_ne_nil _)]

/-- The text holds ` (HTTPS)` or ` (HTTP)`. -/
def Marked (s : Bytes) : Prop := str " (HTTPS)" <:+: s ∨ str " (HTTP)" <:+: s

theorem plain_https : Plain (str " (HTTPS)") := ⟨by decide, by decide⟩

theorem plain_http : Plain (str " (HTTP)") := ⟨by decide, by decide⟩

theorem eraseMarkers_of_unmarked {s : Bytes} (h : ¬ Marked s) : eraseMarkers s = s := by
  unfold eraseMarkers
  rw [Search.eraseFirst_of_absent fun e => h (.inl e),
    Search.eraseFirst_of_absent fun e => h (.inr e)]

theorem eraseMarkers_length_le (s : Bytes) : (eraseMarkers s).length ≤ s.length :=
  (Search.eraseFirst_length_le _ _).trans (Search.eraseFirst_length_le _ _)

theorem eraseMarkers_length_lt {s : Bytes} (h : Marked s) :
    (eraseMarkers s).length < s.length := by
  unfold eraseMarkers
  by_cases h1 : str " (HTTPS)" <:+: s
  · have hl := Search.eraseFirst_length h1
    have hle := Search.eraseFirst_length_le (str " (HTTP)") (Search.eraseFirst (str " (HTTPS)") s)
    have h8 : (str " (HTTPS)").length = 8 := by decide
    omega
  · have hl := Search.eraseFirst_length (h.resolve_left h1)
    have h7 : (str " (HTTP)").length = 7 := by decide
    rw [Search.eraseFirst_of_absent h1]
    omega

theorem eraseMarkers_eq_self_iff {s : Bytes} : eraseMarkers s = s ↔ ¬ Marked s := by
  refine ⟨fun h hm => ?_, eraseMarkers_of_unmarked⟩
  have := eraseMarkers_length_lt hm
  rw [h] at this
  omega

theorem CrlfText.eraseMarkers {s : Bytes} (h : CrlfText s) : CrlfText (eraseMarkers s) :=
  (h.eraseFirst plain_https (by decide)).eraseFirst plain_http (by decide)

theorem blankLine_eraseMarkers {s : Bytes} (h : CRLF ++ CRLF <:+: s) :
    CRLF ++ CRLF <:+: eraseMarkers s :=
  blankLine_eraseFirst plain_http (by decide) (blankLine_eraseFirst plain_https (by decide) h)

theorem plain_eraseMarkers {l : Bytes} (h : Plain l) : Plain (eraseMarkers l) :=
  plain_eraseFirst _ (plain_eraseFirst _ h)

/-- The clean-up works line by line until it has found what it erases. -/
theorem eraseMarkers_line (l rest : Bytes) : ∃ rest',
    eraseMarkers (l ++ CR :: LF :: rest) = eraseMarkers l ++ CR :: LF :: rest' ∧
    (¬ Marked l → rest' = eraseMarkers rest) := by
  have erase (m : Bytes) (hm : Plain m) (hne : m ≠ []) (l rest : Bytes) : ∃ rest',
      Search.eraseFirst m (l ++ CR :: LF :: rest) =
        Search.eraseFirst m l ++ CR :: LF :: rest' ∧
      (¬ m <:+: l → rest' = Search.eraseFirst m rest) := by
    rw [eraseFirst_crlf hm hne]
    split
    · rename_i h
      exact ⟨rest, rfl, fun hn => absurd (Search.contains_iff.mp h) hn⟩
    · rename_i h
      have hn : ¬ m <:+: l := fun e => h (Search.contains_iff.mpr e)
      exact ⟨_, by rw [Search.eraseFirst_of_absent hn], fun _ => rfl⟩
  obtain ⟨r1, h1, hr1⟩ := erase _ plain_https (by decide) l rest
  obtain ⟨r2, h2, hr2⟩ := erase _ plain_http (by decide) (Search.eraseFirst (str " (HTTPS)") l) r1
  refine ⟨r2, by rw [eraseMarkers, h1, h2, eraseMarkers], fun hn => ?_⟩
  have hn1 : ¬ str " (HTTPS)" <:+: l := fun e => hn (.inl e)
  rw [Search.eraseFirst_of_absent hn1] at hr2
  rw [hr2 fun e => hn (.inr e), hr1 hn1, eraseMarkers]

end BurpTUI
