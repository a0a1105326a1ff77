import BurpTUI.Util.Encoding

namespace BurpTUI.Encoding

theorem hexDigit?_upperDigit : ∀ n < 16, hexDigit? (upperDigit n) = some n := by decide

theorem hexDigit?_lowerDigit : ∀ n < 16, hexDigit? (lowerDigit n) = some n := by decide

/-- A hexadecimal digit ends no buffer and is neither a blank nor a sign. -/
theorem hexDigit?_only (c : UInt8) :
    (hexDigit? c).isSome → c ≠ 0 ∧ isSpace c = false ∧ c ≠ 45 ∧ c ≠ 43 := by
  apply forall_byte (p := fun c =>
    (hexDigit? c).isSome → c ≠ 0 ∧ isSpace c = false ∧ c ≠ 45 ∧ c ≠ 43)
  decide +kernel

theorem hexDigit?_lt {c : UInt8} {a : ℕ} (h : hexDigit? c = some a) : a < 16 := by
  revert a
  apply forall_byte (p := fun c => ∀ {a : ℕ}, hexDigit? c = some a → a < 16)
  intro n hn a h
  have hall : ∀ n < 256, ∀ a ∈ hexDigit? (UInt8.ofNat n), a < 16 := by decide +kernel
  exact hall n hn a h

/-- Two hexadecimal digits are read as their number. -/
theorem strtol_pair {h l : UInt8} {a b : ℕ} (hh : hexDigit? h = some a) (hl : hexDigit? l = some b) :
    strtol [h, l] = (16 * a + b : ℕ) := by
  obtain ⟨hnul, hblank, hminus, hplus⟩ := hexDigit?_only h (by rw [hh]; rfl)
  obtain ⟨lnul, -, -, -⟩ := hexDigit?_only l (by rw [hl]; rfl)
  have hbuffer : ([h, l].takeWhile (· ≠ 0)).dropWhile isSpace = [h, l] := by
    simp [hnul, lnul, hblank]
  simp only [strtol, hbuffer]
  rw [if_neg hminus, if_neg hplus]
  simp [skipHexPrefix, hexRun, hh, hl]

theorem pairByte_digits {h l : UInt8} {a b : ℕ} (hh : hexDigit? h = some a)
    (hl : hexDigit? l = some b) : pairByte h l = UInt8.ofNat (16 * a + b) := by
  rw [pairByte, strtol_pair hh hl]
  apply UInt8.toNat_inj.mp
  simp [UInt8.ofInt, UInt8.toNat_ofNat']
  omega

/-- The two halves of a byte. -/
theorem ofNat_halves (c : UInt8) : UInt8.ofNat (16 * (c.toNat / 16) + c.toNat % 16) = c := by
  rw [Nat.div_add_mod, UInt8.ofNat_toNat]

theorem hexDecode_hexEncode (x : Bytes) : hexDecode (hexEncode x) = x := by
  induction x with
  | nil => rfl
  | cons c x ih =>
    have hc := c.toNat_lt
    have hhigh := hexDigit?_lowerDigit (c.toNat / 16) (by omega)
    have hlow := hexDigit?_lowerDigit (c.toNat % 16) (by omega)
    have hcons : hexEncode (c :: x) =
        lowerDigit (c.toNat / 16) :: lowerDigit (c.toNat % 16) :: hexEncode x := rfl
    rw [hcons, hexDecode, pairByte_digits hhigh hlow, ofNat_halves, ih]

theorem urlDecode_escape (h l : UInt8) (s : Bytes) :
    urlDecode (PERCENT :: h :: l :: s) = pairByte h l :: urlDecode s := by
  rw [urlDecode, if_pos rfl]

theorem urlDecode_plus (s : Bytes) : urlDecode (PLUS :: s) = SPACE :: urlDecode s := by
  have hne : PLUS ≠ PERCENT := by decide
  match s with
  | [] => rfl
  | [h] => simp [urlDecode]
  | h :: l :: s => rw [urlDecode, if_neg hne, if_pos rfl]

/-- A byte that is no sign of the coding stands for itself, wherever the text ends. -/
theorem urlDecode_literal {c : UInt8} (hpercent : c ≠ PERCENT) (hplus : c ≠ PLUS) (s : Bytes) :
    urlDecode (c :: s) = c :: urlDecode s := by
  match s with
  | [] => simp [urlDecode, hplus]
  | [h] => simp [urlDecode, hplus]
  | h :: l :: s => rw [urlDecode, if_neg hpercent, if_neg hplus]

theorem unreserved_only : ∀ c ∈ unreserved, c ≠ PERCENT ∧ c ≠ PLUS := by decide

theorem urlDecode_urlEncode (x : Bytes) : urlDecode (urlEncode x) = x := by
  induction x with
  | nil => rfl
  | cons c x ih =>
    by_cases hu : unreserved.contains c
    · have hcons : urlEncode (c :: x) = c :: urlEncode x := by
        simp only [urlEncode, List.flatMap_cons, if_pos hu, List.singleton_append]
      obtain ⟨hpercent, hplus⟩ := unreserved_only c (List.contains_iff_mem.mp hu)
      rw [hcons, urlDecode_literal hpercent hplus, ih]
    · have hc := c.toNat_lt
      have hhigh := hexDigit?_upperDigit (c.toNat / 16) (by omega)
      have hlow := hexDigit?_upperDigit (c.toNat % 16) (by omega)
      have hcons : urlEncode (c :: x) =
          PERCENT :: upperDigit (c.toNat / 16) :: upperDigit (c.toNat % 16) :: urlEncode x := by
        simp only [urlEncode, List.flatMap_cons, if_neg hu, List.cons_append, List.nil_append]
      rw [hcons, urlDecode_escape, pairByte_digits hhigh hlow, ofNat_halves, ih]

/-- Both codings are inverted for every sequence of bytes. -/
theorem url_hex_round_trip (x : Bytes) :
    urlDecode (urlEncode x) = x ∧ hexDecode (hexEncode x) = x :=
  ⟨urlDecode_urlEncode x, hexDecode_hexEncode x⟩

example : urlEncode (str "a b%") = str "a%20b%25" ∧ urlDecode (str "a+b%25") = str "a b%" := by decide

end BurpTUI.Encoding
