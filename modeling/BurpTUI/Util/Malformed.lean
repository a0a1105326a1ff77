import BurpTUI.Util.Base64
import BurpTUI.Util.UrlHex
import Mathlib.Data.List.DropRight

namespace BurpTUI

namespace Rfc4648

/-- No single sextet is left over, and the bits that fill no byte are zero. -/
def Whole (ns : List ℕ) : Prop :=
  ns.length % 4 ≠ 1 ∧ (ns.length % 4 = 2 → ∀ n ∈ ns.getLast?, n % 16 = 0) ∧
    (ns.length % 4 = 3 → ∀ n ∈ ns.getLast?, n % 4 = 0)

theorem whole_of_group {i j k l : ℕ} {ns : List ℕ} :
    Whole (i :: j :: k :: l :: ns) ↔ Whole ns := by
  have hmod : (i :: j :: k :: l :: ns).length % 4 = ns.length % 4 := by simp; omega
  cases ns with
  | nil => simp [Whole]
  | cons n ns =>
    have hlast : (i :: j :: k :: l :: n :: ns).getLast? = (n :: ns).getLast? := by simp
    rw [Whole, Whole, hmod, hlast]

theorem whole_sextets (x : Bytes) : Whole (sextets x) := by
  fun_induction sextets x with
  | case1 a b c rest ih => exact whole_of_group.mpr ih
  | case2 a b => simp [Whole]
  | case3 a => simp [Whole]
  | case4 => simp [Whole]

/-- A whole sequence of sextets is the one of its bytes. -/
theorem sextets_octets (ns : List ℕ) (hlt : ∀ n ∈ ns, n < 64) (h : Whole ns) :
    sextets (octets ns) = ns := by
  induction ns using octets.induct with
  | case1 i j k l rest ih =>
    simp only [List.forall_mem_cons] at hlt
    obtain ⟨hi, hj, hk, hl, hrest⟩ := hlt
    simp only [octets, sextets, ih hrest (whole_of_group.mp h), UInt8.toNat_ofNat', List.cons.injEq,
      and_true]
    omega
  | case2 i j k =>
    simp only [List.forall_mem_cons] at hlt
    obtain ⟨hi, hj, hk, -⟩ := hlt
    have hlow : k % 4 = 0 := h.2.2 rfl k rfl
    simp only [octets, sextets, UInt8.toNat_ofNat', List.cons.injEq, and_true]
    omega
  | case3 i j =>
    simp only [List.forall_mem_cons] at hlt
    obtain ⟨hi, hj, -⟩ := hlt
    have hlow : j % 16 = 0 := h.2.1 rfl j rfl
    simp only [octets, sextets, UInt8.toNat_ofNat', List.cons.injEq, and_true]
    omega
  | case4 ns hfour hthree htwo =>
    rcases ns with _ | ⟨i, _ | ⟨j, _ | ⟨k, _ | ⟨l, rest⟩⟩⟩⟩
    · rfl
    · exact absurd rfl h.1
    · exact absurd rfl (htwo i j)
    · exact absurd rfl (hthree i j k)
    · exact absurd rfl (hfour i j k l rest)

theorem length_octets_lt {ns : List ℕ} (h : ns ≠ []) : (octets ns).length < ns.length := by
  fun_induction octets ns with
  | case1 i j k l rest ih =>
    by_cases hrest : rest = []
    · subst hrest
      simp [octets]
    · have := ih hrest
      simp only [List.length_cons]
      omega
  | case2 i j k => simp
  | case3 i j => simp
  | case4 ns hfour hthree htwo => exact List.length_pos_of_ne_nil h

end Rfc4648

namespace Encoding

open Rfc4648

/-! Base64: the text without its padding. -/

def stripPad (s : Bytes) : Bytes := s.rdropWhile (· = 61)

/-- The decoder keeps a text: up to padding it is the encoding of what comes out. -/
def Base64Kept (s : Bytes) : Prop :=
  stripPad (base64Encode (base64Decode s)) = stripPad s ∨ base64Decode s = s

/-- Apart from the padding there are characters of the alphabet only, no single one is left over,
and the bits that fill no byte are zero. -/
def WellFormedBase64 (s : Bytes) : Prop :=
  (∀ c ∈ stripPad s, table c ≠ -1) ∧ Whole ((stripPad s).map fun c => (table c).toNat)

/-- An entry of a table that is filled step by step is the first one or one of those written. -/
theorem foldl_update_apply {α : Type*} [DecidableEq α] (f : ℕ → α) (is : List ℕ) (T : α → ℤ) (c : α) :
    is.foldl (fun T i => Function.update T (f i) i) T c = T c ∨ ∃ i ∈ is, f i = c := by
  induction is generalizing T with
  | nil => exact Or.inl rfl
  | cons i is ih =>
    rcases ih (Function.update T (f i) i) with h | ⟨j, hj, hc⟩
    · by_cases hi : f i = c
      · exact Or.inr ⟨i, by simp, hi⟩
      · left
        rw [List.foldl_cons, h, Function.update_of_ne (Ne.symm hi)]
    · exact Or.inr ⟨j, by simp [hj], hc⟩

theorem alphabet_table {c : UInt8} (h : table c ≠ -1) :
    (table c).toNat < 64 ∧ alphabet (table c).toNat = c := by
  rcases foldl_update_apply (fun i => kB64Chars.getD i 0) (List.range 64) (fun _ => -1) c with
    hc | ⟨i, hi, hc⟩
  · exact absurd hc h
  · have hlt := List.mem_range.mp hi
    rw [kB64Chars_eq i hlt] at hc
    subst hc
    simp [table_alphabet i hlt, hlt]

theorem table_of_alphabet {n : ℕ} (h : n < 64) : table (alphabet n) ≠ -1 := by
  rw [table_alphabet n h]
  omega

/-- Characters of the alphabet, as the sextets they stand for. -/
theorem map_alphabet_table {s : Bytes} (h : ∀ c ∈ s, table c ≠ -1) :
    (s.map fun c => (table c).toNat).map alphabet = s := by
  rw [List.map_map]
  conv_rhs => rw [← List.map_id s]
  apply List.map_congr_left
  intro c hc
  rw [Function.comp_apply, id_eq]
  exact (alphabet_table (h c hc)).2

theorem sextet_lt {s : Bytes} (h : ∀ c ∈ s, table c ≠ -1) :
    ∀ n ∈ s.map fun c => (table c).toNat, n < 64 := by
  intro n hn
  obtain ⟨c, hc, rfl⟩ := List.mem_map.mp hn
  exact (alphabet_table (h c hc)).1

theorem map_table_alphabet {ns : List ℕ} (h : ∀ n ∈ ns, n < 64) :
    (ns.map alphabet).map (fun c => (table c).toNat) = ns := by
  rw [List.map_map]
  conv_rhs => rw [← List.map_id ns]
  apply List.map_congr_left
  intro n hn
  simp [table_alphabet n (h n hn)]

/-- Any text is its longest run of alphabet characters and a rest at which the decoder stops. -/
theorem base64Decode_eq (s : Bytes) :
    base64Decode s = octets ((s.takeWhile (table · ≠ -1)).map fun c => (table c).toNat) := by
  have hrun : ∀ c ∈ s.takeWhile (table · ≠ -1), table c ≠ -1 := by
    intro c hc
    simpa using List.all_eq_true.mp List.all_takeWhile c hc
  have hstop : ∀ c ∈ (s.dropWhile (table · ≠ -1)).head?, table c = -1 := by
    intro c hc
    have hn := List.head?_dropWhile_not (table · ≠ -1) s
    rw [hc] at hn
    simpa using hn
  calc base64Decode s
      = base64Decode (((s.takeWhile (table · ≠ -1)).map fun c => (table c).toNat).map alphabet ++
          s.dropWhile (table · ≠ -1)) := by
        rw [map_alphabet_table hrun, List.takeWhile_append_dropWhile]
    _ = _ := base64Decode_sextets _ (sextet_lt hrun) _ hstop

/-- Only the empty text is returned unchanged by the base64 decoder. -/
theorem base64Decode_self {s : Bytes} : base64Decode s = s ↔ s = [] := by
  constructor
  · intro h
    have hlen := congrArg List.length h
    rw [base64Decode_eq] at hlen
    have hle := (List.takeWhile_prefix (l := s) (table · ≠ -1)).length_le
    by_cases hrun : s.takeWhile (table · ≠ -1) = []
    · rw [hrun] at hlen
      exact List.length_eq_zero_iff.mp hlen.symm
    · have hne : (s.takeWhile (table · ≠ -1)).map (fun c => (table c).toNat) ≠ [] := by
        simpa using hrun
      have hlt := length_octets_lt hne
      rw [List.length_map] at hlt
      omega
  · rintro rfl
    rfl

theorem stripPad_append (s : Bytes) (n : ℕ) (h : ∀ c ∈ s, c ≠ 61) :
    stripPad (s ++ List.replicate n 61) = s := by
  induction n with
  | zero =>
    rw [List.replicate_zero, List.append_nil, stripPad, List.rdropWhile_eq_self_iff]
    intro hne
    simpa using h _ (List.getLast_mem hne)
  | succ n ih =>
    rw [List.replicate_succ', ← List.append_assoc, stripPad, List.rdropWhile_concat_pos _ _ _ (by simp)]
    exact ih

theorem stripPad_encode (x : Bytes) : stripPad (base64Encode x) = (sextets x).map alphabet := by
  rw [base64Encode_eq, Rfc4648.encode, stripPad_append]
  intro c hc
  obtain ⟨n, hn, rfl⟩ := List.mem_map.mp hc
  exact alphabet_ne_pad n (sextets_lt x n hn)

theorem append_stripPad (s : Bytes) : ∃ n, s = stripPad s ++ List.replicate n 61 := by
  have hpad : ∀ c ∈ s.rtakeWhile (· = 61), c = 61 := by
    intro c hc
    simpa using List.mem_rtakeWhile_imp hc
  refine ⟨(s.rtakeWhile (· = 61)).length, ?_⟩
  rw [← List.eq_replicate_of_mem hpad]
  exact List.rdropWhile_append_rtakeWhile.symm

theorem base64Kept_iff (s : Bytes) : Base64Kept s ↔ WellFormedBase64 s := by
  constructor
  · rintro (h | h)
    · rw [stripPad_encode] at h
      rw [WellFormedBase64, ← h, map_table_alphabet (sextets_lt _)]
      refine ⟨?_, whole_sextets _⟩
      intro c hc
      obtain ⟨n, hn, rfl⟩ := List.mem_map.mp hc
      exact table_of_alphabet (sextets_lt _ n hn)
    · rw [base64Decode_self.mp h]
      simp [WellFormedBase64, stripPad, Whole]
  · rintro ⟨hchars, hwhole⟩
    left
    obtain ⟨n, hn⟩ := append_stripPad s
    have hdecode : base64Decode s = octets ((stripPad s).map fun c => (table c).toNat) := by
      conv_lhs => rw [hn, ← map_alphabet_table hchars]
      exact base64Decode_sextets _ (sextet_lt hchars) _ (table_pad n)
    rw [hdecode, stripPad_encode, sextets_octets _ (sextet_lt hchars) hwhole,
      map_alphabet_table hchars]

/-! Percent coding: texts that differ in spelling only. -/

/-- The spellings of one byte: an escape with digits of either case, a plus sign for a space, and
the byte itself unless it is one of the two signs that the decoder reads otherwise. -/
inductive Spells : Bytes → UInt8 → Prop
  | escape {h l : UInt8} {a b : ℕ} (hh : hexDigit? h = some a) (hl : hexDigit? l = some b) :
      Spells [PERCENT, h, l] (UInt8.ofNat (16 * a + b))
  | plus : Spells [PLUS] SPACE
  | literal {c : UInt8} (hpercent : c ≠ PERCENT) (hplus : c ≠ PLUS) : Spells [c] c

/-- A text that spells a sequence of bytes, one after another. -/
inductive Denotes : Bytes → Bytes → Prop
  | nil : Denotes [] []
  | cons {u s x : Bytes} {c : UInt8} (first : Spells u c) (rest : Denotes s x) :
      Denotes (u ++ s) (c :: x)

/-- Equal up to the letter case of hex digits, `+` for a space and escapes that are not needed. -/
def SameUrl (s t : Bytes) : Prop := ∃ x, Denotes s x ∧ Denotes t x

def UrlKept (s : Bytes) : Prop := SameUrl (urlEncode (urlDecode s)) s ∨ urlDecode s = s

/-- Every percent sign is followed by two hexadecimal digits. -/
def wholeEscapes : Bytes → Bool
  | [] => true
  | c :: rest =>
    (c ≠ PERCENT ||
      ((rest.take 2).length == 2 && (rest.take 2).all fun d => (hexDigit? d).isSome)) &&
      wholeEscapes rest

/-- There is no plus sign, and no percent sign has two bytes after it. -/
def nothingToDecode : Bytes → Bool
  | [] => true
  | c :: rest => c ≠ PLUS && (c ≠ PERCENT || rest.length < 2) && nothingToDecode rest

theorem Denotes.decoded {s x : Bytes} (h : Denotes s x) : urlDecode s = x := by
  induction h with
  | nil => rfl
  | cons first rest ih =>
    cases first with
    | escape hh hl =>
      rw [List.cons_append, List.cons_append, List.cons_append, List.nil_append, urlDecode_escape,
        pairByte_digits hh hl, ih]
    | plus => rw [List.singleton_append, urlDecode_plus, ih]
    | literal hpercent hplus => rw [List.singleton_append, urlDecode_literal hpercent hplus, ih]

theorem denotes_urlEncode (x : Bytes) : Denotes (urlEncode x) x := by
  induction x with
  | nil => exact .nil
  | cons c x ih =>
    rw [urlEncode, List.flatMap_cons]
    by_cases hu : unreserved.contains c
    · rw [if_pos hu]
      obtain ⟨hpercent, hplus⟩ := unreserved_only c (List.contains_iff_mem.mp hu)
      exact .cons (.literal hpercent hplus) ih
    · rw [if_neg hu]
      have hc := c.toNat_lt
      have hspell := Spells.escape (hexDigit?_upperDigit (c.toNat / 16) (by omega))
        (hexDigit?_upperDigit (c.toNat % 16) (by omega))
      rw [ofNat_halves] at hspell
      exact .cons hspell ih

theorem hexDigit?_percent : hexDigit? PERCENT = none := by decide

theorem Denotes.wholeEscapes {s x : Bytes} (h : Denotes s x) : wholeEscapes s = true := by
  induction h with
  | nil => rfl
  | cons first rest ih =>
    cases first with
    | @escape h l a b hh hl =>
      have hdigit {d : UInt8} {n : ℕ} (hd : hexDigit? d = some n) : d ≠ PERCENT := by
        rintro rfl
        rw [hexDigit?_percent] at hd
        cases hd
      simp [Encoding.wholeEscapes, hdigit hh, hdigit hl, hh, hl, ih]
    | plus =>
      have hne : PLUS ≠ PERCENT := by decide
      simp [Encoding.wholeEscapes, hne, ih]
    | literal hpercent hplus => simp [Encoding.wholeEscapes, hpercent, ih]

/-- A text with whole escapes only spells what the decoder makes of it. -/
theorem denotes_of_wholeEscapes (s : Bytes) (h : wholeEscapes s = true) : ∃ x, Denotes s x := by
  induction hn : s.length using Nat.strong_induction_on generalizing s with
  | _ n ih =>
    cases s with
    | nil => exact ⟨[], .nil⟩
    | cons c rest =>
      simp only [wholeEscapes, Bool.and_eq_true, Bool.or_eq_true] at h
      obtain ⟨hfirst, hrest⟩ := h
      by_cases hpercent : c = PERCENT
      · subst hpercent
        match rest, hfirst, hrest with
        | [], hfirst, _ => simp at hfirst
        | [_], hfirst, _ => simp at hfirst
        | d :: l :: rest, hfirst, hrest =>
          simp only [wholeEscapes, Bool.and_eq_true] at hrest
          simp at hfirst
          obtain ⟨a, ha⟩ := Option.isSome_iff_exists.mp hfirst.1
          obtain ⟨b, hb⟩ := Option.isSome_iff_exists.mp hfirst.2
          obtain ⟨x, hx⟩ := ih rest.length (by simp at hn; omega) rest hrest.2.2 rfl
          exact ⟨_, .cons (.escape ha hb) hx⟩
      · obtain ⟨x, hx⟩ := ih rest.length (by simp at hn; omega) rest hrest rfl
        by_cases hplus : c = PLUS
        · subst hplus
          exact ⟨_, .cons .plus hx⟩
        · exact ⟨_, .cons (.literal hpercent hplus) hx⟩

theorem length_urlDecode_le (s : Bytes) : (urlDecode s).length ≤ s.length := by
  fun_induction urlDecode s with
  | case1 => simp
  | case2 h l rest ih =>
    simp only [List.length_cons]
    omega
  | case3 h l rest hne ih => simpa using ih
  | case4 c h l rest hpercent hplus ih => simpa using ih
  | case5 rest hshort ih => simpa using ih
  | case6 c rest hshort hplus ih => simpa using ih

/-- The decoder returns a text unchanged if it finds nothing to decode in it, and only then. -/
theorem urlDecode_self (s : Bytes) : urlDecode s = s ↔ nothingToDecode s = true := by
  induction s with
  | nil => simp [urlDecode, nothingToDecode]
  | cons c rest ih =>
    by_cases hpercent : c = PERCENT
    · subst hpercent
      have hne : PERCENT ≠ PLUS := by decide
      rcases rest with _ | ⟨d, _ | ⟨l, rest⟩⟩
      · decide
      · -- one character is not enough for an escape
        have hshort : urlDecode [PERCENT, d] = PERCENT :: urlDecode [d] := by
          simp [urlDecode, hne]
        have hnothing : nothingToDecode [PERCENT, d] = nothingToDecode [d] := by
          simp [nothingToDecode, hne]
        rw [hshort, hnothing, List.cons.injEq, and_iff_right rfl, ih]
      · have hle := length_urlDecode_le rest
        rw [urlDecode_escape]
        simp only [nothingToDecode]
        constructor
        · intro h
          have := congrArg List.length h
          simp at this
          omega
        · simp [hne]
    · by_cases hplus : c = PLUS
      · subst hplus
        have hne : SPACE ≠ PLUS := by decide
        simp [urlDecode_plus, nothingToDecode, hne]
      · simp [urlDecode_literal hpercent hplus, nothingToDecode, hpercent, hplus, ih]

theorem urlKept_iff (s : Bytes) :
    UrlKept s ↔ wholeEscapes s = true ∨ nothingToDecode s = true := by
  rw [UrlKept, urlDecode_self]
  apply or_congr_left
  constructor
  · rintro ⟨x, -, hx⟩
    exact hx.wholeEscapes
  · intro h
    obtain ⟨x, hx⟩ := denotes_of_wholeEscapes s h
    rw [hx.decoded]
    exact ⟨x, denotes_urlEncode x, hx⟩

/-! Hexadecimal text: equal up to the letter case of the digits. -/

def HexKept (s : Bytes) : Prop :=
  (hexEncode (hexDecode s)).map toLower = s.map toLower ∨ hexDecode s = s

/-- Pairs of hexadecimal digits, and nothing else. -/
def wellFormedHex (s : Bytes) : Bool := s.length % 2 == 0 && s.all fun c => (hexDigit? c).isSome

theorem toLower_digit (c : UInt8) : (hexDigit? c).isSome →
    toLower c = lowerDigit ((hexDigit? c).getD 0) := by
  apply forall_byte (p := fun c => (hexDigit? c).isSome →
    toLower c = lowerDigit ((hexDigit? c).getD 0))
  decide +kernel

theorem isSome_of_toLower (c : UInt8) : (hexDigit? (toLower c)).isSome → (hexDigit? c).isSome := by
  apply forall_byte (p := fun c => (hexDigit? (toLower c)).isSome → (hexDigit? c).isSome)
  decide +kernel

theorem toLower_lowerDigit : ∀ n < 16, toLower (lowerDigit n) = lowerDigit n := by decide

theorem length_hexEncode (x : Bytes) : (hexEncode x).length = 2 * x.length := by
  induction x with
  | nil => rfl
  | cons c x ih => simp_all [hexEncode]; omega

theorem hexDecode_self {s : Bytes} : hexDecode s = s ↔ s = [] := by
  have hlen (s : Bytes) : 2 * (hexDecode s).length ≤ s.length := by
    fun_induction hexDecode s with
    | case1 h l rest ih => simp; omega
    | case2 s h => simp
  constructor
  · intro h
    have := hlen s
    rw [h] at this
    exact List.length_eq_zero_iff.mp (by omega)
  · rintro rfl
    rfl

/-- The digits that the encoder writes are digits in lower case. -/
theorem hexEncode_digit {x : Bytes} {c : UInt8} (h : c ∈ hexEncode x) :
    (hexDigit? c).isSome ∧ toLower c = c := by
  obtain ⟨b, -, hb⟩ := List.mem_flatMap.mp h
  have hlt := b.toNat_lt
  have hdigit (n : ℕ) (hn : n < 16) : (hexDigit? (lowerDigit n)).isSome ∧
      toLower (lowerDigit n) = lowerDigit n :=
    ⟨by rw [hexDigit?_lowerDigit n hn]; rfl, toLower_lowerDigit n hn⟩
  simp only [List.mem_cons, List.not_mem_nil, or_false] at hb
  rcases hb with rfl | rfl
  · exact hdigit _ (by omega)
  · exact hdigit _ (by omega)

/-- Pairs of digits are written back as they were read, in lower case. -/
theorem hexEncode_hexDecode (s : Bytes) (heven : s.length % 2 = 0)
    (h : ∀ c ∈ s, (hexDigit? c).isSome) : hexEncode (hexDecode s) = s.map toLower := by
  fun_induction hexDecode s with
  | case1 a b rest ih =>
    simp only [List.forall_mem_cons] at h
    obtain ⟨ha, hb, hrest⟩ := h
    obtain ⟨m, hm⟩ := Option.isSome_iff_exists.mp ha
    obtain ⟨n, hn⟩ := Option.isSome_iff_exists.mp hb
    have hmlt := hexDigit?_lt hm
    have hnlt := hexDigit?_lt hn
    have hvalue : (UInt8.ofNat (16 * m + n)).toNat = 16 * m + n := by
      rw [UInt8.toNat_ofNat']
      omega
    have hcons : hexEncode (pairByte a b :: hexDecode rest) =
        lowerDigit m :: lowerDigit n :: hexEncode (hexDecode rest) := by
      rw [pairByte_digits hm hn, hexEncode, List.flatMap_cons, hvalue,
        show (16 * m + n) / 16 = m by omega, show (16 * m + n) % 16 = n by omega]
      rfl
    rw [hcons, ih (by simp at heven; omega) hrest, List.map_cons, List.map_cons, toLower_digit a ha,
      toLower_digit b hb, hm, hn]
    rfl
  | case2 s hshort =>
    match s with
    | [] => rfl
    | [c] => simp at heven
    | a :: b :: rest => exact absurd rfl (hshort a b rest)

theorem hexKept_iff (s : Bytes) : HexKept s ↔ wellFormedHex s = true := by
  rw [wellFormedHex, Bool.and_eq_true, beq_iff_eq, List.all_eq_true]
  constructor
  · rintro (h | h)
    · constructor
      · have hlen := congrArg List.length h
        rw [List.length_map, List.length_map, length_hexEncode] at hlen
        omega
      · intro c hc
        have hmem : toLower c ∈ (hexEncode (hexDecode s)).map toLower := by
          rw [h]
          exact List.mem_map_of_mem hc
        obtain ⟨d, hd, heq⟩ := List.mem_map.mp hmem
        obtain ⟨hdigit, hlower⟩ := hexEncode_digit hd
        apply isSome_of_toLower
        rwa [← heq, hlower]
    · rw [hexDecode_self.mp h]
      simp
  · rintro ⟨heven, hdigits⟩
    left
    rw [hexEncode_hexDecode s heven hdigits, List.map_map]
    apply List.map_congr_left
    intro c hc
    have hlt := hexDigit?_lt (Option.eq_some_of_isSome (hdigits c hc))
    rw [Function.comp_apply, toLower_digit c (hdigits c hc)]
    apply toLower_lowerDigit
    rwa [Option.eq_some_of_isSome (hdigits c hc)]

/-- A text goes through a decoder undamaged exactly when it belongs to the grammar of the coding,
or, for percent coding, when there is nothing to decode. -/
theorem decoders_keep_iff (s : Bytes) :
    (Base64Kept s ↔ WellFormedBase64 s) ∧
      (UrlKept s ↔ wholeEscapes s = true ∨ nothingToDecode s = true) ∧
      (HexKept s ↔ wellFormedHex s = true) :=
  ⟨base64Kept_iff s, urlKept_iff s, hexKept_iff s⟩

/-- A text cut off at a blank, an escape with a bad digit and a sign inside a digit pair. -/
theorem malformed_not_kept :
    (base64Decode (str "QUJD REVG") = str "ABC" ∧ ¬Base64Kept (str "QUJD REVG")) ∧
      (urlDecode (str "%zz") = [0] ∧ ¬UrlKept (str "%zz")) ∧
      (hexDecode (str "-1") = [255] ∧ ¬HexKept (str "-1")) := by
  have htable : table 32 = -1 := by decide +kernel
  refine ⟨⟨by decide +kernel, ?_⟩, ⟨by decide, ?_⟩, by decide, ?_⟩
  · rw [base64Kept_iff]
    intro h
    exact h.1 32 (by decide) htable
  · rw [urlKept_iff]
    decide
  · rw [hexKept_iff]
    decide

end Encoding

end BurpTUI
