import BurpTUI.Util.Encoding

namespace BurpTUI

/-! The base64 coding of RFC 4648, apart from the loops of the program. -/
namespace Rfc4648

/-- Table 1: the character of a number below 64. -/
def alphabet (n : ℕ) : UInt8 :=
  if n < 26 then UInt8.ofNat (65 + n)
  else if n < 52 then UInt8.ofNat (97 + (n - 26))
  else if n < 62 then UInt8.ofNat (48 + (n - 52))
  else if n = 62 then 43 else 47

/-- Groups of 24 bits, taken as four numbers of six bits; zero bits fill up the last group. -/
def sextets : Bytes → List ℕ
  | a :: b :: c :: rest =>
    a.toNat / 4 :: (a.toNat % 4 * 16 + b.toNat / 16) :: (b.toNat % 16 * 4 + c.toNat / 64) ::
      c.toNat % 64 :: sextets rest
  | [a, b] => [a.toNat / 4, a.toNat % 4 * 16 + b.toNat / 16, b.toNat % 16 * 4]
  | [a] => [a.toNat / 4, a.toNat % 4 * 16]
  | [] => []

/-- The number of pad characters that complete the last group. -/
def padding (x : Bytes) : ℕ := (3 - x.length % 3) % 3

def encode (x : Bytes) : Bytes := (sextets x).map alphabet ++ List.replicate (padding x) 61

/-- The bytes of a sequence of sextets; bits that fill no byte are left out. -/
def octets : List ℕ → Bytes
  | i :: j :: k :: l :: rest =>
    UInt8.ofNat (i * 4 + j / 16) :: UInt8.ofNat (j % 16 * 16 + k / 4) ::
      UInt8.ofNat (k % 4 * 64 + l) :: octets rest
  | [i, j, k] => [UInt8.ofNat (i * 4 + j / 16), UInt8.ofNat (j % 16 * 16 + k / 4)]
  | [i, j] => [UInt8.ofNat (i * 4 + j / 16)]
  | _ => []

theorem sextets_lt (x : Bytes) : ∀ n ∈ sextets x, n < 64 := by
  fun_induction sextets x with
  | case1 a b c rest ih =>
    have ha := a.toNat_lt
    have hb := b.toNat_lt
    have hc := c.toNat_lt
    intro n hn
    simp only [List.mem_cons] at hn
    rcases hn with rfl | rfl | rfl | rfl | hn
    · omega
    · omega
    · omega
    · omega
    · exact ih n hn
  | case2 a b =>
    have ha := a.toNat_lt
    have hb := b.toNat_lt
    simp only [List.forall_mem_cons, List.not_mem_nil, false_implies, implies_true, and_true]
    omega
  | case3 a =>
    have ha := a.toNat_lt
    simp only [List.forall_mem_cons, List.not_mem_nil, false_implies, implies_true, and_true]
    omega
  | case4 => simp

theorem length_sextets (x : Bytes) :
    (sextets x).length = 4 * (x.length / 3) + if x.length % 3 = 0 then 0 else x.length % 3 + 1 := by
  fun_induction sextets x with
  | case1 a b c rest ih =>
    have hdiv : (a :: b :: c :: rest).length / 3 = rest.length / 3 + 1 := by simp; omega
    have hmod : (a :: b :: c :: rest).length % 3 = rest.length % 3 := by simp; omega
    rw [hdiv, hmod]
    simp only [List.length_cons, ih]
    omega
  | case2 a b => simp
  | case3 a => simp
  | case4 => simp

theorem length_encode (x : Bytes) : (encode x).length = 4 * ((x.length + 2) / 3) := by
  simp only [encode, padding, List.length_append, List.length_map, List.length_replicate,
    length_sextets]
  split <;> omega

/-- Reading the sextets of a byte sequence gives the bytes back. -/
theorem octets_sextets (x : Bytes) : octets (sextets x) = x := by
  fun_induction sextets x with
  | case1 a b c rest ih =>
    have ha := a.toNat_lt
    have hb := b.toNat_lt
    have hc := c.toNat_lt
    simp only [octets, ih, List.cons.injEq, and_true, ← UInt8.toNat_inj, UInt8.toNat_ofNat']
    omega
  | case2 a b =>
    have ha := a.toNat_lt
    have hb := b.toNat_lt
    simp only [octets, List.cons.injEq, and_true, ← UInt8.toNat_inj, UInt8.toNat_ofNat']
    omega
  | case3 a =>
    have ha := a.toNat_lt
    simp only [octets, List.cons.injEq, and_true, ← UInt8.toNat_inj, UInt8.toNat_ofNat']
    omega
  | case4 => rfl

theorem alphabet_ne_pad : ∀ n < 64, alphabet n ≠ 61 := by decide

/-- One pad character for two bytes in the last group, two for one byte, none otherwise. -/
theorem count_pad (x : Bytes) : (encode x).count 61 = padding x := by
  have hmap : ((sextets x).map alphabet).count 61 = 0 := by
    apply List.count_eq_zero.mpr
    intro hmem
    obtain ⟨n, hn, heq⟩ := List.mem_map.mp hmem
    exact alphabet_ne_pad n (sextets_lt x n hn) heq
  rw [encode, List.count_append, hmap, List.count_replicate_self, Nat.zero_add]

end Rfc4648

namespace Encoding

open Rfc4648 ShiftRegister

theorem kB64Chars_eq : ∀ n < 64, kB64Chars.getD n 0 = alphabet n := by decide

theorem table_alphabet : ∀ n < 64, table (alphabet n) = n := by decide +kernel

theorem toNat_byte (c : UInt8) : (c.toBitVec.setWidth 32).toNat = c.toNat := by
  rw [BitVec.toNat_setWidth, UInt8.toNat_toBitVec]
  exact Nat.mod_eq_of_lt (lt_trans c.toNat_lt (by omega))

theorem writeSextets_neg {val : BitVec 32} {bits : ℤ} {out : Bytes} (h : bits < 0) :
    writeSextets val bits out = (bits, out) := by
  rw [writeSextets, if_neg (by omega)]

theorem writeSextets_nat (val : BitVec 32) (b : ℕ) (out : Bytes) :
    writeSextets val b out =
      writeSextets val (b - 6) (out ++ [kB64Chars.getD (window 6 b val).toNat 0]) := by
  rw [writeSextets, if_pos (by omega), Int.toNat_natCast]

/-- A sextet that is read off the register stands for its number. -/
theorem char_of_window {val : BitVec 32} {b n : ℕ} (h : (window 6 b val).toNat = n) (hn : n < 64) :
    kB64Chars.getD (window 6 b val).toNat 0 = alphabet n := by
  rw [h, kB64Chars_eq n hn]

/-- The first byte of a group: no live bits stand in the register before it. -/
theorem encodeStep_first (v : BitVec 32) (out : Bytes) (a : UInt8) :
    encodeStep ⟨v, -6, out⟩ a =
      ⟨shiftIn 8 v (a.toBitVec.setWidth 32), -4, out ++ [alphabet (a.toNat / 4)]⟩ := by
  have ha := a.toNat_lt
  have hw : (window 6 2 (shiftIn 8 v (a.toBitVec.setWidth 32))).toNat = a.toNat / 4 := by
    rw [window_shiftIn (by omega), toNat_byte]
    omega
  simp only [encodeStep, show (-6 : ℤ) + 8 = (2 : ℕ) by rfl, writeSextets_nat]
  rw [char_of_window hw (by omega), writeSextets_neg (by omega)]
  rfl

/-- The second byte: the two lowest bits of the first one are still live. -/
theorem encodeStep_second (v : BitVec 32) (out : Bytes) (a b : UInt8) :
    encodeStep ⟨shiftIn 8 v (a.toBitVec.setWidth 32), -4, out⟩ b =
      ⟨shiftIn 8 (shiftIn 8 v (a.toBitVec.setWidth 32)) (b.toBitVec.setWidth 32), -2,
        out ++ [alphabet (a.toNat % 4 * 16 + b.toNat / 16)]⟩ := by
  have ha := a.toNat_lt
  have hb := b.toNat_lt
  have hw : (window 6 4 (shiftIn 8 (shiftIn 8 v (a.toBitVec.setWidth 32))
      (b.toBitVec.setWidth 32))).toNat = a.toNat % 4 * 16 + b.toNat / 16 := by
    rw [window_shiftIn (by omega), toNat_shiftIn, toNat_byte, toNat_byte]
    omega
  simp only [encodeStep, show (-4 : ℤ) + 8 = (4 : ℕ) by rfl, writeSextets_nat]
  rw [char_of_window hw (by omega), writeSextets_neg (by omega)]
  rfl

/-- The third byte completes the group with two sextets. -/
theorem encodeStep_third (v : BitVec 32) (out : Bytes) (b c : UInt8) :
    ∃ v', encodeStep ⟨shiftIn 8 v (b.toBitVec.setWidth 32), -2, out⟩ c =
      ⟨v', -6, out ++ [alphabet (b.toNat % 16 * 4 + c.toNat / 64), alphabet (c.toNat % 64)]⟩ := by
  have hb := b.toNat_lt
  have hc := c.toNat_lt
  have hw : (window 6 6 (shiftIn 8 (shiftIn 8 v (b.toBitVec.setWidth 32))
      (c.toBitVec.setWidth 32))).toNat = b.toNat % 16 * 4 + c.toNat / 64 := by
    rw [window_shiftIn (by omega), toNat_shiftIn, toNat_byte, toNat_byte]
    omega
  have hw0 : (window 6 0 (shiftIn 8 (shiftIn 8 v (b.toBitVec.setWidth 32))
      (c.toBitVec.setWidth 32))).toNat = c.toNat % 64 := by
    rw [window_shiftIn (by omega), toNat_byte]
    omega
  refine ⟨shiftIn 8 (shiftIn 8 v (b.toBitVec.setWidth 32)) (c.toBitVec.setWidth 32), ?_⟩
  simp only [encodeStep, show (-2 : ℤ) + 8 = (6 : ℕ) by rfl, writeSextets_nat]
  rw [char_of_window hw (by omega), show ((6 : ℕ) : ℤ) - 6 = (0 : ℕ) by rfl, writeSextets_nat,
    char_of_window hw0 (by omega), writeSextets_neg (by omega), List.append_assoc]
  rfl

/-- The register with one byte of a group in it is flushed to the two high bits of a sextet. -/
theorem writeRest_one (v : BitVec 32) (out : Bytes) (a : UInt8) :
    writeRest ⟨shiftIn 8 v (a.toBitVec.setWidth 32), -4, out⟩ =
      out ++ [alphabet (a.toNat % 4 * 16)] := by
  have ha := a.toNat_lt
  have hw : (window 6 4 (shiftIn 8 v (a.toBitVec.setWidth 32) <<< 8)).toNat =
      a.toNat % 4 * 16 := by
    rw [toNat_window (by omega), BitVec.toNat_shiftLeft, Nat.shiftLeft_eq, toNat_shiftIn, toNat_byte]
    omega
  simp only [writeRest, show (-4 : ℤ) + 8 = (4 : ℕ) by rfl, Int.toNat_natCast]
  rw [if_pos (by omega), char_of_window hw (by omega)]

/-- The register with two bytes of a group in it is flushed to the four high bits of a sextet. -/
theorem writeRest_two (v : BitVec 32) (out : Bytes) (b : UInt8) :
    writeRest ⟨shiftIn 8 v (b.toBitVec.setWidth 32), -2, out⟩ =
      out ++ [alphabet (b.toNat % 16 * 4)] := by
  have hb := b.toNat_lt
  have hw : (window 6 6 (shiftIn 8 v (b.toBitVec.setWidth 32) <<< 8)).toNat =
      b.toNat % 16 * 4 := by
    rw [toNat_window (by omega), BitVec.toNat_shiftLeft, Nat.shiftLeft_eq, toNat_shiftIn, toNat_byte]
    omega
  simp only [writeRest, show (-2 : ℤ) + 8 = (6 : ℕ) by rfl, Int.toNat_natCast]
  rw [if_pos (by omega), char_of_window hw (by omega)]

/-- The loop over a whole input, from any register with no live bits. -/
theorem writeRest_foldl (x : Bytes) (v : BitVec 32) (out : Bytes) :
    writeRest (x.foldl encodeStep ⟨v, -6, out⟩) = out ++ (sextets x).map alphabet := by
  induction x using sextets.induct generalizing v out with
  | case1 a b c rest ih =>
    obtain ⟨v', h⟩ := encodeStep_third (shiftIn 8 v (a.toBitVec.setWidth 32))
      (out ++ [alphabet (a.toNat / 4)] ++ [alphabet (a.toNat % 4 * 16 + b.toNat / 16)]) b c
    rw [List.foldl_cons, List.foldl_cons, List.foldl_cons, encodeStep_first, encodeStep_second, h,
      ih]
    simp [sextets]
  | case2 a b =>
    rw [List.foldl_cons, List.foldl_cons, List.foldl_nil, encodeStep_first, encodeStep_second,
      writeRest_two]
    simp [sextets]
  | case3 a =>
    rw [List.foldl_cons, List.foldl_nil, encodeStep_first, writeRest_one]
    simp [sextets]
  | case4 => simp [sextets, writeRest]

theorem padOut_eq (out : Bytes) :
    padOut out = out ++ List.replicate ((4 - out.length % 4) % 4) 61 := by
  fun_induction padOut out with
  | case1 out h => simp [h]
  | case2 out h ih =>
    have hlen : (out ++ str "=").length = out.length + 1 := by simp [str]
    have hone : str "=" = [61] := by decide
    have hsucc : (4 - out.length % 4) % 4 = (4 - (out.length + 1) % 4) % 4 + 1 := by omega
    rw [ih, hlen, hone, hsucc, List.replicate_succ, List.append_assoc, List.singleton_append]

theorem base64Encode_eq (x : Bytes) : base64Encode x = Rfc4648.encode x := by
  have hpad : (4 - ((sextets x).map alphabet).length % 4) % 4 = padding x := by
    rw [List.length_map, length_sextets, padding]
    split <;> omega
  rw [base64Encode, writeRest_foldl, padOut_eq, List.nil_append, hpad, Rfc4648.encode]

/-- One step of the decoder on the character of a sextet. -/
theorem decodeLoop_alphabet {n : ℕ} (h : n < 64) (s : Accumulator) (rest : Bytes) :
    decodeLoop s (alphabet n :: rest) = decodeLoop (decodeStep s (alphabet n)) rest := by
  rw [decodeLoop, if_neg (by rw [table_alphabet n h]; omega)]

theorem toNat_sextet {n : ℕ} (h : n < 64) : (BitVec.ofInt 32 (table (alphabet n))).toNat = n := by
  rw [table_alphabet n h, BitVec.ofInt_natCast, BitVec.toNat_ofNat]
  omega

/-- A step that leaves fewer than eight live bits writes nothing. -/
theorem decodeStep_short {bits : ℤ} (h : bits + 6 < 0) (v : BitVec 32) (out : Bytes) (c : UInt8) :
    decodeStep ⟨v, bits, out⟩ c =
      ⟨shiftIn 6 v (BitVec.ofInt 32 (table c)), bits + 6, out⟩ := by
  rw [decodeStep, if_neg (by simpa using h)]

/-- A step that completes a byte writes the eight bits above the `b` that stay live. -/
theorem decodeStep_byte {n b : ℕ} (hn : n < 64) (hb : b + 8 ≤ 32) {bits : ℤ} (h : bits + 6 = b)
    (v : BitVec 32) (out : Bytes) :
    decodeStep ⟨v, bits, out⟩ (alphabet n) =
      ⟨shiftIn 6 v (BitVec.ofInt 32 (table (alphabet n))), b - 8,
        out ++ [UInt8.ofNat ((v.toNat * 2 ^ 6 + n) / 2 ^ b % 2 ^ 8)]⟩ := by
  have hw := window_shiftIn (m := 8) (k := 6) hb v (BitVec.ofInt 32 (table (alphabet n)))
  rw [toNat_sextet hn] at hw
  simp only [decodeStep, h]
  rw [if_pos (by omega), Int.toNat_natCast, hw]

theorem toNat_shiftIn_sextet {n : ℕ} (h : n < 64) (r : BitVec 32) :
    (shiftIn 6 r (BitVec.ofInt 32 (table (alphabet n)))).toNat = (r.toNat * 64 + n) % 2 ^ 32 := by
  rw [toNat_shiftIn, toNat_sextet h]
  rfl

/-- The second character of a group, which completes the first byte. -/
theorem decodeStep_second {i j : ℕ} (hi : i < 64) (hj : j < 64) (r : BitVec 32) (out : Bytes) :
    decodeStep ⟨shiftIn 6 r (BitVec.ofInt 32 (table (alphabet i))), -8 + 6, out⟩ (alphabet j) =
      ⟨shiftIn 6 (shiftIn 6 r (BitVec.ofInt 32 (table (alphabet i))))
        (BitVec.ofInt 32 (table (alphabet j))), -4, out ++ [UInt8.ofNat (i * 4 + j / 16)]⟩ := by
  rw [decodeStep_byte hj (b := 4) (by omega) (by omega), toNat_shiftIn_sextet hi]
  congr 4
  omega

theorem decodeStep_third {j k : ℕ} (hj : j < 64) (hk : k < 64) (r : BitVec 32) (out : Bytes) :
    decodeStep ⟨shiftIn 6 r (BitVec.ofInt 32 (table (alphabet j))), -4, out⟩ (alphabet k) =
      ⟨shiftIn 6 (shiftIn 6 r (BitVec.ofInt 32 (table (alphabet j))))
        (BitVec.ofInt 32 (table (alphabet k))), -6, out ++ [UInt8.ofNat (j % 16 * 16 + k / 4)]⟩ := by
  rw [decodeStep_byte hk (b := 2) (by omega) (by omega), toNat_shiftIn_sextet hj]
  congr 4
  omega

/-- The fourth character, after which no live bits are left. -/
theorem decodeStep_fourth {k l : ℕ} (hk : k < 64) (hl : l < 64) (r : BitVec 32) (out : Bytes) :
    decodeStep ⟨shiftIn 6 r (BitVec.ofInt 32 (table (alphabet k))), -6, out⟩ (alphabet l) =
      ⟨shiftIn 6 (shiftIn 6 r (BitVec.ofInt 32 (table (alphabet k))))
        (BitVec.ofInt 32 (table (alphabet l))), -8, out ++ [UInt8.ofNat (k % 4 * 64 + l)]⟩ := by
  rw [decodeStep_byte hl (b := 0) (by omega) (by omega), toNat_shiftIn_sextet hk]
  congr 4
  omega

/-- The loop over the characters of sextets, up to a byte outside of the alphabet or the end. -/
theorem decodeLoop_sextets (ns : List ℕ) (hns : ∀ n ∈ ns, n < 64) (stop : Bytes)
    (hstop : ∀ c ∈ stop.head?, table c = -1) (v : BitVec 32) (out : Bytes) :
    (decodeLoop ⟨v, -8, out⟩ (ns.map alphabet ++ stop)).out = out ++ octets ns := by
  have hbreak (s : Accumulator) : (decodeLoop s stop).out = s.out := by
    cases stop with
    | nil => rfl
    | cons c rest => rw [decodeLoop, if_pos (hstop c rfl)]
  -- four sextets make three bytes, and the window is empty again
  induction ns using octets.induct generalizing v out with
  | case1 i j k l rest ih =>
    simp only [List.forall_mem_cons] at hns
    obtain ⟨hi, hj, hk, hl, hrest⟩ := hns
    simp only [List.map_cons, List.cons_append]
    rw [decodeLoop_alphabet hi, decodeStep_short (by omega), decodeLoop_alphabet hj, decodeStep_second hi hj,
      decodeLoop_alphabet hk, decodeStep_third hj hk, decodeLoop_alphabet hl, decodeStep_fourth hk hl, ih hrest]
    simp [octets]
  | case2 i j k =>
    simp only [List.forall_mem_cons] at hns
    obtain ⟨hi, hj, hk, -⟩ := hns
    simp only [List.map_cons, List.map_nil, List.cons_append, List.nil_append]
    rw [decodeLoop_alphabet hi, decodeStep_short (by omega), decodeLoop_alphabet hj, decodeStep_second hi hj,
      decodeLoop_alphabet hk, decodeStep_third hj hk, hbreak]
    simp [octets]
  | case3 i j =>
    simp only [List.forall_mem_cons] at hns
    obtain ⟨hi, hj, -⟩ := hns
    simp only [List.map_cons, List.map_nil, List.cons_append, List.nil_append]
    rw [decodeLoop_alphabet hi, decodeStep_short (by omega), decodeLoop_alphabet hj, decodeStep_second hi hj,
      hbreak]
    simp [octets]
  | case4 ns hfour hthree htwo =>
    match ns with
    | [] => simp [octets, hbreak]
    | [i] =>
      have hi := hns i (by simp)
      simp only [List.map_cons, List.map_nil, List.cons_append, List.nil_append]
      rw [decodeLoop_alphabet hi, decodeStep_short (by omega), hbreak]
      simp [octets]
    | [i, j] => exact absurd rfl (htwo i j)
    | [i, j, k] => exact absurd rfl (hthree i j k)
    | i :: j :: k :: l :: rest => exact absurd rfl (hfour i j k l rest)

theorem base64Decode_sextets (ns : List ℕ) (hns : ∀ n ∈ ns, n < 64) (stop : Bytes)
    (hstop : ∀ c ∈ stop.head?, table c = -1) :
    base64Decode (ns.map alphabet ++ stop) = octets ns := by
  rw [base64Decode, decodeLoop_sextets ns hns stop hstop, List.nil_append]

theorem table_pad (n : ℕ) : ∀ c ∈ (List.replicate n (61 : UInt8)).head?, table c = -1 := by
  have h : table 61 = -1 := by decide +kernel
  cases n with
  | zero => simp
  | succ n => simpa [List.replicate_succ] using h

/-- The loops of the program compute the coding of the standard, whatever is pushed out of the
32-bit register on the way, and the decoder inverts it. -/
theorem base64_standard (x : Bytes) :
    base64Encode x = Rfc4648.encode x ∧
      (base64Encode x).length = 4 * ((x.length + 2) / 3) ∧
      ((base64Encode x).count 61 = if x.length % 3 = 2 then 1 else if x.length % 3 = 1 then 2 else 0) ∧
      base64Decode (base64Encode x) = x := by
  rw [base64Encode_eq]
  refine ⟨rfl, length_encode x, ?_, ?_⟩
  · rw [count_pad, padding]
    split_ifs <;> omega
  · rw [Rfc4648.encode, base64Decode_sextets _ (sextets_lt x) _ (table_pad _), octets_sextets]

example : Rfc4648.encode (str "foobar") = str "Zm9vYmFy" ∧ Rfc4648.encode (str "fooba") = str "Zm9vYmE=" ∧
    Rfc4648.encode (str "foob") = str "Zm9vYg==" := by decide

end Encoding

end BurpTUI
