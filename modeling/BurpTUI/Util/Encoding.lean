import BurpTUI.Http.RawText
import Mathlib.Data.BitVec
import Mathlib.Tactic.Ring

/-! A register of fixed width into which digits are shifted, and out of which windows are read. -/

namespace ShiftRegister

variable {w : ℕ}

/-- A digit of `k` bits is shifted in from the right; what leaves on the left is lost. -/
def shiftIn (k : ℕ) (val d : BitVec w) : BitVec w := val <<< k + d

/-- The `m` bits that stand above the lowest `b` ones. -/
def window (m b : ℕ) (val : BitVec w) : BitVec w := val >>> b &&& BitVec.ofNat w (2 ^ m - 1)

theorem toNat_shiftIn (k : ℕ) (val d : BitVec w) :
    (shiftIn k val d).toNat = (val.toNat * 2 ^ k + d.toNat) % 2 ^ w := by
  simp [shiftIn, BitVec.toNat_add, BitVec.toNat_shiftLeft, Nat.shiftLeft_eq]

theorem toNat_window {m b : ℕ} (hm : m ≤ w) (val : BitVec w) :
    (window m b val).toNat = val.toNat / 2 ^ b % 2 ^ m := by
  have hlt : 2 ^ m - 1 < 2 ^ w := by
    have := Nat.pow_le_pow_right (n := 2) (by omega) hm
    have := Nat.one_le_two_pow (n := w)
    omega
  rw [window, BitVec.toNat_and, BitVec.toNat_ushiftRight, BitVec.toNat_ofNat, Nat.mod_eq_of_lt hlt,
    Nat.and_two_pow_sub_one_eq_mod, Nat.shiftRight_eq_div_pow]

/-- The wrap-around does not reach a window that ends inside the register. -/
theorem window_of_wrapped {m b n : ℕ} (h : b + m ≤ w) :
    n % 2 ^ w / 2 ^ b % 2 ^ m = n / 2 ^ b % 2 ^ m := by
  have hw : 2 ^ w = 2 ^ b * (2 ^ m * 2 ^ (w - (b + m))) := by
    rw [← Nat.pow_add, ← Nat.pow_add]
    congr 1
    omega
  rw [hw, Nat.mod_mul_right_div_self, Nat.mod_mul_right_mod]

/-- A window over the register after one digit has come in. -/
theorem window_shiftIn {m b k : ℕ} (h : b + m ≤ w) (val d : BitVec w) :
    (window m b (shiftIn k val d)).toNat = (val.toNat * 2 ^ k + d.toNat) / 2 ^ b % 2 ^ m := by
  rw [toNat_window (by omega), toNat_shiftIn, window_of_wrapped h]

end ShiftRegister

namespace BurpTUI.Encoding

open ShiftRegister

def kB64Chars : Bytes := str "ABCDEFGHIJKLMNOPQRSTUVWXYZabcdefghijklmnopqrstuvwxyz0123456789+/"

/-- The accumulator of both base64 loops: a 32-bit word that wraps, and a bit count that starts
below zero. -/
structure Accumulator where
  val : BitVec 32 := 0
  bits : ℤ
  out : Bytes := []

/-- The inner loop: characters are written while a whole sextet stands in `val`. -/
def writeSextets (val : BitVec 32) (bits : ℤ) (out : Bytes) : ℤ × Bytes :=
  if 0 ≤ bits then
    writeSextets val (bits - 6) (out ++ [kB64Chars.getD (window 6 bits.toNat val).toNat 0])
  else (bits, out)
termination_by (bits + 6).toNat

def encodeStep (s : Accumulator) (c : UInt8) : Accumulator :=
  let val := shiftIn 8 s.val (c.toBitVec.setWidth 32)
  let (bits, out) := writeSextets val (s.bits + 8) s.out
  ⟨val, bits, out⟩

/-- `while (out.size() % 4) out += '='`. -/
def padOut (out : Bytes) : Bytes :=
  if out.length % 4 = 0 then out else padOut (out ++ str "=")
termination_by (4 - out.length % 4) % 4
decreasing_by
  simp only [List.length_append, str, List.length_map]
  simp
  omega

/-- The bits left over go to the top of one last sextet. -/
def writeRest (s : Accumulator) : Bytes :=
  if -6 < s.bits then
    s.out ++ [kB64Chars.getD (window 6 (s.bits + 8).toNat (s.val <<< 8)).toNat 0]
  else s.out

def base64Encode (input : Bytes) : Bytes := padOut (writeRest (input.foldl encodeStep { bits := -6 }))

/-- The reverse table, filled with -1 first. -/
def table : UInt8 → ℤ :=
  (List.range 64).foldl (fun T i => Function.update T (kB64Chars.getD i 0) i) fun _ => -1

def decodeStep (s : Accumulator) (c : UInt8) : Accumulator :=
  let val := shiftIn 6 s.val (BitVec.ofInt 32 (table c))
  let bits := s.bits + 6
  if 0 ≤ bits then ⟨val, bits - 8, s.out ++ [UInt8.ofNat (window 8 bits.toNat val).toNat]⟩
  else ⟨val, bits, s.out⟩

/-- The loop of `base64Decode`: it breaks at the first byte outside of the alphabet. -/
def decodeLoop (s : Accumulator) : Bytes → Accumulator
  | [] => s
  | c :: rest => if table c = -1 then s else decodeLoop (decodeStep s c) rest

def base64Decode (input : Bytes) : Bytes := (decodeLoop { bits := -8 } input).out

def unreserved : Bytes :=
  str "ABCDEFGHIJKLMNOPQRSTUVWXYZabcdefghijklmnopqrstuvwxyz0123456789-_.~"

/-- One digit of `%02X`. -/
def upperDigit (n : ℕ) : UInt8 := if n < 10 then UInt8.ofNat (48 + n) else UInt8.ofNat (55 + n)

/-- One digit of `%02x`. -/
def lowerDigit (n : ℕ) : UInt8 := if n < 10 then UInt8.ofNat (48 + n) else UInt8.ofNat (87 + n)

def PERCENT : UInt8 := 37
def PLUS : UInt8 := 43
def SPACE : UInt8 := 32

def urlEncode (input : Bytes) : Bytes :=
  input.flatMap fun c =>
    if unreserved.contains c then [c]
    else [PERCENT, upperDigit (c.toNat / 16), upperDigit (c.toNat % 16)]

def hexEncode (input : Bytes) : Bytes :=
  input.flatMap fun c => [lowerDigit (c.toNat / 16), lowerDigit (c.toNat % 16)]

/-- The value of a hexadecimal digit of either case. -/
def hexDigit? (c : UInt8) : Option ℕ :=
  if 48 ≤ c ∧ c ≤ 57 then some (c.toNat - 48)
  else if 65 ≤ c ∧ c ≤ 70 then some (c.toNat - 55)
  else if 97 ≤ c ∧ c ≤ 102 then some (c.toNat - 87)
  else none

/-- The longest run of hexadecimal digits, and its value. -/
def hexRun (acc : ℕ) : Bytes → ℕ
  | [] => acc
  | c :: rest =>
    match hexDigit? c with
    | some d => hexRun (16 * acc + d) rest
    | none => acc

/-- `0x` in front of a digit is a prefix; without one the number is the zero alone. -/
def skipHexPrefix (s : Bytes) : Bytes :=
  match s with
  | z :: x :: d :: _ =>
    if z = 48 ∧ (x = 120 ∨ x = 88) ∧ (hexDigit? d).isSome then s.drop 2 else s
  | _ => s

/-- `std::strtol` in base 16 on a NUL-terminated buffer of few bytes: blanks, a sign, a prefix and
the digits that follow, with no report of what is left. -/
def strtol (buffer : Bytes) : ℤ :=
  let s := (buffer.takeWhile (· ≠ 0)).dropWhile isSpace
  match s with
  | [] => 0
  | c :: rest =>
    if c = 45 then -(hexRun 0 (skipHexPrefix rest))
    else if c = 43 then hexRun 0 (skipHexPrefix rest)
    else hexRun 0 (skipHexPrefix s)

/-- The byte that both decoders make of two characters: `static_cast<char>` of the number read. -/
def pairByte (h l : UInt8) : UInt8 := UInt8.ofInt (strtol [h, l])

def urlDecode : Bytes → Bytes
  | [] => []
  | c :: h :: l :: rest =>
    if c = PERCENT then pairByte h l :: urlDecode rest
    else if c = PLUS then SPACE :: urlDecode (h :: l :: rest)
    else c :: urlDecode (h :: l :: rest)
  -- Less than two bytes follow: a percent sign stands for itself.
  | c :: rest =>
    if c = PLUS then SPACE :: urlDecode rest
    else c :: urlDecode rest

def hexDecode : Bytes → Bytes
  | h :: l :: rest => pairByte h l :: hexDecode rest
  | _ => []

end BurpTUI.Encoding
