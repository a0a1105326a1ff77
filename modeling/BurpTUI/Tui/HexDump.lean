import BurpTUI.Tui.BodyLines
import BurpTUI.Util.UrlHex

namespace BurpTUI

open Encoding (hexDigit? lowerDigit SPACE hexDigit?_lowerDigit ofNat_halves)

/-- Printing characters of ASCII only. -/
def Printable (s : Bytes) : Prop := ∀ c ∈ s, 32 ≤ c.toNat ∧ c.toNat < 127

instance (s : Bytes) : Decidable (Printable s) := inferInstanceAs (Decidable (∀ c ∈ s, _))

theorem Printable.append {s t : Bytes} (hs : Printable s) (ht : Printable t) : Printable (s ++ t) :=
  List.forall_mem_append.mpr ⟨hs, ht⟩

/-- A hexadecimal number of one digit or more. -/
def IsHex (text : Bytes) (n : ℕ) : Prop :=
  text ≠ [] ∧ (∀ c ∈ text, (hexDigit? c).isSome) ∧
    text.foldl (fun n c => 16 * n + (hexDigit? c).getD 0) 0 = n

instance (text : Bytes) (n : ℕ) : Decidable (IsHex text n) := inferInstanceAs (Decidable (_ ∧ _ ∧ _))

/-- The bytes that blank-separated pairs of hexadecimal digits stand for. -/
def readColumns : Bytes → Option Bytes
  | [] => some []
  | h :: rest =>
    if h = SPACE then readColumns rest
    else match rest with
      | l :: blank :: rest =>
        match hexDigit? h, hexDigit? l with
        | some a, some b =>
          if blank = SPACE then (readColumns rest).map (UInt8.ofNat (16 * a + b) :: ·) else none
        | _, _ => none
      | _ => none

/-- A row of a dump as a reader takes it apart. -/
structure DumpRow where
  offset : Bytes
  columns : Bytes
  ascii : Bytes

/-- What stands in front of the first bar. -/
def DumpRow.hexPart (r : DumpRow) : Bytes := r.offset ++ str ": " ++ r.columns

def DumpRow.text (r : DumpRow) : Bytes := r.hexPart ++ str "|" ++ r.ascii ++ str "|"

/-- The row shows these bytes as those at `i`. -/
structure DumpRow.Shows (r : DumpRow) (i : ℕ) (bytes : Bytes) : Prop where
  offset_value : IsHex r.offset i
  eight_digits : 8 ≤ r.offset.length
  columns_read : readColumns r.columns = some bytes
  ascii_read : r.ascii = bytes.map asciiColumn
  first_bar : 124 ∉ r.hexPart
  bar_column : r.offset.length = 8 → r.hexPart.length = 60

def omissionRow (n : ℕ) : Bytes := str "[ ... " ++ decimal n ++ str " additional binary bytes omitted ... ]"

/-- The rows of a dump hold the first bytes of the data, and a last one names the number of the others. -/
structure FaithfulDump (d : Bytes) (maxBytes : ℕ) (rows : List DumpRow) : Prop where
  lines : getlines (formatHexDump d maxBytes) = rows.map DumpRow.text ++
    if min d.length maxBytes < d.length then [omissionRow (d.length - min d.length maxBytes)] else []
  ended : (getlines (formatHexDump d maxBytes)).flatMap (· ++ [LF]) = formatHexDump d maxBytes
  count : rows.length = (min d.length maxBytes + 15) / 16
  row : ∀ (k : ℕ) (r : DumpRow), rows[k]? = some r →
    r.Shows (16 * k) (((d.take maxBytes).drop (16 * k)).take 16) ∧
      (16 * k < 4294967296 → r.offset.length = 8)
  read : rows.flatMap (fun r => (readColumns r.columns).getD []) = d.take maxBytes

section Digits

theorem isHex_digit : ∀ n < 16, IsHex [UInt8.ofNat (Nat.digitChar n).toNat] n := by decide

theorem isHex_snoc {text last : Bytes} {m n : ℕ} (h : IsHex text m) (hlast : IsHex last n)
    (hone : last.length = 1) : IsHex (text ++ last) (16 * m + n) := by
  obtain ⟨c, rfl⟩ := List.length_eq_one_iff.mp hone
  obtain ⟨-, hdigits, hvalue⟩ := h
  obtain ⟨-, hdigit, hc⟩ := hlast
  refine ⟨by simp, ?_, ?_⟩
  · simp only [List.forall_mem_append]
    exact ⟨hdigits, hdigit⟩
  · simp only [List.foldl_append, List.foldl_cons, List.foldl_nil] at hvalue hc ⊢
    omega

theorem isHex_toDigits (n : ℕ) : IsHex ((Nat.toDigits 16 n).map fun c => UInt8.ofNat c.toNat) n := by
  induction n using Nat.strongRecOn with
  | ind n ih =>
    by_cases hn : n < 16
    · rw [Nat.toDigits_of_lt_base hn, List.map_singleton]
      exact isHex_digit n hn
    · rw [Nat.toDigits_of_base_le (by omega) (by omega), List.map_append, List.map_singleton]
      have hlast := isHex_digit (n % 16) (Nat.mod_lt n (by omega))
      have hrest := isHex_snoc (ih (n / 16) (by omega)) hlast rfl
      rwa [Nat.div_add_mod] at hrest

theorem isHex_zeros (k : ℕ) {text : Bytes} {n : ℕ} (h : IsHex text n) :
    IsHex (List.replicate k 48 ++ text) n := by
  induction k with
  | zero => exact h
  | succ k ih =>
    obtain ⟨hne, hdigits, hvalue⟩ := ih
    refine ⟨by simp [List.replicate_succ], ?_, hvalue⟩
    rw [List.replicate_succ, List.cons_append, List.forall_mem_cons]
    exact ⟨rfl, hdigits⟩

/-- Zeros in front do not change the number. -/
theorem isHex_hexDigits (width n : ℕ) : IsHex (hexDigits width n) n :=
  isHex_zeros _ (isHex_toDigits n)

theorem length_hexDigits (width n : ℕ) :
    (hexDigits width n).length = max width (Nat.toDigits 16 n).length := by
  rw [hexDigits, List.length_leftpad, List.length_map]

theorem hexDigits_byte : ∀ n < 256, hexDigits 2 n = [lowerDigit (n / 16), lowerDigit (n % 16)] := by
  decide +kernel

end Digits

section Columns

variable {data : Bytes} {limit i j : ℕ}

theorem readColumns_blank (s : Bytes) : readColumns (SPACE :: s) = readColumns s := by
  rw [readColumns.eq_def]
  exact if_pos rfl

theorem readColumns_byte (c : UInt8) (s : Bytes) :
    readColumns (hexDigits 2 c.toNat ++ str " " ++ s) = (readColumns s).map (c :: ·) := by
  have hc := c.toNat_lt
  have hhigh := hexDigit?_lowerDigit (c.toNat / 16) (by omega)
  have hlow := hexDigit?_lowerDigit (c.toNat % 16) (by omega)
  have hdigit : lowerDigit (c.toNat / 16) ≠ SPACE := by
    intro h
    rw [h] at hhigh
    cases hhigh
  have hcell : hexDigits 2 c.toNat ++ str " " ++ s =
      lowerDigit (c.toNat / 16) :: lowerDigit (c.toNat % 16) :: SPACE :: s := by
    rw [hexDigits_byte c.toNat hc]
    rfl
  rw [hcell, readColumns, if_neg hdigit]
  simp only [hhigh, hlow, if_true, ofNat_halves]

theorem readColumns_gap (s : Bytes) : readColumns ((if j = 7 then str " " else []) ++ s) = readColumns s := by
  split
  · exact readColumns_blank s
  · rfl

theorem readColumns_hexColumn (s : Bytes) : readColumns (hexColumn data limit i j ++ s) =
    if i + j < limit then (readColumns s).map (data.getD (i + j) 0 :: ·) else readColumns s := by
  rw [hexColumn]
  split
  · rw [List.append_assoc, readColumns_byte, readColumns_gap]
  · have hblank : str "   " ++ (if j = 7 then str " " else []) ++ s =
        SPACE :: SPACE :: SPACE :: ((if j = 7 then str " " else []) ++ s) := rfl
    rw [hblank, readColumns_blank, readColumns_blank, readColumns_blank, readColumns_gap]

/-- The columns from `j` on hold the bytes from `i + j` on. -/
theorem readColumns_columns (hlimit : limit ≤ data.length) (n : ℕ) :
    readColumns ((List.range' j n).flatMap (hexColumn data limit i) ++ str " ") =
      some (((data.take limit).drop (i + j)).take n) := by
  induction n generalizing j with
  | zero => rfl
  | succ n ih =>
    rw [List.range'_succ, List.flatMap_cons, List.append_assoc, readColumns_hexColumn, ih]
    by_cases hj : i + j < limit
    · have hlen : i + j < (data.take limit).length := by
        rw [List.length_take]
        omega
      rw [if_pos hj, List.drop_eq_getElem_cons hlen, List.take_succ_cons, List.getElem_take,
        List.getD_eq_getElem?_getD, List.getElem?_eq_getElem (by omega), Option.map_some, Option.getD_some,
        Nat.add_assoc]
    · have hnil (k : ℕ) (hk : limit ≤ k) : (data.take limit).drop k = [] := by
        rw [List.drop_eq_nil_iff, List.length_take]
        omega
      rw [if_neg hj, hnil _ (by omega), hnil _ (by omega), List.take_nil, List.take_nil]

theorem mem_hexColumn {c : UInt8} (h : c ∈ hexColumn data limit i j) : c = SPACE ∨ (hexDigit? c).isSome := by
  have hblanks : ∀ b ∈ str "   ", b = SPACE := by decide
  have hgap : ∀ b ∈ (if j = 7 then str " " else []), b = SPACE := by
    split <;> decide
  rw [hexColumn, List.mem_append] at h
  rcases h with h | h
  · split at h
    · rw [List.mem_append] at h
      rcases h with h | h
      · exact .inr ((isHex_hexDigits 2 _).2.1 c h)
      · exact .inl (List.mem_singleton.mp h)
    · exact .inl (hblanks c h)
  · exact .inl (hgap c h)

theorem length_hexColumn : (hexColumn data limit i j).length = 3 + if j = 7 then 1 else 0 := by
  have hcell : (if i + j < limit then hexDigits 2 (data.getD (i + j) 0).toNat ++ str " "
      else str "   ").length = 3 := by
    split
    · rw [hexDigits_byte _ (UInt8.toNat_lt _)]
      rfl
    · rfl
  have hgap : (if j = 7 then str " " else []).length = if j = 7 then 1 else 0 := by
    split <;> rfl
  rw [hexColumn, List.length_append, hcell, hgap]

/-- The sixteen columns and the gap are as wide in a short row as in a full one. -/
theorem length_columns : ((List.range 16).flatMap (hexColumn data limit i)).length = 49 := by
  rw [List.length_flatMap, List.map_congr_left fun j _ => length_hexColumn]
  decide

end Columns

section Rows

variable {data : Bytes} {limit : ℕ}

def dumpRow (data : Bytes) (limit i : ℕ) : DumpRow where
  offset := hexDigits 8 i
  columns := (List.range 16).flatMap (hexColumn data limit i) ++ str " "
  ascii := (((data.take limit).drop i).take 16).map asciiColumn

theorem hexRow_eq (i : ℕ) : hexRow data limit i = (dumpRow data limit i).text ++ [LF] := by
  have hbar : str " |" = str " " ++ str "|" := rfl
  have hend : str "|\n" = str "|" ++ [LF] := rfl
  simp only [hexRow, dumpRow, DumpRow.text, DumpRow.hexPart, hbar, hend, List.append_assoc]

theorem mem_hexPart {i : ℕ} {c : UInt8} (h : c ∈ (dumpRow data limit i).hexPart) :
    c = SPACE ∨ c = 58 ∨ (hexDigit? c).isSome := by
  have hcolon : ∀ b ∈ str ": ", b = 58 ∨ b = SPACE := by decide
  simp only [DumpRow.hexPart, dumpRow, List.mem_append, List.mem_flatMap] at h
  rcases h with (h | h) | ⟨j, -, h⟩ | h
  · exact .inr (.inr ((isHex_hexDigits 8 i).2.1 c h))
  · rcases hcolon c h with h | h
    · exact .inr (.inl h)
    · exact .inl h
  · rcases mem_hexColumn h with h | h
    · exact .inl h
    · exact .inr (.inr h)
  · exact .inl (List.mem_singleton.mp h)

theorem bar_not_mem_hexPart (i : ℕ) : 124 ∉ (dumpRow data limit i).hexPart := by
  intro h
  rcases mem_hexPart h with h | h | h
  · exact absurd h (by decide)
  · exact absurd h (by decide)
  · exact absurd h (by decide)

theorem printable_hexDigit (c : UInt8) : (hexDigit? c).isSome → 32 ≤ c.toNat ∧ c.toNat < 127 := by
  apply forall_byte (p := fun c => (hexDigit? c).isSome → 32 ≤ c.toNat ∧ c.toNat < 127)
  decide +kernel

theorem printable_asciiColumn (c : UInt8) : 32 ≤ (asciiColumn c).toNat ∧ (asciiColumn c).toNat < 127 := by
  apply forall_byte (p := fun c => 32 ≤ (asciiColumn c).toNat ∧ (asciiColumn c).toNat < 127)
  decide +kernel

theorem printable_text (i : ℕ) : Printable (dumpRow data limit i).text := by
  have hbar : Printable (str "|") := by decide
  have hhex : Printable (dumpRow data limit i).hexPart := by
    intro c hc
    rcases mem_hexPart hc with rfl | rfl | h
    · decide
    · decide
    · exact printable_hexDigit c h
  refine ((hhex.append hbar).append ?_).append hbar
  intro c hc
  obtain ⟨b, -, rfl⟩ := List.mem_map.mp hc
  exact printable_asciiColumn b

/-- The blank in front of the bar ends the columns. -/
theorem readColumns_dumpRow (hlimit : limit ≤ data.length) (i : ℕ) :
    readColumns (dumpRow data limit i).columns = some (((data.take limit).drop i).take 16) := by
  rw [dumpRow, List.range_eq_range', readColumns_columns hlimit, Nat.add_zero]

theorem length_hexPart (i : ℕ) :
    (dumpRow data limit i).hexPart.length = (dumpRow data limit i).offset.length + 52 := by
  have hcolon : (str ": ").length = 2 := rfl
  have hblank : (str " ").length = 1 := rfl
  simp only [DumpRow.hexPart, dumpRow, List.length_append, length_columns, hcolon, hblank]

theorem shows_dumpRow (hlimit : limit ≤ data.length) (i : ℕ) :
    (dumpRow data limit i).Shows i (((data.take limit).drop i).take 16) where
  offset_value := isHex_hexDigits 8 i
  eight_digits := by
    rw [dumpRow, length_hexDigits]
    exact Nat.le_max_left _ _
  columns_read := readColumns_dumpRow hlimit i
  ascii_read := rfl
  first_bar := bar_not_mem_hexPart i
  bar_column := by
    intro h
    rw [length_hexPart, h]

theorem length_offset {i : ℕ} (h : i < 4294967296) : (dumpRow data limit i).offset.length = 8 := by
  have hdigits : (Nat.toDigits 16 i).length ≤ 8 := (Nat.length_toDigits_le_iff (by omega) (by omega)).mpr h
  rw [dumpRow, length_hexDigits, Nat.max_eq_left hdigits]

end Rows

section Dump

theorem getlines_flatMap {ls : List Bytes} (h : ∀ l ∈ ls, LF ∉ l) :
    getlines (ls.flatMap (· ++ [LF])) = ls := by
  induction ls with
  | nil => rfl
  | cons l ls ih =>
    rw [List.forall_mem_cons] at h
    rw [List.flatMap_cons, List.append_assoc, List.singleton_append, getlines_line h.1, ih h.2]

/-- Rows of sixteen bytes put together again. -/
theorem flatMap_rows (s : Bytes) (n : ℕ) :
    (List.range n).flatMap (fun k => (s.drop (16 * k)).take 16) = s.take (16 * n) := by
  induction n with
  | zero => rfl
  | succ n ih =>
    rw [List.range_succ, List.flatMap_append, ih, List.flatMap_singleton, Nat.mul_succ, List.take_add]

variable (d : Bytes) (maxBytes : ℕ)

def dumpRows : List DumpRow :=
  (List.range ((min d.length maxBytes + 15) / 16)).map fun k => dumpRow d (min d.length maxBytes) (16 * k)

def dumpLines : List Bytes := (dumpRows d maxBytes).map DumpRow.text ++
  if min d.length maxBytes < d.length then [omissionRow (d.length - min d.length maxBytes)] else []

/-- The loop over the offsets and the list of the row numbers. -/
theorem range'_step (start n : ℕ) : List.range' start n 16 = (List.range n).map (start + 16 * ·) := by
  induction n generalizing start with
  | zero => rfl
  | succ n ih =>
    rw [List.range'_succ, ih, List.range_succ_eq_map, List.map_cons, List.map_map]
    congr 1
    apply List.map_congr_left
    intro k _
    simp only [Function.comp_apply]
    omega

theorem formatHexDump_eq : formatHexDump d maxBytes = (dumpLines d maxBytes).flatMap (· ++ [LF]) := by
  have hend : str " additional binary bytes omitted ... ]\n" =
      str " additional binary bytes omitted ... ]" ++ [LF] := rfl
  rw [formatHexDump, dumpLines, List.flatMap_append, range'_step]
  congr 1
  · simp only [dumpRows, List.flatMap_map, hexRow_eq, Nat.zero_add]
  · split
    · rw [List.flatMap_singleton, omissionRow, hend, List.append_assoc _ _ [LF]]
    · rfl

theorem isDigit_of_mem_decimal {n : ℕ} {c : UInt8} (h : c ∈ decimal n) : isDigit c = true := by
  rw [decimal, str, Nat.toString_eq_repr, Nat.toList_repr] at h
  obtain ⟨x, hx, rfl⟩ := List.mem_map.mp h
  have hdigit : x.isDigit = true := Nat.isDigit_of_mem_toDigits (by omega) (by omega) hx
  simp only [Char.isDigit, Bool.and_eq_true, decide_eq_true_eq] at hdigit
  have hlow : 48 ≤ x.toNat := UInt32.le_iff_toNat_le.mp hdigit.1
  have hhigh : x.toNat ≤ 57 := UInt32.le_iff_toNat_le.mp hdigit.2
  have hall : ∀ n < 256, 48 ≤ n → n ≤ 57 → isDigit (UInt8.ofNat n) = true := by decide +kernel
  exact hall x.toNat (by omega) hlow hhigh

theorem printable_decimal (n : ℕ) : Printable (decimal n) := by
  have hall (c : UInt8) : isDigit c = true → 32 ≤ c.toNat ∧ c.toNat < 127 := by
    apply forall_byte (p := fun c => isDigit c = true → 32 ≤ c.toNat ∧ c.toNat < 127)
    decide +kernel
  intro c hc
  exact hall c (isDigit_of_mem_decimal hc)

theorem printable_dumpLines : ∀ l ∈ dumpLines d maxBytes, Printable l := by
  have hleft : Printable (str "[ ... ") := by decide
  have hright : Printable (str " additional binary bytes omitted ... ]") := by decide
  intro l hl
  rw [dumpLines, List.mem_append] at hl
  rcases hl with hl | hl
  · obtain ⟨r, hr, rfl⟩ := List.mem_map.mp hl
    obtain ⟨k, -, rfl⟩ := List.mem_map.mp hr
    exact printable_text _
  · split at hl
    · rw [List.mem_singleton.mp hl]
      exact (hleft.append (printable_decimal _)).append hright
    · cases hl

theorem getlines_formatHexDump : getlines (formatHexDump d maxBytes) = dumpLines d maxBytes := by
  rw [formatHexDump_eq, getlines_flatMap]
  intro l hl hlf
  exact absurd (printable_dumpLines d maxBytes l hl LF hlf) (by decide)

theorem take_limit : d.take (min d.length maxBytes) = d.take maxBytes := by
  rw [← List.take_take, List.take_of_length_le]
  rw [List.length_take]
  omega

theorem hexDump_faithful : ∃ rows, FaithfulDump d maxBytes rows := by
  have hlimit : min d.length maxBytes ≤ d.length := Nat.min_le_left _ _
  refine ⟨dumpRows d maxBytes, ?_, ?_, ?_, ?_, ?_⟩
  · rw [getlines_formatHexDump, dumpLines]
  · rw [getlines_formatHexDump, formatHexDump_eq]
  · rw [dumpRows, List.length_map, List.length_range]
  · intro k r hr
    rw [dumpRows, List.getElem?_map, Option.map_eq_some_iff] at hr
    obtain ⟨k', hk, rfl⟩ := hr
    obtain ⟨hlt, rfl⟩ := List.getElem?_eq_some_iff.mp hk
    rw [List.getElem_range]
    have hshows := shows_dumpRow hlimit (16 * k)
    rw [take_limit] at hshows
    exact ⟨hshows, length_offset⟩
  · have hread (k : ℕ) : (readColumns (dumpRow d (min d.length maxBytes) (16 * k)).columns).getD [] =
        ((d.take maxBytes).drop (16 * k)).take 16 := by
      rw [readColumns_dumpRow hlimit, take_limit, Option.getD_some]
    rw [dumpRows, List.flatMap_map]
    simp only [hread]
    rw [flatMap_rows, List.take_of_length_le]
    rw [List.length_take]
    omega

end Dump

end BurpTUI
