import Mathlib.Algebra.GroupWithZero.Nat
import Mathlib.Data.List.Basic

/-! A text with a position in it, and the same text kept as lines with a row and a column. -/

namespace TextBuffer

variable {α : Type*}

structure Buffer (α : Type*) where
  text : List α
  off : ℕ
  deriving DecidableEq, Repr

namespace Buffer

def insert (b : Buffer α) (s : List α) : Buffer α :=
  ⟨b.text.take b.off ++ s ++ b.text.drop b.off, b.off + s.length⟩

/-- The element before the position goes; at the start of the text nothing does. -/
def backspace (b : Buffer α) : Buffer α :=
  if b.off = 0 then b else ⟨b.text.eraseIdx (b.off - 1), b.off - 1⟩

/-- The element at the position goes; at the end of the text nothing does. -/
def delete (b : Buffer α) : Buffer α := { b with text := b.text.eraseIdx b.off }

def left (b : Buffer α) : Buffer α := { b with off := b.off - 1 }

def right (b : Buffer α) : Buffer α := { b with off := min (b.off + 1) b.text.length }

/-- The position between two parts of a text. -/
def between (l r : List α) : Buffer α := ⟨l ++ r, l.length⟩

variable (l r s : List α) (c : α)

@[simp] theorem insert_between : (between l r).insert s = between (l ++ s) r := by
  simp [between, insert]

@[simp] theorem backspace_between_nil : (between [] r).backspace = between [] r := rfl

@[simp] theorem backspace_between : (between (l ++ [c]) r).backspace = between l r := by
  simp [between, backspace, List.eraseIdx_append_of_length_le]

@[simp] theorem delete_between_nil : (between l []).delete = between l [] := by
  simp [between, delete, List.eraseIdx_of_length_le]

@[simp] theorem delete_between : (between l (c :: r)).delete = between l r := by
  simp [between, delete, List.eraseIdx_append_of_length_le]

@[simp] theorem left_between_nil : (between [] r).left = between [] r := rfl

@[simp] theorem left_between : (between (l ++ [c]) r).left = between l (c :: r) := by
  simp [between, left]

@[simp] theorem right_between_nil : (between l []).right = between l [] := by
  simp [between, right]

@[simp] theorem right_between : (between l (c :: r)).right = between (l ++ [c]) r := by
  simp [between, right]

end Buffer

/-- The position of a row and a column, with one separator after each line. -/
def offset (ls : List (List α)) (row col : ℕ) : ℕ :=
  ((ls.take row).map fun l => l.length + 1).sum + col

/-- The row and the column of a position. -/
def locate : List (List α) → ℕ → ℕ × ℕ
  | [], off => (0, off)
  | l :: ls, off =>
    if off ≤ l.length then (0, off)
    else ((locate ls (off - (l.length + 1))).1 + 1, (locate ls (off - (l.length + 1))).2)

/-- To a row, at the smaller of a column and the length of that row. -/
def Buffer.moveTo (ls : List (List α)) (row col : ℕ) (b : Buffer α) : Buffer α :=
  { b with off := offset ls row (min col (ls.getD row []).length) }

theorem locate_offset {ls : List (List α)} {row col : ℕ} {l : List α} (hl : ls[row]? = some l)
    (hcol : col ≤ l.length) : locate ls (offset ls row col) = (row, col) := by
  induction ls generalizing row with
  | nil => simp at hl
  | cons l' ls ih =>
    cases row with
    | zero =>
      obtain rfl := Option.some.inj hl
      simp [locate, offset, hcol]
    | succ row =>
      have hshift : offset (l' :: ls) (row + 1) col = l'.length + 1 + offset ls row col := by
        simp only [offset, List.take_succ_cons, List.map_cons, List.sum_cons]
        omega
      have hsub : l'.length + 1 + offset ls row col - (l'.length + 1) = offset ls row col := by omega
      rw [hshift, locate, if_neg (by omega), hsub, ih (by simpa using hl)]

/-- The lines before and after the one with the position, with their separators. -/
def before (sep : α) (ls : List (List α)) : List α := ls.flatMap fun l => l ++ [sep]

def after (sep : α) (ls : List (List α)) : List α := ls.flatMap fun l => sep :: l

@[simp] theorem before_nil (sep : α) : before sep [] = [] := rfl

@[simp] theorem after_nil (sep : α) : after sep [] = [] := rfl

@[simp] theorem before_snoc (sep : α) (ls : List (List α)) (l : List α) :
    before sep (ls ++ [l]) = before sep ls ++ l ++ [sep] := by
  simp [before]

@[simp] theorem after_cons (sep : α) (ls : List (List α)) (l : List α) :
    after sep (l :: ls) = sep :: l ++ after sep ls := by
  simp [after]

theorem intercalate_split (sep : α) (pre post : List (List α)) (l : List α) :
    [sep].intercalate (pre ++ l :: post) = before sep pre ++ l ++ after sep post := by
  induction pre with
  | nil =>
    induction post generalizing l with
    | nil => simp
    | cons l' post ih =>
      have h := ih l'
      simp only [List.nil_append, before_nil] at h ⊢
      rw [List.intercalate_cons_cons, h]
      simp
  | cons p pre ih =>
    cases hpre : pre ++ l :: post with
    | nil => simp at hpre
    | cons q rest =>
      rw [hpre] at ih
      rw [List.cons_append, hpre, List.intercalate_cons_cons, ih]
      simp [before]

theorem offset_split (sep : α) (pre post : List (List α)) (l : List α) (col : ℕ) :
    offset (pre ++ l :: post) pre.length col = (before sep pre).length + col := by
  have hlen : (pre.map fun l => l.length + 1).sum = (before sep pre).length := by
    simp [before, List.length_flatMap]
  rw [offset, List.take_left, hlen]

/-- The flat view of lines with the position inside one of them. -/
theorem between_of_lines (sep : α) (pre post : List (List α)) (a b : List α) :
    Buffer.mk ([sep].intercalate (pre ++ (a ++ b) :: post))
        (offset (pre ++ (a ++ b) :: post) pre.length a.length) =
      Buffer.between (before sep pre ++ a) (b ++ after sep post) := by
  rw [intercalate_split, offset_split sep, Buffer.between]
  simp

end TextBuffer
