import Mathlib.Data.List.Basic

/-! How a terminal finds the operating system commands in the bytes that are written to it. -/

namespace Osc

def BEL : UInt8 := 7
def CAN : UInt8 := 24
def SUB : UInt8 := 26
def ESC : UInt8 := 27
def BACKSLASH : UInt8 := 92
def BRACKET : UInt8 := 93

/-- Where the terminal is. Of the other escape sequences only the first byte is told apart. -/
inductive Mode
  | ground
  | escape
  | command (text : List UInt8)
  | commandEscape (text : List UInt8)
  deriving DecidableEq, Repr

def afterEscape (c : UInt8) : Mode :=
  if c = BRACKET then .command [] else if c = ESC then .escape else .ground

/-- What a byte does, and the command that it completes. A command ends with `BEL` or with `ESC \`. -/
def next : Mode → UInt8 → Mode × Option (List UInt8)
  | .ground, c => (if c = ESC then .escape else .ground, none)
  | .escape, c => (afterEscape c, none)
  | .command text, c =>
    if c = BEL then (.ground, some text)
    else if c = ESC then (.commandEscape text, none)
    else if c = CAN ∨ c = SUB then (.ground, none)
    else (.command (text ++ [c]), none)
  | .commandEscape text, c => if c = BACKSLASH then (.ground, some text) else (afterEscape c, none)

/-- The mode after the bytes, and the commands in them. -/
def run (m : Mode) : List UInt8 → Mode × List (List UInt8)
  | [] => (m, [])
  | c :: cs =>
    let r := run (next m c).1 cs
    (r.1, (next m c).2.toList ++ r.2)

variable {m : Mode} {xs ys text : List UInt8}

theorem run_append (m : Mode) (xs ys : List UInt8) :
    run m (xs ++ ys) = ((run (run m xs).1 ys).1, (run m xs).2 ++ (run (run m xs).1 ys).2) := by
  induction xs generalizing m with
  | nil => rfl
  | cons c cs ih => simp only [List.cons_append, run, ih, List.append_assoc]

/-- The bytes may stand in a command. -/
def Plain (text : List UInt8) : Prop := ∀ c ∈ text, c ≠ BEL ∧ c ≠ ESC ∧ c ≠ CAN ∧ c ≠ SUB

instance (text : List UInt8) : Decidable (Plain text) := List.decidableBAll _ text

theorem Plain.append (hx : Plain xs) (hy : Plain ys) : Plain (xs ++ ys) := by
  intro c hc
  rcases List.mem_append.mp hc with hc | hc
  · exact hx c hc
  · exact hy c hc

theorem run_plain (h : Plain xs) : run (.command text) xs = (.command (text ++ xs), []) := by
  induction xs generalizing text with
  | nil => simp [run]
  | cons c cs ih =>
    obtain ⟨hbel, hesc, hcan, hsub⟩ := h c List.mem_cons_self
    have hnext : next (.command text) c = (.command (text ++ [c]), none) := by
      rw [next, if_neg hbel, if_neg hesc, if_neg (not_or.mpr ⟨hcan, hsub⟩)]
    rw [run, hnext, ih fun c' hc' => h c' (List.mem_cons_of_mem c hc')]
    simp

def command (text : List UInt8) : List UInt8 := [ESC, BRACKET] ++ text ++ [BEL]

theorem run_command (h : Plain text) : run .ground (command text) = (.ground, [text]) := by
  have hopen : run .ground [ESC, BRACKET] = (.command [], []) := rfl
  rw [command, List.append_assoc, run_append, hopen, run_append, run_plain h]
  rfl

/-- What is written, as a screen is, does not stop within an escape sequence and holds no command. -/
def Quiet (xs : List UInt8) : Prop := run .ground xs = (.ground, [])

instance (xs : List UInt8) : Decidable (Quiet xs) := inferInstanceAs (Decidable (_ = _))

/-- All that is written so far consists of whole sequences, and `texts` are its commands. -/
def Holds (xs : List UInt8) (texts : List (List UInt8)) : Prop := run .ground xs = (.ground, texts)

variable {texts : List (List UInt8)}

theorem Holds.nil : Holds [] [] := rfl

theorem Holds.quiet (h : Holds xs texts) (hq : Quiet ys) : Holds (xs ++ ys) texts := by
  rw [Holds, run_append, h, hq]
  simp

theorem Holds.command (h : Holds xs texts) (hp : Plain text) :
    Holds (xs ++ command text) (texts ++ [text]) := by
  rw [Holds, run_append, h, run_command hp]

end Osc
