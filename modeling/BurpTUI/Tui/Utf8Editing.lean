import BurpTUI.Base.Utf8
import BurpTUI.Tui.EditorSafety

namespace BurpTUI

open TextBuffer Utf8

namespace TextEditor.Editor

variable {e e' : Editor} {bt : Buffer UInt8} {ev : Event}

/-- A keyboard event. The text of a character event is valid. -/
structure Keystroke where
  event : Event
  focused : Bool
  isKey : isKey event = true
  valid : ∀ text, event = .character text → Valid text

/-- The key cuts the text between characters only, or takes out a byte that is one. -/
def MeetsWhole (bt : Buffer UInt8) : Event → Prop
  | .character text => text.filter (· ≠ CR) ≠ [] → Boundary (bt.text.drop bt.off)
  | .tab | .returnKey => Boundary (bt.text.drop bt.off)
  | .backspace => 0 < bt.off → ∀ b ∈ bt.text[bt.off - 1]?, b.toNat < 128
  | .delete => ∀ b ∈ bt.text[bt.off]?, b.toNat < 128
  | _ => True

theorem valid_lines_iff (e : Editor) : Valid e.buffer.text ↔ ∀ l ∈ e.lines, Valid l :=
  valid_intercalate (by decide) (by decide) e.lines

theorem valid_getText_iff (e : Editor) : Valid e.getText ↔ Valid e.buffer.text := by
  rw [valid_lines_iff]
  exact valid_intercalate (by decide) (by decide) e.lines

theorem valid_setText {text : Bytes} (h : Valid text) (e : Editor) : Valid (e.setText text).buffer.text := by
  have hlines : [LF].intercalate ((text.filter (· ≠ CR)).splitOn LF) = text.filter (· ≠ CR) :=
    List.intercalate_splitOn LF
  show Valid ([LF].intercalate ((text.filter (· ≠ CR)).splitOn LF))
  rw [hlines]
  exact h.filter_ne (by decide)

section Between

variable {l r : List UInt8}

theorem drop_between (l r : List UInt8) : (Buffer.between l r).text.drop (Buffer.between l r).off = r :=
  List.drop_left

theorem valid_insert_between {v : Bytes} (h : Valid (l ++ r)) (hv : Valid v) (hne : v ≠ []) :
    Valid ((Buffer.between l r).insert v).text ↔ Boundary r := by
  rw [Buffer.insert_between]
  exact valid_insert_iff h hv hne

theorem valid_backspace_between (h : Valid (l ++ r)) :
    Valid (Buffer.between l r).backspace.text ↔ MeetsWhole (Buffer.between l r) .backspace := by
  rcases List.eq_nil_or_concat l with rfl | ⟨l, b, rfl⟩
  · exact iff_of_true h fun hpos => absurd hpos (Nat.lt_irrefl 0)
  · rw [List.concat_eq_append] at h ⊢
    have hbyte : (Buffer.between (l ++ [b]) r).text[(Buffer.between (l ++ [b]) r).off - 1]? = some b := by
      simp [Buffer.between]
    rw [Buffer.backspace_between, MeetsWhole, hbyte]
    rw [List.append_assoc, List.singleton_append] at h
    have hpos : 0 < (Buffer.between (l ++ [b]) r).off := by simp [Buffer.between]
    constructor
    · rintro herased - b' hb'
      obtain rfl := Option.some.inj hb'
      exact (valid_erase_iff h).mp herased
    · intro hascii
      exact (valid_erase_iff h).mpr (hascii hpos b rfl)

theorem valid_delete_between (h : Valid (l ++ r)) :
    Valid (Buffer.between l r).delete.text ↔ MeetsWhole (Buffer.between l r) .delete := by
  cases r with
  | nil =>
    rw [Buffer.delete_between_nil]
    refine iff_of_true h fun b hb => ?_
    simp [Buffer.between] at hb
  | cons b r =>
    have hbyte : (Buffer.between l (b :: r)).text[(Buffer.between l (b :: r)).off]? = some b := by
      simp [Buffer.between]
    rw [Buffer.delete_between, MeetsWhole, hbyte]
    constructor
    · intro herased b' hb'
      obtain rfl := Option.some.inj hb'
      exact (valid_erase_iff h).mp herased
    · intro hascii
      exact (valid_erase_iff h).mpr (hascii b rfl)

/-- What a key leaves of a valid text is valid if and only if the key meets whole characters. -/
theorem valid_onBuffer_iff (ls : List Bytes) (h : Valid (l ++ r)) (k : Keystroke) :
    Valid (onBuffer ls (Buffer.between l r) k.event).text ↔ MeetsWhole (Buffer.between l r) k.event := by
  obtain ⟨ev, focused, hkey, hvalid⟩ := k
  cases ev with
  | mouse m => cases hkey
  | returnKey =>
    rw [MeetsWhole, drop_between]
    exact valid_insert_between h (valid_of_ascii (by decide)) (by decide)
  | tab =>
    rw [MeetsWhole, drop_between]
    exact valid_insert_between h (valid_of_ascii (by decide)) (by decide)
  | backspace => exact valid_backspace_between h
  | delete => exact valid_delete_between h
  | character text =>
    rw [MeetsWhole, drop_between]
    by_cases hne : text.filter (· ≠ CR) = []
    · have hsame : onBuffer ls (Buffer.between l r) (.character text) = Buffer.between l r := by
        rw [onBuffer, hne, Buffer.insert_between, List.append_nil]
      rw [hsame]
      exact iff_of_true h fun hne' => absurd hne hne'
    · have hv := (hvalid text rfl).filter_ne (b := CR) (by decide)
      rw [forall_prop_of_true hne]
      exact valid_insert_between h hv hne
  | _ => exact iff_of_true h trivial

end Between

/-- Keyboard events from a text that was loaded on. -/
def typing : StepSystem.System Editor Keystroke where
  init e := ∃ e₀ text, Valid text ∧ e = Editor.setText e₀ text
  step e k := (e.onEvent k.focused false k.event).map Prod.snd

/-- What a key has to leave: a valid text, and one character less if it takes something out of a line. -/
structure KeepsText (e : Editor) (k : Keystroke) (e' : Editor) : Prop where
  valid : Valid e'.getText
  backspace : k.focused = true → k.event = .backspace → 0 < e.cursorCol → ∃ l c r,
    e.buffer = Buffer.between (l ++ String.utf8EncodeChar c) r ∧ e'.buffer = Buffer.between l r
  delete : k.focused = true → k.event = .delete → (∃ line ∈ e.lines[e.cursorRow]?, e.cursorCol < line.length) →
    ∃ l c r, e.buffer = Buffer.between l (String.utf8EncodeChar c ++ r) ∧ e'.buffer = Buffer.between l r

def Whole (e : Editor) (k : Keystroke) : Prop := k.focused = true → MeetsWhole e.buffer k.event

/-- Without the focus nothing changes. -/
theorem unfocused_step {k : Keystroke} (hk : k.focused = false) (h : typing.step e k = some e') : e' = e := by
  have hkey (m : Mouse) : k.event ≠ .mouse m := by
    intro hev
    have hnot := k.isKey
    rw [hev] at hnot
    cases hnot
  obtain ⟨r, hr, rfl⟩ := Option.map_eq_some_iff.mp h
  rw [hk, onEvent_unfocused hkey] at hr
  obtain rfl := Option.some.inj hr
  rfl

theorem focused_step {k : Keystroke} (hin : e.InRange) (hk : k.focused = true)
    (h : typing.step e k = some e') : KeyStep e e' (onBuffer e.lines e.buffer k.event) := by
  obtain ⟨e'', he'', hstep⟩ := onEvent_step hin false k.isKey
  have hsame : (e.onEvent k.focused false k.event).map Prod.snd = some e' := h
  rw [hk, he''] at hsame
  obtain rfl := Option.some.inj hsame
  exact hstep

theorem valid_step_iff {k : Keystroke} (hin : e.InRange) (hvalid : Valid e.buffer.text)
    (h : typing.step e k = some e') : Valid e'.buffer.text ↔ Whole e k := by
  cases hk : k.focused with
  | false =>
    rw [unfocused_step hk h]
    refine iff_of_true hvalid fun hfocused => ?_
    rw [hk] at hfocused
    cases hfocused
  | true =>
    obtain ⟨pre, a, b, post, hat⟩ := hin.at
    have hbuffer := hat.buffer
    rw [Whole, forall_prop_of_true hk, (focused_step hin hk h).buffer, hbuffer]
    apply valid_onBuffer_iff
    rw [hbuffer] at hvalid
    exact hvalid

/-- What holds of the editor between any two keys. -/
structure Kept (e : Editor) : Prop where
  inRange : e.InRange
  valid : Valid e.buffer.text

theorem kept_of_reached (h : typing.ReachedUnder Whole e) : Kept e := by
  refine h.invariant (I := Kept) ?_ ?_
  · rintro _ ⟨e₀, text, htext, rfl⟩
    exact ⟨(Sound.setText e₀ text).inRange, valid_setText htext e₀⟩
  · intro e k e' hkept hwhole hstep
    refine ⟨?_, (valid_step_iff hkept.inRange hkept.valid hstep).mpr hwhole⟩
    cases hk : k.focused with
    | false =>
      rw [unfocused_step hk hstep]
      exact hkept.inRange
    | true => exact (focused_step hkept.inRange hk hstep).inRange

/-- Inside a line the byte before the cursor goes. -/
theorem backspace_takes (hin : e.InRange) (hcol : 0 < e.cursorCol) (hwhole : MeetsWhole e.buffer .backspace)
    (hbuffer : e'.buffer = e.buffer.backspace) : ∃ l c r,
      e.buffer = Buffer.between (l ++ String.utf8EncodeChar c) r ∧ e'.buffer = Buffer.between l r := by
  obtain ⟨pre, a, b, post, hat⟩ := hin.at
  rw [hat.col] at hcol
  obtain ⟨a, x, rfl⟩ : ∃ a' x, a = a' ++ [x] := by
    rcases List.eq_nil_or_concat a with rfl | ⟨a', x, rfl⟩
    · exact absurd hcol (Nat.lt_irrefl 0)
    · exact ⟨a', x, List.concat_eq_append⟩
  have hbetween : e.buffer = Buffer.between (before LF pre ++ a ++ [x]) (b ++ after LF post) := by
    rw [hat.buffer, List.append_assoc]
  have hascii : x.toNat < 128 := by
    rw [hbetween] at hwhole
    apply hwhole
    · simp only [Buffer.between, List.length_append, List.length_singleton]
      omega
    · simp [Buffer.between]
  obtain ⟨c, hc⟩ := exists_encode hascii
  refine ⟨before LF pre ++ a, c, b ++ after LF post, ?_, ?_⟩
  · rw [hc, hbetween]
  · rw [hbuffer, hbetween, Buffer.backspace_between]

/-- Inside a line the byte at the cursor goes. -/
theorem delete_takes (hin : e.InRange) (hcol : ∃ line ∈ e.lines[e.cursorRow]?, e.cursorCol < line.length)
    (hwhole : MeetsWhole e.buffer .delete) (hbuffer : e'.buffer = e.buffer.delete) : ∃ l c r,
      e.buffer = Buffer.between l (String.utf8EncodeChar c ++ r) ∧ e'.buffer = Buffer.between l r := by
  obtain ⟨pre, a, b, post, hat⟩ := hin.at
  obtain ⟨line, hline, hlt⟩ := hcol
  rw [hat.lines, hat.row, line_split] at hline
  obtain rfl := Option.some.inj hline
  rw [hat.col, List.length_append] at hlt
  obtain ⟨x, b, rfl⟩ := List.exists_cons_of_ne_nil (List.ne_nil_of_length_pos (l := b) (by omega))
  have hbetween : e.buffer = Buffer.between (before LF pre ++ a) (x :: (b ++ after LF post)) := hat.buffer
  have hascii : x.toNat < 128 := by
    rw [hbetween] at hwhole
    apply hwhole
    simp [Buffer.between]
  obtain ⟨c, hc⟩ := exists_encode hascii
  refine ⟨before LF pre ++ a, c, b ++ after LF post, ?_, ?_⟩
  · rw [hc, hbetween, List.singleton_append]
  · rw [hbuffer, hbetween, Buffer.delete_between]

/-- In runs in which every key meets whole characters the text is valid in each state, and the next key
keeps it so if and only if it does the same. -/
theorem keepsText_iff (h : typing.ReachedUnder Whole e) : Valid e.getText ∧ ∀ k e',
    typing.step e k = some e' → (KeepsText e k e' ↔ Whole e k) := by
  obtain ⟨hin, hvalid⟩ := kept_of_reached h
  refine ⟨(valid_getText_iff e).mpr hvalid, fun k e' hstep => ?_⟩
  have hiff := valid_step_iff hin hvalid hstep
  constructor
  · intro hkeeps
    exact hiff.mp ((valid_getText_iff e').mp hkeeps.valid)
  · intro hwhole
    refine ⟨(valid_getText_iff e').mpr (hiff.mpr hwhole), fun hk hev hcol => ?_, fun hk hev hcol => ?_⟩
    · have hmeets := hwhole hk
      have hbuffer := (focused_step hin hk hstep).buffer
      rw [hev] at hmeets hbuffer
      exact backspace_takes hin hcol hmeets hbuffer
    · have hmeets := hwhole hk
      have hbuffer := (focused_step hin hk hstep).buffer
      rw [hev] at hmeets hbuffer
      exact delete_takes hin hcol hmeets hbuffer

/-- `é`, in two bytes. -/
def accented : Bytes := [0xC3, 0xA9]

theorem accented_valid : Valid accented := ⟨['é'], by decide⟩

def endStroke : Keystroke := ⟨.endKey, true, rfl, fun _ h => by cases h⟩

def backspaceStroke : Keystroke := ⟨.backspace, true, rfl, fun _ h => by cases h⟩

theorem keepsText_iff_accented : ∃ e e', typing.run (Editor.setText {} accented) [endStroke] = some e ∧
    typing.step e backspaceStroke = some e' ∧ Valid e.getText ∧
    (KeepsText e backspaceStroke e' ↔ Whole e backspaceStroke) := by
  have hreached : typing.ReachedUnder Whole (Editor.setText {} accented) :=
    .init ⟨{}, accented, accented_valid, rfl⟩
  have hstep : ∃ e, typing.step (Editor.setText {} accented) endStroke = some e ∧
      ∃ e', typing.step e backspaceStroke = some e' := ⟨_, rfl, _, rfl⟩
  obtain ⟨e, he, e', he'⟩ := hstep
  have hend : typing.ReachedUnder Whole e :=
    .step (a := endStroke) hreached (fun _ => trivial) he
  refine ⟨e, e', ?_, he', (keepsText_iff hend).1, (keepsText_iff hend).2 _ _ he'⟩
  rw [StepSystem.System.run, he]
  rfl

/-- Backspace leaves the first byte of the character. -/
theorem character_split : ∃ e, typing.run (Editor.setText {} accented) [endStroke, backspaceStroke] = some e ∧
    e.getText = [0xC3] ∧ ¬ Valid e.getText := by
  refine ⟨_, rfl, by decide, fun h => ?_⟩
  have hsplit := (valid_erase_iff (l := [0xC3]) (r := []) accented_valid).mp h
  exact absurd hsplit (by decide)

end TextEditor.Editor

end BurpTUI
