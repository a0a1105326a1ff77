import BurpTUI.Tui.EditorSafety

namespace BurpTUI

namespace TextEditor.Editor

variable {e e' e'' : Editor}

/-! What the keys leave alone. -/

structure Frame (e e' : Editor) : Prop where
  box : e'.box = e.box
  selecting : e'.selecting = e.selecting

theorem Frame.refl (e : Editor) : Frame e e := ⟨rfl, rfl⟩

theorem Frame.trans (h : Frame e e') (h' : Frame e' e'') : Frame e e'' :=
  ⟨h'.box.trans h.box, h'.selecting.trans h.selecting⟩

theorem Frame.visible (h : Frame e e') (n : ℕ) : Frame e (e'.ensureCursorVisible n) := by
  unfold ensureCursorVisible
  split
  · exact h
  · exact ⟨h.box, h.selecting⟩

theorem splitLine_frame (h : e.splitLine = some e') : Frame e e' := by
  simp only [splitLine, Option.bind_eq_bind, Option.bind_eq_some_iff, Option.some.injEq] at h
  obtain ⟨-, -, -, -, -, -, -, -, -, -, rfl⟩ := h
  exact ⟨rfl, rfl⟩

theorem insertInLine_frame {text : Bytes} (h : e.insertInLine text = some e') : Frame e e' := by
  simp only [insertInLine, Option.bind_eq_bind, Option.bind_eq_some_iff, Option.some.injEq] at h
  obtain ⟨-, -, -, -, -, -, rfl⟩ := h
  exact ⟨rfl, rfl⟩

theorem insertChar_frame {c : UInt8} (h : e.insertChar c = some e') : Frame e e' := by
  unfold insertChar at h
  split at h
  · obtain rfl := Option.some.inj h
    exact .refl e
  · split at h
    · exact splitLine_frame h
    · exact insertInLine_frame h

theorem insertString_frame {text : Bytes} (h : e.insertString text = some e') : Frame e e' := by
  unfold insertString at h
  induction text generalizing e with
  | nil =>
    obtain rfl := Option.some.inj h
    exact .refl e
  | cons c text ih =>
    rw [List.foldlM_cons] at h
    obtain ⟨m, hm, hrest⟩ := Option.bind_eq_some_iff.mp h
    exact (insertChar_frame hm).trans (ih hrest)

theorem toRow_frame {row : ℕ} (h : e.toRow row = some e') : Frame e e' := by
  obtain ⟨line, -, hline⟩ := Option.bind_eq_some_iff.mp h
  obtain rfl := Option.some.inj hline
  apply Frame.visible
  exact ⟨rfl, rfl⟩

theorem arrowLeft_frame (h : e.arrowLeft = some e') : Frame e e' := by
  unfold arrowLeft at h
  split at h
  · obtain rfl := Option.some.inj h
    exact ⟨rfl, rfl⟩
  · split at h
    · obtain ⟨line, -, hline⟩ := Option.bind_eq_some_iff.mp h
      obtain rfl := Option.some.inj hline
      apply Frame.visible
      exact ⟨rfl, rfl⟩
    · obtain rfl := Option.some.inj h
      exact .refl e

theorem arrowRight_frame (h : e.arrowRight = some e') : Frame e e' := by
  obtain ⟨line, -, h⟩ := Option.bind_eq_some_iff.mp h
  split at h
  · obtain rfl := Option.some.inj h
    exact ⟨rfl, rfl⟩
  · split at h
    · obtain rfl := Option.some.inj h
      apply Frame.visible
      exact ⟨rfl, rfl⟩
    · obtain rfl := Option.some.inj h
      exact .refl e

theorem backspace_frame (h : e.backspace = some e') : Frame e e' := by
  unfold backspace at h
  split at h
  · simp only [Option.bind_eq_bind, Option.bind_eq_some_iff, Option.some.injEq] at h
    obtain ⟨-, -, -, -, -, -, rfl⟩ := h
    exact ⟨rfl, rfl⟩
  · split at h
    · simp only [Option.bind_eq_bind, Option.bind_eq_some_iff, Option.some.injEq] at h
      obtain ⟨-, -, -, -, -, -, -, -, rfl⟩ := h
      apply Frame.visible
      exact ⟨rfl, rfl⟩
    · obtain rfl := Option.some.inj h
      exact .refl e

theorem delete_frame (h : e.delete = some e') : Frame e e' := by
  obtain ⟨line, -, h⟩ := Option.bind_eq_some_iff.mp h
  split at h
  · simp only [Option.bind_eq_bind, Option.bind_eq_some_iff, Option.some.injEq] at h
    obtain ⟨-, -, -, -, rfl⟩ := h
    exact ⟨rfl, rfl⟩
  · split at h
    · simp only [Option.bind_eq_bind, Option.bind_eq_some_iff, Option.some.injEq] at h
      obtain ⟨-, -, -, -, -, -, rfl⟩ := h
      apply Frame.visible
      exact ⟨rfl, rfl⟩
    · obtain rfl := Option.some.inj h
      exact .refl e

theorem onKey_frame {ev : Event} (h : e.onKey ev = some (some e')) : Frame e e' := by
  cases ev with
  | mouse m => cases h
  | other => cases h
  | arrowUp =>
    have hmove : e.arrowUp = some e' := Option.some.inj h
    unfold arrowUp at hmove
    split at hmove
    · exact toRow_frame hmove
    · obtain rfl := Option.some.inj hmove
      exact .refl e
  | arrowDown =>
    have hmove : e.arrowDown = some e' := Option.some.inj h
    unfold arrowDown at hmove
    split at hmove
    · exact toRow_frame hmove
    · obtain rfl := Option.some.inj hmove
      exact .refl e
  | arrowLeft => exact arrowLeft_frame (Option.some.inj h)
  | arrowRight => exact arrowRight_frame (Option.some.inj h)
  | homeKey =>
    obtain rfl := Option.some.inj (Option.some.inj h)
    exact ⟨rfl, rfl⟩
  | endKey =>
    obtain ⟨line, -, hline⟩ := Option.bind_eq_some_iff.mp (Option.some.inj h)
    obtain rfl := Option.some.inj hline
    exact ⟨rfl, rfl⟩
  | pageUp => exact toRow_frame (Option.some.inj h)
  | pageDown => exact toRow_frame (Option.some.inj h)
  | returnKey =>
    obtain ⟨m, hm, rfl⟩ := Option.map_eq_some_iff.mp (Option.some.inj h)
    exact (splitLine_frame hm).visible _
  | backspace => exact backspace_frame (Option.some.inj h)
  | delete => exact delete_frame (Option.some.inj h)
  | tab => exact insertInLine_frame (Option.some.inj h)
  | character text =>
    obtain ⟨m, hm, rfl⟩ := Option.map_eq_some_iff.mp (Option.some.inj h)
    exact (insertString_frame hm).visible _

/-! What the mouse does. -/

/-- The row of the text that the pointer is taken to be on. -/
def pointedRow (e : Editor) (m : Mouse) : ℕ :=
  clamp (e.lines.length - 1) (e.scrollY + max 0 (m.y - e.box.yMin - 1))

def pointedCol (e : Editor) (line : Bytes) (m : Mouse) : ℕ :=
  clamp line.length (max 0 (m.x - e.box.xMin - gutterWidth))

/-- One case for each branch of the source, with what the branches before it have ruled out. The
branch that would finish a selection is not among them: a release in the box while a selection is
being made is taken for a drag. -/
inductive MouseStep (e : Editor) (m : Mouse) : Editor → Prop
  | wheelUp : e.box.contain m.x m.y → m.button = .wheelUp →
      MouseStep e m { e with scrollY := e.scrollY - 3 }
  | wheelDown : e.box.contain m.x m.y → m.button = .wheelDown →
      MouseStep e m { e with scrollY := min (e.lines.length - e.visibleHeight) (e.scrollY + 3) }
  | press (line : Bytes) : e.box.contain m.x m.y → m.button = .left → m.motion = .pressed →
      e.lines[e.pointedRow m]? = some line →
      MouseStep e m { e with
        cursorRow := e.pointedRow m
        cursorCol := e.pointedCol line m
        selStartRow := e.pointedRow m
        selStartCol := e.pointedCol line m
        selEndRow := e.pointedRow m
        selEndCol := e.pointedCol line m
        selecting := true
        hasSelection := true }
  | drag (line : Bytes) : e.box.contain m.x m.y → e.selecting → m.button = .left →
      m.motion ≠ .pressed → e.lines[e.pointedRow m]? = some line →
      MouseStep e m { e with
        cursorRow := e.pointedRow m
        cursorCol := e.pointedCol line m
        selEndRow := e.pointedRow m
        selEndCol := e.pointedCol line m }
  | told (status : Bytes) : e.box.contain m.x m.y → m.button = .right → m.motion = .pressed →
      MouseStep e m { e with statusMsg := status }
  | idle : e.box.contain m.x m.y → m.button ≠ .wheelUp → m.button ≠ .wheelDown →
      (m.button = .left → m.motion ≠ .pressed ∧ e.selecting = false) → MouseStep e m e
  | leave : ¬ e.box.contain m.x m.y → e.selecting → m.motion = .released →
      MouseStep e m { e with selecting := false }
  | outside : ¬ e.box.contain m.x m.y → ¬ (e.selecting ∧ m.motion = .released) → MouseStep e m e

theorem copySelection_told {label : Bytes} (h : e.copySelection label = some e') :
    ∃ status, e' = { e with statusMsg := status } := by
  obtain ⟨sel, -, h⟩ := Option.bind_eq_some_iff.mp h
  split at h
  · exact ⟨e.statusMsg, (Option.some.inj h).symm⟩
  · exact ⟨_, (Option.some.inj h).symm⟩

theorem rightPressed_told {row col : ℕ} {copied : Bool} (h : e.rightPressed row col copied = some e') :
    ∃ status, e' = { e with statusMsg := status } := by
  unfold rightPressed at h
  split at h
  · exact copySelection_told h
  · obtain ⟨word, -, h⟩ := Option.bind_eq_some_iff.mp h
    split at h
    · obtain rfl := Option.some.inj h
      unfold copyToClipboard
      dsimp only
      split
      · exact ⟨e.statusMsg, rfl⟩
      · split
        · exact ⟨_, rfl⟩
        · exact ⟨_, rfl⟩
    · exact ⟨_, (Option.some.inj h).symm⟩

theorem onMouse_step {m : Mouse} {copied : Bool} {r : Bool × Editor} (h : e.onMouse m copied = some r) :
    MouseStep e m r.2 := by
  unfold onMouse at h
  split at h
  · rename_i hin
    obtain ⟨line, hline, h⟩ := Option.bind_eq_some_iff.mp h
    split at h
    · rename_i hup
      obtain rfl := Option.some.inj h
      exact .wheelUp hin hup
    · rename_i hup
      split at h
      · rename_i hdown
        obtain rfl := Option.some.inj h
        exact .wheelDown hin hdown
      · rename_i hdown
        split at h
        · rename_i hpress
          obtain rfl := Option.some.inj h
          exact .press line hin hpress.1 hpress.2 hline
        · rename_i hpress
          have hmotion (hleft : m.button = .left) : m.motion ≠ .pressed := fun hp => hpress ⟨hleft, hp⟩
          split at h
          · rename_i hdrag
            obtain rfl := Option.some.inj h
            exact .drag line hin hdrag.1 hdrag.2 (hmotion hdrag.2) hline
          · rename_i hdrag
            have hidle (hleft : m.button = .left) : m.motion ≠ .pressed ∧ e.selecting = false :=
              ⟨hmotion hleft, Bool.eq_false_iff.mpr fun hs => hdrag ⟨hs, hleft⟩⟩
            split at h
            · rename_i hreleased
              obtain ⟨e', he', rfl⟩ := Option.map_eq_some_iff.mp h
              rw [leftReleased, (hidle hreleased.1).2, if_neg Bool.false_ne_true] at he'
              obtain rfl := Option.some.inj he'
              exact .idle hin hup hdown hidle
            · split at h
              · rename_i hright
                obtain ⟨e', he', rfl⟩ := Option.map_eq_some_iff.mp h
                obtain ⟨status, rfl⟩ := rightPressed_told he'
                exact .told status hin hright.1 hright.2
              · obtain rfl := Option.some.inj h
                exact .idle hin hup hdown hidle
  · rename_i hout
    split at h
    · rename_i hleave
      obtain rfl := Option.some.inj h
      exact .leave hout hleave.1 hleave.2
    · rename_i hstay
      obtain rfl := Option.some.inj h
      exact .outside hout hstay

theorem MouseStep.box {m : Mouse} (h : MouseStep e m e') : e'.box = e.box := by
  cases h <;> rfl

theorem MouseStep.lines {m : Mouse} (h : MouseStep e m e') : e'.lines = e.lines := by
  cases h <;> rfl

/-- A keyboard event: a key drops the selection, and without the focus nothing happens. -/
theorem onEvent_key {focused copied : Bool} {ev : Event} {r : Bool × Editor} (hev : ∀ m, ev ≠ .mouse m)
    (h : e.onEvent focused copied ev = some r) :
    r.2 = e ∨ ∃ m, e.onKey ev = some (some m) ∧ r.2 = { m with hasSelection := false } := by
  cases hkey : e.onKey ev with
  | none =>
    rw [onEvent_unhandled hev hkey] at h
    obtain rfl := Option.some.inj h
    exact .inl rfl
  | some result =>
    cases focused with
    | false =>
      rw [onEvent_unfocused hev] at h
      obtain rfl := Option.some.inj h
      exact .inl rfl
    | true =>
      rw [onEvent_handled hev hkey] at h
      obtain ⟨m, rfl, rfl⟩ := Option.map_eq_some_iff.mp h
      exact .inr ⟨m, rfl, rfl⟩

end TextEditor.Editor

end BurpTUI
