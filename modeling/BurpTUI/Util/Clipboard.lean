import BurpTUI.Base.OscReader
import BurpTUI.Util.Base64

namespace BurpTUI

namespace Rfc4648

def sextetOf (c : UInt8) : Option ℕ := (List.range 64).find? fun n => alphabet n == c

/-- The pad characters end the text. -/
def decode (x : Bytes) : Option Bytes := ((x.takeWhile (· ≠ 61)).mapM sextetOf).map octets

theorem sextetOf_alphabet : ∀ n < 64, sextetOf (alphabet n) = some n := by decide +kernel

theorem mapM_sextetOf (ns : List ℕ) (hns : ∀ n ∈ ns, n < 64) : (ns.map alphabet).mapM sextetOf = some ns := by
  induction ns with
  | nil => rfl
  | cons n ns ih =>
    rw [List.map_cons, List.mapM_cons, sextetOf_alphabet n (hns n List.mem_cons_self),
      ih fun m hm => hns m (List.mem_cons_of_mem n hm)]
    rfl

theorem decode_encode (x : Bytes) : decode (encode x) = some x := by
  have hchars : ∀ c ∈ (sextets x).map alphabet, decide (c ≠ 61) = true := by
    intro c hc
    obtain ⟨n, hn, rfl⟩ := List.mem_map.mp hc
    exact decide_eq_true (alphabet_ne_pad n (sextets_lt x n hn))
  have hpad : (List.replicate (padding x) (61 : UInt8)).takeWhile (· ≠ 61) = [] := by
    cases padding x with
    | zero => rfl
    | succ k => rfl
  rw [decode, encode, List.takeWhile_append_of_pos hchars, hpad, List.append_nil,
    mapM_sextetOf _ (sextets_lt x), Option.map_some, octets_sextets]

theorem alphabet_plain : ∀ n < 64, alphabet n ≠ Osc.BEL ∧ alphabet n ≠ Osc.ESC ∧ alphabet n ≠ Osc.CAN ∧
    alphabet n ≠ Osc.SUB := by decide

theorem encode_plain (x : Bytes) : Osc.Plain (encode x) := by
  refine .append (fun c hc => ?_) fun c hc => ?_
  · obtain ⟨n, hn, rfl⟩ := List.mem_map.mp hc
    exact alphabet_plain n (sextets_lt x n hn)
  · rw [List.eq_of_mem_replicate hc]
    decide

end Rfc4648

namespace Clipboard

open Encoding (base64Encode base64Encode_eq)

def osc52 (text : Bytes) : Bytes := [27] ++ str "]52;c;" ++ base64Encode text ++ [7]

/-- What `copy` returns, and what it writes to the terminal. -/
def copy (text : Bytes) : Bool × Bytes := if text = [] then (false, []) else (true, osc52 text)

/-- What a terminal does with a command: `52;c;` sets the clipboard. -/
def setsClipboard (command : Bytes) : Option Bytes :=
  if str "52;c;" <+: command then Rfc4648.decode (command.drop 5) else none

/-- The clipboard sequence of a text. -/
theorem osc52_eq (text : Bytes) : osc52 text = Osc.command (str "52;c;" ++ Rfc4648.encode text) := by
  rw [osc52, base64Encode_eq]
  rfl

theorem setsClipboard_encode (text : Bytes) :
    setsClipboard (str "52;c;" ++ Rfc4648.encode text) = some text := by
  rw [setsClipboard, if_pos (List.prefix_append _ _), show 5 = (str "52;c;").length from rfl, List.drop_left,
    Rfc4648.decode_encode]

/-- When all of `out` is written, these texts have come to the clipboard of the terminal. -/
def Delivered (out : Bytes) (texts : List Bytes) : Prop :=
  ∃ commands, Osc.Holds out commands ∧ commands.filterMap setsClipboard = texts

variable {out : Bytes} {texts : List Bytes}

theorem Delivered.nil : Delivered [] [] := ⟨[], .nil, rfl⟩

theorem Delivered.quiet (h : Delivered out texts) {screen : Bytes} (hq : Osc.Quiet screen) :
    Delivered (out ++ screen) texts := by
  obtain ⟨commands, hcommands, htexts⟩ := h
  exact ⟨commands, hcommands.quiet hq, htexts⟩

/-- A copied text comes to the clipboard byte for byte, whatever is in it. -/
theorem Delivered.copy (h : Delivered out texts) (text : Bytes) :
    Delivered (out ++ (copy text).2) (texts ++ if text = [] then [] else [text]) := by
  obtain ⟨commands, hcommands, rfl⟩ := h
  by_cases hempty : text = []
  · refine ⟨commands, ?_, ?_⟩
    · rw [Clipboard.copy, if_pos hempty, List.append_nil]
      exact hcommands
    · rw [if_pos hempty, List.append_nil]
  · have hplain : Osc.Plain (str "52;c;" ++ Rfc4648.encode text) :=
      .append (by decide) (Rfc4648.encode_plain text)
    refine ⟨commands ++ [str "52;c;" ++ Rfc4648.encode text], ?_, ?_⟩
    · rw [Clipboard.copy, if_neg hempty, osc52_eq]
      exact hcommands.command hplain
    · rw [if_neg hempty, List.filterMap_append, List.filterMap_cons_some (setsClipboard_encode text),
        List.filterMap_nil]

end Clipboard

end BurpTUI
