import BurpTUI.Tui.RepeaterManager

namespace BurpTUI

section Trim

/-- `pop_back` while the last byte is a blank or a tab. -/
def trimEnd (s : Bytes) : Bytes := (s.reverse.dropWhile isBlank).reverse

theorem trimEnd_append {a : Bytes} (ha : ∀ c ∈ a.getLast?, isBlank c = false) (b : Bytes) :
    trimEnd (a ++ b) = a ++ trimEnd b := by
  have hhead : a.reverse.dropWhile isBlank = a.reverse := by
    have hstop : ∀ c ∈ a.reverse.head?, isBlank c = false := by rwa [List.head?_reverse]
    exact dropWhile_of_stop isBlank (a := []) (by simp) hstop
  have happend : (b.reverse ++ a.reverse).dropWhile isBlank =
      b.reverse.dropWhile isBlank ++ a.reverse := by
    rw [List.dropWhile_append]
    split
    · rename_i hnil
      rw [List.isEmpty_iff.mp hnil, hhead, List.nil_append]
    · rfl
  rw [trimEnd, List.reverse_append, happend, List.reverse_append, List.reverse_reverse, trimEnd]

theorem trimEnd_blanks {s : Bytes} (h : ∀ c ∈ s, isBlank c = true) : trimEnd s = [] := by
  have hnil : s.reverse.dropWhile isBlank = [] := by
    have hall := dropWhile_of_stop isBlank (b := []) (fun c hc => h c (List.mem_reverse.mp hc)) (by simp)
    rwa [List.append_nil] at hall
  rw [trimEnd, hnil, List.reverse_nil]

/-- The blanks around a text are cut off, up to its first and last bytes that are none. -/
theorem trimBlanks_append {before a : Bytes} (hbefore : ∀ c ∈ before, isBlank c = true)
    (hne : a ≠ []) (hhead : ∀ c ∈ a.head?, isBlank c = false)
    (hlast : ∀ c ∈ a.getLast?, isBlank c = false) (b : Bytes) :
    trimBlanks (before ++ (a ++ b)) = a ++ trimEnd b := by
  have hdrop : (before ++ (a ++ b)).dropWhile isBlank = a ++ b := by
    apply dropWhile_of_stop isBlank hbefore
    rwa [List.head?_append_of_ne_nil a hne]
  rw [trimBlanks, hdrop]
  exact trimEnd_append hlast b

theorem trimBlanks_infix (s : Bytes) : trimBlanks s <:+: s := by
  have hend : trimEnd (s.dropWhile isBlank) <+: s.dropWhile isBlank := by
    rw [← List.reverse_suffix, trimEnd, List.reverse_reverse]
    exact List.dropWhile_suffix _
  exact hend.isInfix.trans (List.dropWhile_suffix _).isInfix

end Trim

/-- A registered name or an address in dotted notation. -/
def IsName (host : Bytes) : Prop := host ≠ [] ∧ ∀ c ∈ host, c ∉ str ":/?#[]@" ∧ isBlank c = false

/-- An address in brackets. -/
def IsLiteral (host : Bytes) : Prop :=
  ∃ address, host = 91 :: (address ++ [93]) ∧ ∀ c ∈ address, c ∉ str "/?#[]@" ∧ isBlank c = false

/-- A host text that is written as the field of the window expects it. -/
structure WrittenHost where
  before : Bytes
  scheme : Option Bool
  host : Bytes
  port : Option Bytes
  path : Bytes
  after : Bytes
  before_blank : ∀ c ∈ before, isBlank c = true
  host_named : IsName host ∨ IsLiteral host
  port_decimal : ∀ p ∈ port, p ≠ [] ∧ ∀ c ∈ p, isDigit c = true
  path_rooted : path = [] ∨ ∃ p, path = 47 :: p
  after_blank : ∀ c ∈ after, isBlank c = true

namespace WrittenHost

variable (w : WrittenHost)

def schemeText : Bytes :=
  match w.scheme with
  | some true => str "https://"
  | some false => str "http://"
  | none => []

def portText : Bytes :=
  match w.port with
  | some p => 58 :: p
  | none => []

def text : Bytes :=
  w.before ++ (w.schemeText ++ (w.host ++ w.portText)) ++ (w.path ++ w.after)

/-- The server that the text names, with the port and the scheme of the other fields where it names
none. -/
def target (port : Bytes) (isHttps : Bool) : Target :=
  let isHttps := w.scheme.getD isHttps
  { host := w.host
    port := w.port.getD (if port = [] then schemePort isHttps else port)
    isHttps := isHttps }

/-- Host and port, as they are written. -/
def authority : Bytes := w.host ++ w.portText

theorem slash_not_mem_host : 47 ∉ w.host := by
  intro hmem
  rcases w.host_named with h | ⟨address, hhost, h⟩
  · exact (h.2 47 hmem).1 (by decide)
  · rw [hhost, List.mem_cons, List.mem_append, List.mem_singleton] at hmem
    rcases hmem with hmem | hmem | hmem
    · exact absurd hmem (by decide)
    · exact (h 47 hmem).1 (by decide)
    · exact absurd hmem (by decide)

theorem host_ne_nil : w.host ≠ [] := by
  rcases w.host_named with h | ⟨address, hhost, -⟩
  · exact h.1
  · rw [hhost]
    simp

theorem slash_not_mem : 47 ∉ w.authority := by
  rw [authority, List.mem_append, not_or]
  refine ⟨w.slash_not_mem_host, fun hmem => ?_⟩
  unfold portText at hmem
  split at hmem
  · rename_i p hp
    rcases List.mem_cons.mp hmem with h | h
    · exact absurd h (by decide)
    · exact absurd ((w.port_decimal p hp).2 47 h) (by decide)
  · cases hmem

theorem host_head : ∀ c ∈ w.host.head?, isBlank c = false := by
  intro c hc
  rcases w.host_named with h | ⟨address, hhost, -⟩
  · exact (h.2 c (List.mem_of_mem_head? hc)).2
  · rw [hhost] at hc
    have hopen : 91 = c := by simpa using hc
    exact hopen ▸ by decide

/-- The authority ends in a byte of a name, in a bracket or in a digit. -/
theorem authority_last : ∀ c ∈ w.authority.getLast?, isBlank c = false ∧ c ≠ 58 := by
  have hhost : ∀ c ∈ w.host.getLast?, isBlank c = false ∧ c ≠ 58 := by
    intro c hc
    rcases w.host_named with h | ⟨address, hhost, -⟩
    · obtain ⟨hother, hblank⟩ := h.2 c (List.mem_of_mem_getLast? hc)
      exact ⟨hblank, fun e => hother (e ▸ by decide)⟩
    · rw [hhost] at hc
      have hclose : 93 = c := by simpa [List.getLast?_cons] using hc
      exact hclose ▸ by decide
  unfold authority portText
  split
  · rename_i p hp
    obtain ⟨hne, hdigits⟩ := w.port_decimal p hp
    have hlast : (w.host ++ 58 :: p).getLast? = p.getLast? := by
      rw [List.getLast?_append_of_ne_nil _ (by simp), List.getLast?_cons_of_ne_nil hne]
    rw [hlast]
    intro c hc
    have hdigit := hdigits c (List.mem_of_mem_getLast? hc)
    constructor
    · by_contra hblank
      have hc : c = 32 ∨ c = 9 := by simpa [isBlank, or_iff_not_imp_left] using hblank
      rcases hc with rfl | rfl <;> exact absurd hdigit (by decide)
    · rintro rfl
      exact absurd hdigit (by decide)
  · rwa [List.append_nil]

theorem authority_ne_nil : w.authority ≠ [] := by
  intro h
  exact w.host_ne_nil (List.append_eq_nil_iff.mp h).1

theorem trimBlanks_text : ∃ rest, (rest = [] ∨ ∃ p, rest = 47 :: p) ∧
    trimBlanks w.text = w.schemeText ++ (w.authority ++ rest) := by
  have hhead : ∀ c ∈ (w.schemeText ++ w.authority).head?, isBlank c = false := by
    unfold schemeText
    split
    · intro c hc
      have hh : 104 = c := by simpa [str] using hc
      exact hh ▸ by decide
    · intro c hc
      have hh : 104 = c := by simpa [str] using hc
      exact hh ▸ by decide
    · rw [List.nil_append, authority, List.head?_append_of_ne_nil _ w.host_ne_nil]
      exact w.host_head
  have hlast : ∀ c ∈ (w.schemeText ++ w.authority).getLast?, isBlank c = false := by
    rw [List.getLast?_append_of_ne_nil _ w.authority_ne_nil]
    exact fun c hc => (w.authority_last c hc).1
  have hne : w.schemeText ++ w.authority ≠ [] := fun h => w.authority_ne_nil (List.append_eq_nil_iff.mp h).2
  have htrim := trimBlanks_append w.before_blank hne hhead hlast (w.path ++ w.after)
  refine ⟨trimEnd (w.path ++ w.after), ?_, ?_⟩
  · rcases w.path_rooted with hpath | ⟨p, hpath⟩
    · left
      rw [hpath, List.nil_append, trimEnd_blanks w.after_blank]
    · right
      have hslash := trimEnd_append (a := [47]) (by simp [isBlank]) (p ++ w.after)
      rw [hpath]
      exact ⟨_, hslash⟩
  · rw [← List.append_assoc, ← htrim, text, authority]
    simp

/-- No authority can be read as a scheme. -/
theorem not_scheme {rest scheme : Bytes} (hrest : rest = [] ∨ ∃ p, rest = 47 :: p)
    (hscheme : 47 ∉ scheme) : ¬ scheme ++ str "://" <+: w.authority ++ rest := by
  rintro ⟨z, hz⟩
  -- both readings of the text are cut at its first slash
  have hleft : Search.cut (str "/") (scheme ++ str "://" ++ z) = some (scheme ++ [58], 47 :: z) := by
    have hmem : 47 ∉ scheme ++ [58] := by
      rw [List.mem_append, not_or]
      exact ⟨hscheme, by decide⟩
    have hcut := Search.cut_singleton 47 (scheme ++ [58]) (47 :: z) hmem
    have hsplit : scheme ++ str "://" ++ z = scheme ++ [58] ++ 47 :: 47 :: z := by simp [str]
    rw [hsplit]
    exact hcut
  rw [hz] at hleft
  rcases hrest with rfl | ⟨p, rfl⟩
  · rw [List.append_nil] at hleft
    have hmem := w.slash_not_mem
    rw [← Search.cut_singleton_eq_none_iff] at hmem
    exact absurd (hmem.symm.trans hleft) (by simp)
  · have hright := Search.cut_singleton 47 w.authority p w.slash_not_mem
    have hsame := Option.some.inj (hright.symm.trans hleft)
    rw [Prod.mk.injEq] at hsame
    have hlast := (w.authority_last 58 (by rw [hsame.1]; simp)).2
    exact hlast rfl

theorem cutScheme_text {rest : Bytes} (hrest : rest = [] ∨ ∃ p, rest = 47 :: p) (isHttps : Bool) :
    cutScheme (w.schemeText ++ (w.authority ++ rest)) isHttps =
      (w.authority ++ rest, w.scheme.getD isHttps) := by
  have hhttps : ¬ str "https://" <+: w.authority ++ rest :=
    w.not_scheme hrest (show 47 ∉ str "https" by decide)
  have hhttp : ¬ str "http://" <+: w.authority ++ rest :=
    w.not_scheme hrest (show 47 ∉ str "http" by decide)
  unfold cutScheme schemeText
  cases hw : w.scheme with
  | none =>
    rw [List.nil_append, if_neg (List.isPrefixOf_iff_prefix.not.mpr hhttps),
      if_neg (List.isPrefixOf_iff_prefix.not.mpr hhttp)]
    rfl
  | some https =>
    cases https with
    | true => rfl
    | false => rfl

theorem cutPath_text {rest : Bytes} (hrest : rest = [] ∨ ∃ p, rest = 47 :: p) :
    cutPath (w.authority ++ rest) = w.authority := by
  unfold cutPath
  rcases hrest with rfl | ⟨p, rfl⟩
  · have hnone : Search.cut (str "/") w.authority = none :=
      Search.cut_singleton_eq_none_iff.mpr w.slash_not_mem
    rw [List.append_nil, hnone]
  · have hcut : Search.cut (str "/") (w.authority ++ 47 :: p) = some (w.authority, p) :=
      Search.cut_singleton 47 w.authority p w.slash_not_mem
    rw [hcut]

end WrittenHost

/-- Host and port text that `executeRequest` finds in a host field. -/
theorem deriveTarget_text (w : WrittenHost) (port : Bytes) (isHttps : Bool) :
    deriveTarget ⟨w.text, port, isHttps⟩ =
      { host := (cutPort w.authority port).1
        port := if (cutPort w.authority port).2 = [] then schemePort (w.scheme.getD isHttps)
          else (cutPort w.authority port).2
        isHttps := w.scheme.getD isHttps } := by
  obtain ⟨rest, hrest, htrim⟩ := w.trimBlanks_text
  unfold deriveTarget
  dsimp only
  rw [htrim, w.cutScheme_text hrest]
  dsimp only
  rw [w.cutPath_text hrest]

theorem cutPort_bracket {host : Bytes} (h : 93 ∈ host) (port : Bytes) : cutPort host port = (host, port) := by
  unfold cutPort
  split
  · exact if_pos h
  · rfl

theorem cutPort_bare {host : Bytes} (h : 58 ∉ host) (port : Bytes) : cutPort host port = (host, port) := by
  rw [cutPort, Search.cutLast_eq_none_iff.mpr h]

theorem cutPort_append {host p : Bytes} (hp : 58 ∉ p) (h : 93 ∉ host ++ 58 :: p) (port : Bytes) :
    cutPort (host ++ 58 :: p) port = (host, p) := by
  rw [cutPort, Search.cutLast_append host hp]
  exact if_neg h

/-- The server that the host field names is found exactly if it is not an address in brackets with a
port. -/
theorem deriveTarget_text_iff (w : WrittenHost) (port : Bytes) (isHttps : Bool) :
    deriveTarget ⟨w.text, port, isHttps⟩ = w.target port isHttps ↔
      ¬ (IsLiteral w.host ∧ w.port.isSome = true) := by
  rw [deriveTarget_text]
  unfold WrittenHost.target WrittenHost.authority WrittenHost.portText
  cases hp : w.port with
  | none =>
    have hcut : cutPort w.host port = (w.host, port) := by
      rcases w.host_named with h | ⟨address, hhost, -⟩
      · exact cutPort_bare (fun hmem => (h.2 58 hmem).1 (by decide)) port
      · exact cutPort_bracket (by rw [hhost]; simp) port
    rw [List.append_nil, hcut]
    simp
  | some p =>
    obtain ⟨hne, hdigits⟩ := w.port_decimal p hp
    have hcolon : 58 ∉ p := fun hmem => absurd (hdigits 58 hmem) (by decide)
    have hbracket : 93 ∉ p := fun hmem => absurd (hdigits 93 hmem) (by decide)
    by_cases hliteral : IsLiteral w.host
    · have hcut : cutPort (w.host ++ 58 :: p) port = (w.host ++ 58 :: p, port) := by
        obtain ⟨address, hhost, -⟩ := hliteral
        exact cutPort_bracket (by rw [hhost]; simp) port
      rw [hcut]
      simp [hliteral]
    · have hname := w.host_named.resolve_right hliteral
      have hcut : cutPort (w.host ++ 58 :: p) port = (w.host, p) := by
        apply cutPort_append hcolon
        rw [List.mem_append, List.mem_cons, not_or, not_or]
        exact ⟨fun hmem => (hname.2 93 hmem).1 (by decide), by decide, hbracket⟩
      rw [hcut]
      simp [hliteral, hne]

section Again

/-- What stands between the scheme and the first slash of a host text. -/
def authorityPart (host : Bytes) : Bytes := cutPath (cutScheme (trimBlanks host) false).1

/-- The host ends at the only colon, or at none if there is a bracket, and has no blanks around it. -/
def Repeatable (host : Bytes) : Prop :=
  let authority := authorityPart host
  if 93 ∈ authority then trimBlanks authority = authority
  else authority.count 58 ≤ 1 ∧
    trimBlanks (authority.takeWhile (· != 58)) = authority.takeWhile (· != 58)

theorem cutScheme_fst (host : Bytes) (isHttps : Bool) :
    (cutScheme host isHttps).1 = (cutScheme host false).1 := by
  unfold cutScheme
  split
  · rfl
  · split <;> rfl

theorem slash_not_mem_cutPath (host : Bytes) : 47 ∉ cutPath host := by
  unfold cutPath
  split
  · rename_i authority path hcut
    exact Search.cut_singleton_not_mem hcut
  · rename_i hcut
    exact Search.cut_singleton_eq_none_iff.mp hcut

theorem cutScheme_bare {host : Bytes} (h : 47 ∉ host) (isHttps : Bool) :
    cutScheme host isHttps = (host, isHttps) := by
  have hnot {scheme : Bytes} (hs : 47 ∈ scheme) : ¬ scheme.isPrefixOf host = true := fun hp =>
    h ((List.isPrefixOf_iff_prefix.mp hp).subset hs)
  rw [cutScheme, if_neg (hnot (by decide)), if_neg (hnot (by decide))]

theorem cutPath_bare {host : Bytes} (h : 47 ∉ host) : cutPath host = host := by
  have hnone : Search.cut (str "/") host = none := Search.cut_singleton_eq_none_iff.mpr h
  rw [cutPath, hnone]

theorem schemePort_ne_nil (isHttps : Bool) : schemePort isHttps ≠ [] := by
  cases isHttps <;> decide

theorem takeWhile_colon {a b : Bytes} (ha : 58 ∉ a) (hb : ∀ c ∈ b.head?, c = 58) :
    (a ++ b).takeWhile (· != 58) = a := by
  apply takeWhile_of_stop
  · intro c hc
    have hne : c ≠ 58 := fun e => ha (e ▸ hc)
    simpa using hne
  · intro c hc
    simpa using hb c hc

/-- A target that is derived from itself. -/
theorem deriveTarget_eq_self_iff {host port : Bytes} {isHttps : Bool} (hslash : 47 ∉ host)
    (hport : port ≠ []) : deriveTarget ⟨host, port, isHttps⟩ = ⟨host, port, isHttps⟩ ↔
      trimBlanks host = host ∧ (58 ∈ host → 93 ∈ host) := by
  have hpart := trimBlanks_infix host
  have hslash' : 47 ∉ trimBlanks host := fun hmem => hslash (hpart.subset hmem)
  have hderived : deriveTarget ⟨host, port, isHttps⟩ =
      { host := (cutPort (trimBlanks host) port).1
        port := if (cutPort (trimBlanks host) port).2 = [] then schemePort isHttps
          else (cutPort (trimBlanks host) port).2
        isHttps := isHttps } := by
    unfold deriveTarget
    dsimp only
    rw [cutScheme_bare hslash']
    dsimp only
    rw [cutPath_bare hslash']
  rw [hderived, Target.mk.injEq]
  constructor
  · rintro ⟨hhost, -, -⟩
    by_cases hcolon : 58 ∈ trimBlanks host ∧ 93 ∉ trimBlanks host
    · -- the host is shorter after the cut
      obtain ⟨⟨a, b⟩, hcut⟩ := Option.ne_none_iff_exists'.mp
        (Search.cutLast_eq_none_iff.not.mpr (not_not.mpr hcolon.1))
      have hs := congrArg List.length (Search.cutLast_spec hcut).1
      have ha : a = host := by
        rw [cutPort, hcut] at hhost
        simpa [hcolon.2] using hhost
      have hle := hpart.length_le
      rw [ha, List.length_append, List.length_cons] at hs
      omega
    · have hsame : (cutPort (trimBlanks host) port).1 = trimBlanks host := by
        by_cases h58 : 58 ∈ trimBlanks host
        · have h93 : 93 ∈ trimBlanks host := by
            by_contra hn
            exact hcolon ⟨h58, hn⟩
          rw [cutPort_bracket h93]
        · rw [cutPort_bare h58]
      rw [hsame] at hhost
      rw [hhost] at hcolon
      refine ⟨hhost, fun h58 => ?_⟩
      by_contra h93
      exact hcolon ⟨h58, h93⟩
  · rintro ⟨htrim, hcolon⟩
    have hcut : cutPort host port = (host, port) := by
      by_cases h58 : 58 ∈ host
      · exact cutPort_bracket (hcolon h58) port
      · exact cutPort_bare h58 port
    rw [htrim, hcut]
    exact ⟨rfl, if_neg hport, rfl⟩

theorem deriveTarget_again_iff (host port : Bytes) (isHttps : Bool) :
    deriveTarget (deriveTarget ⟨host, port, isHttps⟩) = deriveTarget ⟨host, port, isHttps⟩ ↔
      Repeatable host := by
  obtain ⟨x, hx⟩ : ∃ x, x = authorityPart host := ⟨_, rfl⟩
  have hderived : deriveTarget ⟨host, port, isHttps⟩ =
      { host := (cutPort x port).1
        port := if (cutPort x port).2 = [] then schemePort (cutScheme (trimBlanks host) isHttps).2
          else (cutPort x port).2
        isHttps := (cutScheme (trimBlanks host) isHttps).2 } := by
    rw [hx, authorityPart, ← cutScheme_fst _ isHttps]
    rfl
  have hslash : 47 ∉ x := by
    rw [hx]
    exact slash_not_mem_cutPath _
  have hgiven (p : Bytes) : (if p = [] then schemePort (cutScheme (trimBlanks host) isHttps).2 else p) ≠ [] := by
    split
    · exact schemePort_ne_nil _
    · assumption
  unfold Repeatable
  rw [hderived, ← hx]
  dsimp only
  -- a closing bracket keeps the port from being cut
  by_cases h93 : 93 ∈ x
  · rw [cutPort_bracket h93, deriveTarget_eq_self_iff hslash (hgiven _), if_pos h93]
    exact ⟨fun h => h.1, fun h => ⟨h, fun _ => h93⟩⟩
  · rw [if_neg h93]
    by_cases h58 : 58 ∈ x
    · obtain ⟨⟨a, b⟩, hcut⟩ := Option.ne_none_iff_exists'.mp
        (Search.cutLast_eq_none_iff.not.mpr (not_not.mpr h58))
      obtain ⟨rfl, hb⟩ := Search.cutLast_spec hcut
      have ha47 : 47 ∉ a := fun hmem => hslash (List.mem_append_left _ hmem)
      have ha93 : 93 ∉ a := fun hmem => h93 (List.mem_append_left _ hmem)
      -- the second time is harmless if the cut took the only colon
      have hcount : (a ++ 58 :: b).count 58 ≤ 1 ↔ 58 ∉ a := by
        rw [List.count_append, List.count_cons_self, List.count_eq_zero.mpr hb, ← List.count_eq_zero]
        omega
      rw [cutPort_append hb h93, deriveTarget_eq_self_iff ha47 (hgiven _), hcount, and_comm]
      have hbare : (58 ∈ a → 93 ∈ a) ↔ 58 ∉ a := ⟨fun h hmem => ha93 (h hmem), fun h hmem => absurd hmem h⟩
      rw [hbare]
      apply and_congr_right
      intro hmem
      rw [takeWhile_colon (b := 58 :: b) hmem (by simp)]
    · have htake := takeWhile_colon (b := []) h58 (by simp)
      rw [List.append_nil] at htake
      rw [cutPort_bare h58, deriveTarget_eq_self_iff hslash (hgiven _), htake, List.count_eq_zero.mpr h58]
      exact ⟨fun h => ⟨by omega, h.1⟩, fun h => ⟨h.2, fun hmem => absurd hmem h58⟩⟩

end Again

/-- The targets of two requests, the second one sent when the first is done. -/
def sentTargets (m : RepeaterManager) : Option (Target × Target) := do
  let (m, first) ← m.executeRequest
  let (_, second) ← { m with isSending := false }.executeRequest
  some (first.target, second.target)

theorem sentTargets_eq {m : RepeaterManager} (h : m.isSending = false) :
    sentTargets m = some (deriveTarget m.target, deriveTarget (deriveTarget m.target)) := by
  simp [sentTargets, RepeaterManager.executeRequest, h]

/-- The server that the host field names is the one that is contacted, and so it is a second time. -/
structure TargetKept (host port : Bytes) (isHttps : Bool) : Prop where
  written : ∀ w : WrittenHost, w.text = host → deriveTarget ⟨host, port, isHttps⟩ = w.target port isHttps
  again : ∀ m : RepeaterManager, m.isSending = false → m.target = ⟨host, port, isHttps⟩ →
    ∃ t, sentTargets m = some (t, t)

/-- So it is exactly if the field holds no address in brackets with a port and its authority can be
derived again. -/
theorem target_kept_iff (host port : Bytes) (isHttps : Bool) : TargetKept host port isHttps ↔
    (∀ w : WrittenHost, w.text = host → ¬ (IsLiteral w.host ∧ w.port.isSome = true)) ∧ Repeatable host := by
  have hagain := deriveTarget_again_iff host port isHttps
  constructor
  · intro h
    refine ⟨fun w hw => ?_, hagain.mp ?_⟩
    · rw [← deriveTarget_text_iff w port isHttps, hw]
      exact h.written w hw
    · obtain ⟨t, ht⟩ := h.again { target := ⟨host, port, isHttps⟩ } rfl rfl
      rw [sentTargets_eq rfl, Option.some.injEq, Prod.mk.injEq] at ht
      exact ht.2.trans ht.1.symm
  · rintro ⟨hwritten, hrepeat⟩
    refine ⟨fun w hw => ?_, fun m hidle hm => ?_⟩
    · rw [← hw, deriveTarget_text_iff w port isHttps]
      exact hwritten w hw
    · rw [sentTargets_eq hidle, hm, hagain.mpr hrepeat]
      exact ⟨_, rfl⟩

/-- An address in brackets with a port. -/
def bracketedHost : WrittenHost where
  before := []
  scheme := none
  host := str "[::1]"
  port := some (str "8080")
  path := []
  after := []
  before_blank := by decide
  host_named := .inr ⟨str "::1", rfl, by decide⟩
  port_decimal := by decide
  path_rooted := .inl rfl
  after_blank := by decide

/-- The port stays with the host, and a second colon is cut off by the second attempt only. -/
theorem target_not_kept : (∃ w : WrittenHost, w.text = str "[::1]:8080" ∧
      deriveTarget ⟨w.text, str "443", true⟩ ≠ w.target (str "443") true) ∧
    deriveTarget ⟨str "a:b:80", [], false⟩ = ⟨str "a:b", str "80", false⟩ ∧
    deriveTarget (deriveTarget ⟨str "a:b:80", [], false⟩) = ⟨str "a", str "b", false⟩ ∧
    ¬ TargetKept (str "[::1]:8080") (str "443") true ∧ ¬ TargetKept (str "a:b:80") [] false := by
  have hbracket : deriveTarget ⟨str "[::1]:8080", str "443", true⟩ ≠ bracketedHost.target (str "443") true := by
    decide
  refine ⟨⟨bracketedHost, rfl, hbracket⟩, by decide, by decide, fun h => ?_, fun h => ?_⟩
  · exact hbracket (h.written bracketedHost rfl)
  · obtain ⟨t, ht⟩ := h.again { target := ⟨str "a:b:80", [], false⟩ } rfl rfl
    rw [sentTargets_eq rfl, Option.some.injEq, Prod.mk.injEq] at ht
    exact absurd (ht.1.trans ht.2.symm) (by decide)

end BurpTUI
