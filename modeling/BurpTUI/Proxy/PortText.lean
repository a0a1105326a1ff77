import BurpTUI.Http.Script
import BurpTUI.Proxy.Session

namespace BurpTUI

/-- A text that `std::stoi` reads: blanks, a sign, digits and whatever follows them, with a
value that fits into 32 bits. -/
def NumericText (s : Bytes) : Prop :=
  ∃ blanks sign digits rest, s = blanks ++ (sign ++ (digits ++ rest)) ∧
    (∀ c ∈ blanks, isSpace c = true) ∧ sign ∈ [[], str "+", str "-"] ∧
    digits ≠ [] ∧ (∀ c ∈ digits, isDigit c = true) ∧ (∀ c ∈ rest.head?, isDigit c = false) ∧
    if sign = str "-" then digitsValue digits ≤ 2147483648 else digitsValue digits ≤ 2147483647

/-- Digits are neither blanks nor signs. -/
theorem isDigit_only {c : UInt8} (h : isDigit c = true) : isSpace c = false ∧ c ≠ 45 ∧ c ≠ 43 := by
  simp only [isDigit, isSpace, Bool.and_eq_true, decide_eq_true_eq, UInt8.le_iff_toNat_le,
    Bool.or_eq_false_iff, beq_eq_false_iff_ne, Bool.and_eq_false_iff, decide_eq_false_iff_not] at h ⊢
  have hn : (48 : UInt8).toNat = 48 ∧ (57 : UInt8).toNat = 57 ∧ (13 : UInt8).toNat = 13 := by decide
  refine ⟨⟨?_, Or.inr ?_⟩, ?_, ?_⟩
  · rintro rfl; exact absurd h (by decide)
  · omega
  · rintro rfl; exact absurd h (by decide)
  · rintro rfl; exact absurd h (by decide)

/-- `std::stoi` on a text that is cut into its parts. -/
theorem stoi_of_parts {blanks sign digits rest : Bytes} (hblanks : ∀ c ∈ blanks, isSpace c = true)
    (hsign : sign ∈ [[], str "+", str "-"]) (hne : digits ≠ [])
    (hdigits : ∀ c ∈ digits, isDigit c = true) (hrest : ∀ c ∈ rest.head?, isDigit c = false) :
    stoi (blanks ++ (sign ++ (digits ++ rest))) =
      let value : ℤ := if sign = str "-" then -digitsValue digits else digitsValue digits
      if -2147483648 ≤ value ∧ value ≤ 2147483647 then .ok value else .error .outOfRange := by
  have hdrop : (blanks ++ (sign ++ (digits ++ rest))).dropWhile isSpace =
      sign ++ (digits ++ rest) := by
    apply dropWhile_of_stop _ hblanks
    obtain ⟨d, ds, rfl⟩ := List.exists_cons_of_ne_nil hne
    have hd := isDigit_only (hdigits d (by simp))
    simp only [List.mem_cons, List.not_mem_nil, or_false] at hsign
    -- what follows the blanks is no blank
    rcases hsign with rfl | rfl | rfl
    · intro c hc
      have hc : d = c := by simpa using hc
      exact hc ▸ hd.1
    · intro c hc
      have hc : 43 = c := by simpa [str] using hc
      exact hc ▸ by decide
    · intro c hc
      have hc : 45 = c := by simpa [str] using hc
      exact hc ▸ by decide
  have htake : (digits ++ rest).takeWhile isDigit = digits := takeWhile_of_stop _ hdigits hrest
  have hhead : (digits ++ rest).head? ≠ some 45 ∧ (digits ++ rest).head? ≠ some 43 := by
    obtain ⟨d, ds, rfl⟩ := List.exists_cons_of_ne_nil hne
    have hd := isDigit_only (hdigits d (by simp))
    simp [hd.2.1, hd.2.2]
  simp only [List.mem_cons, List.not_mem_nil, or_false] at hsign
  unfold stoi
  rw [hdrop]
  generalize digits ++ rest = u at htake hhead
  rcases hsign with rfl | rfl | rfl
  · simp [hhead, htake, hne, show ([] : Bytes) ≠ str "-" by decide]
  · simp [htake, hne, show str "+" = [43] by decide, show ([43] : Bytes) ≠ str "-" by decide]
  · simp [htake, hne, show str "-" = [45] by decide]

theorem stoi_ok_iff (s : Bytes) : (∃ n, stoi s = .ok n) ↔ NumericText s := by
  constructor
  · rintro ⟨n, hn⟩
    -- the parts are those that the code cuts
    let t := s.dropWhile isSpace
    let sign := if t.head? = some 45 ∨ t.head? = some 43 then t.take 1 else []
    let u := if t.head? = some 45 ∨ t.head? = some 43 then t.tail else t
    have hu : t = sign ++ u := by
      simp only [sign, u]
      split
      · rw [← List.drop_one, List.take_append_drop]
      · rfl
    have hsign : sign ∈ [[], str "+", str "-"] := by
      simp only [sign]
      split
      · rename_i h
        cases ht : t with
        | nil => simp [ht] at h
        | cons c cs =>
          rw [ht] at h
          rcases h with h | h <;> simp at h <;> subst h <;> simp [str]
      · simp
    have hblanks : ∀ c ∈ s.takeWhile isSpace, isSpace c = true :=
      List.all_eq_true.mp List.all_takeWhile
    have hdigits : ∀ c ∈ u.takeWhile isDigit, isDigit c = true :=
      List.all_eq_true.mp List.all_takeWhile
    have hrest := head?_dropWhile isDigit u
    have hs : s = s.takeWhile isSpace ++ (sign ++ (u.takeWhile isDigit ++ u.dropWhile isDigit)) := by
      rw [List.takeWhile_append_dropWhile, ← hu]
      exact List.takeWhile_append_dropWhile.symm
    have hne : u.takeWhile isDigit ≠ [] := by
      intro h
      have hn' : stoi s = .error .invalidArgument := by
        simp only [u, t] at h
        simp only [stoi, h, if_true]
      rw [hn'] at hn
      cases hn
    refine ⟨_, _, _, _, hs, hblanks, hsign, hne, hdigits, hrest, ?_⟩
    rw [hs, stoi_of_parts hblanks hsign hne hdigits hrest] at hn
    dsimp only at hn
    -- the sign decides the value, and the value the range check
    split at hn <;> split at hn
    · simp only [if_true, *]; omega
    · cases hn
    · simp only [if_false, *]; omega
    · cases hn
  · rintro ⟨blanks, sign, digits, rest, rfl, hblanks, hsign, hne, hdigits, hrest, hvalue⟩
    rw [stoi_of_parts hblanks hsign hne hdigits hrest]
    refine ⟨_, if_pos ?_⟩
    split at hvalue
    · simp only [if_true, *]; omega
    · simp only [if_false, *]; omega

namespace HttpRequest

/-- The text that host and port are cut out of. -/
def authority (req : HttpRequest) : Bytes :=
  if req.method = str "CONNECT" then req.url else plainHostPort req

def authorityHost (req : HttpRequest) : Bytes := req.authority.takeWhile (· != 58)

/-- A request that is answered without looking at its port. -/
def NeedsNoPort (req : HttpRequest) : Prop :=
  req.method ≠ str "CONNECT" ∧
    (req.authority = [] ∨ isLocalEndpoint req.authorityHost req.url = true)

/-- What follows the first colon of the authority is empty or a number. -/
def PortReadable (req : HttpRequest) : Prop :=
  ∀ host port, req.authority = host ++ 58 :: port → 58 ∉ host → port = [] ∨ NumericText port

end HttpRequest

theorem splitHostPort_host (hostPort defaultPort : Bytes) :
    (splitHostPort hostPort defaultPort).1 = hostPort.takeWhile (· != 58) := by
  unfold splitHostPort
  split
  · rename_i host port hc
    have hs := Search.cut_spec hc
    have hmem : (58 : UInt8) ∉ host := Search.cut_singleton_not_mem hc
    rw [hs, List.append_assoc, takeWhile_of_stop]
    · intro c hh
      have hne : c ≠ 58 := fun e => hmem (e ▸ hh)
      simpa using hne
    · simp [str]
  · rename_i hc
    have hmem : (58 : UInt8) ∉ hostPort := by
      rw [← List.singleton_infix_iff]
      exact Search.cut_eq_none_iff.mp hc
    have htake := takeWhile_of_stop (· != 58) (a := hostPort) (b := []) (fun c hh => by
      have hne : c ≠ 58 := fun e => hmem (e ▸ hh)
      simpa using hne) (by simp)
    rw [List.append_nil] at htake
    exact htake.symm

theorem splitHostPort_port (hostPort defaultPort : Bytes) (hd : NumericText defaultPort)
    (hne : defaultPort ≠ []) :
    NumericText (orPort (splitHostPort hostPort defaultPort).2 defaultPort) ↔
      ∀ host port, hostPort = host ++ 58 :: port → 58 ∉ host → port = [] ∨ NumericText port := by
  cases hc : Search.cut (str ":") hostPort with
  | some cut =>
    obtain ⟨host, port⟩ := cut
    have hs : hostPort = host ++ 58 :: port := by
      rw [Search.cut_spec hc]
      simp [str]
    have hmem : 58 ∉ host := Search.cut_singleton_not_mem hc
    have hiff : NumericText (orPort port defaultPort) ↔ port = [] ∨ NumericText port := by
      unfold orPort
      split <;> simp [*]
    simp only [splitHostPort, hc, hiff]
    constructor
    · intro h host' port' hs' hmem'
      have hcut := Search.cut_singleton 58 host' port' hmem'
      rw [← hs'] at hcut
      have hsame : (host, port) = (host', port') := Option.some.inj (hc.symm.trans hcut)
      rw [Prod.mk.injEq] at hsame
      exact hsame.2 ▸ h
    · intro h
      exact h host port hs hmem
  | none =>
    have hnone : ∀ host port, hostPort ≠ host ++ 58 :: port := by
      intro host port hs
      apply Search.cut_eq_none_iff.mp hc
      exact ⟨host, port, by rw [hs]; simp [str]⟩
    simp only [splitHostPort, hc, orPort, hne, if_false]
    constructor
    · intro _ host port hs
      exact absurd hs (hnone host port)
    · intro _
      exact hd

theorem numericText_default : NumericText (str "443") ∧ NumericText (str "80") := by
  rw [← stoi_ok_iff, ← stoi_ok_iff]
  exact ⟨⟨443, by decide⟩, ⟨80, by decide⟩⟩

theorem map_ok_iff {α β : Type} (x : Except StdException α) (f : α → β) :
    (∃ b, x.map f = .ok b) ↔ ∃ a, x = .ok a := by
  cases x with
  | error e => simp [Except.map]
  | ok a => simp [Except.map]

theorem routeConnect_ok_iff {req : HttpRequest} (hm : req.method = str "CONNECT") :
    (∃ target, routeConnect req = .ok target) ↔ req.PortReadable := by
  unfold routeConnect HttpRequest.PortReadable HttpRequest.authority
  rw [map_ok_iff, stoi_ok_iff, if_pos hm]
  exact splitHostPort_port _ _ numericText_default.1 (by decide)

theorem routePlain_ok_iff {req : HttpRequest} (hm : req.method ≠ str "CONNECT") :
    (∃ route, routePlain req = .ok route) ↔ req.NeedsNoPort ∨ req.PortReadable := by
  have hauth : req.authority = plainHostPort req := if_neg hm
  have hhost := splitHostPort_host (plainHostPort req) (str "80")
  simp only [HttpRequest.NeedsNoPort, HttpRequest.PortReadable, HttpRequest.authorityHost, hauth,
    hm, ne_eq, not_false_iff, true_and, ← hhost]
  unfold routePlain
  dsimp only
  split
  · rename_i hempty
    simp [hempty]
  · rename_i hne
    split
    · rename_i hlocal
      simp [hlocal]
    · rename_i hlocal
      rw [map_ok_iff, stoi_ok_iff, splitHostPort_port _ _ numericText_default.2 (by decide)]
      simp [hne, hlocal]

namespace Session

variable {L : Llhttp}

theorem handleRequest_ok_iff (s : Session L) (env : Env) (req : HttpRequest) :
    (∃ s', s.handleRequest env req = .ok s') ↔ req.NeedsNoPort ∨ req.PortReadable := by
  unfold handleRequest
  dsimp only
  split
  · rename_i hm
    rw [map_ok_iff, routeConnect_ok_iff hm]
    simp [HttpRequest.NeedsNoPort, hm]
  · rename_i hm
    rw [map_ok_iff, routePlain_ok_iff hm]

/-- The parser delivers this request when the session reads these bytes. -/
def Delivers (s : Session L) (data : Bytes) (req : HttpRequest) : Prop :=
  s.isConnect = false ∧ (s.parser.feedRequest data).2 = true ∧
    ((s.parser.feedRequest data).1.takeRequest).1 = some req

instance (s : Session L) (data : Bytes) (req : HttpRequest) : Decidable (s.Delivers data req) :=
  inferInstanceAs (Decidable (_ ∧ _ ∧ _))

/-- A read raises nothing exactly if the request that it delivers has a readable port or needs
none. -/
theorem client_read_raises_nothing_iff (s : Session L) (env : Env) (data : Bytes) :
    (∃ s', s.handleClientRead env (.bytes data) = .ok s') ↔
      ∀ req, s.Delivers data req → req.NeedsNoPort ∨ req.PortReadable := by
  have hparser : (s.resetTimer.emit (.read data)).parser = s.parser := rfl
  have hconnect : (s.resetTimer.emit (.read data)).isConnect = s.isConnect := rfl
  unfold handleClientRead Delivers
  dsimp only
  rw [hparser, hconnect]
  by_cases hc : s.isConnect = true
  · simp [hc]
  · rw [if_neg hc]
    have hc : s.isConnect = false := by simpa using hc
    generalize s.parser.feedRequest data = fed
    obtain ⟨parser, ready⟩ := fed
    cases ready with
    | false =>
      simp only [Bool.false_eq_true, if_false, false_and, and_false, false_implies, implies_true,
        iff_true]
      split <;> exact ⟨_, rfl⟩
    | true =>
      dsimp only
      rw [if_pos rfl]
      generalize parser.takeRequest = taken
      obtain ⟨taken, parser⟩ := taken
      cases taken with
      | none => simp
      | some req =>
        dsimp only
        rw [handleRequest_ok_iff]
        simp [hc]

/-- `GET / HTTP/1.1` with `Host: a:b`. -/
def letterPort : RequestMessage :=
  { method := str "GET", url := str "/"
    fields := [{ name := str "Host", before := str " ", value := str "a:b" }], body := .plain [] }

def readingLetterPort : Session (scripted fun _ => letterPort.message.pieces) := started false

/-- The letter in the port ends the event loop. -/
theorem letter_port_raises :
    readingLetterPort.Delivers letterPort.message.wire letterPort.request ∧
      (¬ ∃ s', readingLetterPort.handleClientRead {} (.bytes letterPort.message.wire) = .ok s') ∧
      ((system _).run { session := readingLetterPort }
        [.complete 1 (.bytes letterPort.message.wire), .dispatch 0 {}]).map Running.loopEnded =
          some true := by
  refine ⟨by decide, ?_, by decide⟩
  rintro ⟨s', hs'⟩
  have herror : (readingLetterPort.handleClientRead {} (.bytes letterPort.message.wire)).isOk =
      false := by decide
  rw [hs'] at herror
  cases herror

end Session

end BurpTUI
