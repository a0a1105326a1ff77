import BurpTUI.Http.Framing
import BurpTUI.Proxy.MitmSession
import Mathlib.Data.List.DropRight
import Mathlib.Data.List.Forall2

namespace BurpTUI

def lowered (s : Bytes) : Bytes := s.map toLower

/-- A connection option in lower case, without the blanks around it. -/
def bareOption (p : Bytes) : Bytes := trimBlanks (lowered p)

/-- The connection options of a value stand between commas. -/
def options (value : Bytes) : List Bytes := value.splitOn 44

/-- The letter case of `close` or `keep-alive` may change. -/
def RecasedOption (p p' : Bytes) : Prop :=
  p' = p ∨ lowered p' = lowered p ∧ (bareOption p = str "close" ∨ bareOption p = str "keep-alive")

def RecasedValue (v v' : Bytes) : Prop := List.Forall₂ RecasedOption (options v) (options v')

/-- The letter case of the name may change, and that of the connection options in the value. -/
def RecasedHeader (h h' : Header) : Prop :=
  lowered h'.1 = lowered h.1 ∧
    (h'.2 = h.2 ∨ lowered h.1 = str "connection" ∧ RecasedValue h.2 h'.2)

def RecasedHeaders (hs hs' : List Header) : Prop := List.Forall₂ RecasedHeader hs hs'

/-- The decision of `Session::handleClientRead` about a request: a CONNECT target, or what is done
with a plain request. -/
def routing (req : HttpRequest) : Except StdException (ConnectTarget ⊕ Route) :=
  if req.method = str "CONNECT" then (routeConnect req).map .inl else (routePlain req).map .inr

/-- No change of letter case in the headers changes a decision. -/
def CaseBlind (req : HttpRequest) (res : HttpResponse) : Prop :=
  ∀ hs hs', RecasedHeaders req.headers hs → RecasedHeaders res.headers hs' →
    routing { req with headers := hs } = routing req ∧
      Session.keepAlive { req with headers := hs } { res with headers := hs' } =
        Session.keepAlive req res ∧
      MitmSession.keepAlive (some { req with headers := hs }) { res with headers := hs' } =
        MitmSession.keepAlive (some req) res

theorem RecasedHeader.refl (h : Header) : RecasedHeader h h := ⟨rfl, Or.inl rfl⟩

theorem RecasedHeaders.refl (hs : List Header) : RecasedHeaders hs hs :=
  List.forall₂_same.mpr fun h _ => .refl h

theorem exists_of_forall₂ {α β : Type*} {r : α → β → Prop} {l : List α} {l' : List β}
    (hr : List.Forall₂ r l l') {y : β} (hy : y ∈ l') : ∃ x ∈ l, r x y := by
  induction hr with
  | nil => cases hy
  | cons hd _ ih =>
    rcases List.mem_cons.mp hy with rfl | hy
    · exact ⟨_, List.mem_cons_self, hd⟩
    · obtain ⟨x, hx, hxy⟩ := ih hy
      exact ⟨x, List.mem_cons_of_mem _ hx, hxy⟩

/-! Which values a lookup can see: none, or the one of any header with that name in any case. -/

theorem headerValue_cases (hs : List Header) (name : Bytes) :
    headerValue hs name = [] ∨ ∃ h ∈ hs, h.1 = name ∧ headerValue hs name = h.2 := by
  unfold headerValue
  cases hf : hs.find? fun h => h.1 == name with
  | none => exact Or.inl rfl
  | some h =>
    right
    refine ⟨h, List.mem_of_find?_eq_some hf, ?_, rfl⟩
    simpa using List.find?_some hf

/-- The headers with one name are written in lower case. -/
def hide (name : Bytes) (hs : List Header) : List Header :=
  hs.map fun h => if lowered h.1 = lowered name then (lowered name, h.2) else h

theorem toLower_toLower (c : UInt8) : toLower (toLower c) = toLower c := by
  apply forall_byte (p := fun c => toLower (toLower c) = toLower c)
  decide +kernel

theorem lowered_lowered (s : Bytes) : lowered (lowered s) = lowered s := by
  unfold lowered
  rw [List.map_map]
  apply List.map_congr_left
  intro c _
  exact toLower_toLower c

theorem recased_hide (name : Bytes) (hs : List Header) : RecasedHeaders hs (hide name hs) := by
  unfold RecasedHeaders hide
  rw [List.forall₂_map_right_iff]
  apply List.forall₂_same.mpr
  intro h _
  split
  · rename_i heq
    exact ⟨(lowered_lowered name).trans heq.symm, Or.inl rfl⟩
  · exact .refl h

/-- A name with a capital letter finds none of the hidden headers. -/
theorem headerValue_hide {name : Bytes} (hname : name ≠ lowered name) (hs : List Header) :
    headerValue (hide name hs) name = [] := by
  rcases headerValue_cases (hide name hs) name with h | ⟨h, hmem, heq, -⟩
  · exact h
  · obtain ⟨h₀, -, rfl⟩ := List.mem_map.mp hmem
    split at heq
    · exact absurd heq.symm hname
    · rename_i hne
      exact absurd (congrArg lowered heq) hne

/-- One header with that name can be made the one that is found. -/
theorem exists_shown {name : Bytes} (hname : name ≠ lowered name) {hs : List Header} {h : Header}
    (hmem : h ∈ hs) (hlow : lowered h.1 = lowered name) {v : Bytes}
    (hv : v = h.2 ∨ lowered h.1 = str "connection" ∧ RecasedValue h.2 v) :
    ∃ hs', RecasedHeaders hs hs' ∧ headerValue hs' name = v := by
  obtain ⟨pre, post, rfl⟩ := List.append_of_mem hmem
  refine ⟨hide name pre ++ (name, v) :: post, ?_, ?_⟩
  · apply List.rel_append
    · exact recased_hide name pre
    · exact .cons ⟨hlow.symm, hv⟩ (RecasedHeaders.refl post)
  · have hnone : (hide name pre).find? (fun h => h.1 == name) = none := by
      rw [List.find?_eq_none]
      intro h' hh'
      obtain ⟨h₀, -, rfl⟩ := List.mem_map.mp hh'
      split
      · simpa using Ne.symm hname
      · rename_i hne
        simpa using fun heq => hne (congrArg lowered heq)
    simp [headerValue, List.find?_append, hnone]

/-! The connection options. -/

/-- The word stands in the value, or could stand there in another letter case. -/
def MayShow (w v : Bytes) : Prop :=
  Search.contains w v = true ∨ ∃ p ∈ options v, bareOption p = w

instance (w v : Bytes) : Decidable (MayShow w v) :=
  inferInstanceAs (Decidable (Search.contains w v = true ∨ ∃ p ∈ options v, bareOption p = w))

/-- The two words that the code looks for. -/
def IsWord (w : Bytes) : Prop := w = str "close" ∨ w = str "keep-alive"

theorem IsWord.ne_nil {w : Bytes} (hw : IsWord w) : w ≠ [] := by
  rcases hw with rfl | rfl <;> decide

theorem IsWord.comma {w : Bytes} (hw : IsWord w) : (44 : UInt8) ∉ w := by
  rcases hw with rfl | rfl <;> decide

theorem IsWord.blank {w : Bytes} (hw : IsWord w) {c : UInt8} (hc : isBlank c) : c ∉ w := by
  intro hmem
  have hall : ∀ c ∈ w, isBlank c = false := by
    rcases hw with rfl | rfl <;> decide
  simp [hall c hmem] at hc

theorem IsWord.lowered {w : Bytes} (hw : IsWord w) : lowered w = w := by
  rcases hw with rfl | rfl <;> decide

/-- Neither word is a part of the other. -/
theorem IsWord.eq_of_contains {w o : Bytes} (hw : IsWord w) (ho : IsWord o)
    (h : Search.contains w o = true) : o = w := by
  revert h
  rcases hw with rfl | rfl <;> rcases ho with rfl | rfl <;> decide

/-- The blanks around an option do not matter to the search for a word. -/
theorem contains_bareOption {w : Bytes} (hw : IsWord w) (p : Bytes) :
    Search.contains w (lowered p) = Search.contains w (bareOption p) := by
  have hsplit : lowered p = (lowered p).takeWhile isBlank ++ bareOption p ++
      ((lowered p).dropWhile isBlank).rtakeWhile isBlank := by
    have hbare : bareOption p = ((lowered p).dropWhile isBlank).rdropWhile isBlank := rfl
    rw [List.append_assoc, hbare, List.rdropWhile_append_rtakeWhile, List.takeWhile_append_dropWhile]
  conv_lhs => rw [hsplit]
  apply Search.contains_trim hw.ne_nil
  · intro c hc
    exact hw.blank (List.mem_takeWhile_imp hc)
  · intro c hc
    exact hw.blank (List.mem_rtakeWhile_imp hc)

theorem contains_lowered {w p : Bytes} (hw : IsWord w) (h : Search.contains w p = true) :
    Search.contains w (lowered p) = true := by
  rw [Search.contains_iff] at h ⊢
  rw [← hw.lowered]
  exact h.map toLower

/-- A value in another letter case shows only what the value may show. -/
theorem RecasedValue.mayShow {w v v' : Bytes} (hw : IsWord w) (hv : RecasedValue v v')
    (h : Search.contains w v' = true) : MayShow w v := by
  rw [Search.contains_splitOn hw.comma hw.ne_nil, List.any_eq_true] at h
  obtain ⟨p', hp', hshown⟩ := h
  obtain ⟨p, hp, rfl | ⟨hlow, hopt⟩⟩ := exists_of_forall₂ hv hp'
  · -- the part is unchanged
    left
    rw [Search.contains_splitOn hw.comma hw.ne_nil, List.any_eq_true]
    exact ⟨_, hp, hshown⟩
  · right
    refine ⟨p, hp, hw.eq_of_contains hopt ?_⟩
    rw [← contains_bareOption hw, ← hlow]
    exact contains_lowered hw hshown

theorem comma_lowered {p : Bytes} (h : (44 : UInt8) ∉ p) : (44 : UInt8) ∉ lowered p := by
  intro hmem
  obtain ⟨c, hc, heq⟩ := List.mem_map.mp hmem
  have hcomma : toLower c = 44 → c = 44 := by
    apply forall_byte (p := fun c => toLower c = 44 → c = 44)
    decide +kernel
  exact h (hcomma heq ▸ hc)

theorem comma_of_mem_options {v p : Bytes} (hp : p ∈ options v) : (44 : UInt8) ∉ p :=
  fun hc => (Search.mem_splitOn p hp 44 hc).2 rfl

/-- An option that is the word is written in lower case. -/
def unveil (w p : Bytes) : Bytes := if bareOption p = w then lowered p else p

theorem recased_unveil {w : Bytes} (hw : IsWord w) (p : Bytes) : RecasedOption p (unveil w p) := by
  unfold unveil
  split
  · rename_i heq
    exact Or.inr ⟨lowered_lowered p, heq ▸ hw⟩
  · exact Or.inl rfl

theorem MayShow.exists_recased {w v : Bytes} (hw : IsWord w) (h : MayShow w v) :
    ∃ v', RecasedValue v v' ∧ Search.contains w v' = true := by
  rcases h with h | ⟨p, hp, heq⟩
  · exact ⟨v, List.forall₂_same.mpr fun _ _ => Or.inl rfl, h⟩
  · have hcommas : ∀ q ∈ (options v).map (unveil w), (44 : UInt8) ∉ q := by
      intro q hq
      obtain ⟨q₀, hq₀, rfl⟩ := List.mem_map.mp hq
      unfold unveil
      split
      · exact comma_lowered (comma_of_mem_options hq₀)
      · exact comma_of_mem_options hq₀
    have hne : (options v).map (unveil w) ≠ [] := by
      rw [Ne, List.map_eq_nil_iff]
      exact List.splitOn_ne_nil 44 v
    refine ⟨[44].intercalate ((options v).map (unveil w)), ?_, ?_⟩
    · have hparts : options ([44].intercalate ((options v).map (unveil w))) =
          (options v).map (unveil w) := List.splitOn_intercalate 44 hcommas hne
      unfold RecasedValue
      rw [hparts, List.forall₂_map_right_iff]
      exact List.forall₂_same.mpr fun q _ => recased_unveil hw q
    · rw [Search.contains_intercalate hw.comma hw.ne_nil, List.any_eq_true]
      refine ⟨lowered p, List.mem_map.mpr ⟨p, hp, if_pos heq⟩, ?_⟩
      rw [contains_bareOption hw, heq, Search.contains_iff]

/-! The `Connection` headers. -/

/-- No header of either message could show the word of the keep-alive rule. -/
def Silent (w : Bytes) (hs : List Header) : Prop :=
  ∀ h ∈ hs, lowered h.1 = str "connection" → ¬ MayShow w h.2

instance (w : Bytes) (hs : List Header) : Decidable (Silent w hs) :=
  inferInstanceAs (Decidable (∀ h ∈ hs, lowered h.1 = str "connection" → ¬ MayShow w h.2))

theorem Silent.recased {w : Bytes} (hw : IsWord w) {hs hs' : List Header} (h : Silent w hs)
    (hr : RecasedHeaders hs hs') : Search.contains w (headerValue hs' (str "Connection")) = false := by
  rcases headerValue_cases hs' (str "Connection") with hnil | ⟨h', hmem, hname, hval⟩
  · rw [hnil]
    exact Search.contains_nil hw.ne_nil
  · obtain ⟨h₀, hmem₀, hlow, hv⟩ := exists_of_forall₂ hr hmem
    have hconn : lowered h₀.1 = str "connection" := by
      rw [← hlow, hname]
      decide
    rw [hval, Bool.eq_false_iff]
    intro hshown
    apply h h₀ hmem₀ hconn
    rcases hv with heq | ⟨-, hrec⟩
    · exact Or.inl (heq ▸ hshown)
    · exact hrec.mayShow hw hshown

/-- Where the word could be shown, it is found or not as the letter case is chosen. -/
theorem exists_shown_of_not_silent {w : Bytes} (hw : IsWord w) {hs : List Header}
    (h : ¬ Silent w hs) : ∃ hs', RecasedHeaders hs hs' ∧
      Search.contains w (headerValue hs' (str "Connection")) = true := by
  simp only [Silent, not_forall, not_not] at h
  obtain ⟨h₀, hmem, hname, hshow⟩ := h
  obtain ⟨v, hrec, hv⟩ := hshow.exists_recased hw
  have hlow : lowered h₀.1 = lowered (str "Connection") := by
    rw [hname]
    decide
  obtain ⟨hs', hr, hval⟩ := exists_shown (by decide) hmem hlow (Or.inr ⟨hname, hrec⟩)
  exact ⟨hs', hr, by rw [hval, hv]⟩

def wordOf (version : Bytes) : Bytes :=
  if version = str "HTTP/1.1" then str "close" else str "keep-alive"

theorem isWord_wordOf (version : Bytes) : IsWord (wordOf version) := by
  unfold wordOf
  split
  · exact Or.inl rfl
  · exact Or.inr rfl

/-- The keep-alive rule asks whether the word of the request's version is found. -/
theorem keepAlive_eq (req : HttpRequest) (res : HttpResponse) :
    Session.keepAlive req res = (decide (req.version = str "HTTP/1.1") !=
      (Search.contains (wordOf req.version) (req.header (str "Connection")) ||
        Search.contains (wordOf req.version) (res.header (str "Connection")))) := by
  unfold Session.keepAlive wordOf
  by_cases h : req.version = str "HTTP/1.1"
  · simp [h, bne]
  · simp [h, bne]

/-- The word is shown by no header of the two messages, in any letter case. -/
def ConnectionSafe (req : HttpRequest) (res : HttpResponse) : Prop :=
  Silent (wordOf req.version) req.headers ∧ Silent (wordOf req.version) res.headers

instance (req : HttpRequest) (res : HttpResponse) : Decidable (ConnectionSafe req res) :=
  inferInstanceAs (Decidable (_ ∧ _))

theorem keepAlive_recased {req : HttpRequest} {res : HttpResponse} (h : ConnectionSafe req res)
    {hs hs' : List Header} (hr : RecasedHeaders req.headers hs)
    (hr' : RecasedHeaders res.headers hs') :
    Session.keepAlive { req with headers := hs } { res with headers := hs' } =
      decide (req.version = str "HTTP/1.1") := by
  have hreq := h.1.recased (isWord_wordOf req.version) hr
  have hres := h.2.recased (isWord_wordOf req.version) hr'
  rw [keepAlive_eq]
  simp [HttpRequest.header, HttpResponse.header, hreq, hres]

theorem keepAlive_blind_iff (req : HttpRequest) (res : HttpResponse) :
    (∀ hs hs', RecasedHeaders req.headers hs → RecasedHeaders res.headers hs' →
      Session.keepAlive { req with headers := hs } { res with headers := hs' } =
        Session.keepAlive req res) ↔ ConnectionSafe req res := by
  constructor
  · intro h
    have hw := isWord_wordOf req.version
    -- with every header hidden the word is not found
    have hnone : ∀ l : List Header, Search.contains (wordOf req.version)
        (headerValue (hide (str "Connection") l) (str "Connection")) = false := by
      intro l
      rw [headerValue_hide (by decide)]
      exact Search.contains_nil hw.ne_nil
    have hhidden := h _ _ (recased_hide (str "Connection") req.headers)
      (recased_hide (str "Connection") res.headers)
    constructor
    · by_contra hsilent
      obtain ⟨hs, hr, hshown⟩ := exists_shown_of_not_silent hw hsilent
      have hfound := h _ _ hr (recased_hide (str "Connection") res.headers)
      rw [← hhidden, keepAlive_eq, keepAlive_eq] at hfound
      simp [HttpRequest.header, HttpResponse.header, hshown, hnone] at hfound
    · by_contra hsilent
      obtain ⟨hs', hr, hshown⟩ := exists_shown_of_not_silent hw hsilent
      have hfound := h _ _ (recased_hide (str "Connection") req.headers) hr
      rw [← hhidden, keepAlive_eq, keepAlive_eq] at hfound
      simp [HttpRequest.header, HttpResponse.header, hshown, hnone] at hfound
  · intro h hs hs' hr hr'
    rw [keepAlive_recased h hr hr']
    exact (keepAlive_recased h (RecasedHeaders.refl _) (RecasedHeaders.refl _)).symm

/-! The `Host` headers. -/

def hostOf (hostPort : Bytes) : Bytes := (splitHostPort hostPort (str "80")).1

def portTextOf (hostPort : Bytes) : Bytes :=
  orPort (splitHostPort hostPort (str "80")).2 (str "80")

/-- Both authorities are the proxy itself, or one host and port, or ports that are no numbers. -/
def SameTarget (url a b : Bytes) : Prop :=
  isLocalEndpoint (hostOf a) url ∧ isLocalEndpoint (hostOf b) url ∨
    isLocalEndpoint (hostOf a) url = false ∧ isLocalEndpoint (hostOf b) url = false ∧
      (hostOf a = hostOf b ∧ portTextOf a = portTextOf b ∨
        ∃ e, stoi (portTextOf a) = .error e ∧ stoi (portTextOf b) = .error e)

/-- Where `routePlain` goes with an authority. -/
def routeTo (url hostPort : Bytes) : Except StdException Route :=
  if hostPort = [] then .ok .badRequest
  else if isLocalEndpoint (hostOf hostPort) url then
    .ok (if wantsCert url then .caCert else .helpPage)
  else (stoi (portTextOf hostPort)).map fun n => .upstream (hostOf hostPort) (portTextOf hostPort) n

theorem routePlain_eq (req : HttpRequest) : routePlain req = routeTo req.url (plainHostPort req) :=
  rfl

theorem routeTo_ne_badRequest {url a : Bytes} (ha : a ≠ []) : routeTo url a ≠ .ok .badRequest := by
  unfold routeTo
  rw [if_neg ha]
  split
  · split <;> simp
  · cases stoi (portTextOf a) <;> simp [Except.map]

theorem routeTo_eq_iff {url a b : Bytes} (ha : a ≠ []) (hb : b ≠ []) :
    routeTo url a = routeTo url b ↔ SameTarget url a b := by
  unfold routeTo SameTarget
  rw [if_neg ha, if_neg hb]
  -- a local endpoint is answered whatever port is written
  cases isLocalEndpoint (hostOf a) url with
  | true =>
    cases isLocalEndpoint (hostOf b) url with
    | true => simp
    | false =>
      cases stoi (portTextOf b) with
      | error e => simp [Except.map]
      | ok n => by_cases hw : wantsCert url = true <;> simp [Except.map, hw]
  | false =>
    cases isLocalEndpoint (hostOf b) url with
    | true =>
      cases stoi (portTextOf a) with
      | error e => simp [Except.map]
      | ok n => by_cases hw : wantsCert url = true <;> simp [Except.map, hw]
    | false =>
      -- both go upstream, if their port texts are read
      simp only [Bool.false_eq_true, if_false, false_and, true_and, false_or]
      constructor
      · intro h
        cases hpa : stoi (portTextOf a) with
        | error e =>
          cases hpb : stoi (portTextOf b) with
          | error e' =>
            simp only [hpa, hpb, Except.map, Except.error.injEq] at h
            exact Or.inr ⟨e, rfl, by rw [h]⟩
          | ok n => simp [hpa, hpb, Except.map] at h
        | ok n =>
          cases hpb : stoi (portTextOf b) with
          | error e => simp [hpa, hpb, Except.map] at h
          | ok n' =>
            simp only [hpa, hpb, Except.map, Except.ok.injEq, Route.upstream.injEq] at h
            exact Or.inl ⟨h.1, h.2.1⟩
      · rintro (⟨hhost, hport⟩ | ⟨e, ha, hb⟩)
        · rw [hhost, hport]
        · simp [ha, hb, Except.map]

/-- Every `Host` header, in any letter case, leads where the URL leads. -/
def HostSafe (req : HttpRequest) : Prop :=
  req.method = str "CONNECT" ∨ ∀ h ∈ req.headers, lowered h.1 = str "host" →
    h.2 = [] ∨ urlAuthority req.url ≠ [] ∧ SameTarget req.url h.2 (urlAuthority req.url)

/-- A lookup that fails makes the URL decide. -/
theorem routePlain_hidden {req : HttpRequest} {hs : List Header}
    (h : headerValue hs (str "Host") = []) :
    routePlain { req with headers := hs } = routeTo req.url (urlAuthority req.url) := by
  rw [routePlain_eq]
  simp [plainHostPort, HttpRequest.header, h]

theorem routePlain_shown {req : HttpRequest} {hs : List Header} {v : Bytes} (hv : v ≠ [])
    (h : headerValue hs (str "Host") = v) :
    routePlain { req with headers := hs } = routeTo req.url v := by
  rw [routePlain_eq]
  simp [plainHostPort, HttpRequest.header, h, hv]

theorem routePlain_recased {req : HttpRequest} {hs : List Header}
    (hsafe : ∀ h ∈ req.headers, lowered h.1 = str "host" →
      h.2 = [] ∨ urlAuthority req.url ≠ [] ∧ SameTarget req.url h.2 (urlAuthority req.url))
    (hr : RecasedHeaders req.headers hs) :
    routePlain { req with headers := hs } = routeTo req.url (urlAuthority req.url) := by
  by_cases hnil : headerValue hs (str "Host") = []
  · exact routePlain_hidden hnil
  · rcases headerValue_cases hs (str "Host") with h | ⟨h', hmem, hname, hval⟩
    · exact absurd h hnil
    · obtain ⟨h₀, hmem₀, hlow, hv⟩ := exists_of_forall₂ hr hmem
      have hhost : lowered h₀.1 = str "host" := by
        rw [← hlow, hname]
        decide
      have hsame : h'.2 = h₀.2 := by
        rcases hv with heq | ⟨hconn, -⟩
        · exact heq
        · rw [hhost] at hconn
          exact absurd hconn (by decide)
      rw [routePlain_shown hnil rfl, hval, hsame]
      rcases hsafe h₀ hmem₀ hhost with hempty | ⟨hurl, htarget⟩
      · rw [hval, hsame] at hnil
        exact absurd hempty hnil
      · rw [hval, hsame] at hnil
        exact (routeTo_eq_iff hnil hurl).mpr htarget

theorem map_injective {α β : Type} {f : α → β} (hf : Function.Injective f) :
    Function.Injective (Except.map f : Except StdException α → Except StdException β) := by
  intro a b h
  cases a with
  | error e =>
    cases b with
    | error e' => exact congrArg Except.error (Except.error.inj h)
    | ok y => cases h
  | ok x =>
    cases b with
    | error e => cases h
    | ok y => exact congrArg Except.ok (hf (Except.ok.inj h))

theorem routing_blind_iff (req : HttpRequest) :
    (∀ hs, RecasedHeaders req.headers hs → routing { req with headers := hs } = routing req) ↔
      HostSafe req := by
  by_cases hm : req.method = str "CONNECT"
  · simp [routing, HostSafe, hm, routeConnect]
  · have hplain (hs : List Header) : routing { req with headers := hs } =
        (routePlain { req with headers := hs }).map .inr := if_neg hm
    constructor
    · intro h
      right
      intro h₀ hmem hname
      by_cases hempty : h₀.2 = []
      · exact Or.inl hempty
      · right
        have hlow : lowered h₀.1 = lowered (str "Host") := by
          rw [hname]
          decide
        obtain ⟨hs, hr, hval⟩ := exists_shown (by decide) hmem hlow (Or.inl rfl)
        have heq := (h hs hr).trans (h _ (recased_hide (str "Host") req.headers)).symm
        rw [hplain, hplain, routePlain_shown hempty hval,
          routePlain_hidden (headerValue_hide (by decide) _)] at heq
        have hroute := map_injective (fun _ _ => Sum.inr.inj) heq
        have hurl : urlAuthority req.url ≠ [] := by
          intro hnil
          apply routeTo_ne_badRequest hempty
          rw [hroute, hnil]
          rfl
        exact ⟨hurl, (routeTo_eq_iff hempty hurl).mp hroute⟩
    · intro h hs hr
      have hsafe := h.resolve_left hm
      have hself := routePlain_recased hsafe (RecasedHeaders.refl req.headers)
      rw [hplain, routePlain_recased hsafe hr, ← hself]
      exact (hplain req.headers).symm

/-- Exactly these messages are treated alike in every letter case: `Host` headers do no more than
repeat the URL, and no `Connection` header could decide. -/
theorem case_blind_iff (req : HttpRequest) (res : HttpResponse) :
    CaseBlind req res ↔ HostSafe req ∧ ConnectionSafe req res := by
  rw [← routing_blind_iff, ← keepAlive_blind_iff]
  constructor
  · intro h
    constructor
    · intro hs hr
      exact (h hs res.headers hr (RecasedHeaders.refl _)).1
    · intro hs hs' hr hr'
      exact (h hs hs' hr hr').2.1
  · rintro ⟨hroute, hkeep⟩ hs hs' hr hr'
    have hconn := hkeep hs hs' hr hr'
    exact ⟨hroute hs hr, hconn, hconn⟩

/-- In other letters the request is answered with 400, and its connection would stay open. -/
theorem case_decides :
    let hs := [(str "Host", str "example.com"), (str "Connection", str "close")]
    let hs' := [(str "host", str "example.com"), (str "Connection", str "Close")]
    let req : HttpRequest := { method := str "GET", url := str "/", headers := hs }
    RecasedHeaders hs hs' ∧
      routing req = .ok (.inr (.upstream (str "example.com") (str "80") 80)) ∧
      routing { req with headers := hs' } = .ok (.inr .badRequest) ∧
      Session.keepAlive req {} = false ∧
      Session.keepAlive { req with headers := hs' } {} = true ∧ ¬ CaseBlind req {} := by
  intro hs hs' req
  have hrec : RecasedHeaders hs hs' := by
    apply List.Forall₂.cons
    · exact ⟨by decide, Or.inl rfl⟩
    · apply List.Forall₂.cons _ .nil
      refine ⟨by decide, Or.inr ⟨by decide, ?_⟩⟩
      exact .cons (Or.inr ⟨by decide, Or.inl (by decide)⟩) .nil
  have hroute : routing req = .ok (.inr (.upstream (str "example.com") (str "80") 80)) := by
    decide +kernel
  have hroute' : routing { req with headers := hs' } = .ok (.inr .badRequest) := by decide +kernel
  refine ⟨hrec, hroute, hroute', by decide +kernel, by decide +kernel, ?_⟩
  intro h
  have heq := (h hs' [] hrec .nil).1
  rw [hroute, hroute'] at heq
  cases heq

end BurpTUI
