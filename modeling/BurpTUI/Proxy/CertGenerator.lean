import BurpTUI.Proxy.Destination
import Mathlib.Data.List.TakeWhile

namespace BurpTUI

namespace CertGenerator

inductive Nid
  | basicConstraints
  | keyUsage
  | extKeyUsage
  | subjectAltName
  | subjectKeyIdentifier
  | authorityKeyIdentifier
  deriving DecidableEq, Repr

/-- What a C function reads of a `c_str()`. -/
def cStr (s : Bytes) : Bytes := s.takeWhile (· ≠ 0)

/-- The extensions that `generate` asks OpenSSL for, in their order. For the empty name no certificate
is made. -/
def extensions (hostname : Bytes) : List (Nid × Bytes) :=
  if hostname = [] then []
  else
    [(.basicConstraints, str "critical,CA:FALSE"),
      (.keyUsage, str "digitalSignature,keyEncipherment"),
      (.extKeyUsage, str "serverAuth,clientAuth"),
      (.subjectAltName, cStr (str "DNS:" ++ hostname)),
      (.subjectKeyIdentifier, str "hash"),
      (.authorityKeyIdentifier, str "keyid:always,issuer")]

/-- How `X509V3_EXT_conf_nid` reads a value: items with a type and a value, between commas. -/
def generalNames (value : Bytes) : List (Bytes × Bytes) :=
  (value.splitOn 44).map fun item => splitHostPort item []

/-- The names in the extension for the subject. -/
def subjectNames (hostname : Bytes) : List (Bytes × Bytes) :=
  ((extensions hostname).filter fun e => e.1 = .subjectAltName).flatMap fun e => generalNames e.2

def IsIpv4 (host : Bytes) : Prop :=
  ∃ a b c d : ℕ, a ≤ 255 ∧ b ≤ 255 ∧ c ≤ 255 ∧ d ≤ 255 ∧
    host = (str ".").intercalate [decimal a, decimal b, decimal c, decimal d]

/-- An IP address literal: of those that are not IPv4 addresses every one has a colon, which no host name
has. -/
def IsAddress (host : Bytes) : Prop := IsIpv4 host ∨ 58 ∈ host

/-- One general name, which is the host. -/
structure NamesExactly (host : Bytes) (names : List (Bytes × Bytes)) : Prop where
  address : IsAddress host → names = [(str "IP", host)]
  name : ¬ IsAddress host → names = [(str "DNS", host)]

/-- A host name without the characters that end an item or the value. -/
def PlainName (host : Bytes) : Prop := 44 ∉ host ∧ 0 ∉ host ∧ ¬ IsAddress host

variable {hostname : Bytes}

theorem subjectNames_eq (h : hostname ≠ []) :
    subjectNames hostname = generalNames (str "DNS:" ++ cStr hostname) := by
  have hvalue : cStr (str "DNS:" ++ hostname) = str "DNS:" ++ cStr hostname :=
    List.takeWhile_append_of_pos (by decide)
  simp [subjectNames, extensions, h, hvalue]

theorem dnsItem (item : Bytes) : splitHostPort (str "DNS:" ++ item) [] = (str "DNS", item) := by
  have hcut := Search.cut_singleton 58 (str "DNS") item (by decide)
  have hitem : str "DNS:" ++ item = str "DNS" ++ 58 :: item := rfl
  have hcolon : str ":" = [58] := rfl
  rw [splitHostPort, hitem, hcolon, hcut]

theorem comma_not_mem {s : Bytes} (h : 44 ∉ s) : 44 ∉ str "DNS:" ++ s := by
  rw [List.mem_append, not_or]
  exact ⟨by decide, h⟩

theorem generalNames_single {s : Bytes} (h : 44 ∉ s) :
    generalNames (str "DNS:" ++ s) = [(str "DNS", s)] := by
  rw [generalNames, List.splitOn_eq_singleton (comma_not_mem h), List.map_singleton, dnsItem]

/-- A comma starts another item. -/
theorem generalNames_comma {a : Bytes} (h : 44 ∉ a) (b : Bytes) :
    generalNames (str "DNS:" ++ (a ++ 44 :: b)) = (str "DNS", a) :: generalNames b := by
  rw [generalNames, ← List.append_assoc, List.splitOn_append_cons_self_of_not_mem (comma_not_mem h),
    List.map_cons, dnsItem]
  rfl

/-- Whatever follows, the first name has the type DNS. -/
theorem generalNames_first (s : Bytes) :
    ∃ item names, generalNames (str "DNS:" ++ s) = (str "DNS", item) :: names := by
  by_cases hcomma : 44 ∈ s
  · obtain ⟨a, b, rfl, ha⟩ := List.eq_append_cons_of_mem hcomma
    exact ⟨a, _, generalNames_comma ha b⟩
  · exact ⟨s, [], generalNames_single hcomma⟩

theorem generalNames_ne_nil (s : Bytes) : generalNames s ≠ [] := by
  rw [generalNames, ne_eq, List.map_eq_nil_iff]
  exact List.splitOn_ne_nil 44 s

theorem cStr_eq_self_iff {s : Bytes} : cStr s = s ↔ 0 ∉ s := by
  rw [cStr, List.takeWhile_eq_self_iff]
  constructor
  · intro h hmem
    exact absurd (h 0 hmem) (by decide)
  · intro h c hc
    have hne : c ≠ 0 := fun e => h (e ▸ hc)
    simpa using hne

/-- The value is one DNS name of the host exactly if no character of the host ends it early. -/
theorem subjectNames_eq_iff (h : hostname ≠ []) :
    subjectNames hostname = [(str "DNS", hostname)] ↔ 44 ∉ hostname ∧ 0 ∉ hostname := by
  rw [subjectNames_eq h]
  by_cases hcomma : 44 ∈ cStr hostname
  · obtain ⟨a, b, hsplit, ha⟩ := List.eq_append_cons_of_mem hcomma
    have hmem : 44 ∈ hostname := (List.takeWhile_prefix _).subset hcomma
    rw [hsplit, generalNames_comma ha]
    constructor
    · intro hone
      exact absurd (List.cons.inj hone).2 (generalNames_ne_nil b)
    · exact fun hnone => absurd hmem hnone.1
  · rw [generalNames_single hcomma]
    constructor
    · intro hsame
      have hvalue : cStr hostname = hostname := by simpa using hsame
      exact ⟨hvalue ▸ hcomma, cStr_eq_self_iff.mp hvalue⟩
    · rintro ⟨-, hnul⟩
      rw [cStr_eq_self_iff.mpr hnul]

/-- No type but DNS is ever given to the first name. -/
theorem subjectNames_ne_ip (h : hostname ≠ []) : subjectNames hostname ≠ [(str "IP", hostname)] := by
  have htype : str "DNS" ≠ str "IP" := by decide
  obtain ⟨item, names, hfirst⟩ := generalNames_first (cStr hostname)
  rw [subjectNames_eq h, hfirst]
  intro hone
  exact htype (congrArg Prod.fst (List.cons.inj hone).1)

theorem namesExactly_iff (h : hostname ≠ []) :
    NamesExactly hostname (subjectNames hostname) ↔ PlainName hostname := by
  constructor
  · intro hnames
    have hname : ¬ IsAddress hostname := fun ha => subjectNames_ne_ip h (hnames.address ha)
    obtain ⟨hcomma, hnul⟩ := (subjectNames_eq_iff h).mp (hnames.name hname)
    exact ⟨hcomma, hnul, hname⟩
  · rintro ⟨hcomma, hnul, hname⟩
    exact ⟨fun ha => absurd ha hname, fun _ => (subjectNames_eq_iff h).mpr ⟨hcomma, hnul⟩⟩

end CertGenerator

namespace Session

variable {L : Llhttp} {s s' : Session L} {req : HttpRequest} {env : Env}

theorem handleConnect_log (hcert : s.hasCertCache = true) (target : ConnectTarget) :
    ∃ tx, (s.handleConnect target).log = s.log ++ [.reported .generated tx,
      .spawned target.host (UInt16.ofInt target.portNumber)] := by
  unfold handleConnect
  dsimp only
  split
  · refine ⟨{ s.currentTransaction with
      host := target.host
      port := target.portNumber
      isHttps := true
      response := some { version := str "HTTP/1.1", statusCode := 200
                         statusText := str "Connection Established" } }, ?_⟩
    show (s.log ++ [.reported .generated _]) ++ [.spawned _ _] = _
    rw [List.append_assoc]
    rfl
  · rename_i hnone
    exact absurd hcert hnone

/-- The new session is for the host before the first colon of the target. -/
theorem spawned_of_connect (hok : s.handleRequest env req = .ok s') (hm : req.method = str "CONNECT")
    (hcert : s.hasCertCache = true) :
    ∃ tx port, s'.log = s.log ++ [.took env.newRef req, .reported .generated tx,
      .spawned (splitHostPort req.url (str "443")).1 port] := by
  unfold handleRequest at hok
  dsimp only at hok
  rw [if_pos hm] at hok
  obtain ⟨target, htarget, rfl⟩ := ok_of_map hok
  obtain ⟨n, -, rfl⟩ := ok_of_map htarget
  obtain ⟨tx, htx⟩ := handleConnect_log (s := s.tookRequest env req) hcert
    ⟨(splitHostPort req.url (str "443")).1, (splitHostPort req.url (str "443")).2, n⟩
  refine ⟨tx, UInt16.ofInt n, htx.trans ?_⟩
  show (s.log ++ [.took env.newRef req]) ++ _ = _
  rw [List.append_assoc]
  rfl

/-- Whenever the new session asks for a certificate, it is for this host, and the names in it are this host
and nothing else. -/
def LeafNames (L : Llhttp) (host : Bytes) (port : UInt16) : Prop :=
  ∀ m, ((MitmSession.system L).after (.started host port)).Reached m → m.targetHost = host ∧
    (m.targetHost ≠ [] → CertGenerator.NamesExactly host (CertGenerator.subjectNames m.targetHost))

/-- The leaf certificate for the host that is extracted from a CONNECT target names exactly that host if
and only if the host is a plain name. -/
theorem leaf_names_host_iff (hok : s.handleRequest env req = .ok s') (hm : req.method = str "CONNECT")
    (hcert : s.hasCertCache = true) : ∃ tx host port, host = (splitHostPort req.url (str "443")).1 ∧
      s'.log = s.log ++ [.took env.newRef req, .reported .generated tx, .spawned host port] ∧
      (LeafNames L host port ↔ (host ≠ [] → CertGenerator.PlainName host)) := by
  obtain ⟨tx, port, hlog⟩ := spawned_of_connect hok hm hcert
  refine ⟨tx, _, port, rfl, hlog, ?_⟩
  constructor
  · intro h hne
    have hnames := (h _ (.init rfl)).2
    exact (CertGenerator.namesExactly_iff hne).mp (hnames hne)
  · intro h m hreached
    have htarget := (MitmSession.aimed_of_started hreached).target.1
    refine ⟨htarget, fun hne => ?_⟩
    rw [htarget] at hne ⊢
    exact (CertGenerator.namesExactly_iff hne).mpr (h hne)

def connectRequest (target : Bytes) : HttpRequest := { method := str "CONNECT", url := target }

def certSession : Session (scripted fun _ => simpleGet.message.pieces) := started true

theorem leaf_names_host_iff_example :
    ∃ s', certSession.handleRequest {} (connectRequest (str "a.example:443")) = .ok s' ∧
      ∃ tx host port, host = (splitHostPort (str "a.example:443") (str "443")).1 ∧
        s'.log = certSession.log ++ [.took 0 (connectRequest (str "a.example:443")),
          .reported .generated tx, .spawned host port] ∧
        (LeafNames (scripted fun _ => simpleGet.message.pieces) host port ↔
          (host ≠ [] → CertGenerator.PlainName host)) := by
  obtain ⟨s', hs'⟩ : ∃ s', certSession.handleRequest {} (connectRequest (str "a.example:443")) = .ok s' :=
    ⟨_, rfl⟩
  exact ⟨s', hs', leaf_names_host_iff hs' rfl rfl⟩

/-- A comma starts a second item, and an address is named as if it were a host name. -/
theorem leaf_names_other_hosts :
    (∃ s' tx, certSession.handleRequest {} (connectRequest (str "a,b:443")) = .ok s' ∧
      s'.log = [.took 0 (connectRequest (str "a,b:443")), .reported .generated tx, .spawned (str "a,b") 443] ∧
      ¬ CertGenerator.NamesExactly (str "a,b") (CertGenerator.subjectNames (str "a,b"))) ∧
    ∃ s' tx, certSession.handleRequest {} (connectRequest (str "127.0.0.1:443")) = .ok s' ∧
      s'.log = [.took 0 (connectRequest (str "127.0.0.1:443")), .reported .generated tx,
        .spawned (str "127.0.0.1") 443] ∧
      ¬ CertGenerator.NamesExactly (str "127.0.0.1") (CertGenerator.subjectNames (str "127.0.0.1")) := by
  refine ⟨⟨_, _, rfl, rfl, ?_⟩, _, _, rfl, rfl, ?_⟩
  · intro h
    have hplain := (CertGenerator.namesExactly_iff (by decide)).mp h
    exact absurd hplain.1 (by decide)
  · intro h
    have hplain := (CertGenerator.namesExactly_iff (by decide)).mp h
    exact hplain.2.2 (.inl ⟨127, 0, 0, 1, by decide, by decide, by decide, by decide, by decide⟩)

end Session

end BurpTUI
