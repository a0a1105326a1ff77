import BurpTUI.Base.StepSystem
import BurpTUI.Http.Message

namespace BurpTUI

/-- What is used of OpenSSL: certificates and keys, their PEM texts, and the test that they match. -/
structure OpenSsl where
  Cert : Type
  Key : Type
  /-- the root certificate that is made for a key -/
  selfSigned : Key → Cert
  writeCert : Cert → Bytes
  writeKey : Key → Bytes
  readCert : Bytes → Option Cert
  readKey : Bytes → Option Key
  checkPrivateKey : Cert → Key → Bool

/-- What is written can be read again, there is nothing to read in an empty file, and a certificate matches
the key that it was made for. -/
structure OpenSsl.RoundTrips (O : OpenSsl) : Prop where
  cert : ∀ c, O.readCert (O.writeCert c) = some c
  key : ∀ k, O.readKey (O.writeKey k) = some k
  empty : O.readCert [] = none
  signed : ∀ k, O.checkPrivateKey (O.selfSigned k) k = true

/-- The directory of the CA, with the texts of its two files. -/
structure CaFiles where
  dir : Bool := false
  cert : Option Bytes := none
  key : Option Bytes := none
  deriving DecidableEq, Repr

namespace CaFiles

inductive Op
  | openKey
  | writeKey (text : Bytes)
  | openCert
  | writeCert (text : Bytes)
  deriving DecidableEq, Repr

/-- Opening a file for writing empties it. -/
def apply (d : CaFiles) : Op → CaFiles
  | .openKey => { d with key := some [] }
  | .writeKey text => { d with key := some text }
  | .openCert => { d with cert := some [] }
  | .writeCert text => { d with cert := some text }

def Op.onKey : Op → Bool
  | .openKey => true
  | .writeKey _ => true
  | _ => false

/-- `fs::exists` of both. -/
def exist (d : CaFiles) : Bool := d.cert.isSome && d.key.isSome

end CaFiles

/-- What a call finds: whether each of OpenSSL's and the system's operations succeeds, the key that is
generated, and how many bytes of each file reach the disk. -/
structure CaEnv (O : OpenSsl) where
  openSsl : Bool := true
  createDir : Bool := true
  key : Option O.Key := none
  signs : Bool := true
  opensKey : Bool := true
  opensCert : Bool := true
  keyKept : ℕ
  certKept : ℕ

structure SslInit (O : OpenSsl) where
  initialized : Bool := false
  caCert : Option O.Cert := none
  caKey : Option O.Key := none

namespace SslInit

variable {O : OpenSsl}

def ensureCaDirectory (d : CaFiles) (env : CaEnv O) : Option CaFiles :=
  if d.dir then some d else if env.createDir then some { d with dir := true } else none

/-- What `generateRootCA` does to the files. The results of the two writes are not looked at. -/
def generateOps (env : CaEnv O) : List CaFiles.Op :=
  match env.key with
  | some key =>
    if env.signs && env.opensKey then
      [.openKey, .writeKey ((O.writeKey key).take env.keyKept)] ++
        if env.opensCert then [.openCert, .writeCert ((O.writeCert (O.selfSigned key)).take env.certKept)] else []
    else []
  | none => []

def generateRootCA (s : SslInit O) (env : CaEnv O) : Bool × SslInit O :=
  match env.key with
  | some key =>
    if env.signs && env.opensKey && env.opensCert then
      (true, { s with caCert := some (O.selfSigned key), caKey := some key })
    else (false, s)
  | none => (false, s)

/-- Each failure clears what it has read, and a file that does not open changes nothing else. -/
def loadRootCA (s : SslInit O) (d : CaFiles) (env : CaEnv O) : Bool × SslInit O :=
  if env.opensCert = false then (false, s)
  else match d.cert.bind O.readCert with
  | none => (false, { s with caCert := none })
  | some cert =>
    if env.opensKey = false then (false, { s with caCert := none })
    else match d.key.bind O.readKey with
    | none => (false, { s with caCert := none, caKey := none })
    | some key =>
      if O.checkPrivateKey cert key then (true, { s with caCert := some cert, caKey := some key })
      else (false, { s with caCert := none, caKey := none })

/-- The result, the singleton and the files after a call, of which `n` file operations are done before the
process dies, if it does. -/
def initializeCa (s : SslInit O) (d : CaFiles) (env : CaEnv O) (n : ℕ) : Bool × SslInit O × CaFiles :=
  if s.initialized then (true, s, d)
  else if env.openSsl = false then (false, s, d)
  else match ensureCaDirectory d env with
  | none => (false, s, d)
  | some d =>
    if d.exist then
      let (ok, s) := s.loadRootCA d env
      (ok, { s with initialized := ok }, d)
    else
      let (ok, s) := s.generateRootCA env
      (ok, { s with initialized := ok }, ((generateOps env).take n).foldl CaFiles.apply d)

structure State (O : OpenSsl) where
  ssl : SslInit O := {}
  files : CaFiles := {}

inductive Label (O : OpenSsl)
  | initializeCa (env : CaEnv O)
  /-- the process dies after so many file operations of a call -/
  | die (env : CaEnv O) (n : ℕ)
  /-- it ends in another way -/
  | restart

def step (s : State O) : Label O → Option (State O)
  | .initializeCa env =>
    let (_, ssl, files) := s.ssl.initializeCa s.files env (generateOps env).length
    some { ssl := ssl, files := files }
  | .die env n => some { files := (s.ssl.initializeCa s.files env n).2.2 }
  | .restart => some { s with ssl := {} }

/-- The files can be loaded as this certificate and this key. -/
def Loads (d : CaFiles) (cert : O.Cert) (key : O.Key) : Prop :=
  d.cert.bind O.readCert = some cert ∧ d.key.bind O.readKey = some key ∧ O.checkPrivateKey cert key = true

variable (O) in
/-- Both files are there and cannot be loaded. -/
def Torn (d : CaFiles) : Prop := d.exist = true ∧ ∀ (cert : O.Cert) (key : O.Key), ¬ Loads d cert key

variable (O) in
/-- The first process starts without files, or with files that can be loaded. -/
def system : StepSystem.System (State O) (Label O) where
  init s := s.ssl.initialized = false ∧ ¬ Torn O s.files
  step := step

def Holds (s : SslInit O) (cert : O.Cert) (key : O.Key) : Prop :=
  s.initialized = true ∧ s.caCert = some cert ∧ s.caKey = some key

variable {d d' : CaFiles} {cert cert' : O.Cert} {key key' : O.Key} {env : CaEnv O} {ssl : SslInit O} {n : ℕ}

theorem Loads.exist (h : Loads d cert key) : d.exist = true := by
  obtain ⟨hcert, hkey, -⟩ := h
  cases hc : d.cert with
  | none => simp [hc] at hcert
  | some c => cases hk : d.key with
    | none => simp [hk] at hkey
    | some k => simp [CaFiles.exist, hc, hk]

theorem Loads.unique (h : Loads d cert key) (h' : Loads d cert' key') : cert' = cert ∧ key' = key := by
  obtain ⟨hcert, hkey, -⟩ := h
  obtain ⟨hcert', hkey', -⟩ := h'
  rw [hcert] at hcert'
  rw [hkey] at hkey'
  exact ⟨(Option.some.inj hcert').symm, (Option.some.inj hkey').symm⟩

theorem Holds.unique (h : Holds ssl cert key) (h' : Holds ssl cert' key') : cert = cert' ∧ key = key' :=
  ⟨Option.some.inj (h.2.1.symm.trans h'.2.1), Option.some.inj (h.2.2.symm.trans h'.2.2)⟩

theorem Loads.of_texts (h : Loads d cert key) (ht : (d'.cert, d'.key) = (d.cert, d.key)) : Loads d' cert key := by
  obtain ⟨hcert, hkey⟩ := Prod.mk.inj ht
  rw [Loads, hcert, hkey]
  exact h

/-- `loadRootCA` gives what the files can be loaded as. -/
theorem loadRootCA_spec (ssl : SslInit O) (d : CaFiles) (env : CaEnv O) :
    (∃ cert key, Loads d cert key ∧
      ssl.loadRootCA d env = (true, { ssl with caCert := some cert, caKey := some key })) ∨
    (ssl.loadRootCA d env).1 = false := by
  unfold loadRootCA
  split
  · exact .inr rfl
  · split
    · exact .inr rfl
    · rename_i cert hcert
      split
      · exact .inr rfl
      · split
        · exact .inr rfl
        · rename_i key hkey
          split
          · rename_i hcheck
            exact .inl ⟨cert, key, ⟨hcert, hkey, hcheck⟩, rfl⟩
          · exact .inr rfl

/-- What a call can do: nothing, a load, or an attempt to make a new CA. -/
inductive Calls (ssl : SslInit O) (d : CaFiles) (env : CaEnv O) (n : ℕ) : SslInit O → CaFiles → Prop
  | nothing (dir : Bool) : Calls ssl d env n ssl { d with dir := dir }
  | loaded (dir : Bool) {cert : O.Cert} {key : O.Key} (hidle : ssl.initialized = false) (hload : Loads d cert key) :
    Calls ssl d env n { initialized := true, caCert := some cert, caKey := some key } { d with dir := dir }
  | refused (dir : Bool) {after : SslInit O} (hidle : ssl.initialized = false) (hexist : d.exist = true)
    (hafter : after.initialized = false) :
    Calls ssl d env n after { d with dir := dir }
  | generated (dir : Bool) {key : O.Key} (hidle : ssl.initialized = false) (hexist : d.exist = false)
    (hkey : env.key = some key) (hops : generateOps env = [.openKey, .writeKey ((O.writeKey key).take env.keyKept), .openCert,
      .writeCert ((O.writeCert (O.selfSigned key)).take env.certKept)]) :
    Calls ssl d env n { initialized := true, caCert := some (O.selfSigned key), caKey := some key }
      (((generateOps env).take n).foldl CaFiles.apply { d with dir := dir })
  | failed (dir : Bool) (hidle : ssl.initialized = false) (hexist : d.exist = false)
    (hops : ∀ op ∈ generateOps env, op.onKey = true) :
    Calls ssl d env n ssl (((generateOps env).take n).foldl CaFiles.apply { d with dir := dir })

theorem ensureCaDirectory_spec (h : ensureCaDirectory d env = some d') : ∃ dir, d' = { d with dir := dir } := by
  unfold ensureCaDirectory at h
  split at h
  · exact ⟨d.dir, (Option.some.inj h).symm⟩
  · split at h
    · exact ⟨true, (Option.some.inj h).symm⟩
    · cases h

/-- The certificate is written last, and only if all goes well. -/
theorem generate_calls (dir : Bool) (hidle : ssl.initialized = false) (hexist : d.exist = false) :
    Calls ssl d env n { (ssl.generateRootCA env).2 with initialized := (ssl.generateRootCA env).1 }
      (((generateOps env).take n).foldl CaFiles.apply { d with dir := dir }) := by
  have hfailed (hops : ∀ op ∈ generateOps env, op.onKey = true) (hsame : ssl.generateRootCA env = (false, ssl)) :
      Calls ssl d env n { (ssl.generateRootCA env).2 with initialized := (ssl.generateRootCA env).1 }
        (((generateOps env).take n).foldl CaFiles.apply { d with dir := dir }) := by
    rw [hsame, ← hidle]
    exact .failed dir hidle hexist hops
  cases hkey : env.key with
  | none =>
    apply hfailed
    · simp [generateOps, hkey]
    · simp [generateRootCA, hkey]
  | some key =>
    cases hopen : env.signs && env.opensKey with
    | false =>
      apply hfailed
      · simp [generateOps, hkey, hopen]
      · simp [generateRootCA, hkey, hopen]
    | true => cases hcert : env.opensCert with
      | false =>
        apply hfailed
        · simp [generateOps, hkey, hopen, hcert, CaFiles.Op.onKey]
        · simp [generateRootCA, hkey, hopen, hcert]
      | true =>
        have hresult : ssl.generateRootCA env =
            (true, { ssl with caCert := some (O.selfSigned key), caKey := some key }) := by
          simp [generateRootCA, hkey, hopen, hcert]
        rw [hresult]
        exact .generated dir hidle hexist hkey (by simp [generateOps, hkey, hopen, hcert])

theorem calls_of_initializeCa (ssl : SslInit O) (d : CaFiles) (env : CaEnv O) (n : ℕ) :
    Calls ssl d env n (ssl.initializeCa d env n).2.1 (ssl.initializeCa d env n).2.2 := by
  unfold initializeCa
  split
  · exact .nothing d.dir
  · rename_i hidle
    have hidle : ssl.initialized = false := Bool.eq_false_iff.mpr hidle
    split
    · exact .nothing d.dir
    · split
      · exact .nothing d.dir
      · rename_i d' hdir
        obtain ⟨dir, rfl⟩ := ensureCaDirectory_spec hdir
        split
        · rename_i hexist
          rcases loadRootCA_spec ssl { d with dir := dir } env with ⟨cert, key, hload, heq⟩ | hok
          · rw [heq]
            exact .loaded dir hidle (hload.of_texts rfl)
          · exact .refused dir hidle hexist hok
        · rename_i hexist
          exact generate_calls dir hidle (Bool.eq_false_iff.mpr hexist)

theorem Calls.texts {ssl' : SslInit O} (h : Calls ssl d env n ssl' d') (hexist : d.exist = true) :
    (d'.cert, d'.key) = (d.cert, d.key) := by
  cases h with
  | nothing dir => rfl
  | loaded dir => rfl
  | refused dir => rfl
  | generated dir _ hnew => exact absurd (hexist.symm.trans hnew) (by decide)
  | failed dir _ hnew => exact absurd (hexist.symm.trans hnew) (by decide)

theorem exist_of_texts (ht : (d'.cert, d'.key) = (d.cert, d.key)) : d'.exist = d.exist := by
  obtain ⟨hcert, hkey⟩ := Prod.mk.inj ht
  rw [CaFiles.exist, hcert, hkey, CaFiles.exist]

theorem Torn.of_texts (h : Torn O d) (ht : (d'.cert, d'.key) = (d.cert, d.key)) : Torn O d' :=
  ⟨(exist_of_texts ht).trans h.1, fun cert key hload => h.2 cert key (hload.of_texts ht.symm)⟩

section Runs

variable {s t : State O} {a : Label O}

/-- Files that both exist are never written to again. -/
theorem texts_step (h : s.files.exist = true) (hs : step s a = some t) :
    (t.files.cert, t.files.key) = (s.files.cert, s.files.key) := by
  cases a with
  | initializeCa env =>
    obtain rfl := Option.some.inj hs
    exact (calls_of_initializeCa s.ssl s.files env _).texts h
  | die env n =>
    obtain rfl := Option.some.inj hs
    exact (calls_of_initializeCa s.ssl s.files env n).texts h
  | restart =>
    obtain rfl := Option.some.inj hs
    rfl

theorem texts_of_after {C : State O → Label O → Prop} (h : s.files.exist = true)
    (ht : ((system O).after s).ReachedUnder C t) : (t.files.cert, t.files.key) = (s.files.cert, s.files.key) := by
  refine ht.invariant (I := fun t => (t.files.cert, t.files.key) = (s.files.cert, s.files.key)) ?_ ?_
  · rintro _ rfl
    rfl
  · intro u a t hu _ hstep
    exact (texts_step ((exist_of_texts hu).trans h) hstep).trans hu

/-- A process that is up stays as it is. -/
theorem ssl_of_up {env : CaEnv O} (h : s.ssl.initialized = true) (hs : step s (.initializeCa env) = some t) :
    t.ssl = s.ssl := by
  obtain rfl := Option.some.inj hs
  show (s.ssl.initializeCa s.files env _).2.1 = s.ssl
  rw [initializeCa, if_pos h]

/-- A process that has not come up with torn files does not come up. -/
theorem torn_step (h : Torn O s.files ∧ s.ssl.initialized = false) (hs : step s a = some t) :
    Torn O t.files ∧ t.ssl.initialized = false := by
  refine ⟨h.1.of_texts (texts_step h.1.1 hs), ?_⟩
  cases a with
  | initializeCa env =>
    obtain rfl := Option.some.inj hs
    have hcalls := calls_of_initializeCa s.ssl s.files env (generateOps env).length
    show (s.ssl.initializeCa s.files env _).2.1.initialized = false
    generalize (s.ssl.initializeCa s.files env (generateOps env).length).2 = after at hcalls
    obtain ⟨ssl, files⟩ := after
    cases hcalls with
    | nothing dir => exact h.2
    | loaded dir _ hload => exact absurd hload (h.1.2 _ _)
    | refused dir _ _ hafter => exact hafter
    | generated dir _ hnew => exact absurd (h.1.1.symm.trans hnew) (by decide)
    | failed dir hidle => exact hidle
  | die env n =>
    obtain rfl := Option.some.inj hs
    rfl
  | restart =>
    obtain rfl := Option.some.inj hs
    rfl

/-- The operations leave no certificate behind that is not whole. -/
def Settles (env : CaEnv O) (d : CaFiles) (ops : List CaFiles.Op) : Prop :=
  d.exist = true ∨ ops = [] ∨ (d.cert = none ∧ ∀ op ∈ ops, op.onKey = true) ∨
    ∃ key, env.key = some key ∧ ops = [.openKey, .writeKey (O.writeKey key), .openCert,
      .writeCert (O.writeCert (O.selfSigned key))]

/-- All that is written reaches the disk, and no process dies between the opening and the end of the
certificate. -/
def Whole (s : State O) : Label O → Prop
  | .initializeCa env => Settles env s.files (generateOps env)
  | .die env n => Settles env s.files ((generateOps env).take n)
  | .restart => True

/-- What can be used, and what is used, is on the disk. -/
structure Sound (s : State O) : Prop where
  files : ¬ Torn O s.files
  ssl : s.ssl.initialized = true → ∃ cert key, Holds s.ssl cert key ∧ Loads s.files cert key

theorem cert_of_onKey {ops : List CaFiles.Op} (h : ∀ op ∈ ops, op.onKey = true) (d : CaFiles) :
    (ops.foldl CaFiles.apply d).cert = d.cert := by
  induction ops generalizing d with
  | nil => rfl
  | cons op ops ih =>
    rw [List.foldl_cons, ih fun op hop => h op (List.mem_cons_of_mem _ hop)]
    have hop := h op List.mem_cons_self
    cases op <;> first | rfl | cases hop

theorem loads_whole (hO : O.RoundTrips) (d : CaFiles) (key : O.Key) :
    Loads ([.openKey, .writeKey (O.writeKey key), .openCert,
      .writeCert (O.writeCert (O.selfSigned key))].foldl CaFiles.apply d) (O.selfSigned key) key :=
  ⟨hO.cert _, hO.key _, hO.signed key⟩

theorem not_torn_of_new (h : d.exist = false) : ¬ Torn O d := fun ht => by
  rw [ht.1] at h
  cases h

theorem Settles.not_torn (hO : O.RoundTrips) {ops : List CaFiles.Op} (h : Settles env d ops)
    (hexist : d.exist = false) (dir : Bool) : ¬ Torn O (ops.foldl CaFiles.apply { d with dir := dir }) := by
  rcases h with hthere | rfl | ⟨hnone, hops⟩ | ⟨key, -, rfl⟩
  · rw [hthere] at hexist
    cases hexist
  · exact not_torn_of_new hexist
  · apply not_torn_of_new
    rw [CaFiles.exist, cert_of_onKey hops, hnone]
    rfl
  · exact fun ht => ht.2 _ _ (loads_whole hO _ key)

theorem Calls.not_torn (hO : O.RoundTrips) {ssl' : SslInit O} (h : Calls ssl d env n ssl' d') (hd : ¬ Torn O d)
    (hw : Settles env d ((generateOps env).take n)) : ¬ Torn O d' := by
  have hsame (dir : Bool) : ¬ Torn O { d with dir := dir } := fun ht => hd (ht.of_texts rfl)
  cases h with
  | nothing dir => exact hsame dir
  | loaded dir => exact hsame dir
  | refused dir => exact hsame dir
  | generated dir _ hexist => exact hw.not_torn hO hexist dir
  | failed dir _ hexist => exact hw.not_torn hO hexist dir

theorem sound_step (hO : O.RoundTrips) (h : Sound s) (hw : Whole s a) (hs : step s a = some t) : Sound t := by
  cases a with
  | initializeCa env =>
    obtain rfl := Option.some.inj hs
    have hcalls := calls_of_initializeCa s.ssl s.files env (generateOps env).length
    have hsettles : Settles env s.files ((generateOps env).take (generateOps env).length) := by
      rw [List.take_length]
      exact hw
    refine ⟨hcalls.not_torn hO h.files hsettles, ?_⟩
    show (s.ssl.initializeCa s.files env _).2.1.initialized = true →
      ∃ cert key, Holds (s.ssl.initializeCa s.files env _).2.1 cert key ∧
        Loads (s.ssl.initializeCa s.files env _).2.2 cert key
    generalize (s.ssl.initializeCa s.files env (generateOps env).length).2 = after at hcalls
    obtain ⟨ssl, files⟩ := after
    intro hup
    cases hcalls with
    | nothing dir =>
      obtain ⟨cert, key, hholds, hload⟩ := h.ssl hup
      exact ⟨cert, key, hholds, hload.of_texts rfl⟩
    | loaded dir _ hload => exact ⟨_, _, ⟨rfl, rfl, rfl⟩, hload.of_texts rfl⟩
    | refused dir _ _ hafter =>
      rw [show ssl.initialized = false from hafter] at hup
      cases hup
    | failed dir hidle =>
      rw [hidle] at hup
      cases hup
    | @generated dir key _ hexist hkey hops =>
      rw [hops] at hsettles
      rcases hsettles with hthere | hnil | ⟨-, honKey⟩ | ⟨key', hkey', hwhole⟩
      · rw [hthere] at hexist
        cases hexist
      · cases hnil
      · exact absurd (honKey .openCert (by simp)) (by decide)
      · obtain rfl := Option.some.inj (hkey'.symm.trans hkey)
        refine ⟨_, _, ⟨rfl, rfl, rfl⟩, ?_⟩
        show Loads (((generateOps env).take (generateOps env).length).foldl _ _) _ _
        rw [hops, hwhole]
        exact loads_whole hO _ _
  | die env n =>
    obtain rfl := Option.some.inj hs
    refine ⟨(calls_of_initializeCa s.ssl s.files env n).not_torn hO h.files hw, fun hup => ?_⟩
    cases hup
  | restart =>
    obtain rfl := Option.some.inj hs
    refine ⟨h.files, fun hup => ?_⟩
    cases hup

/-- A call that makes a new CA does all four operations, if it lives. -/
theorem initializeCa_new (hidle : ssl.initialized = false) (hexist : d.exist = false)
    (hok : (ssl.initializeCa d env n).1 = true) : ∃ dir key, generateOps env =
      [.openKey, .writeKey ((O.writeKey key).take env.keyKept), .openCert,
        .writeCert ((O.writeCert (O.selfSigned key)).take env.certKept)] ∧
      ∀ m, (ssl.initializeCa d env m).2.2 =
        ((generateOps env).take m).foldl CaFiles.apply { d with dir := dir } := by
  cases hopen : env.openSsl with
  | false => simp [initializeCa, hidle, hopen] at hok
  | true => cases hdir : ensureCaDirectory d env with
    | none => simp [initializeCa, hidle, hopen, hdir] at hok
    | some d' =>
      obtain ⟨dir, rfl⟩ := ensureCaDirectory_spec hdir
      have hexist' : CaFiles.exist { d with dir := dir } = false := hexist
      have hcall (m : ℕ) : ssl.initializeCa d env m = ((ssl.generateRootCA env).1,
          { (ssl.generateRootCA env).2 with initialized := (ssl.generateRootCA env).1 },
          ((generateOps env).take m).foldl CaFiles.apply { d with dir := dir }) := by
        simp [initializeCa, hidle, hopen, hdir, hexist']
      rw [hcall n] at hok
      cases hkey : env.key with
      | none => simp [generateRootCA, hkey] at hok
      | some key =>
        have hall : (env.signs && env.opensKey && env.opensCert) = true := by
          simp only [generateRootCA, hkey] at hok
          split at hok
          · assumption
          · cases hok
        simp only [Bool.and_eq_true] at hall
        refine ⟨dir, key, ?_, fun m => ?_⟩
        · simp [generateOps, hkey, hall]
        · rw [hcall m]

/-- A process that dies between the opening and the writing of the certificate leaves torn files. -/
theorem torn_between (hO : O.RoundTrips) (hidle : s.ssl.initialized = false) (hexist : s.files.exist = false)
    (hok : (s.ssl.initializeCa s.files env n).1 = true) (hs : step s (.die env 3) = some t) :
    Torn O t.files := by
  obtain ⟨dir, key, hops, hfiles⟩ := initializeCa_new hidle hexist hok
  obtain rfl := Option.some.inj hs
  show Torn O (s.ssl.initializeCa s.files env 3).2.2
  rw [hfiles 3, hops]
  refine ⟨rfl, fun cert key hload => ?_⟩
  have hcert : O.readCert [] = some cert := hload.1
  rw [hO.empty] at hcert
  cases hcert

theorem sound_of_init (h : (system O).init s) : Sound s :=
  ⟨h.2, fun hup => by
    rw [h.1] at hup
    cases hup⟩

/-- Where both files exist nothing is written. -/
theorem whole_of_exist (h : s.files.exist = true) (a : Label O) : Whole s a := by
  cases a with
  | initializeCa env => exact .inl h
  | die env n => exact .inl h
  | restart => trivial

theorem sound_of_after (hO : O.RoundTrips) (h : Sound s) (hexist : s.files.exist = true)
    (ht : ((system O).after s).Reached t) : Sound t := by
  refine ht.invariant_of (J := fun t => (t.files.cert, t.files.key) = (s.files.cert, s.files.key))
    (fun t ht => texts_of_after hexist ht) ?_ ?_
  · rintro _ rfl
    exact h
  · intro u a t htexts hu _ hstep
    exact sound_step hO hu (whole_of_exist ((exist_of_texts htexts).trans hexist) a) hstep

theorem torn_of_after {C : State O → Label O → Prop} (h : Torn O s.files ∧ s.ssl.initialized = false)
    (ht : ((system O).after s).ReachedUnder C t) : Torn O t.files ∧ t.ssl.initialized = false := by
  refine ht.invariant (I := fun t => Torn O t.files ∧ t.ssl.initialized = false) ?_ ?_
  · rintro _ rfl
    exact h
  · intro u a t hu _ hstep
    exact torn_step hu hstep

end Runs

/-- If all that was written is whole when a process is up, the CA that it uses is that of the files, and
every later process that comes up uses the same, whatever happens in between. -/
theorem ca_kept (hO : O.RoundTrips) {s t : State O} (hs : (system O).ReachedUnder Whole s)
    (hup : s.ssl.initialized = true) (ht : ((system O).after s).Reached t) :
    ∃ cert key, Holds s.ssl cert key ∧ Loads t.files cert key ∧
      (t.ssl.initialized = true → Holds t.ssl cert key) := by
  have hsound : Sound s := by
    refine hs.invariant (fun s => sound_of_init) ?_
    intro u a t hu hw hstep
    exact sound_step hO hu hw hstep
  obtain ⟨cert, key, hholds, hload⟩ := hsound.ssl hup
  have hlater := hload.of_texts (texts_of_after hload.exist ht)
  refine ⟨cert, key, hholds, hlater, fun htup => ?_⟩
  obtain ⟨cert', key', hholds', hload'⟩ := (sound_of_after hO hsound hload.exist ht).ssl htup
  obtain ⟨rfl, rfl⟩ := hlater.unique hload'
  exact hholds'

/-- OpenSSL with one byte for a certificate and for its key. -/
def oneByte : OpenSsl where
  Cert := UInt8
  Key := UInt8
  selfSigned key := key
  writeCert cert := [67, cert, 10]
  writeKey key := [75, key, 10]
  readCert text := if text.take 1 = [67] ∧ text.drop 2 = [10] then text[1]? else none
  readKey text := if text.take 1 = [75] ∧ text.drop 2 = [10] then text[1]? else none
  checkPrivateKey cert key := cert == key

theorem oneByte_roundTrips : oneByte.RoundTrips :=
  ⟨fun _ => rfl, fun _ => rfl, rfl, fun _ => beq_self_eq_true _⟩

/-- The second process would have made another CA. -/
theorem ca_kept_secondStart : ∃ s t : State oneByte, s.ssl.initialized = true ∧ t.ssl.initialized = true ∧
    s.files.cert = some [67, 7, 10] ∧ ∃ cert key, Holds s.ssl cert key ∧ Holds t.ssl cert key := by
  let first : CaEnv oneByte := { key := some (7 : UInt8), keyKept := 3, certKept := 3 }
  let second : CaEnv oneByte := { key := some (9 : UInt8), keyKept := 3, certKept := 3 }
  let s : State oneByte :=
    { ssl := { initialized := true, caCert := some (7 : UInt8), caKey := some (7 : UInt8) },
      files := { dir := true, cert := some [67, 7, 10], key := some [75, 7, 10] } }
  have hwhole : Whole {} (.initializeCa first) := .inr (.inr (.inr ⟨(7 : UInt8), rfl, rfl⟩))
  have hs : (system oneByte).ReachedUnder Whole s := .step (.init ⟨rfl, not_torn_of_new rfl⟩) hwhole rfl
  have hended : ((system oneByte).after s).Reached { s with ssl := {} } :=
    .step (a := .restart) (.init rfl) trivial rfl
  have ht : ((system oneByte).after s).Reached s := .step (a := .initializeCa second) hended trivial rfl
  obtain ⟨cert, key, hholds, -, hlater⟩ := ca_kept oneByte_roundTrips hs rfl ht
  exact ⟨s, s, rfl, rfl, rfl, cert, key, hholds, hlater rfl⟩

/-- Nothing of OpenSSL's or the system's fails. -/
def Unfailing (env : CaEnv O) (key : O.Key) : Prop :=
  env.openSsl = true ∧ env.createDir = true ∧ env.key = some key ∧ env.signs = true ∧ env.opensKey = true ∧
    env.opensCert = true

theorem initializeCa_up {key : O.Key} (henv : Unfailing env key) (hidle : ssl.initialized = false)
    (h : ¬ Torn O d) : (ssl.initializeCa d env n).2.1.initialized = true := by
  obtain ⟨hopen, hcreate, hkey, hsigns, hopensKey, hopensCert⟩ := henv
  obtain ⟨d', hdir⟩ : ∃ d', ensureCaDirectory d env = some d' := by
    rw [ensureCaDirectory, hcreate]
    split
    · exact ⟨d, rfl⟩
    · exact ⟨_, rfl⟩
  obtain ⟨dir, rfl⟩ := ensureCaDirectory_spec hdir
  cases hexist : d.exist with
  | false =>
    have hexist' : CaFiles.exist { d with dir := dir } = false := hexist
    simp [initializeCa, hidle, hopen, hdir, hexist', generateRootCA, hkey, hsigns, hopensKey, hopensCert]
  | true =>
    have hexist' : CaFiles.exist { d with dir := dir } = true := hexist
    obtain ⟨cert, key', hreadCert, hreadKey, hcheck⟩ : ∃ cert key, Loads d cert key := by
      by_contra hno
      exact h ⟨hexist, fun cert key hload => hno ⟨cert, key, hload⟩⟩
    simp [initializeCa, hidle, hopen, hdir, hexist', loadRootCA, hopensKey, hopensCert, hreadCert, hreadKey, hcheck]

/-- Torn files are all that can keep every later process from coming up. Nothing repairs them, and a process
leaves them that dies when it has opened the certificate of a new CA and not yet written it. -/
theorem never_up_iff (key : O.Key) {s : State O} (hidle : s.ssl.initialized = false) :
    ((∀ t, ((system O).after s).Reached t → t.ssl.initialized = false) ↔ Torn O s.files) ∧
    (Torn O s.files → ∀ t, ((system O).after s).Reached t →
      Torn O t.files ∧ (t.files.cert, t.files.key) = (s.files.cert, s.files.key)) ∧
    (O.RoundTrips → s.files.exist = false → ∀ env n, (s.ssl.initializeCa s.files env n).1 = true →
      ∀ t, step s (.die env 3) = some t → Torn O t.files) := by
  refine ⟨⟨fun h => ?_, fun h t ht => (torn_of_after ⟨h, hidle⟩ ht).2⟩,
    fun h t ht => ⟨(torn_of_after ⟨h, hidle⟩ ht).1, texts_of_after h.1 ht⟩,
    fun hO hexist env n hok t hs => torn_between hO hidle hexist hok hs⟩
  by_contra hwhole
  let env : CaEnv O := { key := some key, keyKept := 0, certKept := 0 }
  have henv : Unfailing env key := ⟨rfl, rfl, rfl, rfl, rfl, rfl⟩
  have hup := initializeCa_up (n := (generateOps env).length) henv hidle hwhole
  have hdown := h _ (.step (a := .initializeCa env) (.init rfl) trivial rfl)
  exact absurd (hup.symm.trans hdown) (by decide)

/-- The first process dies when its certificate is open and not yet written. -/
def firstCall : CaEnv oneByte := { key := some (7 : UInt8), keyKept := 3, certKept := 3 }

/-- What it leaves. -/
def diedWithin : State oneByte where
  files := (initializeCa (O := oneByte) {} {} firstCall 3).2.2

theorem never_up_iff_diedWithin : step {} (.die firstCall 3) = some diedWithin ∧
    diedWithin.files.cert = some [] ∧
    (∀ t, ((system oneByte).after diedWithin).Reached t → t.files.cert = some []) ∧
    ¬ ∃ t, ((system oneByte).after diedWithin).Reached t ∧ t.ssl.initialized = true := by
  obtain ⟨-, -, hdied⟩ := never_up_iff (O := oneByte) (7 : UInt8) (s := {}) rfl
  have htorn := hdied oneByte_roundTrips rfl firstCall 4 rfl diedWithin rfl
  obtain ⟨hnever, hkept, -⟩ := never_up_iff (O := oneByte) (7 : UInt8) (s := diedWithin) rfl
  refine ⟨rfl, rfl, fun t ht => (Prod.mk.inj (hkept htorn t ht).2).1, ?_⟩
  rintro ⟨t, ht, hup⟩
  exact absurd (hup.symm.trans (hnever.mpr htorn t ht)) (by decide)

end SslInit

end BurpTUI
