import BurpTUI.Proxy.CertGenerator
import BurpTUI.Proxy.FailedLookup
import BurpTUI.Proxy.SslInit

namespace BurpTUI

open CertGenerator (Nid extensions generalNames)

/-- What `generate` puts into a certificate. -/
structure LeafCert (O : OpenSsl) where
  issuer : O.Cert
  extensions : List (Nid × Bytes)
  key : O.Key
  signedBy : O.Key

/-- The names in the extension for the subject. -/
def LeafCert.names {O : OpenSsl} (leaf : LeafCert O) : List (Bytes × Bytes) :=
  (leaf.extensions.filter fun e => e.1 = .subjectAltName).flatMap fun e => generalNames e.2

/-- What is used of OpenSSL for these certificates. An extension that is not accepted is left out. -/
structure LeafSsl (O : OpenSsl) where
  accepts : Nid × Bytes → Bool
  writeLeaf : LeafCert O → Bytes
  readLeaf : Bytes → Option (LeafCert O)

structure LeafSsl.RoundTrips {O : OpenSsl} (T : LeafSsl O) : Prop where
  leaf : ∀ leaf, T.readLeaf (T.writeLeaf leaf) = some leaf
  key : ∀ key, O.readKey (O.writeKey key) = some key

/-- What a call of `generate` finds: the key that is made, and which operations succeed. -/
structure LeafEnv (O : OpenSsl) where
  key : Option O.Key := none
  signs : Bool := true
  writesCert : Bool := true
  writesKey : Bool := true

/-- What is served to a client: the host that was asked for, and the entry. -/
abbrev Served := Bytes × CertCache.Entry CertKeyPair

namespace CertCache

variable {Ctx : Type} {c : CertCache Ctx} {minted : Minted Ctx} {hostname b : Bytes} {e : Entry Ctx}

/-- What is cached after a generation was cached before, or is what was generated. -/
theorem findEntry_mint (hnew : hostname ∉ c.cache) (h : (c.mint hostname minted).2.findEntry b = some e) :
    c.findEntry b = some e ∨ b = hostname ∧ minted.success = some e := by
  rcases c.mint_cases hostname minted with ⟨hsame, -⟩ | ⟨hpos, keyPair, loaded, rfl, hcert, hkey⟩
  · rw [hsame] at h
    exact .inl h
  · have hfind := (@mint_cached _ c hostname hpos hnew keyPair loaded hcert hkey).2
    rw [hfind] at h
    split at h
    · rename_i hb
      refine .inr ⟨hb, ?_⟩
      simp [Minted.success, createSslContext, hcert, hkey, ← h]
    · rw [(evictOldest_spec hpos).2] at h
      split at h
      · exact .inl h
      · cases h

theorem mint_success (h : minted.success = some e) : (c.mint hostname minted).1 = e := by
  cases minted with
  | threw => cases h
  | returned keyPair loaded =>
    simp only [Minted.success] at h
    split at h
    · cases h
    · rename_i hpair
      rw [mint, if_neg hpair]
      exact Option.some.inj h

variable {s t : State Ctx} {a : Label Ctx} {P : Bytes → Entry Ctx → Prop}

/-- What holds of all cached entries and of what is generated stays so. -/
theorem entries_step (hs : s.cache.Consistent) (hstep : step s a = some t)
    (h : ∀ b e, s.cache.findEntry b = some e → P b e) (hmade : ∀ p, generated s a = some p → P p.1 p.2)
    (hfind : t.cache.findEntry b = some e) : P b e := by
  cases step_section hs hstep with
  | missed hsame => exact h b e (hsame ▸ hfind)
  | hit hsame => exact h b e (hsame ▸ hfind)
  | again _ hitem hp ht =>
    rw [ht, (promote_spec hs hitem hp).2.2] at hfind
    exact h b e hfind
  | made hcall hnew hm ht =>
    rw [ht] at hfind
    rcases findEntry_mint hnew hfind with hold | ⟨rfl, hsuccess⟩
    · exact h b e hold
    · exact hmade (b, e) (by simp [generated, hcall, hnew, hsuccess])
  | failed _ _ _ ht => exact h b e (ht ▸ hfind)
  | touched hitem hp ht =>
    rw [ht, (promote_spec hs hitem hp).2.2] at hfind
    exact h b e hfind
  | absent _ ht => exact h b e (ht ▸ hfind)
  | cleared ht =>
    rw [ht] at hfind
    simp [findEntry, clear] at hfind

/-- And it holds of what is returned. -/
theorem entries_returned (h : ∀ b e, s.cache.findEntry b = some e → P b e)
    (hmade : ∀ p, generated s a = some p → P p.1 p.2) {p : Bytes × Entry Ctx} (hp : returned s a = some p) :
    P p.1 p.2 := by
  cases a with
  | getEntry hostname =>
    simp only [returned] at hp
    split at hp
    · cases hp
    · obtain ⟨e, he, rfl⟩ := Option.map_eq_some_iff.mp hp
      exact h hostname e he
  | getOrMint k minted =>
    obtain ⟨hostname, hcall, hp⟩ := Option.bind_eq_some_iff.mp hp
    split at hp
    · rename_i hcase
      obtain ⟨r, hr, rfl⟩ := Option.map_eq_some_iff.mp hp
      cases hitem : s.cache.cache.lookup hostname with
      | some item =>
        simp only [getOrMint, hitem, Option.map_eq_some_iff] at hr
        obtain ⟨c', -, rfl⟩ := hr
        exact h hostname _ (by rw [findEntry, hitem]; rfl)
      | none =>
        have hnew := AList.lookup_eq_none.mp hitem
        obtain ⟨e, he⟩ := Option.isSome_iff_exists.mp (hcase.resolve_left hnew)
        simp only [getOrMint, hitem, Option.some.injEq] at hr
        rw [← hr, mint_success he]
        exact hmade (hostname, e) (by simp [generated, hcall, hnew, he])
    · cases hp
  | touch hostname => cases hp
  | clear => cases hp

end CertCache

namespace LeafTrust

open CertCache (Entry Minted)

variable {O : OpenSsl} (T : LeafSsl O)

def leafCert (caCert : O.Cert) (caKey key : O.Key) (hostname : Bytes) : LeafCert O where
  issuer := caCert
  extensions := (extensions hostname).filter T.accepts
  key := key
  signedBy := caKey

/-- The end of `generate`, where both are written to strings. -/
def writePair (env : LeafEnv O) (leaf : LeafCert O) : CertKeyPair :=
  let result : CertKeyPair :=
    { certPem := if env.writesCert then T.writeLeaf leaf else []
      keyPem := if env.writesKey then O.writeKey leaf.key else [] }
  if result.certPem = [] ∨ result.keyPem = [] then {} else result

/-- `generate`, with the root CA of the singleton. -/
def generate (ssl : SslInit O) (env : LeafEnv O) (hostname : Bytes) : CertKeyPair :=
  if hostname = [] ∨ ssl.initialized = false then {}
  else match ssl.caCert, ssl.caKey, env.key with
  | some caCert, some caKey, some key =>
    if env.signs then writePair T env (leafCert T caCert caKey key hostname) else {}
  | _, _, _ => {}

/-- The process with its cache, and what was served since the first start. A context is known by the pair
that it was made of. -/
structure State (O : OpenSsl) where
  ca : SslInit.State O := {}
  cache : CertCache.State CertKeyPair
  served : List Served := []

inductive Label (O : OpenSsl)
  | ca (a : SslInit.Label O)
  | getEntry (hostname : Bytes)
  | getOrMint (k : ℕ) (env : LeafEnv O) (loads : Bool)
  | touch (hostname : Bytes)
  | clear

/-- The section of the cache, with what `generate` returns in it. -/
def cacheLabel (s : State O) : Label O → Option (CertCache.Label CertKeyPair)
  | .ca _ => none
  | .getEntry hostname => some (.getEntry hostname)
  | .getOrMint k env loads => (s.cache.calls[k]?).map fun hostname =>
    let pair := generate T s.ca.ssl env hostname
    .getOrMint k (.returned pair (if loads then some pair else none))
  | .touch hostname => some (.touch hostname)
  | .clear => some .clear

def freshCache (maxEntries : ℕ) : CertCache.State CertKeyPair := { cache := { maxEntries := maxEntries } }

variable (maxEntries : ℕ)

/-- A new process has an empty cache. -/
def step (s : State O) : Label O → Option (State O)
  | .ca (.initializeCa env) => (SslInit.step s.ca (.initializeCa env)).map fun ca => { s with ca := ca }
  | .ca a => (SslInit.step s.ca a).map fun ca => { s with ca := ca, cache := freshCache maxEntries }
  | a => (cacheLabel T s a).bind fun c => (CertCache.step s.cache c).map fun cache =>
    { s with cache := cache, served := s.served ++ (CertCache.returned s.cache c).toList }

def system : StepSystem.System (State O) (Label O) where
  init s := (SslInit.system O).init s.ca ∧ s.cache = freshCache maxEntries ∧ s.served = []
  step := step T maxEntries

/-- As in `SslInit.Whole`. -/
def Whole (s : State O) : Label O → Prop
  | .ca a => SslInit.Whole s.ca a
  | _ => True

/-- The pair for the host can be read as a certificate that the CA has signed for it, and the context is
made of that pair. -/
structure SignedFor (cert : O.Cert) (key : O.Key) (p : Served) : Prop where
  host : p.1 ≠ []
  pair : ∃ leafKey, T.readLeaf p.2.certKeyPair.certPem = some (leafCert T cert key leafKey p.1) ∧
    O.readKey p.2.certKeyPair.keyPem = some leafKey
  context : ∀ pair, p.2.sslContext = some pair → pair = p.2.certKeyPair

variable {T} {maxEntries} {ssl : SslInit O} {env : LeafEnv O} {hostname : Bytes}

theorem writePair_spec {leaf : LeafCert O} (h : (writePair T env leaf).certPem ≠ []) :
    writePair T env leaf = { certPem := T.writeLeaf leaf, keyPem := O.writeKey leaf.key } := by
  cases hcert : env.writesCert with
  | false => simp [writePair, hcert] at h
  | true => cases hkey : env.writesKey with
    | false => simp [writePair, hkey] at h
    | true =>
      simp only [writePair, hcert, hkey, if_true] at h ⊢
      split at h
      · exact absurd rfl h
      · rename_i hwritten
        exact if_neg hwritten

/-- What is generated is signed by the CA of the singleton. -/
theorem generate_spec (hT : T.RoundTrips) (h : (generate T ssl env hostname).certPem ≠ []) :
    hostname ≠ [] ∧ ∃ cert key leafKey, ssl.Holds cert key ∧
      T.readLeaf (generate T ssl env hostname).certPem = some (leafCert T cert key leafKey hostname) ∧
      O.readKey (generate T ssl env hostname).keyPem = some leafKey := by
  unfold generate at h ⊢
  split at h
  · exact absurd rfl h
  · rename_i hready
    rw [if_neg hready]
    rw [not_or, Bool.not_eq_false] at hready
    split at h
    · rename_i caCert caKey key hcaCert hcaKey hkey
      split at h
      · rename_i hsigns
        rw [if_pos hsigns, writePair_spec h]
        exact ⟨hready.1, caCert, caKey, key, ⟨hready.2, hcaCert, hcaKey⟩, hT.leaf _, hT.key _⟩
      · exact absurd rfl h
    · exact absurd rfl h

/-- An entry that a generation puts into the cache is for its host. -/
theorem signed_of_success (hT : T.RoundTrips) {loads : Bool} {e : Entry CertKeyPair}
    (h : (Minted.returned (generate T ssl env hostname)
      (if loads then some (generate T ssl env hostname) else none)).success = some e) :
    ∃ cert key, ssl.Holds cert key ∧ SignedFor T cert key (hostname, e) := by
  simp only [Minted.success] at h
  split at h
  · cases h
  · rename_i hpair
    obtain rfl := Option.some.inj h
    rw [not_or] at hpair
    obtain ⟨hhost, cert, key, leafKey, hholds, hleaf, hkey⟩ := generate_spec hT hpair.1
    refine ⟨cert, key, hholds, hhost, ⟨leafKey, hleaf, hkey⟩, fun pair hcontext => ?_⟩
    simp only [CertCache.createSslContext] at hcontext
    split at hcontext
    · cases hcontext
    · split at hcontext
      · exact (Option.some.inj hcontext).symm
      · cases hcontext

/-- What a step can be: a step of the CA in a process that goes on, one that ends it, or a section. -/
inductive Moves (T : LeafSsl O) (maxEntries : ℕ) (s : State O) : Label O → State O → Prop
  | kept {env : CaEnv O} {ca : SslInit.State O} (h : SslInit.step s.ca (.initializeCa env) = some ca) :
    Moves T maxEntries s (.ca (.initializeCa env)) { s with ca := ca }
  | ended {a : SslInit.Label O} {ca : SslInit.State O} (h : SslInit.step s.ca a = some ca) :
    Moves T maxEntries s (.ca a) { s with ca := ca, cache := freshCache maxEntries }
  | cached {a : Label O} {c : CertCache.Label CertKeyPair} {cache : CertCache.State CertKeyPair}
    (hc : cacheLabel T s a = some c) (h : CertCache.step s.cache c = some cache) :
    Moves T maxEntries s a
      { s with cache := cache, served := s.served ++ (CertCache.returned s.cache c).toList }

variable {s t : State O} {a : Label O}

theorem moves_of_step (h : step T maxEntries s a = some t) : Moves T maxEntries s a t := by
  have hcached (h : ((cacheLabel T s a).bind fun c => (CertCache.step s.cache c).map fun cache =>
      { s with cache := cache, served := s.served ++ (CertCache.returned s.cache c).toList }) = some t) :
      Moves T maxEntries s a t := by
    obtain ⟨c, hc, h⟩ := Option.bind_eq_some_iff.mp h
    obtain ⟨cache, hcache, rfl⟩ := Option.map_eq_some_iff.mp h
    exact .cached hc hcache
  cases a with
  | ca a => cases a with
    | initializeCa env =>
      simp only [step] at h
      obtain ⟨ca, hca, rfl⟩ := Option.map_eq_some_iff.mp h
      exact .kept hca
    | die env n =>
      simp only [step] at h
      obtain ⟨ca, hca, rfl⟩ := Option.map_eq_some_iff.mp h
      exact .ended hca
    | restart =>
      simp only [step] at h
      obtain ⟨ca, hca, rfl⟩ := Option.map_eq_some_iff.mp h
      exact .ended hca
  | getEntry hostname => exact hcached h
  | getOrMint k env loads => exact hcached h
  | touch hostname => exact hcached h
  | clear => exact hcached h

/-- Cached entries are signed by the CA that the process uses, and served ones by that of the files. -/
structure Inv (T : LeafSsl O) (s : State O) : Prop where
  ca : SslInit.Sound s.ca
  consistent : s.cache.cache.Consistent
  cached : ∀ b e, s.cache.cache.findEntry b = some e →
    ∃ cert key, s.ca.ssl.Holds cert key ∧ SignedFor T cert key (b, e)
  served : ∀ p ∈ s.served, ∃ cert key, SslInit.Loads s.ca.files cert key ∧ SignedFor T cert key p

theorem signed_of_generated (hT : T.RoundTrips) {c : CertCache.Label CertKeyPair}
    (hc : cacheLabel T s a = some c) {p : Served} (hp : CertCache.generated s.cache c = some p) :
    ∃ cert key, s.ca.ssl.Holds cert key ∧ SignedFor T cert key p := by
  cases a with
  | ca a => cases hc
  | getOrMint k env loads =>
    obtain ⟨hostname, hcall, rfl⟩ := Option.map_eq_some_iff.mp hc
    obtain ⟨hostname', hcall', hp⟩ := Option.bind_eq_some_iff.mp hp
    obtain rfl := Option.some.inj (hcall.symm.trans hcall')
    split at hp
    · cases hp
    · obtain ⟨e, he, rfl⟩ := Option.map_eq_some_iff.mp hp
      exact signed_of_success hT he
  | getEntry hostname =>
    obtain rfl := Option.some.inj hc
    cases hp
  | touch hostname =>
    obtain rfl := Option.some.inj hc
    cases hp
  | clear =>
    obtain rfl := Option.some.inj hc
    cases hp

theorem noEntry_freshCache (maxEntries : ℕ) (b : Bytes) :
    (freshCache maxEntries).cache.findEntry b = none := by
  simp [freshCache, CertCache.findEntry]

theorem Inv.served_step (h : Inv T s) {a : SslInit.Label O} {ca : SslInit.State O}
    (hs : SslInit.step s.ca a = some ca) :
    ∀ p ∈ s.served, ∃ cert key, SslInit.Loads ca.files cert key ∧ SignedFor T cert key p := by
  intro p hp
  obtain ⟨cert, key, hload, hsigned⟩ := h.served p hp
  exact ⟨cert, key, hload.of_texts (SslInit.texts_step hload.exist hs), hsigned⟩

theorem inv_step (hO : O.RoundTrips) (hT : T.RoundTrips) (h : Inv T s) (hw : Whole s a)
    (hstep : step T maxEntries s a = some t) : Inv T t := by
  cases moves_of_step hstep with
  | @kept env ca hca =>
    have hw : SslInit.Whole s.ca (.initializeCa env) := hw
    refine ⟨SslInit.sound_step hO h.ca hw hca, h.consistent, fun b e he => ?_, h.served_step hca⟩
    obtain ⟨cert, key, hholds, hsigned⟩ := h.cached b e he
    -- a process that has something cached is up, and keeps its CA
    rw [SslInit.ssl_of_up hholds.1 hca]
    exact ⟨cert, key, hholds, hsigned⟩
  | @ended a ca hca =>
    have hw : SslInit.Whole s.ca a := hw
    refine ⟨SslInit.sound_step hO h.ca hw hca, .empty maxEntries, fun b e he => ?_, h.served_step hca⟩
    rw [noEntry_freshCache] at he
    cases he
  | @cached _ c cache hc hcache =>
    have hmade (p : Served) (hp : CertCache.generated s.cache c = some p) := signed_of_generated hT hc hp
    refine ⟨h.ca, CertCache.consistent_step h.consistent hcache, fun b e he => ?_, fun p hp => ?_⟩
    · exact CertCache.entries_step h.consistent hcache h.cached hmade he
    · rcases List.mem_append.mp hp with hold | hnew
      · exact h.served p hold
      · obtain ⟨cert, key, hholds, hsigned⟩ :=
          CertCache.entries_returned h.cached hmade (Option.mem_toList.mp hnew)
        obtain ⟨cert', key', hholds', hload⟩ := h.ca.ssl hholds.1
        obtain ⟨rfl, rfl⟩ := hholds.unique hholds'
        exact ⟨_, _, hload, hsigned⟩

theorem inv_of_init (h : (system T maxEntries).init s) : Inv T s := by
  obtain ⟨hca, hcache, hserved⟩ := h
  refine ⟨SslInit.sound_of_init hca, ?_, fun b e he => ?_, fun p hp => ?_⟩
  · rw [hcache]
    exact .empty maxEntries
  · rw [hcache, noEntry_freshCache] at he
    cases he
  · rw [hserved] at hp
    cases hp

theorem inv_of_reached (hO : O.RoundTrips) (hT : T.RoundTrips)
    (h : (system T maxEntries).ReachedUnder Whole s) : Inv T s := by
  refine h.invariant (fun s => inv_of_init) ?_
  intro s a t hs hw hstep
  exact inv_step hO hT hs hw hstep

theorem loads_of_after {C : State O → Label O → Prop} {cert : O.Cert} {key : O.Key}
    (h : SslInit.Loads s.ca.files cert key) (ht : ((system T maxEntries).after s).ReachedUnder C t) :
    SslInit.Loads t.ca.files cert key := by
  refine ht.invariant (I := fun t => SslInit.Loads t.ca.files cert key) ?_ ?_
  · rintro _ rfl
    exact h
  · intro u a t hu _ hstep
    cases moves_of_step hstep with
    | kept hca => exact hu.of_texts (SslInit.texts_step hu.exist hca)
    | ended hca => exact hu.of_texts (SslInit.texts_step hu.exist hca)
    | cached => exact hu

/-- From then on nothing can go wrong with the files. -/
theorem inv_of_after (hO : O.RoundTrips) (hT : T.RoundTrips) (h : Inv T s) {cert : O.Cert} {key : O.Key}
    (hload : SslInit.Loads s.ca.files cert key) (ht : ((system T maxEntries).after s).Reached t) : Inv T t := by
  refine ht.invariant_of (J := fun t => SslInit.Loads t.ca.files cert key)
    (fun t ht => loads_of_after hload ht) ?_ ?_
  · rintro _ rfl
    exact h
  · intro u a t hfiles hu _ hstep
    refine inv_step hO hT hu ?_ hstep
    cases a with
    | ca a => exact SslInit.whole_of_exist hfiles.exist a
    | _ => trivial

/-- The text that `serveCaCert` offers: the certificate of the singleton, or else its file. -/
def caCertText (s : SslInit.State O) (writes : Bool) : Bytes :=
  let certContent := match s.ssl.caCert with
    | some cert => if writes then O.writeCert cert else []
    | none => []
  if certContent = [] then s.files.cert.getD [] else certContent

theorem readCert_caCertText (hO : O.RoundTrips) {s : SslInit.State O} {cert : O.Cert} {key : O.Key}
    (h : s.ssl.Holds cert key) (hload : SslInit.Loads s.files cert key) (writes : Bool) :
    O.readCert (caCertText s writes) = some cert := by
  obtain ⟨text, htext, hread⟩ := Option.bind_eq_some_iff.mp hload.1
  have hfile : s.files.cert.getD [] = text := by rw [htext, Option.getD_some]
  unfold caCertText
  rw [h.2.1, hfile]
  cases writes with
  | false => exact hread
  | true =>
    show O.readCert (if O.writeCert cert = [] then text else O.writeCert cert) = some cert
    split
    · exact hread
    · exact hO.cert cert

/-- The value that names the host. -/
def subjectAltName (hostname : Bytes) : Nid × Bytes :=
  (.subjectAltName, CertGenerator.cStr (str "DNS:" ++ hostname))

/-- OpenSSL's only part in the names is whether it accepts their extension. -/
theorem names_leafCert {cert : O.Cert} {key leafKey : O.Key} (h : T.accepts (subjectAltName hostname) = true) :
    (leafCert T cert key leafKey hostname).names = CertGenerator.subjectNames hostname := by
  have honly : (extensions hostname).filter (fun e => e.1 = .subjectAltName) =
      if hostname = [] then [] else [subjectAltName hostname] := by
    unfold extensions
    split
    · rfl
    · rfl
  have hswap : ((extensions hostname).filter T.accepts).filter (fun e => e.1 = .subjectAltName) =
      ((extensions hostname).filter fun e => e.1 = .subjectAltName).filter T.accepts := List.filter_comm ..
  rw [LeafCert.names, leafCert, hswap, CertGenerator.subjectNames, honly]
  split
  · rfl
  · rw [List.filter_singleton, h]
    rfl

/-- Whoever takes the certificate that a running process offers can trust what is served before and
afterwards, by this process and all later ones: it is signed by that CA for the host that was asked for,
and it names that host if it is a plain name. -/
theorem leaf_trusted (hO : O.RoundTrips) (hT : T.RoundTrips) {s t : State O}
    (hs : (system T maxEntries).ReachedUnder Whole s) (hup : s.ca.ssl.initialized = true)
    (ht : ((system T maxEntries).after s).Reached t) :
    ∃ cert key, (∀ writes, O.readCert (caCertText s.ca writes) = some cert) ∧
      O.checkPrivateKey cert key = true ∧ ∀ p ∈ t.served, SignedFor T cert key p ∧
        (T.accepts (subjectAltName p.1) = true → ∀ leaf, T.readLeaf p.2.certKeyPair.certPem = some leaf →
          (CertGenerator.NamesExactly p.1 leaf.names ↔ CertGenerator.PlainName p.1)) := by
  have hinv := inv_of_reached hO hT hs
  obtain ⟨cert, key, hholds, hload⟩ := hinv.ca.ssl hup
  refine ⟨cert, key, readCert_caCertText hO hholds hload, hload.2.2, fun p hp => ?_⟩
  obtain ⟨cert', key', hload', hsigned⟩ := (inv_of_after hO hT hinv hload ht).served p hp
  obtain ⟨rfl, rfl⟩ := (loads_of_after hload ht).unique hload'
  refine ⟨hsigned, fun haccepts leaf hleaf => ?_⟩
  obtain ⟨leafKey, hread, -⟩ := hsigned.pair
  obtain rfl := Option.some.inj (hread.symm.trans hleaf)
  rw [names_leafCert haccepts]
  exact CertGenerator.namesExactly_iff hsigned.host

section Examples

open SslInit (oneByte oneByte_roundTrips)

def nidCode : Nid → UInt8
  | .basicConstraints => 0
  | .keyUsage => 1
  | .extKeyUsage => 2
  | .subjectAltName => 3
  | .subjectKeyIdentifier => 4
  | .authorityKeyIdentifier => 5

def nidOf (n : UInt8) : Nid :=
  (([.basicConstraints, .keyUsage, .extKeyUsage, .subjectAltName, .subjectKeyIdentifier,
    .authorityKeyIdentifier] : List Nid)[n.toNat]?).getD .basicConstraints

/-- The value, byte by byte, and then what it is. -/
def writeExtension (e : Nid × Bytes) : Bytes := (e.2.flatMap fun b => [1, b]) ++ [2, nidCode e.1]

def readExtensions : Bytes → List (Nid × Bytes)
  | 1 :: b :: rest => match readExtensions rest with
    | (nid, value) :: es => (nid, b :: value) :: es
    | [] => []
  | 2 :: n :: rest => (nidOf n, []) :: readExtensions rest
  | _ => []

theorem readExtensions_write (es : List (Nid × Bytes)) : readExtensions (es.flatMap writeExtension) = es := by
  have hone (e : Nid × Bytes) (rest : Bytes) :
      readExtensions (writeExtension e ++ rest) = e :: readExtensions rest := by
    obtain ⟨nid, value⟩ := e
    have hnid : nidOf (nidCode nid) = nid := by cases nid <;> rfl
    induction value with
    | nil =>
      show (nidOf (nidCode nid), []) :: readExtensions rest = _
      rw [hnid]
    | cons b value ih =>
      show readExtensions (1 :: b :: (writeExtension (nid, value) ++ rest)) = _
      rw [readExtensions, ih]
  induction es with
  | nil => rfl
  | cons e es ih => rw [List.flatMap_cons, hone, ih]

def plainLeaf : LeafSsl oneByte where
  accepts _ := true
  writeLeaf leaf :=
    let bytes : Bytes := [leaf.issuer, leaf.key, leaf.signedBy]
    bytes ++ leaf.extensions.flatMap writeExtension
  readLeaf text := match text with
    | issuer :: key :: signedBy :: rest => some ⟨issuer, readExtensions rest, key, signedBy⟩
    | _ => none

theorem plainLeaf_roundTrips : plainLeaf.RoundTrips := by
  refine ⟨fun leaf => ?_, fun _ => rfl⟩
  obtain ⟨issuer, es, key, signedBy⟩ := leaf
  show some (LeafCert.mk (O := oneByte) issuer (readExtensions (es.flatMap writeExtension)) key signedBy) = _
  rw [readExtensions_write]

def firstStart : State oneByte :=
  { ca := { ssl := { initialized := true, caCert := some (7 : UInt8), caKey := some (7 : UInt8) }
            files := { dir := true, cert := some [67, 7, 10], key := some [75, 7, 10] } }
    cache := freshCache 2 }

/-- A certificate for a host, the end of the process, and another one for the same host by the next. -/
def twoStarts : List (Label oneByte) :=
  let second : CaEnv oneByte := { key := some (9 : UInt8), keyKept := 3, certKept := 3 }
  [.getEntry (str "h"), .getOrMint 0 { key := some (1 : UInt8) } true, .ca .restart, .ca (.initializeCa second),
    .getEntry (str "h"), .getOrMint 0 { key := some (2 : UInt8) } true]

theorem leaf_trusted_twoStarts : ∃ t, ((system plainLeaf 2).after firstStart).run firstStart twoStarts = some t ∧
    t.served.map Prod.fst = [str "h", str "h"] ∧ ∃ cert key,
      (∀ writes, oneByte.readCert (caCertText firstStart.ca writes) = some cert) ∧
        ∀ p ∈ t.served, SignedFor plainLeaf cert key p := by
  let first : CaEnv oneByte := { key := some (7 : UInt8), keyKept := 3, certKept := 3 }
  have hinit : (system plainLeaf 2).init { cache := freshCache 2 } :=
    ⟨⟨rfl, SslInit.not_torn_of_new rfl⟩, rfl, rfl⟩
  have hfirst : Whole { cache := freshCache 2 } (.ca (.initializeCa first)) :=
    .inr (.inr (.inr ⟨(7 : UInt8), rfl, rfl⟩))
  have hs : (system plainLeaf 2).ReachedUnder Whole firstStart := .step (.init hinit) hfirst rfl
  have hrun : (((system plainLeaf 2).after firstStart).run firstStart twoStarts).any (fun t =>
      t.served.map Prod.fst = [str "h", str "h"]) = true := by decide
  obtain ⟨t, ht, hlast⟩ := (Option.any_eq_true _ _).mp hrun
  have hafter : ((system plainLeaf 2).after firstStart).Reached t := .run (.init rfl) ht
  obtain ⟨cert, key, hoffered, -, hserved⟩ :=
    leaf_trusted SslInit.oneByte_roundTrips plainLeaf_roundTrips hs rfl hafter
  exact ⟨t, ht, of_decide_eq_true hlast, cert, key, hoffered, fun p hp => (hserved p hp).1⟩

end Examples

end LeafTrust

end BurpTUI
