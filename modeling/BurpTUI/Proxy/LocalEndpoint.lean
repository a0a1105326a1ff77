import BurpTUI.Proxy.Destination
import BurpTUI.Proxy.Turn

namespace BurpTUI

/-- An absolute URL in its parts; a query belongs to the path. -/
structure AbsoluteUrl where
  scheme : Bytes
  authority : Bytes
  path : Bytes
  scheme_bare : 58 ∉ scheme
  authority_given : authority ≠ []
  authority_bare : ∀ c ∈ authority, c ≠ 47 ∧ c ≠ 63 ∧ c ≠ 35
  path_rooted : path = [] ∨ path.head? = some 47

namespace AbsoluteUrl

variable (u : AbsoluteUrl)

def text : Bytes := u.scheme ++ (str "://" ++ (u.authority ++ u.path))

/-- The host that the authority names: it stands behind any userinfo, and is an address in brackets
or ends at the first colon. -/
def host : Bytes :=
  let rest := (u.authority.reverse.takeWhile (· != 64)).reverse
  if rest.head? = some 91 then rest.takeWhile (· != 93) ++ [93] else rest.takeWhile (· != 58)

/-- The host is none of the proxy's own names. -/
def Foreign : Prop :=
  u.host.map toLower ∉ [str "burp", str "burptui", str "127.0.0.1", str "localhost"]

theorem urlAuthority_text : urlAuthority u.text = u.authority := by
  have hbare : (47 : UInt8) ∉ u.authority := fun h => (u.authority_bare 47 h).1 rfl
  have hcut : Search.cut (str "://") u.text = some (u.scheme, u.authority ++ u.path) := by
    have hskip := Search.cut_skip (p := str "//") (s := str "://" ++ (u.authority ++ u.path))
      u.scheme_bare
    have hhere : Search.cut (58 :: str "//") (str "://" ++ (u.authority ++ u.path)) =
        some ([], u.authority ++ u.path) := by simp [str, Search.cut]
    rw [hhere] at hskip
    change Search.cut (58 :: str "//") _ = _
    simpa [text] using hskip
  unfold urlAuthority
  simp only [hcut]
  rcases u.path_rooted with hpath | hpath
  · have hnone : Search.cut (str "/") (u.authority ++ u.path) = none := by
      rw [hpath, List.append_nil, Search.cut_eq_none_iff]
      exact fun h => hbare ((List.singleton_infix_iff _ _).mp h)
    rw [hnone, hpath, List.append_nil]
  · obtain ⟨rest, hrest⟩ : ∃ rest, u.path = 47 :: rest := by
      cases hp : u.path with
      | nil => simp [hp] at hpath
      | cons c rest =>
        rw [hp, List.head?_cons, Option.some.injEq] at hpath
        exact ⟨rest, by rw [hpath]⟩
    have hslash : Search.cut (str "/") (u.authority ++ u.path) = some (u.authority, rest) := by
      rw [hrest]
      exact Search.cut_singleton 47 u.authority rest hbare
    rw [hslash]

theorem text_ne_cert : u.text ≠ str "/cert" := by
  intro h
  have hcolon : (58 : UInt8) ∈ u.text := by simp [text, str]
  rw [h] at hcolon
  exact absurd hcolon (by decide)

/-- A foreign host leaves only the end of the URL to decide. -/
theorem isLocalEndpoint_text (h : u.Foreign) :
    isLocalEndpoint u.host u.text = endsWithCert u.text := by
  simp only [Foreign, List.mem_cons, List.not_mem_nil, or_false, not_or] at h
  obtain ⟨hburp, hburptui, haddress, hlocal⟩ := h
  simp only [isLocalEndpoint, beq_eq_false_iff_ne.mpr hburp, beq_eq_false_iff_ne.mpr hburptui,
    beq_eq_false_iff_ne.mpr haddress, beq_eq_false_iff_ne.mpr hlocal,
    beq_eq_false_iff_ne.mpr u.text_ne_cert, Bool.false_or, Bool.false_and, Bool.or_false]

end AbsoluteUrl

namespace HttpRequest

/-- A plain request in absolute form, with the same authority in its `Host` header or without one. -/
structure InAbsoluteForm (req : HttpRequest) (u : AbsoluteUrl) : Prop where
  plain : req.method ≠ str "CONNECT"
  url : req.url = u.text
  host : req.header (str "Host") = [] ∨ req.header (str "Host") = u.authority

theorem InAbsoluteForm.authority {req : HttpRequest} {u : AbsoluteUrl} (h : req.InAbsoluteForm u) :
    plainHostPort req = u.authority := by
  unfold plainHostPort
  rcases h.host with hnone | hsame
  · rw [if_pos hnone, h.url, u.urlAuthority_text]
  · rw [hsame, if_neg u.authority_given]

end HttpRequest

namespace Session

variable {L : Llhttp} {s s' : Session L} {env : Env} {req : HttpRequest}

/-- The request is not answered: it goes to that host, or it is paused for interception. -/
structure Dispatched (env : Env) (req : HttpRequest) (host : Bytes) (s s' : Session L) : Prop where
  upstreamHost : s'.upstreamHost = host
  way : env.interceptEnabled = false ∧
      s'.log = s.log ++ [.took env.newRef req, .tested env.newRef false] ∧
      (s.clientOpen = true → .resolve ∈ s'.io.pending) ∨
    env.interceptEnabled = true ∧ ∃ item, item.host = host ∧ item.request = some env.newRef ∧
      s'.log = s.log ++ [.took env.newRef req, .tested env.newRef true, .intercepted item]

theorem closeServer_log (s : Session L) : s.closeServer.log = s.log ∧
    s.closeServer.upstreamHost = s.upstreamHost := by
  unfold closeServer
  split <;> exact ⟨rfl, rfl⟩

theorem forwardRequest_dials (s : Session L) : s.forwardRequest.log = s.log ∧
    s.forwardRequest.upstreamHost = s.upstreamHost ∧
    (s.clientOpen = true → .resolve ∈ s.forwardRequest.io.pending) := by
  unfold forwardRequest
  split
  · obtain ⟨hlog, hhost⟩ := s.closeServer_log
    refine ⟨hlog, hhost, fun _ => ?_⟩
    simp [connectUpstream, start, Executor.start]
  · rename_i hclosed
    exact ⟨rfl, rfl, fun h => absurd h hclosed⟩

theorem handleUpstreamRoute_dispatched (s : Session L) (env : Env) (req : HttpRequest)
    (host port : Bytes) (n : ℤ) :
    Dispatched env req host s ((s.tookRequest env req).handleUpstreamRoute env host port n) := by
  unfold handleUpstreamRoute
  dsimp only
  cases hen : env.interceptEnabled with
  | true =>
    rw [if_pos rfl]
    let item : InterceptedRequest Ref := { id := env.nextId, isHttps := false, host := host
                                           port := UInt16.ofInt n, request := some env.newRef
                                           onDecision := env.newRef }
    refine ⟨rfl, .inr ⟨hen, item, rfl, rfl, ?_⟩⟩
    simp [item, intercept, cancelTimer, cancel, emit, tookRequest]
  | false =>
    rw [if_neg Bool.false_ne_true]
    let routed := { s.tookRequest env req with
      currentTransaction := { (s.tookRequest env req).currentTransaction with
        host := host, port := n, isHttps := false }
      upstreamHost := host
      upstreamPort := port }.emit (.tested env.newRef false)
    obtain ⟨hlog, hhost, hdial⟩ := forwardRequest_dials routed
    refine ⟨hhost, .inl ⟨hen, hlog.trans ?_, hdial⟩⟩
    simp [routed, emit, tookRequest]

/-- A dispatched request adds nothing but itself to what its exchange consists of. -/
theorem Dispatched.exchanges_eq {host : Bytes} (h : Dispatched env req host s s') :
    exchanges s'.log = exchanges s.log ++ [.took env.newRef req] := by
  rcases h.way with ⟨-, hlog, -⟩ | ⟨-, item, -, -, hlog⟩
  · rw [hlog, exchanges_append]
    rfl
  · rw [hlog, exchanges_append]
    rfl

theorem not_dispatched_of_answers {host : Bytes} (h : Answers (s.tookRequest env req) s') :
    ¬ Dispatched env req host s s' := by
  intro hdispatched
  obtain ⟨response, data, -, hturn⟩ := h
  have htook : exchanges (s.tookRequest env req).log = exchanges s.log ++ [.took env.newRef req] :=
    exchanges_append _ _
  have hlog := hturn.log
  rw [htook, hdispatched.exchanges_eq] at hlog
  simpa using congrArg List.length hlog

theorem routePlain_upstream {host port : Bytes} {n : ℤ} (h : routePlain req = .ok (.upstream host port n)) :
    host = (plainHostPort req).takeWhile (· != 58) ∧ isLocalEndpoint host req.url = false ∧
      plainHostPort req ≠ [] := by
  rw [← splitHostPort_host (plainHostPort req) (str "80")]
  unfold routePlain at h
  dsimp only at h
  split at h
  · cases h
  · rename_i hne
    split at h
    · split at h <;> cases h
    · rename_i hlocal
      obtain ⟨k, -, hroute⟩ := ok_of_map h
      obtain ⟨rfl, -, -⟩ := Route.upstream.inj hroute
      exact ⟨rfl, by simpa using hlocal, hne⟩

/-- A request to a foreign host is dispatched to it exactly if its URL does not end in `/cert` and the
authority can be cut at its first colon. -/
theorem dispatched_iff (s : Session L) (env : Env) {u : AbsoluteUrl} (hform : req.InAbsoluteForm u)
    (hforeign : u.Foreign) :
    (∃ s', s.handleRequest env req = .ok s' ∧ Dispatched env req u.host s s') ↔
      endsWithCert req.url = false ∧ u.authority.takeWhile (· != 58) = u.host ∧ req.PortReadable := by
  have hlocal : isLocalEndpoint u.host req.url = endsWithCert req.url := by
    rw [hform.url]
    exact u.isLocalEndpoint_text hforeign
  have hauthority : req.authority = u.authority := (if_neg hform.plain).trans hform.authority
  rw [handleRequest, if_neg hform.plain]
  constructor
  · rintro ⟨s', hok, hdispatched⟩
    obtain ⟨route, hroute, rfl⟩ := ok_of_map hok
    -- an answer would be reported, and nothing is
    cases route with
    | badRequest => exact absurd hdispatched (not_dispatched_of_answers (answers_error _ _ _))
    | caCert => exact absurd hdispatched (not_dispatched_of_answers (answers_caCert _ _))
    | helpPage => exact absurd hdispatched (not_dispatched_of_answers (answers_page _ _ _))
    | upstream host port n =>
      obtain ⟨hhost, hother, hne⟩ := routePlain_upstream hroute
      have hsame : host = u.host :=
        (handleUpstreamRoute_dispatched s env req host port n).upstreamHost.symm.trans
          hdispatched.upstreamHost
      rw [hsame, hlocal] at hother
      rw [hform.authority, hsame] at hhost
      refine ⟨hother, hhost.symm, ?_⟩
      rcases (routePlain_ok_iff hform.plain).mp ⟨_, hroute⟩ with ⟨-, hempty | hown⟩ | hport
      · exact absurd (hauthority.symm.trans hempty) u.authority_given
      · rw [HttpRequest.authorityHost, hauthority, ← hhost, hlocal, hother] at hown
        exact absurd hown Bool.false_ne_true
      · exact hport
  · rintro ⟨hend, hhost, hport⟩
    obtain ⟨route, hroute⟩ := (routePlain_ok_iff hform.plain).mpr (.inr hport)
    have hcut := splitHostPort_host u.authority (str "80")
    rw [hhost] at hcut
    have hupstream := hroute
    unfold routePlain at hupstream
    dsimp only at hupstream
    rw [hform.authority, if_neg u.authority_given, hcut, hlocal, hend, if_neg Bool.false_ne_true]
      at hupstream
    obtain ⟨n, -, rfl⟩ := ok_of_map hupstream
    rw [hroute]
    exact ⟨_, rfl, handleUpstreamRoute_dispatched s env req u.host _ n⟩

/-- `http://example.com` with this path. -/
def exampleUrl (path : Bytes) (h : path = [] ∨ path.head? = some 47) : AbsoluteUrl where
  scheme := str "http"
  authority := str "example.com"
  path := path
  scheme_bare := by decide
  authority_given := by decide
  authority_bare := by decide
  path_rooted := h

def exampleRequest (path : Bytes) (h : path = [] ∨ path.head? = some 47) : HttpRequest :=
  { method := str "GET", url := (exampleUrl path h).text }

theorem exampleRequest_inAbsoluteForm (path : Bytes) (h : path = [] ∨ path.head? = some 47) :
    (exampleRequest path h).InAbsoluteForm (exampleUrl path h) :=
  ⟨show str "GET" ≠ str "CONNECT" by decide, rfl, .inl rfl⟩

theorem exampleUrl_foreign (path : Bytes) (h : path = [] ∨ path.head? = some 47) :
    (exampleUrl path h).Foreign := by
  have hhost : (exampleUrl path h).host = str "example.com" := by rfl
  unfold AbsoluteUrl.Foreign
  rw [hhost]
  decide

theorem dispatched_iff_index :
    let url := exampleUrl (str "/index") (by decide)
    let req := exampleRequest (str "/index") (by decide)
    (∃ s', freshSession.handleRequest {} req = .ok s' ∧ Dispatched {} req url.host freshSession s') ↔
      endsWithCert req.url = false ∧ url.authority.takeWhile (· != 58) = url.host ∧
        req.PortReadable :=
  dispatched_iff freshSession {} (exampleRequest_inAbsoluteForm _ _) (exampleUrl_foreign _ _)

/-- `http://example.com/cert` gets the certificate of the proxy. -/
theorem dispatched_not_always :
    let url := exampleUrl (str "/cert") (by decide)
    let req := exampleRequest (str "/cert") (by decide)
    let env : Env := { caCert := str "CA" }
    req.InAbsoluteForm url ∧ url.Foreign ∧
      freshSession.handleRequest env req = .ok ((freshSession.tookRequest env req).serveCaCert env) ∧
      ¬ ∃ s', freshSession.handleRequest env req = .ok s' ∧
        Dispatched env req url.host freshSession s' := by
  refine ⟨exampleRequest_inAbsoluteForm _ _, exampleUrl_foreign _ _, rfl, ?_⟩
  rintro ⟨s', hok, hdispatched⟩
  obtain rfl := Except.ok.inj hok
  exact not_dispatched_of_answers (answers_caCert _ _) hdispatched

end Session

end BurpTUI
