import Tako.ProxyLines
import Tako.ProxyFields

/-! # The token stream of a Caddyfile

The lexer reads a rendered Caddyfile as it was meant exactly if every field that is rendered is one
argument. Of the fields of an accepted route all but four are.
-/
namespace ProxyTokens

open List GoPrelude ConfigTokens ProxyManifests ProxyCaddyfile ProxyClaims ProxySites ProxyLines
open Except
open ProxyFields

def Sound (lines : List Line) : Prop := ∀ line ∈ lines, line.Sound

@[simp] theorem sound_nil : Sound [] := by simp [Sound]

@[simp] theorem sound_cons : Sound (line :: lines) ↔ line.Sound ∧ Sound lines := forall_mem_cons

@[simp] theorem sound_append : Sound (a ++ b) ↔ Sound a ∧ Sound b := forall_mem_append

theorem sound_flatMap {sites : List Site} :
    Sound (sites.flatMap siteLines) ↔ ∀ site ∈ sites, Sound (siteLines site) := by
  unfold Sound
  simp only [mem_flatMap]
  constructor
  · intro h site hsite line hline
    exact h line ⟨site, hsite, hline⟩
  · rintro h line ⟨site, hsite, hline⟩
    exact h site hsite line hline

@[simp] theorem sound_directive : (Line.directive depth args).Sound ↔ ∀ arg ∈ args, Atom arg := by
  simp [Line.directive, Line.Sound, Part.Sound]

@[simp] theorem sound_block : (Line.block depth args).Sound ↔ ∀ arg ∈ args, Atom arg := by
  simp [Line.block, Line.Sound, Part.Sound, or_imp, forall_and]

@[simp] theorem sound_close : (Line.close depth).Sound := by
    simp [Line.close, Line.Sound, Part.Sound]

@[simp] theorem sound_blank : Line.blank.Sound := by simp [Line.blank, Line.Sound]

theorem sound_accessLog (h : Atom name) : Sound (accessLogLines name) := by
  simp +decide [accessLogLines, h]

theorem atom_accessLogName (h : OperationLeases.isSafeRuntimeName service) :
    Atom (caddyAccessLogName service) := by
  have hsvc := plain_of_runtimeName h
  have hstart : Plain "tako_" := by decide
  unfold caddyAccessLogName
  rw [if_neg hsvc.nonempty]
  exact (hstart.append hsvc.runes).atom

theorem sound_certificate : Sound (certificateLines certificate) := by
  cases certificate with
  | none => exact sound_nil
  | some certificate =>
    obtain ⟨hcert, hkey⟩ := plain_certPath certificate
    simp +decide [certificateLines, hcert.atom, hkey.atom]

theorem sound_tls : Sound (tlsLines address certificate) := by
  unfold tlsLines
  split_ifs
  · simp +decide
  · exact sound_certificate

theorem sound_basicAuth (accepted : AcceptedRoute P route) :
    Sound (basicAuthLines depth route) := by
  unfold basicAuthLines
  cases hauth : route.basicAuth with
  | none => exact sound_nil
  | some auth =>
    obtain ⟨huser, hhash⟩ := accepted.auth auth hauth
    simp +decide [(plain_of_basicAuthUser huser).atom, (plain_of_bcryptHash hhash).atom]

/-- The fields of a route that every site of it prints are arguments where they stand. -/
structure ForwardsInPlace (route : ProxyRoute) : Prop where
  upstream : ∀ upstream ∈ route.upstreams, Unspaced upstream
  path : ∀ health ∈ route.healthCheck, health.path ≠ "" → Unspaced health.path
  interval : ∀ health ∈ route.healthCheck, health.path ≠ "" → health.interval ≠ "" →
    Atom health.interval

def HealthHost (address : String) (route : ProxyRoute) : Prop :=
  caddyHealthHost address route = "" ∨ Atom (caddyHealthHost address route)

theorem sound_healthHost (h : HealthHost address route) :
    Sound (healthHostLines depth (caddyHealthHost address route)) := by
  unfold healthHostLines
  split_ifs with hempty
  · exact sound_nil
  · simp +decide [h.resolve_left hempty]

theorem sound_healthInterval :
    Sound (healthIntervalLines depth interval) ↔ (interval ≠ "" → Atom interval) := by
  unfold healthIntervalLines
  split_ifs with hempty
  · simp [hempty]
  · simp +decide [hempty]

theorem sound_healthCheck (hhost : HealthHost address route)
    (hpath : health.path = "" ∨ isSafeHTTPPath health.path) :
    Sound (healthCheckLines depth address route health) ↔
      (health.path ≠ "" → Unspaced health.path ∧
        (health.interval ≠ "" → Atom health.interval)) := by
  unfold healthCheckLines
  split_ifs with hempty
  · simp [hempty]
  · have hatom := atom_iff_unspaced (opens_of_httpPath (hpath.resolve_left hempty))
    have hkeyword : Atom "health_uri" := by decide
    rw [sound_cons, sound_append, sound_healthInterval]
    simp [hkeyword, hatom, hempty, sound_healthHost hhost]

section

variable (accepted : AcceptedRoute P route)

include accepted

theorem sound_upstreamOptions (hhost : HealthHost address route)
    : Sound (upstreamOptionLines depth address route) ↔
      ∀ health ∈ route.healthCheck, health.path ≠ "" →
        Unspaced health.path ∧ (health.interval ≠ "" → Atom health.interval) := by
  have hsticky : Sound (if route.sticky then [Line.directive (depth + 1) ["lb_policy", "cookie"]]
      else []) := by
    split_ifs
    · simp +decide
    · exact sound_nil
  unfold upstreamOptionLines
  rw [sound_append, and_iff_left hsticky]
  cases hhealth : route.healthCheck with
  | none => simp
  | some health =>
    rw [sound_healthCheck hhost (accepted.path health hhealth)]
    simp

variable (documented : Documented P)

include documented

theorem atom_upstreams :
    (∀ arg ∈ "reverse_proxy" :: route.upstreams, Atom arg) ↔ ∀ upstream ∈ route.upstreams,
      Unspaced upstream := by
  have hkeyword : Atom "reverse_proxy" := by decide
  rw [forall_mem_cons, and_iff_right hkeyword]
  refine forall₂_congr fun upstream hupstream => ?_
  exact atom_iff_unspaced (opens_of_upstreamURL documented (accepted.upstream upstream hupstream))

theorem sound_reverseProxy (hhost : HealthHost address route) :
    Sound (reverseProxyLines depth address route) ↔ ForwardsInPlace route := by
  have hupstreams := atom_upstreams accepted documented
  have hparts : ForwardsInPlace route ↔ (∀ upstream ∈ route.upstreams, Unspaced upstream) ∧
      ∀ health ∈ route.healthCheck, health.path ≠ "" →
        Unspaced health.path ∧ (health.interval ≠ "" → Atom health.interval) := by
    constructor
    · rintro ⟨hup, hpath, hinterval⟩
      exact ⟨hup, fun health hmem hne => ⟨hpath health hmem hne, hinterval health hmem hne⟩⟩
    · rintro ⟨hup, hhealth⟩
      exact ⟨hup, fun health hmem hne => (hhealth health hmem hne).1,
        fun health hmem hne => (hhealth health hmem hne).2⟩
  unfold reverseProxyLines
  rw [hparts]
  split_ifs with hplain
  · have hnone := Option.isNone_iff_eq_none.mp hplain.1
    rw [sound_cons, sound_directive, hupstreams]
    simp [hnone]
  · rw [sound_cons, sound_block, sound_append, sound_upstreamOptions accepted hhost, hupstreams]
    simp

theorem sound_handlers (hhost : HealthHost address route) :
    Sound (handlerLines address route) ↔ ForwardsInPlace route := by
  unfold handlerLines
  by_cases hallowed : route.allowIPs ≠ []
  · have hips : ∀ entry ∈ route.allowIPs, Atom entry := by
      intro entry hentry
      exact (plain_of_allowIP documented (accepted.allowed entry hentry)).atom
    have hmatcher : Atom (if route.trustedProxies ≠ [] then "client_ip" else "remote_ip") := by
      split_ifs <;> decide
    have hfirst : Sound [.directive 1 ("@tako_allowed" ::
        (if route.trustedProxies ≠ [] then "client_ip" else "remote_ip") :: route.allowIPs),
        .block 1 ["handle", "@tako_allowed"]] := by
      refine sound_cons.mpr ⟨sound_directive.mpr ?_, by simp +decide⟩
      exact forall_mem_cons.mpr ⟨by decide, forall_mem_cons.mpr ⟨hmatcher, hips⟩⟩
    have hlast : Sound [.close 1, .block 1 ["handle"], .directive 2 ["respond", "403"],
        .close 1] := by
      simp +decide
    rw [if_pos hallowed, sound_append, sound_append, sound_append,
      sound_reverseProxy accepted documented hhost]
    simp only [hfirst, hlast, sound_basicAuth accepted, true_and, and_true]
  · rw [if_neg hallowed, sound_append, sound_reverseProxy accepted documented hhost]
    simp only [sound_basicAuth accepted, true_and]

/-- A site has the lines it was meant to have exactly if the fields it prints are in place. -/
theorem sound_route (haddress : Atom address) (hhost : HealthHost address route) :
    Sound (routeLines address route certificate) ↔ ForwardsInPlace route := by
  have hlog := sound_accessLog (atom_accessLogName accepted.service)
  have hencode : (Line.directive 1 ["encode", "zstd", "gzip"]).Sound := by simp +decide
  have hopening : Sound [.blank, .block 0 [address]] := by simp [haddress]
  have hclosing : Sound [.close 0] := by simp
  unfold routeLines
  rw [sound_append, and_iff_right hopening, sound_append, and_iff_right sound_tls, sound_append,
    and_iff_right hlog, sound_cons, and_iff_right hencode, sound_append, and_iff_left hclosing]
  exact sound_handlers accepted documented hhost

theorem sound_serving (h : host ∈ route.domains) :
    Sound (siteLines (.serving host route certificate)) ↔ ForwardsInPlace route := by
  have hsafe := accepted.host host (mem_append_left _ h)
  refine sound_route accepted documented (plain_routeAddress hsafe route).atom ?_
  right
  rw [healthHost_routeAddress hsafe]
  exact (plain_of_proxyHost hsafe).atom

theorem sound_dynamic : Sound (routeLines ":443" route none) ↔ ForwardsInPlace route := by
  refine sound_route accepted documented (by decide) ?_
  unfold HealthHost caddyHealthHost
  cases hdomains : route.domains with
  | nil => exact .inl rfl
  | cons domain =>
    have hsafe := accepted.host domain (mem_append_left _ (hdomains ▸ mem_cons_self))
    exact .inr (plain_of_proxyHost hsafe).atom

end

theorem sound_redirecting (hhost : isSafeProxyHost host) (hprimary : isSafeProxyHost primary)
    (hsvc : OperationLeases.isSafeRuntimeName service)
    (certificate : Option ProxyCertificateEntry) :
    Sound (siteLines (.redirecting host primary service certificate)) := by
  have hscheme : Plain "https://" := by decide
  have htarget : Atom ("https://" ++ primary ++ "\x7buri\x7d") :=
    (hscheme.append (plain_of_proxyHost hprimary).runes).append_unspaced (by decide)
  have hlog := sound_accessLog (atom_accessLogName hsvc)
  change Sound (redirectLines host primary service certificate)
  unfold redirectLines
  simp +decide [hlog, sound_certificate, htarget, (plain_of_proxyHost hhost).atom]

theorem soleDynamicRoute_eq_some_iff (h : soleDynamicRoute effective = .ok dynamic) :
    dynamic = some (e, domain) ↔ e ∈ effective ∧ e.dynamicDomain = some domain := by
  have hmem : (e, domain) ∈ (effective.filterMap fun route => route.dynamicDomain.map fun domain =>
      (route, domain)) ↔
      e ∈ effective ∧ e.dynamicDomain = some domain := by
    rw [mem_filterMap]
    constructor
    · rintro ⟨route, hroute, hpair⟩
      obtain ⟨d, hd, heq⟩ := Option.map_eq_some_iff.mp hpair
      obtain ⟨rfl, rfl⟩ := Prod.mk.inj heq
      exact ⟨hroute, hd⟩
    · rintro ⟨he, hdomain⟩
      exact ⟨e, he, by rw [hdomain]; rfl⟩
  rw [← hmem]
  unfold soleDynamicRoute at h
  split at h
  · next hnil =>
    obtain rfl := ok.inj h
    simp [hnil]
  · next pair hone =>
    obtain rfl := ok.inj h
    rw [hone, mem_singleton, Option.some.injEq, eq_comm]
  · cases h

def Selected (effective : List ProxyRoute) (selected : Option (String × List String)) : Prop :=
  ∀ chosen ∈ selected, ∀ entry ∈ chosen.2, ∃ e ∈ effective, entry ∈ e.trustedProxies

theorem selectTrustedProxies_selected (he : e ∈ effective) (hs : Selected effective selected)
    (h : selectTrustedProxies selected e = .ok selected') : Selected effective selected' := by
  unfold selectTrustedProxies at h
  split_ifs at h with hnone
  · obtain rfl := ok.inj h
    exact hs
  · cases selected with
    | none =>
      obtain rfl := ok.inj h
      intro chosen hchosen entry hentry
      obtain rfl := Option.some.inj hchosen
      have hsorted := (perm_insertionSort (· ≤ ·) e.trustedProxies.dedup).mem_iff.mp hentry
      exact ⟨e, he, mem_dedup.mp hsorted⟩
    | some =>
      simp only at h
      split_ifs at h
      obtain rfl := ok.inj h
      exact hs

theorem foldlM_selectTrustedProxies {effective rest : List ProxyRoute}
    (hrest : ∀ e ∈ rest, e ∈ effective) (hs : Selected effective selected)
    (h : rest.foldlM selectTrustedProxies selected = .ok selected') :
    Selected effective selected' := by
  induction rest generalizing selected with
  | nil =>
    obtain rfl := ok.inj h
    exact hs
  | cons e rest ih =>
    rw [foldlM_cons, bind_eq_ok] at h
    obtain ⟨next, hnext, h⟩ := h
    have hstep := selectTrustedProxies_selected (hrest e mem_cons_self) hs hnext
    exact ih (fun d hd => hrest d (mem_cons_of_mem e hd)) hstep h

theorem proxyTrustedProxySet_mem {effective : List ProxyRoute}
    (h : proxyTrustedProxySet effective = .ok trusted) :
    ∀ entry ∈ trusted, ∃ e ∈ effective, entry ∈ e.trustedProxies := by
  simp only [proxyTrustedProxySet, bind_eq_ok] at h
  obtain ⟨selected, hfold, hres⟩ := h
  obtain rfl := ok.inj hres
  have hsel := foldlM_selectTrustedProxies (fun _ he => he) (fun chosen hchosen => by cases hchosen)
    hfold
  intro entry hentry
  cases selected with
  | none => cases hentry
  | some chosen => exact hsel chosen rfl entry hentry

theorem sound_trustedProxies (h : ∀ entry ∈ trusted, Atom entry) :
    Sound (trustedProxyLines trusted) := by
  unfold trustedProxyLines
  split_ifs
  · simpa +decide using h
  · exact sound_nil

theorem remains_accepted (h : Remains routes r e) (hr : Rendered routes r)
    (accepted : AcceptedRoute P r) : AcceptedRoute P e := by
  have hhost := h.host accepted
  have haddressed : e.domains ≠ [] ∨ r.dynamicDomain.isSome := by
    rcases hr with hdynamic | ⟨host, hhost⟩
    · exact .inr hdynamic
    · exact .inl (ne_nil_of_mem ((h.domains host).mpr hhost))
  have hsame := h.same
  rw [hsame] at hhost ⊢
  exact ⟨accepted.service, haddressed, accepted.visibility, hhost, accepted.upstream, accepted.path,
    accepted.ask, accepted.auth, accepted.allowed, accepted.trusted⟩

/-- Every field of the route is an argument where it is printed. -/
structure FieldsInPlace (route : ProxyRoute) : Prop extends ForwardsInPlace route where
  ask : ∀ dynamic ∈ route.dynamicDomain, Unspaced dynamic.askURL

theorem fieldsInPlace_congr (h : SameBut r e) : FieldsInPlace e ↔ FieldsInPlace r := by
  rw [h]
  constructor
  · rintro ⟨⟨hupstream, hpath, hinterval⟩, hask⟩
    exact ⟨⟨hupstream, hpath, hinterval⟩, hask⟩
  · rintro ⟨⟨hupstream, hpath, hinterval⟩, hask⟩
    exact ⟨⟨hupstream, hpath, hinterval⟩, hask⟩

theorem sound_routeSites (documented : Documented P) (accepted : AcceptedRoute P e)
    (h : routeSites certificates owners e = .ok sites) :
    (∀ site ∈ sites, Sound (siteLines site)) ↔ (e.domains ≠ [] → ForwardsInPlace e) := by
  simp only [routeSites, bind_eq_ok] at h
  obtain ⟨serving, hserving, redirecting, hredirecting, hres⟩ := h
  obtain rfl := ok.inj hres
  constructor
  · intro hsound hdomains
    obtain ⟨domain, hdomain⟩ := exists_mem_of_ne_nil _ hdomains
    obtain ⟨site, hsite, hok⟩ := exists_result_of_mapM_eq_ok hserving hdomain
    obtain ⟨certificate, rfl⟩ := servingSite_ok hok
    exact (sound_serving accepted documented hdomain).mp (hsound _ (mem_append_left _ hsite))
  · intro hforwards site hsite
    rcases mem_append.mp hsite with hsite | hsite
    · obtain ⟨domain, hdomain, hok⟩ := exists_of_mapM_eq_ok hserving hsite
      obtain ⟨certificate, rfl⟩ := servingSite_ok hok
      exact (sound_serving accepted documented hdomain).mpr (hforwards (ne_nil_of_mem hdomain))
    · obtain ⟨redirect, hredirect, hok⟩ := exists_of_mapM_eq_ok hredirecting hsite
      obtain ⟨certificate, rfl⟩ := redirectingSite_ok hok
      cases hdomains : e.domains with
      | nil => simp [hdomains] at hredirect
      | cons primary =>
        have hprimary := accepted.host primary (mem_append_left _ (hdomains ▸ mem_cons_self))
        rw [hdomains, headD_cons, if_neg (isSafeProxyHost_ne_empty hprimary)] at hredirect
        exact sound_redirecting (accepted.host redirect (mem_append_right _ hredirect)) hprimary
          accepted.service certificate

section

variable (documented : Documented P) (dynamic : Option (ProxyRoute × ProxyDynamicDomain))

include documented dynamic

theorem sound_ask (h : ∀ pair ∈ dynamic, validateProxyUpstreamURL P pair.2.askURL = .ok ()) :
    Sound (askLines dynamic) ↔ ∀ pair ∈ dynamic, Unspaced pair.2.askURL := by
  cases dynamic with
  | none => simp [askLines]
  | some pair =>
    have hatom := atom_iff_unspaced (opens_of_upstreamURL documented (h pair rfl))
    simp +decide [askLines, hatom]

theorem sound_dynamicLines (h : ∀ pair ∈ dynamic, AcceptedRoute P pair.1) :
    Sound (dynamicLines dynamic) ↔ ∀ pair ∈ dynamic, ForwardsInPlace pair.1 := by
  cases dynamic with
  | none => simp [dynamicLines]
  | some pair =>
    have hroute := sound_dynamic (h pair rfl) documented
    simp [dynamicLines, hroute]

end

/-- The lines of a file are sound exactly if the fields of its routes are in place. -/
theorem sound_caddyfile {sites : List (List Site)} (documented : Documented P)
    (accepted : ∀ e ∈ effective, AcceptedRoute P e)
    (hdynamic : soleDynamicRoute effective = .ok dynamic)
    (htrusted : proxyTrustedProxySet effective = .ok trusted)
    (hsites : effective.mapM (routeSites certificates owners) = .ok sites) :
    Sound (caddyfileLines (.routes trusted dynamic sites.flatten)) ↔ ∀ e ∈ effective,
      FieldsInPlace e := by
  have hsole : ∀ pair ∈ dynamic, pair.1 ∈ effective ∧ pair.1.dynamicDomain = some pair.2 := by
    intro pair
    exact (soleDynamicRoute_eq_some_iff hdynamic).mp
  have htrustedLines : Sound (trustedProxyLines trusted) := by
    apply sound_trustedProxies
    intro entry hentry
    obtain ⟨e, he, hmem⟩ := proxyTrustedProxySet_mem htrusted entry hentry
    exact (plain_of_trustedProxy documented ((accepted e he).trusted entry hmem)).atom
  have hask := sound_ask documented dynamic fun pair hpair =>
    (accepted _ (hsole pair hpair).1).ask pair.2 (hsole pair hpair).2
  have hroute := sound_dynamicLines documented dynamic fun pair hpair =>
    accepted _ (hsole pair hpair).1
  have hserving : Sound (sites.flatten.flatMap siteLines) ↔ ∀ e ∈ effective, e.domains ≠ [] →
      ForwardsInPlace e := by
    rw [sound_flatMap]
    constructor
    · intro hsound e he
      obtain ⟨own, hown, hok⟩ := exists_result_of_mapM_eq_ok hsites he
      refine (sound_routeSites documented (accepted e he) hok).mp fun site hsite => ?_
      exact hsound site (mem_flatten.mpr ⟨own, hown, hsite⟩)
    · intro hforwards site hsite
      obtain ⟨own, hown, hmem⟩ := mem_flatten.mp hsite
      obtain ⟨e, he, hok⟩ := exists_of_mapM_eq_ok hsites hown
      exact (sound_routeSites documented (accepted e he) hok).mpr (hforwards e he) site hmem
  have hlog : Sound (accessLogLines "tako_proxy") := sound_accessLog (by decide)
  have hfixed : Sound (caddyfileLines (.routes trusted dynamic sites.flatten)) ↔
      (∀ pair ∈ dynamic, Unspaced pair.2.askURL) ∧
        (∀ e ∈ effective, e.domains ≠ [] → ForwardsInPlace e) ∧
        ∀ pair ∈ dynamic, ForwardsInPlace pair.1 := by
    unfold caddyfileLines
    simp only [sound_append, htrustedLines, hask, hlog, hserving, hroute, true_and]
    simp +decide
  rw [hfixed]
  constructor
  · rintro ⟨hasked, hserved, hanswered⟩ e he
    have hpair : ∀ domain ∈ e.dynamicDomain, (e, domain) ∈ dynamic := by
      intro domain hdomain
      exact (soleDynamicRoute_eq_some_iff hdynamic).mpr ⟨he, hdomain⟩
    refine ⟨?_, fun domain hdomain => hasked _ (hpair domain hdomain)⟩
    rcases (accepted e he).addressed with hdomains | hsome
    · exact hserved e he hdomains
    · obtain ⟨domain, hdomain⟩ := Option.isSome_iff_exists.mp hsome
      exact hanswered _ (hpair domain hdomain)
  · intro hplace
    refine ⟨?_, ?_, ?_⟩
    · intro pair hpair
      exact (hplace _ (hsole pair hpair).1).ask pair.2 (hsole pair hpair).2
    · intro e he _
      exact (hplace e he).toForwardsInPlace
    · intro pair hpair
      exact (hplace _ (hsole pair hpair).1).toForwardsInPlace

def intendedTokens (file : Caddyfile) : List Token := (caddyfileLines file).flatMap Line.tokens

/-- The lexer reads the text as what was meant exactly if the fields of every rendered route are
in place. -/
theorem fields_stay_in_place_iff {text : String} (documented : Documented P)
    (accepted : ∀ manifest ∈ manifests, Accepted P manifest)
    (rendered : renderCaddyfileWithCertificatesAndOwners P manifests certificates owners =
      .ok text) :
    ∃ file, caddyfile P manifests certificates owners = .ok file ∧ file.text = text ∧
      (lex text = intendedTokens file ↔
        ∀ r ∈ allRoutes manifests, Rendered (allRoutes manifests) r → FieldsInPlace r) := by
  simp only [renderCaddyfileWithCertificatesAndOwners, bind_eq_ok] at rendered
  obtain ⟨file, hfile, htext⟩ := rendered
  obtain rfl := ok.inj htext
  refine ⟨file, hfile, rfl, ?_⟩
  obtain ⟨effective, heffective, hcases⟩ := caddyfile_cases documented hfile
  have haccepted : ∀ e ∈ effective, AcceptedRoute P e := by
    intro e he
    obtain ⟨r, hr, hrendered, hremains⟩ := heffective.source e he
    exact remains_accepted hremains hrendered (accepted_of_mem_allRoutes accepted hr)
  have hroutes : (∀ e ∈ effective, FieldsInPlace e) ↔
      ∀ r ∈ allRoutes manifests, Rendered (allRoutes manifests) r → FieldsInPlace r := by
    constructor
    · intro hplace r hr hrendered
      obtain ⟨e, he, hremains⟩ := heffective.complete r hr hrendered
      exact (fieldsInPlace_congr hremains.same).mp (hplace e he)
    · intro hplace e he
      obtain ⟨r, hr, hrendered, hremains⟩ := heffective.source e he
      exact (fieldsInPlace_congr hremains.same).mpr (hplace r hr hrendered)
  rw [intendedTokens, lex_lines_iff (caddyfile_printed file), ← hroutes]
  rcases hcases with ⟨rfl, rfl⟩ | ⟨trusted, dynamic, sites, hdynamic, htrusted, hsites, rfl⟩
  · refine iff_of_true ?_ (by simp)
    have hlog : Sound (accessLogLines "tako_proxy") := sound_accessLog (by decide)
    change Sound (caddyfileLines .noRoutes)
    unfold caddyfileLines
    simp +decide [hlog]
  · exact sound_caddyfile documented haccepted hdynamic htrusted hsites

def checkedRoute (interval : String) : ProxyRoute :=
  { plainRoute "web" ["example.com"] ["www.example.com"] with
    healthCheck := some ⟨"/health", interval⟩ }

def checkedShop (interval : String) : ProxyRouteManifest := shopManifest [checkedRoute interval]

theorem checkedRoute_in_place : FieldsInPlace (checkedRoute "10s") where
  upstream := by decide
  path := by decide
  interval := by decide
  ask := by decide

theorem checked_shop_in_place : (∀ manifest ∈ [checkedShop "10s"], Accepted oneUpstream manifest) ∧
    ∃ file, caddyfile oneUpstream [checkedShop "10s"] [] [] = .ok file ∧
      lex file.text = intendedTokens file := by
  have haccepted := @accepted_singleton oneUpstream (checkedShop "10s") (by decide +kernel)
  obtain ⟨file, hfile, htext, hiff⟩ := fields_stay_in_place_iff oneUpstream_documented haccepted
    (show renderCaddyfileWithCertificatesAndOwners oneUpstream [checkedShop "10s"] [] [] =
      .ok (Caddyfile.text (.routes [] none [.serving "example.com" (checkedRoute "10s") none,
        .redirecting "www.example.com" "example.com" "web" none])) by decide +kernel)
  refine ⟨haccepted, file, hfile, ?_⟩
  rw [htext]
  apply hiff.mpr
  intro r hr _
  obtain rfl : r = checkedRoute "10s" := mem_singleton.mp hr
  exact checkedRoute_in_place

/-- An interval that closes the blocks it stands in and opens those of a site of its own. -/
def intervalWithSite : String :=
  "10s\n\t\x7d\n\x7d\nevil.example.com \x7b\n\treverse_proxy http://evil:80 \x7b\n\t\thealth_uri /"

def addedSite : List Token :=
  [.part .closing, .newline, .part .closing, .newline, .part (.arg "evil.example.com"),
    .part .opening, .newline]

theorem interval_adds_site : (∀ manifest ∈ [checkedShop intervalWithSite],
    Accepted oneUpstream manifest) ∧
    ∃ file, caddyfile oneUpstream [checkedShop intervalWithSite] [] [] = .ok file ∧
      file.sites.map Site.host = ["example.com", "www.example.com"] ∧ addedSite <:+: lex file.text ∧
      lex file.text ≠ intendedTokens file := by
  refine ⟨accepted_singleton (by decide +kernel), ?_⟩
  obtain ⟨file, hfile, hhosts, hadded, habsent⟩ := exists_ok_of_any
    (x := caddyfile oneUpstream [checkedShop intervalWithSite] [] [])
    (P := fun file => file.sites.map Site.host = ["example.com", "www.example.com"] ∧
      addedSite <:+: lex file.text ∧
      Token.part (.arg "evil.example.com") ∉ intendedTokens file) (by decide +kernel)
  refine ⟨file, hfile, hhosts, hadded, ?_⟩
  intro heq
  have hmem : Token.part (.arg "evil.example.com") ∈ lex file.text := hadded.subset (by decide)
  exact habsent (heq ▸ hmem)

end ProxyTokens
