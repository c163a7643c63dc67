import Tako.ProxyClaims

/-! # The sites of a Caddyfile

A host has a site exactly if some route wins it, and has it once. The claims compare hosts byte by
byte; host names that differ in case only are different keys and get a site each.
-/
namespace ProxySites

open List GoPrelude ProxyManifests ProxyCaddyfile ProxyClaims

theorem keepRoute_eq (e : ProxyRoute) : keepRoute e = if e.domains = [] ∧ e.dynamicDomain = none
    then none
      else some (if e.domains = [] then { e with redirectFrom := [] } else e) := by
  unfold keepRoute dropRoute
  by_cases hdomains : e.domains = []
  · cases hdynamic : e.dynamicDomain with
    | none => by_cases hredirects : e.redirectFrom = [] <;> simp [hdomains, hredirects]
    | some => simp [hdomains]
  · simp [hdomains]

/-- What remains of the route `r`: the hosts it wins, and redirects only beside a domain. -/
structure Remains (routes : List ProxyRoute) (r e : ProxyRoute) : Prop where
  same : SameBut r e
  domains : ∀ host, host ∈ e.domains ↔ host ∈ r.domains ∧ Wins routes r host
  redirects : ∀ host, host ∈ e.redirectFrom ↔ (host ∈ r.redirectFrom ∧ Wins routes r host) ∧
    e.domains ≠ []

def Rendered (routes : List ProxyRoute) (r : ProxyRoute) : Prop :=
  r.dynamicDomain.isSome ∨ ∃ host ∈ r.domains, Wins routes r host
  deriving Decidable

structure Effective (routes effective : List ProxyRoute) : Prop where
  nodup : (effective.flatMap fun e => e.domains ++ e.redirectFrom).Nodup
  source : ∀ e ∈ effective, ∃ r ∈ routes, Rendered routes r ∧ Remains routes r e
  complete : ∀ r ∈ routes, Rendered routes r → ∃ e ∈ effective, Remains routes r e

variable {i : ℕ}

theorem remains_of_claimed (h : Claimed routes asked s) (hc : Complete routes asked)
    (hr : routes[i]? = some r) (he : s.effective[i]? = some e) :
    Remains routes r (if e.domains = [] then { e with redirectFrom := [] } else e) := by
  have hhosts := mem_hosts_iff_wins h hc hr he
  have hsame := h.lists.kept i r e hr he
  by_cases hdomains : e.domains = []
  · rw [if_pos hdomains]
    refine ⟨?_, hhosts false, ?_⟩
    · unfold SameBut at *
      rw [hsame]
    · intro host
      simp [hdomains]
  · rw [if_neg hdomains]
    refine ⟨hsame, hhosts false, ?_⟩
    intro host
    have hredirects := hhosts true host
    simpa [hosts, hdomains] using hredirects

theorem ne_nil_iff_exists_mem : l ≠ [] ↔ ∃ host, host ∈ l := by
  constructor
  · exact exists_mem_of_ne_nil l
  · rintro ⟨host, hhost⟩
    exact ne_nil_of_mem hhost

theorem keepRoute_isSome_iff (h : Claimed routes asked s) (hc : Complete routes asked)
    (hr : routes[i]? = some r) (he : s.effective[i]? = some e) :
    ¬ (e.domains = [] ∧ e.dynamicDomain = none) ↔ Rendered routes r := by
  have hdynamic : e.dynamicDomain = r.dynamicDomain := by
    have hsame := h.lists.kept i r e hr he
    rw [hsame]
  have hsome : e.domains ≠ [] ↔ ∃ host ∈ r.domains, Wins routes r host := by
    rw [ne_nil_iff_exists_mem]
    constructor
    · rintro ⟨host, hhost⟩
      exact ⟨host, (mem_hosts_iff_wins h hc hr he false host).mp hhost⟩
    · rintro ⟨host, hhost⟩
      exact ⟨host, (mem_hosts_iff_wins h hc hr he false host).mpr hhost⟩
  unfold Rendered
  rw [← hsome, hdynamic, not_and_or, or_comm, Option.isSome_iff_ne_none]

theorem flatMap_filterMap_sublist (l : List ProxyRoute) :
    ((l.filterMap keepRoute).flatMap fun e => e.domains ++ e.redirectFrom).Sublist
      (l.flatMap fun e => e.domains ++ e.redirectFrom) := by
  induction l with
  | nil => exact List.Sublist.refl []
  | cons e l ih =>
    rw [filterMap_cons, keepRoute_eq]
    split_ifs with hnone hdomains
    · exact ih.trans (sublist_append_right ..)
    · refine List.Sublist.append ?_ ih
      simp [hdomains]
    · exact List.Sublist.append (List.Sublist.refl _) ih

theorem resolveProxyRouteClaims_effective (h : resolveProxyRouteClaims routes = .ok effective) :
    Effective routes effective := by
  simp only [resolveProxyRouteClaims, bind_eq_ok] at h
  obtain ⟨s, hs, hres⟩ := h
  obtain rfl := Except.ok.inj hres
  obtain ⟨asked, hclaimed, hcomp⟩ := resolution_claimed hs
  refine ⟨(effective_hosts_nodup hclaimed).sublist (flatMap_filterMap_sublist _), ?_, ?_⟩
  · intro e he
    obtain ⟨e₀, he₀, hkeep⟩ := mem_filterMap.mp he
    obtain ⟨i, hi⟩ := mem_iff_getElem?.mp he₀
    have hlt := hclaimed.lists.length ▸ (List.getElem?_eq_some_iff.mp hi).1
    have hr := getElem?_eq_getElem hlt
    rw [keepRoute_eq] at hkeep
    by_cases hnone : e₀.domains = [] ∧ e₀.dynamicDomain = none
    · rw [if_pos hnone] at hkeep
      cases hkeep
    · rw [if_neg hnone] at hkeep
      obtain rfl := Option.some.inj hkeep
      refine ⟨routes[i], getElem_mem hlt, (keepRoute_isSome_iff hclaimed hcomp hr hi).mp hnone, ?_⟩
      exact remains_of_claimed hclaimed hcomp hr hi
  · intro r hr hrend
    obtain ⟨i, hi⟩ := mem_iff_getElem?.mp hr
    have hlt := hclaimed.lists.length.symm ▸ (List.getElem?_eq_some_iff.mp hi).1
    have he := getElem?_eq_getElem hlt
    have hkept := (keepRoute_isSome_iff hclaimed hcomp hi he).mpr hrend
    refine ⟨_, mem_filterMap.mpr ⟨s.effective[i], getElem_mem hlt, ?_⟩,
      remains_of_claimed hclaimed hcomp hi he⟩
    rw [keepRoute_eq, if_neg hkept]

theorem Effective.perm (h : Effective routes effective) (hr : routes.Perm routes')
    (he : effective.Perm effective') : Effective routes' effective' := by
  have hwins : ∀ r host, Wins routes r host ↔ Wins routes' r host := fun r => wins_congr fun _ =>
    hr.mem_iff
  have hremains : ∀ r e, Remains routes r e → Remains routes' r e := by
    rintro r e ⟨hsame, hdomains, hredirects⟩
    refine ⟨hsame, ?_, ?_⟩
    · intro host
      rw [← hwins]
      exact hdomains host
    · intro host
      rw [← hwins]
      exact hredirects host
  have hrend : ∀ r, Rendered routes r ↔ Rendered routes' r := by
    intro r
    unfold Rendered
    simp only [hwins]
  refine ⟨(he.flatMap_right _).nodup_iff.mp h.nodup, ?_, ?_⟩
  · intro e hmem
    obtain ⟨r, hrmem, hren, hrem⟩ := h.source e (he.mem_iff.mpr hmem)
    exact ⟨r, hr.mem_iff.mp hrmem, (hrend r).mp hren, hremains r e hrem⟩
  · intro r hmem hren
    obtain ⟨e, hemem, hrem⟩ := h.complete r (hr.mem_iff.mpr hmem) ((hrend r).mpr hren)
    exact ⟨e, he.mem_iff.mp hemem, hremains r e hrem⟩

theorem caddyfile_cases (documented : Documented P)
    (h : caddyfile P manifests certificates owners = .ok file) :
    ∃ effective, Effective (allRoutes manifests) effective ∧ (effective = [] ∧ file = .noRoutes ∨
        ∃ trusted dynamic sites, soleDynamicRoute effective = .ok dynamic ∧
          proxyTrustedProxySet effective = .ok trusted ∧
          effective.mapM (routeSites certificates owners) = .ok sites ∧
          file = .routes trusted dynamic sites.flatten) := by
  simp only [caddyfile, bind_eq_ok] at h
  obtain ⟨resolved, hresolved, h⟩ := h
  have hsorted : (sortProxyRoutesForCaddy resolved).Perm resolved := perm_insertionSort _ resolved
  refine ⟨sortProxyRoutesForCaddy resolved,
    (resolveProxyRouteClaims_effective hresolved).perm (documented.sorts _ _) hsorted.symm, ?_⟩
  split_ifs at h with hempty
  · exact .inl ⟨hempty, (Except.ok.inj h).symm⟩
  · simp only [bind_eq_ok] at h
    obtain ⟨dynamic, hdynamic, trusted, htrusted, sites, hsites, hfile⟩ := h
    exact .inr ⟨trusted, dynamic, sites, hdynamic, htrusted, hsites, (Except.ok.inj hfile).symm⟩

theorem isSafeProxyHost_ne_empty (h : isSafeProxyHost value) : value ≠ "" := by
  rintro rfl
  revert h
  decide

theorem servingSite_ok (h : servingSite certificates owners e domain = .ok site) :
    ∃ certificate, site = .serving domain e certificate := by
  unfold servingSite at h
  split at h
  · cases h
  · exact ⟨_, (Except.ok.inj h).symm⟩

theorem redirectingSite_ok (h : redirectingSite certificates owners e primary redirect = .ok site) :
    ∃ certificate, site = .redirecting redirect primary e.service certificate := by
  unfold redirectingSite at h
  split at h
  · cases h
  · exact ⟨_, (Except.ok.inj h).symm⟩

theorem accepted_of_mem_allRoutes (accepted : ∀ manifest ∈ manifests, Accepted P manifest)
    (hr : r ∈ allRoutes manifests) : AcceptedRoute P r := by
  obtain ⟨manifest, hmanifest, hroute⟩ := mem_flatMap.mp hr
  exact (accepted manifest hmanifest).route r hroute

theorem Remains.host (h : Remains routes r e) (accepted : AcceptedRoute P r) :
    ∀ host ∈ e.domains ++ e.redirectFrom, isSafeProxyHost host := by
  intro host hhost
  apply accepted.host
  rcases mem_append.mp hhost with hdomain | hredirect
  · exact mem_append_left _ ((h.domains host).mp hdomain).1
  · exact mem_append_right _ ((h.redirects host).mp hredirect).1.1

theorem routeSites_hosts (hremains : Remains routes r e) (accepted : AcceptedRoute P r)
    (h : routeSites certificates owners e = .ok sites) :
    sites.map Site.host = e.domains ++ e.redirectFrom := by
  simp only [routeSites, bind_eq_ok] at h
  obtain ⟨serving, hserving, redirecting, hredirecting, hres⟩ := h
  obtain rfl := Except.ok.inj hres
  have hfirst : serving.map Site.host = e.domains.map id := by
    refine map_of_mapM_eq_ok id hserving fun domain _ site hsite => ?_
    obtain ⟨certificate, rfl⟩ := servingSite_ok hsite
    rfl
  have hsecond : redirecting.map Site.host =
      (if e.domains.headD "" = "" then [] else e.redirectFrom).map id := by
    refine map_of_mapM_eq_ok id hredirecting fun redirect _ site hsite => ?_
    obtain ⟨certificate, rfl⟩ := redirectingSite_ok hsite
    rfl
  have hprimary : (if e.domains.headD "" = "" then [] else e.redirectFrom) = e.redirectFrom := by
    cases hdomains : e.domains with
    | nil =>
      -- Without a domain there is no redirect left.
      rw [headD_nil, if_pos rfl, eq_comm, eq_nil_iff_forall_not_mem]
      intro host hhost
      exact ((hremains.redirects host).mp hhost).2 hdomains
    | cons domain =>
      have hsafe := hremains.host accepted domain (by simp [hdomains])
      rw [headD_cons, if_neg (isSafeProxyHost_ne_empty hsafe)]
  rw [map_append, hfirst, hsecond, map_id, map_id, hprimary]

/-- A route wins the host, and redirects from it only if it serves a domain. -/
def Addressed (routes : List ProxyRoute) (host : String) : Prop :=
  ∃ r ∈ routes, Wins routes r host ∧
    (host ∈ r.domains ∨ host ∈ r.redirectFrom ∧ ∃ domain ∈ r.domains, Wins routes r domain)

theorem Remains.mem_iff (h : Remains routes r e) (host : String) :
    host ∈ e.domains ++ e.redirectFrom ↔
      Wins routes r host ∧ (host ∈ r.domains ∨ host ∈ r.redirectFrom ∧ ∃ domain ∈ r.domains,
        Wins routes r domain) := by
  have hserves : e.domains ≠ [] ↔ ∃ domain ∈ r.domains, Wins routes r domain := by
    rw [ne_nil_iff_exists_mem]
    simp only [h.domains]
  rw [mem_append, h.domains, h.redirects, hserves]
  tauto

theorem Effective.mem_hosts_iff (h : Effective routes effective) (host : String) :
    host ∈ effective.flatMap (fun e => e.domains ++ e.redirectFrom) ↔ Addressed routes host := by
  rw [mem_flatMap]
  constructor
  · rintro ⟨e, he, hhost⟩
    obtain ⟨r, hr, -, hremains⟩ := h.source e he
    exact ⟨r, hr, (hremains.mem_iff host).mp hhost⟩
  · rintro ⟨r, hr, hwins, hnamed⟩
    have hrend : Rendered routes r := by
      right
      rcases hnamed with hdomain | ⟨-, hserves⟩
      · exact ⟨host, hdomain, hwins⟩
      · exact hserves
    obtain ⟨e, he, hremains⟩ := h.complete r hr hrend
    exact ⟨e, he, (hremains.mem_iff host).mpr ⟨hwins, hnamed⟩⟩

theorem sites_hosts (documented : Documented P)
    (accepted : ∀ manifest ∈ manifests, Accepted P manifest)
    (h : caddyfile P manifests certificates owners = .ok file) :
    (file.sites.map Site.host).Nodup ∧
      ∀ host, host ∈ file.sites.map Site.host ↔ Addressed (allRoutes manifests) host := by
  obtain ⟨effective, heffective, hcases⟩ := caddyfile_cases documented h
  have hhosts : file.sites.map Site.host = effective.flatMap fun e =>
      e.domains ++ e.redirectFrom := by
    rcases hcases with ⟨rfl, rfl⟩ | ⟨trusted, dynamic, sites, -, -, hsites, rfl⟩
    · rfl
    · have hnames : sites.map (map Site.host) = effective.map fun e =>
          e.domains ++ e.redirectFrom := by
        refine map_of_mapM_eq_ok _ hsites fun e he sites hroute => ?_
        obtain ⟨r, hr, -, hremains⟩ := heffective.source e he
        exact routeSites_hosts hremains (accepted_of_mem_allRoutes accepted hr) hroute
      change (sites.flatten).map Site.host = _
      rw [map_flatten, hnames]
      rfl
  rw [hhosts]
  exact ⟨heffective.nodup, heffective.mem_hosts_iff⟩

theorem map_toLower_host (sites : List Site) :
    (sites.map fun site => toLower site.host) = (sites.map Site.host).map toLower := by
  rw [map_map]
  rfl

/-- The hosts of the sites are distinct up to case exactly if no two addressed hosts differ in
case only. -/
theorem site_hosts_distinct_iff {text : String} (documented : Documented P)
    (accepted : ∀ manifest ∈ manifests, Accepted P manifest)
    (rendered : renderCaddyfileWithCertificatesAndOwners P manifests certificates owners =
      .ok text) :
    ∃ file, caddyfile P manifests certificates owners = .ok file ∧ file.text = text ∧
      ((file.sites.map fun site => toLower site.host).Nodup ↔
        ∀ host other, Addressed (allRoutes manifests) host → Addressed (allRoutes manifests) other →
          equalFold host other → host = other) := by
  simp only [renderCaddyfileWithCertificatesAndOwners, bind_eq_ok] at rendered
  obtain ⟨file, hfile, htext⟩ := rendered
  obtain ⟨hnodup, hmem⟩ := sites_hosts documented accepted hfile
  refine ⟨file, hfile, Except.ok.inj htext, ?_⟩
  rw [map_toLower_host, nodup_map_iff_inj_on hnodup]
  constructor
  · intro hinj host other hhost hother hfold
    exact hinj host ((hmem host).mpr hhost) other ((hmem other).mpr hother)
      (equalFold_iff_toLower.mp hfold)
  · intro hdistinct host hhost other hother hfold
    exact hdistinct host other ((hmem host).mp hhost) ((hmem other).mp hother)
      (equalFold_iff_toLower.mpr hfold)

def oneUpstream : Platform where
  parseURL value :=
    if value = "http://app:3000" then .ok ⟨"http", false, "app:3000", "app", "3000", "", "", ""⟩
    else .error "unknown URL"
  parsesIP _ := false
  parsesCIDR _ := false
  parseAddr _ := none
  parseRange _ := none
  sha256Hex _ := "0123456789"
  sortSlice less routes := routes.insertionSort fun a b => less b a = false

theorem oneUpstream_documented : Documented oneUpstream where
  scheme := by
    intro value parsed h _
    change (if value = "http://app:3000" then _ else _) = _ at h
    split_ifs at h with hvalue
    obtain rfl := Except.ok.inj h
    refine ⟨"http".toList, "//app:3000".toList, ?_, ?_⟩
    · rw [hvalue]
      rfl
    · rfl
  ip h := by cases h
  cidr h := by cases h
  range h := by cases h
  sorts less routes := perm_insertionSort _ routes

def plainRoute (service : String) (domains redirectFrom : List String) : ProxyRoute where
  service := service
  revision := ""
  domains := domains
  redirectFrom := redirectFrom
  upstreams := ["http://app:3000"]
  healthCheck := none
  sticky := false
  priority := 0
  visibility := proxyRouteVisibilityPublic
  dynamicDomain := none
  basicAuth := none
  allowIPs := []
  trustedProxies := []
  destinations := []

def shopManifest (routes : List ProxyRoute) : ProxyRouteManifest where
  version := 1
  project := "shop"
  environment := "production"
  network := "tako_shop_production_0123456789"
  clusterID := ""
  routes := routes

theorem accepted_singleton {manifest : ProxyRouteManifest}
    (h : validateProxyRouteManifest P manifest = .ok manifest) :
    ∀ m ∈ [manifest], Accepted P m := by
  intro m hm
  obtain rfl := mem_singleton.mp hm
  exact ⟨m, h⟩

def redirectedShop : ProxyRouteManifest :=
  shopManifest [plainRoute "web" ["example.com"] ["www.example.com"]]

theorem redirectedShop_addressed (h : Addressed (allRoutes [redirectedShop]) host) :
    host = "example.com" ∨ host = "www.example.com" := by
  obtain ⟨r, hr, -, hnamed⟩ := h
  obtain rfl : r = plainRoute "web" ["example.com"] ["www.example.com"] := mem_singleton.mp hr
  rcases hnamed with hdomain | ⟨hredirect, -⟩
  · exact .inl (mem_singleton.mp hdomain)
  · exact .inr (mem_singleton.mp hredirect)

theorem redirected_host_distinct : (∀ manifest ∈ [redirectedShop], Accepted oneUpstream manifest) ∧
    ∃ file, caddyfile oneUpstream [redirectedShop] [] [] = .ok file ∧
      (file.sites.map fun site => toLower site.host).Nodup := by
  have haccepted := @accepted_singleton oneUpstream redirectedShop (by decide +kernel)
  obtain ⟨file, hfile, -, hiff⟩ := site_hosts_distinct_iff oneUpstream_documented haccepted
    (show renderCaddyfileWithCertificatesAndOwners oneUpstream [redirectedShop] [] [] =
      .ok (Caddyfile.text (.routes [] none
        [.serving "example.com" (plainRoute "web" ["example.com"] ["www.example.com"]) none,
          .redirecting "www.example.com" "example.com" "web" none])) by decide +kernel)
  refine ⟨haccepted, file, hfile, hiff.mpr ?_⟩
  intro host other hhost hother hfold
  rcases redirectedShop_addressed hhost with
    rfl | rfl <;> rcases redirectedShop_addressed hother with rfl | rfl
  · rfl
  · exact absurd hfold (by decide +kernel)
  · exact absurd hfold (by decide +kernel)
  · rfl

def caseVariants : ProxyRouteManifest :=
  shopManifest [plainRoute "api" ["example.com"] [], plainRoute "web" ["Example.com"] []]

theorem case_variants_both_served : (∀ manifest ∈ [caseVariants], Accepted oneUpstream manifest) ∧
    ∃ file, caddyfile oneUpstream [caseVariants] [] [] = .ok file ∧
      file.sites.map Site.host = ["example.com", "Example.com"] ∧
      ¬ (file.sites.map fun site => toLower site.host).Nodup := by
  refine ⟨accepted_singleton (by decide +kernel), ?_⟩
  obtain ⟨file, hfile, hhosts⟩ := exists_ok_of_any (x := caddyfile oneUpstream [caseVariants] [] [])
    (P := (·.sites.map Site.host = ["example.com", "Example.com"])) (by decide +kernel)
  refine ⟨file, hfile, hhosts, ?_⟩
  rw [map_toLower_host, hhosts]
  decide +kernel

end ProxySites
