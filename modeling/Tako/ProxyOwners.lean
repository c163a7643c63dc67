import Mathlib.Data.List.Duplicate
import Tako.ProxySites

/-! # The owners of the hosts

The claims are settled in the order of the routes. A claim is refused only if it ties with the
highest priority seen so far, so two claims that both lose are refused in some orders only.
-/
namespace ProxyOwners

open List GoPrelude ProxyManifests ProxyCaddyfile ProxyClaims ProxySites Option

variable {routes effective effective' : List ProxyRoute}

theorem keepRoute_kept (h : keepRoute e₀ = some e) :
    SameBut e₀ e ∧ ∀ role, hosts e role ⊆ hosts e₀ role := by
  rw [keepRoute_eq] at h
  split_ifs at h with hnone hdomains
  · obtain rfl := some.inj h
    refine ⟨rfl, ?_⟩
    rintro (_ | _)
    · exact Subset.refl _
    · exact nil_subset _
  · obtain rfl := some.inj h
    exact ⟨rfl, fun _ => Subset.refl _⟩

/-- A host has one owner, who outranks the others, and is missing only as a redirect of an owner
that has lost its domains. -/
theorem resolved_host_owners (h : resolveProxyRouteClaims routes = .ok effective) :
    (effective.flatMap fun e => e.domains ++ e.redirectFrom).Nodup ∧
      (∀ e ∈ effective, ∀ host, Names e host → ∃ i : ℕ, ∃ r, routes[i]? = some r ∧ SameBut r e ∧
        Names r host ∧
        ∀ j other, j ≠ i → routes[j]? = some other → Names other host →
          other.priority < r.priority) ∧
      ∀ host, (∃ r ∈ routes, Names r host) → (∀ e ∈ effective, ¬ Names e host) →
        ∃ r ∈ routes, host ∈ r.redirectFrom ∧
          ∀ domain ∈ r.domains, ∃ other ∈ routes, Names other domain ∧
            r.priority < other.priority := by
  refine ⟨(resolveProxyRouteClaims_effective h).nodup, ?_⟩
  simp only [resolveProxyRouteClaims, bind_eq_ok] at h
  obtain ⟨s, hs, hresult⟩ := h
  obtain rfl := Except.ok.inj hresult
  obtain ⟨asked, hclaimed, hcomplete⟩ := resolution_claimed hs
  have hlists := hclaimed.lists
  constructor
  · intro e he host hnames
    obtain ⟨e₀, he₀, hkeep⟩ := mem_filterMap.mp he
    obtain ⟨i, hi⟩ := mem_iff_getElem?.mp he₀
    obtain ⟨hsame, hsubset⟩ := keepRoute_kept hkeep
    obtain ⟨role, hrole⟩ := names_iff_hosts.mp hnames
    have hown := (hlists.held i e₀ hi role host).mp (hsubset role hrole)
    obtain ⟨c, hlookup, hpair⟩ := map_eq_some_iff.mp hown
    obtain ⟨rfl, rfl⟩ := Prod.mk.inj hpair
    obtain ⟨r, hr, hnamed, houtranks⟩ := hclaimed.outranks hcomplete hlookup
    refine ⟨_, r, hr, ?_, names_iff_hosts.mpr ⟨_, hnamed⟩, houtranks⟩
    have hkept := hlists.kept _ r e₀ hr hi
    unfold SameBut at *
    rw [hsame, hkept]
  · rintro host ⟨r, hr, hnames⟩ hmissing
    obtain ⟨k, hk⟩ := mem_iff_getElem?.mp hr
    obtain ⟨role, hrole⟩ := names_iff_hosts.mp hnames
    obtain ⟨c, hlookup, -⟩ := hclaimed.ranked.asked_claimed _ (hcomplete k r hk role host hrole)
    obtain ⟨owner, howner, -, hnamed⟩ := hclaimed.ranked.holder host c hlookup
    have hlt := hlists.length ▸ (List.getElem?_eq_some_iff.mp howner).1
    have he := getElem?_eq_getElem hlt
    have hheld := (hlists.held _ _ he c.redirect host).mpr (map_eq_some_iff.mpr ⟨c, hlookup, rfl⟩)
    have hlost : s.effective[c.routeIndex].domains = [] := by
      by_contra hdomains
      refine hmissing s.effective[c.routeIndex] (mem_filterMap.mpr ⟨_, getElem_mem hlt, ?_⟩)
        (names_iff_hosts.mpr ⟨_, hheld⟩)
      simp [keepRoute_eq, hdomains]
    cases hredirect : c.redirect with
    | false =>
      rw [hredirect] at hheld
      simp [hosts, hlost] at hheld
    | true =>
      rw [hredirect] at hnamed
      refine ⟨owner, mem_of_getElem? howner, hnamed, ?_⟩
      intro domain hdomain
      obtain ⟨c', hlookup', hrank⟩ :=
        hclaimed.ranked.asked_claimed _ (hcomplete _ owner howner false domain hdomain)
      obtain ⟨other, hother, hpriority, hnamed'⟩ := hclaimed.ranked.holder domain c' hlookup'
      rcases hrank with ⟨hindex, hrole'⟩ | ⟨r', hr', hlow⟩
      · -- Otherwise the owner would be left with the domain.
        have hserved := (hlists.held _ _ he false domain).mpr
          (map_eq_some_iff.mpr ⟨c', hlookup', Prod.ext hindex.symm hrole'.symm⟩)
        simp [hosts, hlost] at hserved
      · cases howner.symm.trans hr'
        exact ⟨other, mem_of_getElem? hother, names_iff_hosts.mpr ⟨_, hnamed'⟩, hpriority ▸ hlow⟩

def ranked (priority : ℤ) (service : String) (domains redirectFrom : List String) : ProxyRoute :=
  { plainRoute service domains redirectFrom with priority := priority }

theorem lost_domain_drops_redirect :
    let routes := [ranked 1 "api" ["a.example"] [], ranked 0 "web" ["a.example"] ["www.a.example"]]
    resolveProxyRouteClaims routes = .ok [ranked 1 "api" ["a.example"] []] ∧
      ∃ r ∈ routes, "www.a.example" ∈ r.redirectFrom ∧
        ∀ domain ∈ r.domains, ∃ other ∈ routes, Names other domain ∧
          r.priority < other.priority := by
  intro routes
  have h : resolveProxyRouteClaims routes = .ok [ranked 1 "api" ["a.example"] []] := by
    decide +kernel
  obtain ⟨-, -, hmissing⟩ := resolved_host_owners h
  exact ⟨h, hmissing "www.a.example" (by decide) (by decide)⟩

structure Bid where
  priority : ℤ
  host : String
  deriving DecidableEq

def bids (route : ProxyRoute) : List Bid :=
  (route.domains ++ route.redirectFrom).map fun host => ⟨route.priority, host⟩

def Tops (bid : Bid) (seen : List Bid) : Prop :=
  ∀ other ∈ seen, other.host = bid.host → other.priority ≤ bid.priority

def Leads (seen : List Bid) (bid : Bid) : Prop := bid ∈ seen ∧ Tops bid seen

/-- No bid equals the one that leads when it is made. -/
def Settles : List Bid → List Bid → Prop
  | _, [] => True
  | seen, bid :: rest => ¬ Leads seen bid ∧ Settles (seen ++ [bid]) rest

theorem settles_append : Settles seen (bs ++ rest) ↔ Settles seen bs ∧
    Settles (seen ++ bs) rest := by
  induction bs generalizing seen with
  | nil => simp [Settles]
  | cons bid bs ih => simp only [cons_append, Settles, ih, append_assoc, nil_append, and_assoc]

structure Tracks (s : Resolution) (seen : List Bid) : Prop where
  leads : ∀ host c, s.claims.lookup host = some c → Leads seen ⟨c.priority, host⟩
  claimed : ∀ bid ∈ seen, ∃ c, s.claims.lookup bid.host = some c

theorem Leads.append (h : Leads seen bid)
    (hbelow : new.host = bid.host → new.priority ≤ bid.priority) : Leads (seen ++ [new]) bid := by
  refine ⟨mem_append_left _ h.1, ?_⟩
  intro other hother
  rcases mem_append.mp hother with hother | hother
  · exact h.2 other hother
  · rwa [mem_singleton.mp hother]

theorem Tracks.assign (h : Tracks s seen) (habove : Tops ⟨route.priority, host⟩ seen) :
    Tracks (s.assign host i redirect route) (seen ++ [⟨route.priority, host⟩]) := by
  constructor
  · intro other c hc
    change (s.claims.insert host _).lookup other = some c at hc
    by_cases hother : other = host
    · subst hother
      rw [AList.lookup_insert] at hc
      obtain rfl := some.inj hc
      refine ⟨mem_append_right _ mem_cons_self, ?_⟩
      intro bid hbid hhost
      rcases mem_append.mp hbid with hbid | hbid
      · exact habove bid hbid hhost
      · rw [mem_singleton.mp hbid]
    · rw [AList.lookup_insert_ne hother] at hc
      exact (h.leads other c hc).append fun heq => absurd heq.symm hother
  · intro bid hbid
    change ∃ c, (s.claims.insert host _).lookup bid.host = some c
    by_cases hhost : bid.host = host
    · exact ⟨_, by rw [hhost, AList.lookup_insert]⟩
    · rw [AList.lookup_insert_ne hhost]
      rcases mem_append.mp hbid with hbid | hbid
      · exact h.claimed bid hbid
      · exact absurd (by rw [mem_singleton.mp hbid]) hhost

def Judged (seen bs : List Bid) : Except String Resolution → Prop
  | .ok s => Settles seen bs ∧ Tracks s (seen ++ bs)
  | .error _ => ¬ Settles seen bs

theorem Judged.bind {f : Resolution → Except String Resolution} (h : Judged seen bs x)
    (hf : ∀ s, x = .ok s → Tracks s (seen ++ bs) → Judged (seen ++ bs) rest (f s)) :
    Judged seen (bs ++ rest) (x >>= f) := by
  cases x with
  | error => exact fun hsettles => h (settles_append.mp hsettles).1
  | ok s =>
    obtain ⟨hsettles, htracks⟩ := h
    have hrest := hf s rfl htracks
    change Judged seen (bs ++ rest) (f s)
    cases hres : f s with
    | error =>
      rw [hres] at hrest
      exact fun hall => hrest (settles_append.mp hall).2
    | ok =>
      rw [hres] at hrest
      exact ⟨settles_append.mpr ⟨hsettles, hrest.1⟩, by simpa only [append_assoc] using hrest.2⟩

section

variable (h : Claimed routes asked s) (ht : Tracks s seen)

include h ht

theorem claimProxyRouteHost_judged (hroute : routes[i]? = some route) :
    Judged seen [⟨route.priority, host⟩] (claimProxyRouteHost s host i redirect route) := by
  unfold claimProxyRouteHost
  cases hlookup : s.claims.lookup host with
  | none =>
    have hfree : ∀ bid ∈ seen, bid.host ≠ host := by
      rintro bid hbid rfl
      obtain ⟨c, hc⟩ := ht.claimed bid hbid
      rw [hlookup] at hc
      cases hc
    refine ⟨⟨fun hleads => hfree _ hleads.1 rfl, trivial⟩, ht.assign ?_⟩
    exact fun bid hbid hhost => absurd hhost (hfree bid hbid)
  | some existing =>
    have hleads := ht.leads host existing hlookup
    dsimp only
    split_ifs with hsame hequal hlower
    · -- The route itself has the host, with the same priority.
      obtain ⟨r, hr, hpriority, -⟩ := h.ranked.holder host existing hlookup
      rw [hsame, hroute] at hr
      obtain rfl := some.inj hr
      exact fun hsettles => hsettles.1 (hpriority ▸ hleads)
    · exact fun hsettles => hsettles.1 (hequal ▸ hleads)
    · refine ⟨⟨?_, trivial⟩, ?_, ?_⟩
      · intro htied
        have hle := htied.2 _ hleads.1 rfl
        dsimp only at hle
        omega
      · intro other c hc
        refine (ht.leads other c hc).append ?_
        rintro rfl
        rw [hlookup] at hc
        obtain rfl := some.inj hc
        exact hlower.le
      · exact forall_mem_append.mpr ⟨ht.claimed, forall_mem_singleton.mpr ⟨existing, hlookup⟩⟩
    · refine ⟨⟨?_, trivial⟩, ?_⟩
      · intro htied
        have hle := hleads.2 _ htied.1 rfl
        dsimp only at hle
        omega
      · have htracks : Tracks (s.release host existing) seen := ⟨ht.leads, ht.claimed⟩
        refine htracks.assign ?_
        intro bid hbid hhost
        have hle := hleads.2 bid hbid hhost
        dsimp only at hle ⊢
        omega

theorem claimHosts_judged (hroute : routes[i]? = some route)
    (hnames : ∀ host ∈ names, host ∈ hosts route redirect) :
    Judged seen (names.map fun host => ⟨route.priority, host⟩)
      (claimHosts i redirect route s names) := by
  induction names generalizing s asked seen with
  | nil => exact ⟨trivial, by simpa using ht⟩
  | cons name names ih =>
    refine (claimProxyRouteHost_judged h ht hroute).bind fun s' hok ht' => ?_
    have hclaimed := claimProxyRouteHost_claimed h hroute (hnames name mem_cons_self) hok
    exact ih hclaimed ht' fun host hhost => hnames host (mem_cons_of_mem name hhost)

theorem claimRoute_judged : Judged seen (bids route) (claimRoute s route) := by
  have hroute : (routes ++ [route])[routes.length]? = some route := by simp
  have hstarted : Tracks { s with
      effective := s.effective ++ [{ route with domains := [], redirectFrom := [] }] } seen :=
    ⟨ht.leads, ht.claimed⟩
  rw [bids, map_append, claimRoute, h.lists.length]
  refine (claimHosts_judged (h.start route) hstarted hroute fun _ hhost => hhost).bind fun s' hok
    ht' => ?_
  have hclaimed := claimHosts_claimed (h.start route) hroute (fun _ hhost => hhost) hok
  exact claimHosts_judged hclaimed ht' hroute fun _ hhost => hhost

theorem foldlM_claimRoute_judged (rest : List ProxyRoute) :
    Judged seen (rest.flatMap bids) (rest.foldlM claimRoute s) := by
  induction rest generalizing routes asked s seen with
  | nil => exact ⟨trivial, by simpa using ht⟩
  | cons route rest ih =>
    exact (claimRoute_judged h ht).bind fun s' hok ht' => ih (claimRoute_claimed h hok) ht'

end

theorem resolveProxyRouteClaims_ok_iff :
    (∃ effective, resolveProxyRouteClaims routes = .ok effective) ↔
      Settles [] (routes.flatMap bids) := by
  have hjudged : Judged [] (routes.flatMap bids) (routes.foldlM claimRoute ⟨[], ∅⟩) :=
    foldlM_claimRoute_judged claimed_nil ⟨by simp, by simp⟩ routes
  unfold resolveProxyRouteClaims
  cases hs : routes.foldlM claimRoute ⟨[], ∅⟩ with
  | error =>
    rw [hs] at hjudged
    exact iff_of_false (fun ⟨_, h⟩ => by cases h) hjudged
  | ok =>
    rw [hs] at hjudged
    exact iff_of_true ⟨_, rfl⟩ hjudged.1

/-- A bid that no other tops is made twice. -/
def TopTied (bs : List Bid) : Prop := ∃ bid, List.Duplicate bid bs ∧ Tops bid bs

theorem not_settles_of_mem (hseen : bid ∈ seen) (hmem : bid ∈ rest)
    (htop : Tops bid (seen ++ rest)) : ¬ Settles seen rest := by
  induction rest generalizing seen with
  | nil => cases hmem
  | cons new rest ih =>
    rintro ⟨hnew, hrest⟩
    rcases mem_cons.mp hmem with rfl | hmem
    · exact hnew ⟨hseen, fun other hother => htop other (mem_append_left _ hother)⟩
    · exact ih (mem_append_left _ hseen) hmem (by simpa using htop) hrest

theorem not_settles_of_duplicate (hdup : List.Duplicate bid rest) (htop : Tops bid (seen ++ rest)) :
    ¬ Settles seen rest := by
  induction hdup generalizing seen with
  | cons_mem hmem =>
    rintro ⟨-, hrest⟩
    exact not_settles_of_mem (by simp) hmem (by simpa using htop) hrest
  | cons_duplicate _ ih =>
    rintro ⟨-, hrest⟩
    exact ih (by simpa using htop) hrest

theorem TopTied.not_settles (h : TopTied bs) : ¬ Settles [] bs := by
  obtain ⟨bid, hdup, htop⟩ := h
  exact not_settles_of_duplicate hdup htop

theorem TopTied.perm (h : TopTied bs) (hperm : bs.Perm bs') : TopTied bs' := by
  obtain ⟨bid, hdup, htop⟩ := h
  refine ⟨bid, ?_, fun other hother => htop other (hperm.mem_iff.mpr hother)⟩
  rw [duplicate_iff_two_le_count] at *
  exact hperm.count_eq bid ▸ hdup

theorem settles_of_forall
    (h : ∀ earlier bid later, seen ++ rest = earlier ++ bid :: later → ¬ Leads earlier bid) :
    Settles seen rest := by
  induction rest generalizing seen with
  | nil => trivial
  | cons bid rest ih => exact ⟨h seen bid rest rfl, ih (by simpa using h)⟩

theorem duplicate_of_mem_left (h : bid ∈ earlier) :
    List.Duplicate bid (earlier ++ bid :: later) := by
  rw [duplicate_iff_sublist]
  exact (singleton_sublist.mpr h).append (singleton_sublist.mpr mem_cons_self)

theorem settles_of_nodup (h : bs.Nodup) : Settles [] bs := by
  apply settles_of_forall
  rintro earlier bid later heq ⟨hmem, -⟩
  rw [nil_append] at heq
  exact nodup_iff_forall_not_duplicate.mp h bid (heq ▸ duplicate_of_mem_left hmem)

theorem settles_of_descending (h : bs.Pairwise fun a b => b.priority ≤ a.priority)
    (htied : ¬ TopTied bs) : Settles [] bs := by
  apply settles_of_forall
  rintro earlier bid later heq ⟨hmem, htop⟩
  subst heq
  refine htied ⟨bid, duplicate_of_mem_left hmem, ?_⟩
  intro other hother hhost
  rcases mem_append.mp hother with hother | hother
  · exact htop other hother hhost
  · rcases mem_cons.mp hother with rfl | hother
    · exact le_rfl
    · exact rel_of_pairwise_cons (pairwise_append.mp h).2.1 hother

theorem mem_bids (h : bid ∈ bids route) : bid.priority = route.priority := by
  obtain ⟨host, -, rfl⟩ := mem_map.mp h
  rfl

theorem exists_settling_order (htied : ¬ TopTied (routes.flatMap bids)) :
    ∃ routes', routes.Perm routes' ∧ Settles [] (routes'.flatMap bids) := by
  let descending (a b : ProxyRoute) : Prop := b.priority ≤ a.priority
  have hperm := perm_insertionSort descending routes
  refine ⟨routes.insertionSort descending, hperm.symm, settles_of_descending ?_ ?_⟩
  · rw [pairwise_flatMap]
    constructor
    · intro r _
      exact pairwise_of_forall_mem_list fun a ha b hb => ((mem_bids hb).trans (mem_bids ha).symm).le
    · refine (pairwise_insertionSort descending routes).imp ?_
      intro r r' hle a ha b hb
      rw [mem_bids ha, mem_bids hb]
      exact hle
  · exact fun h => htied (h.perm (hperm.flatMap_right _))

/-- The routes with the priority of the tie come first. -/
theorem exists_refused_order (hdup : ¬ (routes.flatMap bids).Nodup) :
    ∃ routes', routes.Perm routes' ∧ ¬ Settles [] (routes'.flatMap bids) := by
  obtain ⟨bid, hbid⟩ := exists_duplicate_iff_not_nodup.mpr hdup
  let tied (r : ProxyRoute) : Bool := r.priority == bid.priority
  have hperm := filter_append_perm tied routes
  refine ⟨_, hperm.symm, ?_⟩
  rw [flatMap_append, settles_append]
  rintro ⟨hfirst, -⟩
  refine TopTied.not_settles ⟨bid, ?_, ?_⟩ hfirst
  · have hcount := (hperm.flatMap_right bids).count_eq bid
    have hrest : ((routes.filter fun r => !tied r).flatMap bids).count bid = 0 := by
      rw [count_eq_zero]
      intro hmem
      obtain ⟨r, hr, hmem⟩ := mem_flatMap.mp hmem
      have hother := (mem_filter.mp hr).2
      simp [tied, (mem_bids hmem).symm] at hother
    rw [flatMap_append, count_append] at hcount
    rw [duplicate_iff_two_le_count] at *
    omega
  · intro other hother _
    obtain ⟨r, hr, hmem⟩ := mem_flatMap.mp hother
    have hpriority := (mem_filter.mp hr).2
    rw [mem_bids hmem]
    exact (eq_of_beq hpriority).le

def SameOwners (effective effective' : List ProxyRoute) : Prop :=
  ∀ r role host, (∃ e ∈ effective, SameBut r e ∧ host ∈ hosts e role) ↔
    ∃ e ∈ effective', SameBut r e ∧ host ∈ hosts e role

theorem remains_hosts_iff (h : Remains routes route e) (h' : Remains routes route e₀)
    (host : String) : host ∈ hosts e role ↔ host ∈ hosts e₀ role := by
  have hdomains : ∀ host, host ∈ e.domains ↔ host ∈ e₀.domains :=
    fun host => by rw [h.domains, h'.domains]
  cases role with
  | false => exact hdomains host
  | true =>
    change host ∈ e.redirectFrom ↔ host ∈ e₀.redirectFrom
    rw [h.redirects, h'.redirects, ne_nil_iff_exists_mem, ne_nil_iff_exists_mem]
    simp only [hdomains]

theorem owner_of_effective (h : Effective routes effective) (h' : Effective routes effective')
    (howner : ∃ e ∈ effective, SameBut r e ∧ host ∈ hosts e role) :
    ∃ e ∈ effective', SameBut r e ∧ host ∈ hosts e role := by
  obtain ⟨e, he, hsame, hhost⟩ := howner
  obtain ⟨r₀, hr₀, hrend, hremains⟩ := h.source e he
  obtain ⟨e', he', hremains'⟩ := h'.complete r₀ hr₀ hrend
  refine ⟨e', he', ?_, (remains_hosts_iff hremains hremains' host).mp hhost⟩
  have hrest := congrArg (fun x : ProxyRoute =>
    { x with domains := e'.domains, redirectFrom := e'.redirectFrom })
    (hremains.same.symm.trans hsame)
  exact hremains'.same.trans hrest

/-- Two resolutions that both fail, or succeed with the same owners. -/
def Agree : Except String (List ProxyRoute) → Except String (List ProxyRoute) → Prop
  | .ok effective, .ok effective' => SameOwners effective effective'
  | .error _, .error _ => True
  | _, _ => False

theorem agree_of_settles_iff (hperm : routes.Perm routes')
    (h : Settles [] (routes.flatMap bids) ↔ Settles [] (routes'.flatMap bids)) :
    Agree (resolveProxyRouteClaims routes) (resolveProxyRouteClaims routes') := by
  rw [← resolveProxyRouteClaims_ok_iff, ← resolveProxyRouteClaims_ok_iff] at h
  cases hres : resolveProxyRouteClaims routes with
  | error =>
    cases hresult' : resolveProxyRouteClaims routes' with
    | error => trivial
    | ok => simp [hres, hresult'] at h
  | ok =>
    cases hresult' : resolveProxyRouteClaims routes' with
    | error => simp [hres, hresult'] at h
    | ok =>
      have heffective := (resolveProxyRouteClaims_effective hres).perm hperm (Perm.refl _)
      have heffective' := resolveProxyRouteClaims_effective hresult'
      exact fun r role host => ⟨owner_of_effective heffective heffective',
        owner_of_effective heffective' heffective⟩

theorem Agree.settles_iff
    (h : Agree (resolveProxyRouteClaims routes) (resolveProxyRouteClaims routes')) :
    Settles [] (routes.flatMap bids) ↔ Settles [] (routes'.flatMap bids) := by
  rw [← resolveProxyRouteClaims_ok_iff, ← resolveProxyRouteClaims_ok_iff]
  cases hres : resolveProxyRouteClaims routes <;> cases hresult' :
    resolveProxyRouteClaims routes' <;>
    simp [Agree, hres, hresult'] at h ⊢

/-- The order of the routes does not matter exactly if no bid is made twice, or one that leads is.
-/
theorem resolution_order_independent_iff (routes : List ProxyRoute) :
    (∀ routes', routes.Perm routes' →
      Agree (resolveProxyRouteClaims routes) (resolveProxyRouteClaims routes')) ↔
      (routes.flatMap bids).Nodup ∨ TopTied (routes.flatMap bids) := by
  constructor
  · intro h
    by_contra hneither
    obtain ⟨hdup, htied⟩ := not_or.mp hneither
    obtain ⟨settling, hsettling, hsettles⟩ := exists_settling_order htied
    obtain ⟨refused, hrefused, hnot⟩ := exists_refused_order hdup
    have hfirst := (h settling hsettling).settles_iff.mpr hsettles
    exact hnot ((h refused hrefused).settles_iff.mp hfirst)
  · intro h routes' hperm
    have hbids := hperm.flatMap_right bids
    refine agree_of_settles_iff hperm ?_
    rcases h with hnodup | htied
    · exact iff_of_true (settles_of_nodup hnodup) (settles_of_nodup (hbids.nodup_iff.mp hnodup))
    · exact iff_of_false htied.not_settles (htied.perm hbids).not_settles

/-- Two routes that tie below a third. The sort before the resolution compares services and
domains, so it leaves their order open. -/
theorem tied_losers_refused_first : let low := ranked 1 "web" ["a.example"] []
    let high := ranked 2 "web" ["a.example"] []
    [low, low, high].Perm [high, low, low] ∧
      resolveProxyRouteClaims [low, low, high] =
        .error "proxy domain \"a.example\" is configured by both web and web" ∧
      resolveProxyRouteClaims [high, low, low] = .ok [high] := by
  decide +kernel

end ProxyOwners
