import Tako.ProxyCaddyfile

/-! # Who is left with a host

A host that has been asked for is held by exactly one route, in one role, and every other route that
has asked for it has a lower priority.
-/
namespace ProxyClaims

open List GoPrelude Function Option AList
open GoMaps (GoMap)
open ProxyManifests ProxyCaddyfile

def hosts (route : ProxyRoute) : Bool → List String
  | true => route.redirectFrom
  | false => route.domains

section

variable (host : String) (redirect : Bool) (route : ProxyRoute) (role : Bool)

theorem hosts_appendHost : hosts (appendHost host redirect route) role =
      if redirect = role then hosts route role ++ [host] else hosts route role := by
  cases redirect <;> cases role <;> rfl

theorem hosts_removeClaimedHost : hosts (removeClaimedHost host redirect route) role =
      if redirect = role then removeString (hosts route role) host else hosts route role := by
  cases redirect <;> cases role <;> rfl

end

def SameBut (r e : ProxyRoute) : Prop :=
  e = { r with domains := e.domains, redirectFrom := e.redirectFrom }

theorem SameBut.appendHost (h : SameBut r e) (host : String) (redirect : Bool) :
    SameBut r (appendHost host redirect e) := by
  rw [h]
  cases redirect <;> rfl

theorem SameBut.removeClaimedHost (h : SameBut r e) (host : String) (redirect : Bool) :
    SameBut r (removeClaimedHost host redirect e) := by
  rw [h]
  cases redirect <;> rfl

/-- The routes of the loop hold exactly the hosts `owner` gives them. -/
structure Lists (routes effective : List ProxyRoute) (owner : String → Option (ℕ × Bool)) :
    Prop where
  length : effective.length = routes.length
  kept : ∀ (i : ℕ) r e, routes[i]? = some r → effective[i]? = some e → SameBut r e
  nodup : ∀ (i : ℕ) e, effective[i]? = some e → ∀ role, (hosts e role).Nodup
  held : ∀ (i : ℕ) e, effective[i]? = some e → ∀ role host, host ∈ hosts e role ↔
    owner host = some (i, role)

theorem getElem?_modify_some {l : List ProxyRoute} (h : (l.modify i f)[k]? = some e) :
    ∃ e₀, l[k]? = some e₀ ∧ e = if i = k then f e₀ else e₀ := by
  rw [getElem?_modify] at h
  obtain ⟨e₀, he₀, heq⟩ := map_eq_some_iff.mp h
  refine ⟨e₀, he₀, heq.symm.trans ?_⟩
  split_ifs <;> rfl

section

variable (h : Lists routes effective owner)

include h

/-- One list of one route changes, and with it the owner of one host. -/
theorem Lists.modify {f : ProxyRoute → ProxyRoute} {g : List String → List String}
    (hsame : ∀ r e, SameBut r e → SameBut r (f e))
    (hhosts : ∀ e role, hosts (f e) role = if redirect = role then g (hosts e role)
      else hosts e role)
    (hnodup : ∀ l : List String, l.Nodup → (owner host = none → host ∉ l) → (g l).Nodup)
    (hkept : ∀ l other, other ≠ host → (other ∈ g l ↔ other ∈ l))
    (hmoved : ∀ l, host ∈ g l ↔ taken = some (j, redirect))
    (hleft : ∀ i role, ¬ (j = i ∧ redirect = role) →
      (owner host = some (i, role) ↔ taken = some (i, role))) :
    Lists routes (effective.modify j f) (update owner host taken) := by
  refine ⟨(length_modify ..).trans h.length, ?_, ?_, ?_⟩
  · intro i r e hr he
    obtain ⟨e₀, he₀, rfl⟩ := getElem?_modify_some he
    have hold := h.kept i r e₀ hr he₀
    split_ifs
    · exact hsame r e₀ hold
    · exact hold
  · intro i e he role
    obtain ⟨e₀, he₀, rfl⟩ := getElem?_modify_some he
    have hold := h.nodup i e₀ he₀ role
    split_ifs
    · rw [hhosts]
      split_ifs
      · refine hnodup _ hold ?_
        intro hfree
        rw [h.held i e₀ he₀ role host, hfree]
        exact nofun
      · exact hold
    · exact hold
  · intro i e he role other
    obtain ⟨e₀, he₀, rfl⟩ := getElem?_modify_some he
    have hold := h.held i e₀ he₀ role other
    by_cases hother : other = host
    · subst hother
      rw [update_self]
      by_cases hlist : j = i ∧ redirect = role
      · obtain ⟨rfl, rfl⟩ := hlist
        rw [if_pos rfl, hhosts, if_pos rfl, hmoved]
      · rw [← hleft i role hlist, ← hold]
        split_ifs with hi
        · rw [hhosts, if_neg fun hrole => hlist ⟨hi, hrole⟩]
        · rfl
    · rw [update_of_ne hother, ← hold]
      split_ifs
      · rw [hhosts]
        split_ifs
        · exact hkept _ other hother
        · rfl
      · rfl

theorem Lists.release {j : ℕ} (hown : owner host = some (j, redirect)) :
    Lists routes (effective.modify j (removeClaimedHost host redirect))
      (update owner host none) := by
  refine h.modify (fun _ _ hsame => hsame.removeClaimedHost host redirect)
    (hosts_removeClaimedHost host redirect)
    (fun l hl _ => hl.filter _) (fun l other hother => by simp [hother]) (by simp) ?_
  intro i role hlist
  simpa [hown] using hlist

theorem Lists.assign (hfree : owner host = none) (j : ℕ) (redirect : Bool) :
    Lists routes (effective.modify j (appendHost host redirect))
      (update owner host (some (j, redirect))) := by
  refine h.modify (g := (· ++ [host])) (fun _ _ hsame => hsame.appendHost host redirect)
    (hosts_appendHost host redirect) ?_ (fun l other hother => by simp [hother]) (by simp) ?_
  · intro l hl hnew
    exact hl.append (nodup_singleton host) (by simpa using hnew hfree)
  · intro i role hlist
    simpa [hfree] using hlist

end

structure Request where
  routeIndex : ℕ
  host : String
  redirect : Bool

/-- Each claim was asked for, and outranks every other request for its host. -/
structure Ranked (routes : List ProxyRoute) (asked : List Request)
    (claims : GoMap ProxyRouteHostClaim) :
    Prop where
  holder : ∀ host c, claims.lookup host = some c →
    ∃ r, routes[c.routeIndex]? = some r ∧ c.priority = r.priority ∧ host ∈ hosts r c.redirect
  asked_claimed : ∀ q ∈ asked, ∃ c, claims.lookup q.host = some c ∧
    ((q.routeIndex = c.routeIndex ∧ q.redirect = c.redirect) ∨
      ∃ r, routes[q.routeIndex]? = some r ∧ r.priority < c.priority)

def ownerOf (claims : GoMap ProxyRouteHostClaim) (host : String) : Option (ℕ × Bool) :=
  (claims.lookup host).map fun c => (c.routeIndex, c.redirect)

structure Claimed (routes : List ProxyRoute) (asked : List Request) (s : Resolution) : Prop where
  lists : Lists routes s.effective (ownerOf s.claims)
  ranked : Ranked routes asked s.claims

variable {i : ℕ}

theorem ownerOf_insert :
    ownerOf (claims.insert host c) =
      update (ownerOf claims) host (some (c.routeIndex, c.redirect)) := by
  funext other
  unfold ownerOf
  by_cases hother : other = host
  · subst hother
    rw [lookup_insert, update_self]
    rfl
  · rw [lookup_insert_ne hother, update_of_ne hother]

theorem Ranked.assign (h : Ranked routes asked claims) (hroute : routes[i]? = some route)
    (hhost : host ∈ hosts route redirect)
    (hbelow : ∀ c, claims.lookup host = some c → c.priority < route.priority) :
    Ranked routes (asked ++ [⟨i, host, redirect⟩])
      (claims.insert host ⟨i, route.priority, redirect, route.service⟩) := by
  constructor
  · intro other c hc
    by_cases hother : other = host
    · subst hother
      rw [lookup_insert] at hc
      obtain rfl := some.inj hc
      exact ⟨route, hroute, rfl, hhost⟩
    · rw [lookup_insert_ne hother] at hc
      exact h.holder other c hc
  · intro q hq
    rcases mem_append.mp hq with hq | hq
    · obtain ⟨c, hc, hrank⟩ := h.asked_claimed q hq
      by_cases hother : q.host = host
      · refine ⟨_, by rw [hother, lookup_insert], .inr ?_⟩
        rw [hother] at hc
        have hlt := hbelow c hc
        rcases hrank with ⟨hindex, -⟩ | ⟨r, hr, hlow⟩
        · obtain ⟨r, hr, hpriority, -⟩ := h.holder host c hc
          exact ⟨r, hindex ▸ hr, hpriority ▸ hlt⟩
        · exact ⟨r, hr, hlow.trans hlt⟩
      · exact ⟨c, by rwa [lookup_insert_ne hother], hrank⟩
    · obtain rfl := mem_singleton.mp hq
      exact ⟨_, lookup_insert _, .inl ⟨rfl, rfl⟩⟩

/-- One claim: it is refused, ignored, granted, or granted at the cost of a lower priority. -/
theorem claimProxyRouteHost_claimed (h : Claimed routes asked s) (hroute : routes[i]? = some route)
    (hhost : host ∈ hosts route redirect)
    (hok : claimProxyRouteHost s host i redirect route = .ok s') :
    Claimed routes (asked ++ [⟨i, host, redirect⟩]) s' := by
  unfold claimProxyRouteHost at hok
  cases hlookup : s.claims.lookup host with
  | none =>
    simp only [hlookup] at hok
    obtain rfl := Except.ok.inj hok
    have hfree : ownerOf s.claims host = none := by simp [ownerOf, hlookup]
    refine ⟨?_, h.ranked.assign hroute hhost (by simp [hlookup])⟩
    exact ownerOf_insert.symm ▸ h.lists.assign hfree i redirect
  | some existing =>
    simp only [hlookup] at hok
    split_ifs at hok with hsame hequal hlower
    · -- A holder of higher priority stays.
      obtain rfl := Except.ok.inj hok
      refine ⟨h.lists, h.ranked.holder, ?_⟩
      intro q hq
      rcases mem_append.mp hq with hq | hq
      · exact h.ranked.asked_claimed q hq
      · obtain rfl := mem_singleton.mp hq
        exact ⟨existing, hlookup, .inr ⟨route, hroute, hlower⟩⟩
    · obtain rfl := Except.ok.inj hok
      have hown : ownerOf s.claims host = some (existing.routeIndex, existing.redirect) := by
        simp [ownerOf, hlookup]
      have hbelow : existing.priority < route.priority := by omega
      refine ⟨?_, h.ranked.assign hroute hhost ?_⟩
      · have hlists := (h.lists.release hown).assign (update_self ..) i redirect
        rw [update_idem] at hlists
        exact ownerOf_insert.symm ▸ hlists
      · intro c hc
        rw [hlookup] at hc
        obtain rfl := some.inj hc
        exact hbelow

theorem claimHosts_claimed (h : Claimed routes asked s) (hroute : routes[i]? = some route)
    (hnames : ∀ host ∈ names, host ∈ hosts route redirect)
    (hok : claimHosts i redirect route s names = .ok s') :
    Claimed routes (asked ++ names.map fun host => ⟨i, host, redirect⟩) s' := by
  unfold claimHosts at hok
  induction names generalizing s asked with
  | nil =>
    obtain rfl := Except.ok.inj hok
    simpa using h
  | cons name names ih =>
    rw [foldlM_cons, bind_eq_ok] at hok
    obtain ⟨s₁, hstep, hrest⟩ := hok
    have hfirst := claimProxyRouteHost_claimed h hroute (hnames name mem_cons_self) hstep
    have hall := ih hfirst (fun host hhost => hnames host (mem_cons_of_mem name hhost)) hrest
    simpa using hall

def requests (i : ℕ) (route : ProxyRoute) : List Request :=
  (route.domains.map fun host => ⟨i, host, false⟩) ++ route.redirectFrom.map fun host =>
    ⟨i, host, true⟩

theorem Claimed.start (h : Claimed routes asked s) (route : ProxyRoute) :
    Claimed (routes ++ [route]) asked
      { s with
        effective := s.effective ++ [{ route with domains := [], redirectFrom := [] }] } := by
  have hlen := h.lists.length
  have hold : ∀ {k : ℕ} {r : ProxyRoute}, routes[k]? = some r →
      (routes ++ [route])[k]? = some r := by
    intro k r hr
    rw [List.getElem?_append_left (List.getElem?_eq_some_iff.mp hr).1]
    exact hr
  have hcases : ∀ {k : ℕ} {e : ProxyRoute},
      (s.effective ++ [{ route with domains := [], redirectFrom := [] }])[k]? = some e →
        s.effective[k]? = some e ∨ k = routes.length ∧
          e = { route with domains := [], redirectFrom := [] } := by
    intro k e he
    rcases Nat.lt_or_ge k s.effective.length with hk | hk
    · left
      rwa [getElem?_append_left hk] at he
    · right
      rw [getElem?_append_right hk, getElem?_singleton] at he
      split_ifs at he with hzero
      exact ⟨by omega, (some.inj he).symm⟩
  refine ⟨⟨?_, ?_, ?_, ?_⟩, ?_, ?_⟩
  · simp [hlen]
  · intro k r e hr he
    rcases hcases he with he | ⟨rfl, rfl⟩
    · have hk := (List.getElem?_eq_some_iff.mp he).1
      rw [getElem?_append_left (by omega)] at hr
      exact h.lists.kept k r e hr he
    · obtain rfl : route = r := by simpa using hr
      rfl
  · intro k e he role
    rcases hcases he with he | ⟨rfl, rfl⟩
    · exact h.lists.nodup k e he role
    · cases role <;> exact nodup_nil
  · intro k e he role other
    rcases hcases he with he | ⟨rfl, rfl⟩
    · exact h.lists.held k e he role other
    · refine iff_of_false (by cases role <;> exact not_mem_nil) ?_
      intro hown
      obtain ⟨c, hc, hpair⟩ := map_eq_some_iff.mp hown
      obtain ⟨r, hr, -⟩ := h.ranked.holder other c hc
      have hlt := (List.getElem?_eq_some_iff.mp hr).1
      have hindex := (Prod.mk.inj hpair).1
      omega
  · intro other c hc
    obtain ⟨r, hr, hrest⟩ := h.ranked.holder other c hc
    exact ⟨r, hold hr, hrest⟩
  · intro q hq
    obtain ⟨c, hc, hrank⟩ := h.ranked.asked_claimed q hq
    refine ⟨c, hc, hrank.imp_right ?_⟩
    rintro ⟨r, hr, hlow⟩
    exact ⟨r, hold hr, hlow⟩

theorem claimRoute_claimed (h : Claimed routes asked s) (hok : claimRoute s route = .ok s') :
    Claimed (routes ++ [route]) (asked ++ requests routes.length route) s' := by
  simp only [claimRoute, bind_eq_ok, h.lists.length] at hok
  obtain ⟨s₁, hserved, hredirected⟩ := hok
  have hroute : (routes ++ [route])[routes.length]? = some route := by simp
  have hfirst := claimHosts_claimed (h.start route) hroute (fun _ hhost => hhost) hserved
  have hall := claimHosts_claimed hfirst hroute (fun _ hhost => hhost) hredirected
  rwa [append_assoc] at hall

def Complete (routes : List ProxyRoute) (asked : List Request) : Prop :=
  ∀ (i : ℕ) r, routes[i]? = some r → ∀ role, ∀ host ∈ hosts r role, ⟨i, host, role⟩ ∈ asked

theorem Complete.append (h : Complete routes asked) (route : ProxyRoute) :
    Complete (routes ++ [route]) (asked ++ requests routes.length route) := by
  intro k r hr role host hhost
  rcases Nat.lt_or_ge k routes.length with hk | hk
  · rw [getElem?_append_left hk] at hr
    exact mem_append_left _ (h k r hr role host hhost)
  · rw [getElem?_append_right hk, getElem?_singleton] at hr
    split_ifs at hr with hzero
    obtain rfl := some.inj hr
    obtain rfl : k = routes.length := by omega
    refine mem_append_right _ ?_
    cases role with
    | false => exact mem_append_left _ (mem_map_of_mem hhost)
    | true => exact mem_append_right _ (mem_map_of_mem hhost)

theorem foldlM_claimRoute (h : Claimed routes asked s) (hc : Complete routes asked)
    (hok : rest.foldlM claimRoute s = .ok s') :
    ∃ asked', Claimed (routes ++ rest) asked' s' ∧ Complete (routes ++ rest) asked' := by
  induction rest generalizing routes asked s with
  | nil =>
    obtain rfl := Except.ok.inj hok
    exact ⟨asked, by simpa using h, by simpa using hc⟩
  | cons route rest ih =>
    rw [foldlM_cons, bind_eq_ok] at hok
    obtain ⟨s₁, hstep, hrest⟩ := hok
    have hrun := ih (claimRoute_claimed h hstep) (hc.append route) hrest
    simpa using hrun

theorem claimed_nil : Claimed [] [] ⟨[], ∅⟩ := by
  refine ⟨⟨rfl, ?_, ?_, ?_⟩, ?_, ?_⟩
  · intro i r e hr
    simp at hr
  · intro i e he
    simp at he
  · intro i e he
    simp at he
  · intro host c hc
    simp at hc
  · intro q hq
    cases hq

theorem resolution_claimed (hok : routes.foldlM claimRoute ⟨[], ∅⟩ = .ok s) :
    ∃ asked, Claimed routes asked s ∧ Complete routes asked :=
  foldlM_claimRoute claimed_nil (fun i r hr => by simp at hr) hok

def Names (route : ProxyRoute) (host : String) : Prop :=
  host ∈ route.domains ∨ host ∈ route.redirectFrom deriving Decidable

/-- The route outranks every other route that names the host. -/
def Wins (routes : List ProxyRoute) (route : ProxyRoute) (host : String) : Prop :=
  ∀ other ∈ routes, other ≠ route → Names other host → other.priority < route.priority
  deriving Decidable

theorem names_iff_hosts : Names route host ↔ ∃ role, host ∈ hosts route role := by
  simp [Names, hosts]

theorem wins_congr (h : ∀ r, r ∈ routes ↔ r ∈ routes') (host : String) :
    Wins routes route host ↔ Wins routes' route host := by
  constructor
  · intro hw other hother
    exact hw other ((h other).mpr hother)
  · intro hw other hother
    exact hw other ((h other).mp hother)

/-- The holder of a host outranks every other route that names it. -/
theorem Claimed.outranks (h : Claimed routes asked s) (hc : Complete routes asked)
    (hlookup : s.claims.lookup host = some c) :
    ∃ r, routes[c.routeIndex]? = some r ∧ host ∈ hosts r c.redirect ∧
      ∀ j other, j ≠ c.routeIndex → routes[j]? = some other → Names other host →
        other.priority < r.priority := by
  obtain ⟨r, hr, hpriority, hnamed⟩ := h.ranked.holder host c hlookup
  refine ⟨r, hr, hnamed, ?_⟩
  intro j other hne hother hnames
  obtain ⟨role, hrole⟩ := names_iff_hosts.mp hnames
  obtain ⟨c', hlookup', hrank⟩ := h.ranked.asked_claimed _ (hc j other hother role host hrole)
  cases hlookup.symm.trans hlookup'
  rcases hrank with ⟨hindex, -⟩ | ⟨r', hr', hlow⟩
  · exact absurd hindex hne
  · cases hother.symm.trans hr'
    exact hpriority ▸ hlow

/-- A route is left with the hosts it names and wins. -/
theorem mem_hosts_iff_wins (h : Claimed routes asked s) (hc : Complete routes asked)
    (hr : routes[i]? = some route) (he : s.effective[i]? = some e) (role : Bool) (host : String) :
    host ∈ hosts e role ↔ host ∈ hosts route role ∧ Wins routes route host := by
  rw [h.lists.held i e he role host]
  constructor
  · intro hown
    obtain ⟨c, hlookup, hpair⟩ := map_eq_some_iff.mp hown
    obtain ⟨rfl, rfl⟩ := Prod.mk.inj hpair
    obtain ⟨r, hr', hnamed, houtranks⟩ := h.outranks hc hlookup
    cases hr.symm.trans hr'
    refine ⟨hnamed, ?_⟩
    intro other hother hne
    obtain ⟨k, hk⟩ := mem_iff_getElem?.mp hother
    refine houtranks k other ?_ hk
    rintro rfl
    exact hne (some.inj (hk.symm.trans hr))
  · rintro ⟨hnamed, hwins⟩
    obtain ⟨c, hlookup, hrank⟩ := h.ranked.asked_claimed _ (hc i route hr role host hnamed)
    rcases hrank with ⟨hindex, hredirect⟩ | ⟨r, hr', hlow⟩
    · exact map_eq_some_iff.mpr ⟨c, hlookup, Prod.ext hindex.symm hredirect.symm⟩
    · -- The holder would have to rank below the route and above it.
      cases hr.symm.trans hr'
      obtain ⟨holder, hholder, hpriority, hheld⟩ := h.ranked.holder host c hlookup
      by_cases hsame : holder = route
      · subst hsame
        omega
      · have hbelow := hwins holder (mem_of_getElem? hholder) hsame
          (names_iff_hosts.mpr ⟨c.redirect, hheld⟩)
        omega

/-- No host is left with two routes, or twice with one. -/
theorem effective_hosts_nodup (h : Claimed routes asked s) :
    (s.effective.flatMap fun e => e.domains ++ e.redirectFrom).Nodup := by
  have howner : ∀ (k : ℕ) e, s.effective[k]? = some e → ∀ host ∈ e.domains ++ e.redirectFrom,
      ∃ role, ownerOf s.claims host = some (k, role) := by
    intro k e he host hhost
    rcases mem_append.mp hhost with hhost | hhost
    · exact ⟨false, (h.lists.held k e he false host).mp hhost⟩
    · exact ⟨true, (h.lists.held k e he true host).mp hhost⟩
  rw [nodup_flatMap]
  constructor
  · intro e hmem
    obtain ⟨k, hk⟩ := mem_iff_getElem?.mp hmem
    refine (h.lists.nodup k e hk false).append (h.lists.nodup k e hk true) ?_
    intro host hserved hredirected
    have hfalse := (h.lists.held k e hk false host).mp hserved
    have htrue := (h.lists.held k e hk true host).mp hredirected
    rw [hfalse] at htrue
    cases htrue
  · rw [pairwise_iff_getElem]
    intro k l hk hl hlt host hfirst hsecond
    obtain ⟨role, hrole⟩ := howner k _ (getElem?_eq_getElem hk) host hfirst
    obtain ⟨role', hrole'⟩ := howner l _ (getElem?_eq_getElem hl) host hsecond
    rw [hrole] at hrole'
    have hindex := (Prod.mk.inj (some.inj hrole')).1
    omega

end ProxyClaims
