import Mathlib.Data.List.Dedup
import Tako.ProxyManifests

/-! # The Caddyfile of a node

Hosts are claimed route by route; of two routes that claim one host the one with the higher priority
gets it. `Caddyfile` is what is to be written and `Caddyfile.text` the text that the source's
writers put into the builder.
-/
namespace ProxyCaddyfile

open GoPrelude
open GoMaps (GoMap)
open ResourceNames (hasPrefix)
open NodeIdentity (quoted)
open ProxyManifests

section

variable (host : String) (redirect : Bool) (value ending : String) (entry : ProxyCertificateEntry)

def hasSuffix : Bool := (chars ending).isSuffixOf (chars value)

def trimSuffix : String :=
  if hasSuffix value ending then
    String.ofList ((chars value).take ((chars value).length - (chars ending).length))
  else value

/-- An entry of the certificate store: a normalised domain, linked to a version directory that is
named after the domain and the digits of `os.MkdirTemp`. -/
structure ProxyCertificateEntry where
  (domain version : String)
  /-- `Leaf.VerifyHostname` answers nil. -/
  verifiesHostname : String → Bool
  named : isSafeProxyHost domain
  numbered : (chars version).all isDigit

def ProxyCertificateEntry.certPath : String :=
  "/var/lib/tako/certs/.versions/" ++ entry.domain ++ "-" ++ entry.version ++ "/cert.pem"

def ProxyCertificateEntry.keyPath : String :=
  "/var/lib/tako/certs/.versions/" ++ entry.domain ++ "-" ++ entry.version ++ "/key.pem"

/-- An exact match wins; otherwise the longest wildcard whose certificate covers the host. -/
def selectProxyCertificate (entries : List ProxyCertificateEntry) (host : String) :
    Option ProxyCertificateEntry :=
  let host := toLower (trimSuffix host ".")
  match entries.find? fun entry => entry.domain == host with
  | some entry => some entry
  | none => entries.foldl (fun selected entry =>
      if !hasPrefix entry.domain "*." || !entry.verifiesHostname host then selected
      else match selected with
        | none => some entry
        | some best =>
          if best.domain.utf8ByteSize < entry.domain.utf8ByteSize then some entry else some best)
            none

structure ACMEDNSOwnerClaim where
  (domain project environment : String)
  deriving DecidableEq

def wildcardCoversHost (pattern host : String) : Bool :=
  hasPrefix pattern "*." &&
    let suffix := trimPrefix pattern "*"
    let label := trimSuffix host suffix
    hasSuffix host suffix && label != "" && !(chars label).contains '.'

def selectACMEDNSOwner (claims : List ACMEDNSOwnerClaim) (host : String) :
    Option ACMEDNSOwnerClaim :=
  let host := toLower (trimSuffix (trimSpace host) ".")
  claims.find? fun claim => claim.domain == host || wildcardCoversHost claim.domain host

structure ProxyRouteHostClaim where
  routeIndex : ℕ
  priority : ℤ
  redirect : Bool
  service : String
  deriving DecidableEq

structure Resolution where
  effective : List ProxyRoute
  claims : GoMap ProxyRouteHostClaim

def removeString (values : List String) (value : String) : List String :=
  values.filter fun v => v != value

def removeClaimedHost (route : ProxyRoute) : ProxyRoute :=
  if redirect then { route with redirectFrom := removeString route.redirectFrom host }
  else { route with domains := removeString route.domains host }

def appendHost (route : ProxyRoute) : ProxyRoute :=
  if redirect then { route with redirectFrom := route.redirectFrom ++ [host] }
  else { route with domains := route.domains ++ [host] }

end

def Resolution.release (s : Resolution) (host : String) (existing : ProxyRouteHostClaim) :
    Resolution :=
  { s with
    effective := s.effective.modify existing.routeIndex (removeClaimedHost host existing.redirect) }

section

variable (s : Resolution) (host : String) (routeIndex : ℕ) (redirect : Bool) (route : ProxyRoute)

def Resolution.assign : Resolution where
  effective := s.effective.modify routeIndex (appendHost host redirect)
  claims := s.claims.insert host ⟨routeIndex, route.priority, redirect, route.service⟩

def claimProxyRouteHost : Except String Resolution :=
  match s.claims.lookup host with
  | none => .ok (s.assign host routeIndex redirect route)
  | some existing =>
    if existing.routeIndex = routeIndex then
      .error s!"proxy domain {quoted host} is duplicated in route {route.service}"
    else if existing.priority = route.priority then
      .error
        s!"proxy domain {quoted host} is configured by both {existing.service} and {route.service}"
    else if route.priority < existing.priority then .ok s
    else .ok ((s.release host existing).assign host routeIndex redirect route)

end

def claimHosts (routeIndex : ℕ) (redirect : Bool) (route : ProxyRoute) (s : Resolution)
    (hosts : List String) : Except String Resolution :=
  hosts.foldlM (fun s host => claimProxyRouteHost s host routeIndex redirect route) s

/-- The body of the loop over the routes: a copy without hosts, then the claims. -/
def claimRoute (s : Resolution) (route : ProxyRoute) : Except String Resolution := do
  let routeIndex := s.effective.length
  let started := { s with
    effective := s.effective ++ [{ route with domains := [], redirectFrom := [] }] }
  let served ← claimHosts routeIndex false route started route.domains
  claimHosts routeIndex true route served route.redirectFrom

def dropRoute (route : ProxyRoute) : Bool :=
  decide (route.domains = []) && decide (route.redirectFrom = []) && route.dynamicDomain.isNone

def keepRoute (route : ProxyRoute) : Option ProxyRoute :=
  if dropRoute route then none
  else
    let route := if route.domains = [] then { route with redirectFrom := [] } else route
    if dropRoute route then none else some route

def resolveProxyRouteClaims (routes : List ProxyRoute) : Except String (List ProxyRoute) := do
  let s ← routes.foldlM claimRoute ⟨[], ∅⟩
  pure (s.effective.filterMap keepRoute)

def joinedDomains (route : ProxyRoute) : String := ",".intercalate route.domains

def routeLess (a b : ProxyRoute) : Bool :=
  if a.service = b.service then decide (joinedDomains a < joinedDomains b)
    else decide (a.service < b.service)

def caddyLess (a b : ProxyRoute) : Bool :=
  if a.priority ≠ b.priority then decide (b.priority < a.priority)
  else if a.service ≠ b.service then decide (a.service < b.service)
  else decide (joinedDomains a < joinedDomains b)

/-- `sort.SliceStable`. -/
def sortProxyRoutesForCaddy (routes : List ProxyRoute) : List ProxyRoute :=
  routes.insertionSort fun a b => caddyLess b a = false

def writeCaddyAccessLog (name : String) : String :=
  "\tlog " ++ name ++ " \x7b\n" ++
  "\t\toutput file /var/log/caddy/access.log \x7b\n" ++
  "\t\t\troll_size 100MiB\n" ++
  "\t\t\troll_keep 5\n" ++
  "\t\t\troll_keep_for 720h\n" ++
  "\t\t\x7d\n" ++
  "\t\tformat json\n" ++
  "\t\x7d\n"

def emptyProxyCaddyfile : String :=
  "\x7b\n\temail \x7b$TAKO_PROXY_EMAIL\x7d\n\x7d\n\n:80 \x7b\n" ++
  writeCaddyAccessLog "tako_proxy" ++
  "\trespond \"tako-proxy has no routes\" 404\n\x7d\n"

def caddyAccessLogName (service : String) : String :=
  if service = "" then "tako_proxy" else "tako_" ++ service

def caddyRouteAddress (host : String) (route : ProxyRoute) : String :=
  if route.visibility = proxyRouteVisibilityInternal then "http://" ++ host else host

def caddyHealthHost (address : String) (route : ProxyRoute) : String :=
  if address ≠ ":443" then trimPrefix (trimPrefix address "http://") "https://"
  else match route.domains with
    | [] => ""
    | domain :: _ => domain

def writeCaddyCertificate (indent : String) (certificate : ProxyCertificateEntry) : String :=
  indent ++ "tls " ++ certificate.certPath ++ " " ++ certificate.keyPath ++ "\n"

def writeCaddyBasicAuth (indent : String) (route : ProxyRoute) : String :=
  match route.basicAuth with
  | none => ""
  | some auth =>
    indent ++ "basic_auth \x7b\n" ++
    indent ++ "\t" ++ auth.username ++ " " ++ auth.passwordBcrypt ++ "\n" ++
    indent ++ "\x7d\n"

section

variable (indent address : String) (route : ProxyRoute)

def writeCaddyHealthCheck (health : ProxyRouteHealth) : String :=
  if health.path = "" then ""
  else
    indent ++ "\thealth_uri " ++ health.path ++ "\n" ++
    (if health.interval = "" then "" else indent ++ "\thealth_interval " ++ health.interval ++
      "\n") ++
    (if caddyHealthHost address route = "" then ""
    else
      indent ++ "\thealth_headers \x7b\n" ++
      indent ++ "\t\tHost " ++ caddyHealthHost address route ++ "\n" ++
      indent ++ "\t\x7d\n")

def writeCaddyReverseProxy : String :=
  indent ++ "reverse_proxy" ++ String.join (route.upstreams.map fun upstream => " " ++ upstream) ++
  if route.healthCheck.isNone ∧ route.sticky = false then "\n"
  else
    " \x7b\n" ++
    (match route.healthCheck with
    | none => ""
    | some health => writeCaddyHealthCheck indent address route health) ++
    (if route.sticky then indent ++ "\tlb_policy cookie\n" else "") ++
    indent ++ "\x7d\n"

end

def writeCaddyTLS (address : String) (certificate : Option ProxyCertificateEntry) : String :=
  if address = ":443" then "\ttls \x7b\n\t\ton_demand\n\t\x7d\n"
  else match certificate with
    | none => ""
    | some certificate => writeCaddyCertificate "\t" certificate

/-- Where there is an allowlist it is decided before basic auth. -/
def writeCaddyHandlers (address : String) (route : ProxyRoute) : String :=
  if route.allowIPs ≠ [] then
    "\t@tako_allowed " ++ (if route.trustedProxies ≠ [] then "client_ip" else "remote_ip") ++ " " ++
      " ".intercalate route.allowIPs ++ "\n" ++
    "\thandle @tako_allowed \x7b\n" ++
    writeCaddyBasicAuth "\t\t" route ++
    writeCaddyReverseProxy "\t\t" address route ++
    "\t\x7d\n" ++
    "\thandle \x7b\n\t\trespond 403\n\t\x7d\n"
  else
    writeCaddyBasicAuth "\t" route ++
    writeCaddyReverseProxy "\t" address route

def writeCaddyRoute (address : String) (route : ProxyRoute)
    (certificate : Option ProxyCertificateEntry) : String :=
  "\n" ++ address ++ " \x7b\n" ++
  writeCaddyTLS address certificate ++
  writeCaddyAccessLog (caddyAccessLogName route.service) ++
  "\tencode zstd gzip\n" ++
  writeCaddyHandlers address route ++
  "\x7d\n"

def writeCaddyRedirect (host primary service : String)
    (certificate : Option ProxyCertificateEntry) : String :=
  "\n" ++ host ++ " \x7b\n" ++
  (match certificate with
  | none => ""
  | some certificate => writeCaddyCertificate "\t" certificate) ++
  writeCaddyAccessLog (caddyAccessLogName service) ++
  "\tredir https://" ++ primary ++ "\x7buri\x7d 308\n" ++
  "\x7d\n"

inductive Site where
  | serving (host : String) (route : ProxyRoute) (certificate : Option ProxyCertificateEntry)
  | redirecting (host primary service : String) (certificate : Option ProxyCertificateEntry)

def Site.host : Site → String
  | .serving host _ _ => host
  | .redirecting host _ _ _ => host

def Site.text : Site → String
  | .serving host route certificate =>
    writeCaddyRoute (caddyRouteAddress host route) route certificate
  | .redirecting host primary service certificate =>
    writeCaddyRedirect host primary service certificate

inductive Caddyfile where
  | noRoutes
  | routes (trustedProxies : List String) (dynamic : Option (ProxyRoute × ProxyDynamicDomain))
      (sites : List Site)

def Caddyfile.sites : Caddyfile → List Site
  | .noRoutes => []
  | .routes _ _ sites => sites

def writeTrustedProxies (trustedProxies : List String) : String :=
  if trustedProxies ≠ [] then
    "\tservers \x7b\n" ++
    "\t\ttrusted_proxies static " ++ " ".intercalate trustedProxies ++ "\n" ++
    "\t\ttrusted_proxies_strict\n" ++
    "\t\x7d\n"
  else ""

section

variable (dynamic : Option (ProxyRoute × ProxyDynamicDomain))

def writeOnDemandTLS : String :=
  match dynamic with
  | none => ""
  | some dynamic =>
    "\ton_demand_tls \x7b\n" ++
    "\t\task " ++ dynamic.2.askURL ++ "\n" ++
    "\t\x7d\n"

def writeDynamicRoute : String :=
  match dynamic with
  | none => ""
  | some dynamic => writeCaddyRoute ":443" dynamic.1 none

end

def Caddyfile.text : Caddyfile → String
  | .noRoutes => emptyProxyCaddyfile
  | .routes trustedProxies dynamic sites =>
    "\x7b\n" ++
    "\temail \x7b$TAKO_PROXY_EMAIL\x7d\n" ++
    writeTrustedProxies trustedProxies ++
    writeOnDemandTLS dynamic ++
    "\x7d\n\n" ++
    ":80 \x7b\n" ++
    writeCaddyAccessLog "tako_proxy" ++
    "\tredir https://\x7bhost\x7d\x7buri\x7d 308\n\x7d\n" ++
    String.join (sites.map Site.text) ++
    writeDynamicRoute dynamic

/-- The body of the loop: the service whose set was selected, with the set. -/
def selectTrustedProxies (selected : Option (String × List String)) (route : ProxyRoute) :
    Except String (Option (String × List String)) :=
  if route.trustedProxies = [] then .ok selected
  else
    let current := sortStrings route.trustedProxies.dedup
    match selected with
    | none => .ok (some (route.service, current))
    | some chosen =>
      if "\x00".intercalate current ≠ "\x00".intercalate chosen.2 then
        .error (s!"proxy routes {chosen.1} and {route.service} declare conflicting trusted " ++
          "proxy CIDR sets; all routes sharing a node must use the same nonempty " ++
          "proxy.trustedProxies set")
      else .ok selected

def proxyTrustedProxySet (routes : List ProxyRoute) : Except String (List String) := do
  let selected ← routes.foldlM selectTrustedProxies none
  pure ((selected.map Prod.snd).getD [])

def soleDynamicRoute (routes : List ProxyRoute) :
    Except String (Option (ProxyRoute × ProxyDynamicDomain)) :=
  match routes.filterMap fun route => route.dynamicDomain.map fun domain => (route, domain) with
  | [] => .ok none
  | [dynamic] => .ok (some dynamic)
  | _ => .error "multiple dynamic domain authorities are not supported on one proxy node"

def servingCertificate (certificates : List ProxyCertificateEntry) (route : ProxyRoute)
    (domain : String) : Option ProxyCertificateEntry :=
  if route.visibility ≠ proxyRouteVisibilityInternal then selectProxyCertificate certificates domain
    else none

section

variable (certificates : List ProxyCertificateEntry) (owners : List ACMEDNSOwnerClaim)
  (route : ProxyRoute)

def servingSite (domain : String) : Except String Site :=
  match servingCertificate certificates route domain, selectACMEDNSOwner owners domain with
  | none, some owner =>
    .error (s!"domain {domain} is covered by ACME DNS certificate {owner.domain} owned by " ++
      s!"{owner.project}/{owner.environment}, but no valid certificate is stored; deploy the " ++
      "owning configuration first")
  | certificate, _ => .ok (.serving domain route certificate)

def redirectingSite (primary redirect : String) : Except String Site :=
  match selectProxyCertificate certificates redirect, selectACMEDNSOwner owners redirect with
  | none, some owner =>
    .error (s!"redirect domain {redirect} is covered by ACME DNS certificate {owner.domain} " ++
      s!"owned by {owner.project}/{owner.environment}, but no valid certificate is stored; " ++
      "deploy the owning configuration first")
  | certificate, _ => .ok (.redirecting redirect primary route.service certificate)

def routeSites : Except String (List Site) := do
  let serving ← route.domains.mapM (servingSite certificates owners route)
  let primary := route.domains.headD ""
  let redirecting ← (if primary = "" then [] else route.redirectFrom).mapM
    (redirectingSite certificates owners route primary)
  pure (serving ++ redirecting)

end

def allRoutes (manifests : List ProxyRouteManifest) : List ProxyRoute :=
  manifests.flatMap fun m => m.routes

section

variable (P : Platform) (manifests : List ProxyRouteManifest)
  (certificates : List ProxyCertificateEntry) (owners : List ACMEDNSOwnerClaim)

def caddyfile : Except String Caddyfile := do
  let resolved ← resolveProxyRouteClaims (P.sortSlice routeLess (allRoutes manifests))
  let effective := sortProxyRoutesForCaddy resolved
  if effective = [] then pure .noRoutes
  else do
    let dynamic ← soleDynamicRoute effective
    let trustedProxies ← proxyTrustedProxySet effective
    let sites ← effective.mapM (routeSites certificates owners)
    pure (.routes trustedProxies dynamic sites.flatten)

def renderCaddyfileWithCertificatesAndOwners : Except String String := do
  let file ← caddyfile P manifests certificates owners
  pure file.text

end

end ProxyCaddyfile
