import Tako.ProxySites
import Tako.ConfigTokens

/-! # What the Caddyfile is meant to say

The lines of a Caddyfile as directives, blocks and arguments: each field of a route is one
argument of one directive. The writers print exactly these lines, so the token stream that is
meant is the tokens of the lines.
-/
namespace ProxyLines

open List GoPrelude ConfigTokens ProxyManifests ProxyCaddyfile Line

def accessLogLines (name : String) : List Line :=
  [.block 1 ["log", name],
    .block 2 ["output", "file", "/var/log/caddy/access.log"],
    .directive 3 ["roll_size", "100MiB"],
    .directive 3 ["roll_keep", "5"],
    .directive 3 ["roll_keep_for", "720h"],
    .close 2,
    .directive 2 ["format", "json"],
    .close 1]

def certificateLines : Option ProxyCertificateEntry → List Line
  | none => []
  | some certificate => [.directive 1 ["tls", certificate.certPath, certificate.keyPath]]

def basicAuthLines (depth : ℕ) (route : ProxyRoute) : List Line :=
  match route.basicAuth with
  | none => []
  | some auth =>
    [.block depth ["basic_auth"], .directive (depth + 1) [auth.username, auth.passwordBcrypt],
      .close depth]

def healthHostLines (depth : ℕ) (host : String) : List Line :=
  if host = "" then []
  else [.block (depth + 1) ["health_headers"], .directive (depth + 2) ["Host", host],
    .close (depth + 1)]

def healthIntervalLines (depth : ℕ) (interval : String) : List Line :=
  if interval = "" then [] else [.directive (depth + 1) ["health_interval", interval]]

section

variable (depth : ℕ) (address : String) (route : ProxyRoute)

def healthCheckLines (health : ProxyRouteHealth) : List Line :=
  if health.path = "" then []
  else .directive (depth + 1) ["health_uri", health.path] ::
    (healthIntervalLines depth health.interval ++
      healthHostLines depth (caddyHealthHost address route))

def upstreamOptionLines : List Line :=
  (match route.healthCheck with
  | none => []
  | some health => healthCheckLines depth address route health) ++
  if route.sticky then [.directive (depth + 1) ["lb_policy", "cookie"]] else []

def reverseProxyLines : List Line :=
  if route.healthCheck.isNone ∧ route.sticky = false then
    [.directive depth ("reverse_proxy" :: route.upstreams)]
  else .block depth ("reverse_proxy" :: route.upstreams) ::
    (upstreamOptionLines depth address route ++ [.close depth])

end

section

variable (address : String) (route : ProxyRoute) (certificate : Option ProxyCertificateEntry)
  (dynamic : Option (ProxyRoute × ProxyDynamicDomain))

def tlsLines : List Line :=
  if address = ":443" then [.block 1 ["tls"], .directive 2 ["on_demand"], .close 1]
  else certificateLines certificate

/-- An allowlist puts the upstreams into a block of their own. -/
def handlerLines : List Line :=
  if route.allowIPs ≠ [] then
    [.directive 1 ("@tako_allowed" ::
      (if route.trustedProxies ≠ [] then "client_ip" else "remote_ip") ::
        route.allowIPs),
      .block 1 ["handle", "@tako_allowed"]] ++
    (basicAuthLines 2 route ++ (reverseProxyLines 2 address route ++
      [.close 1, .block 1 ["handle"], .directive 2 ["respond", "403"], .close 1]))
  else basicAuthLines 1 route ++ reverseProxyLines 1 address route

def routeLines : List Line :=
  [.blank, .block 0 [address]] ++ (tlsLines address certificate ++
    (accessLogLines (caddyAccessLogName route.service) ++
      (.directive 1 ["encode", "zstd", "gzip"] :: (handlerLines address route ++ [.close 0]))))

def redirectLines (host primary service : String) (certificate : Option ProxyCertificateEntry) :
    List Line :=
  [.blank, .block 0 [host]] ++ (certificateLines certificate ++
    (accessLogLines (caddyAccessLogName service) ++
      [.directive 1 ["redir", "https://" ++ primary ++ "\x7buri\x7d", "308"], .close 0]))

def siteLines : Site → List Line
  | .serving host route certificate => routeLines (caddyRouteAddress host route) route certificate
  | .redirecting host primary service certificate => redirectLines host primary service certificate

def trustedProxyLines (trustedProxies : List String) : List Line :=
  if trustedProxies ≠ [] then
    [.block 1 ["servers"], .directive 2 ("trusted_proxies" :: "static" :: trustedProxies),
      .directive 2 ["trusted_proxies_strict"], .close 1]
  else []

def askLines : List Line :=
  match dynamic with
  | none => []
  | some dynamic => [.block 1 ["on_demand_tls"], .directive 2 ["ask", dynamic.2.askURL], .close 1]

def dynamicLines : List Line :=
  match dynamic with
  | none => []
  | some dynamic => routeLines ":443" dynamic.1 none

end

def caddyfileLines : Caddyfile → List Line
  | .noRoutes =>
    [.block 0 [], .directive 1 ["email", "\x7b$TAKO_PROXY_EMAIL\x7d"], .close 0, .blank,
      .block 0 [":80"]] ++ (accessLogLines "tako_proxy" ++
        [.directive 1 ["respond", "\"tako-proxy has no routes\"", "404"], .close 0])
  | .routes trustedProxies dynamic sites =>
    [.block 0 [], .directive 1 ["email", "\x7b$TAKO_PROXY_EMAIL\x7d"]] ++
      (trustedProxyLines trustedProxies ++ (askLines dynamic ++
        ([.close 0, .blank, .block 0 [":80"]] ++ (accessLogLines "tako_proxy" ++
          ([.directive 1 ["redir", "https://\x7bhost\x7d\x7buri\x7d", "308"], .close 0] ++
            (sites.flatMap siteLines ++ dynamicLines dynamic))))))

def printed (lines : List Line) : List Char := lines.flatMap text

@[simp] theorem printed_nil : printed [] = [] := rfl

@[simp] theorem printed_cons : printed (line :: lines) = line.text ++ printed lines := flatMap_cons

@[simp] theorem printed_append : printed (a ++ b) = printed a ++ printed b := flatMap_append

section

variable (depth : ℕ) (arg : String) (args : List String)

theorem text_directive : (directive depth (arg :: args)).text =
      replicate depth '\t' ++ (arg.toList ++
        ((args.flatMap fun a => ' ' :: a.toList) ++ ['\n'])) := by
  simp [directive, text, spaced, Part.text, flatMap_map]

theorem text_block : (block depth (arg :: args)).text =
      replicate depth '\t' ++ (arg.toList ++
        ((args.flatMap fun a => ' ' :: a.toList) ++ [' ', '\x7b', '\n'])) := by
  simp [block, text, spaced, Part.text, flatMap_map]

end

section

variable (depth : ℕ)

theorem text_close : (close depth).text = replicate depth '\t' ++ ['\x7d', '\n'] := by
  simp [close, text, spaced, Part.text]

theorem text_blank : blank.text = ['\n'] := rfl

theorem text_opening : (block 0 []).text = ['\x7b', '\n'] := rfl

def tabs : String := String.ofList (replicate depth '\t')

theorem toList_tabs : (tabs depth).toList = replicate depth '\t' := String.toList_ofList

theorem replicate_tab_succ :
    replicate (depth + 1) '\t' ++ rest = replicate depth '\t' ++ '\t' :: rest := by
  rw [replicate_succ', append_assoc, singleton_append]

theorem accessLog_printed : (writeCaddyAccessLog name).toList = printed (accessLogLines name) := by
  unfold writeCaddyAccessLog accessLogLines
  simp [text_directive, text_block, text_close]

theorem certificate_printed :
    (writeCaddyCertificate "\t" certificate).toList =
      printed (certificateLines (some certificate)) := by
  unfold writeCaddyCertificate certificateLines
  simp [text_directive]

theorem basicAuth_printed :
    (writeCaddyBasicAuth (tabs depth) route).toList = printed (basicAuthLines depth route) := by
  unfold writeCaddyBasicAuth basicAuthLines
  cases route.basicAuth with
  | none => rfl
  | some => simp [toList_tabs, text_directive, text_block, text_close, replicate_tab_succ]

theorem healthCheck_printed (address : String) (route : ProxyRoute) (health : ProxyRouteHealth) :
    (writeCaddyHealthCheck (tabs depth) address route health).toList =
      printed (healthCheckLines depth address route health) := by
  unfold writeCaddyHealthCheck healthCheckLines healthIntervalLines healthHostLines
  split_ifs <;> simp [toList_tabs, text_directive, text_block, text_close, replicate_tab_succ]

theorem flatMap_spaced (upstreams : List String) :
    (upstreams.map fun upstream => " " ++ upstream).flatMap String.toList =
      upstreams.flatMap fun upstream => ' ' :: upstream.toList := by
  simp [flatMap_map]

theorem reverseProxy_printed :
    (writeCaddyReverseProxy (tabs depth) address route).toList =
      printed (reverseProxyLines depth address route) := by
  unfold writeCaddyReverseProxy reverseProxyLines upstreamOptionLines
  by_cases hplain : route.healthCheck.isNone ∧ route.sticky = false
  · rw [if_pos hplain, if_pos hplain]
    simp [toList_tabs, text_directive, flatMap_spaced]
  · cases route.healthCheck with
    | none =>
      cases route.sticky <;>
        simp [toList_tabs, text_directive, text_block, text_close, flatMap_spaced,
          replicate_tab_succ]
    | some health =>
      have hhealth := healthCheck_printed depth address route health
      cases route.sticky <;>
        simp [toList_tabs, text_directive, text_block, text_close, flatMap_spaced,
          replicate_tab_succ, hhealth]

end

theorem join_spaced (h : values ≠ []) :
    ' ' :: (" ".intercalate values).toList = values.flatMap fun value => ' ' :: value.toList := by
  rw [String.toList_intercalate]
  induction values with
  | nil => exact absurd rfl h
  | cons value values ih =>
    cases values with
    | nil => simp
    | cons next values =>
      have hrest := ih (cons_ne_nil next values)
      rw [map_cons, map_cons, flatMap_cons, ← hrest]
      simp

theorem tls_printed :
    (writeCaddyTLS address certificate).toList = printed (tlsLines address certificate) := by
  unfold writeCaddyTLS tlsLines
  split_ifs
  · simp [text_directive, text_block, text_close]
  · cases certificate with
    | none => rfl
    | some => exact certificate_printed

theorem allowed_printed {route : ProxyRoute} (h : route.allowIPs ≠ []) :
    ("\t@tako_allowed " ++ (if route.trustedProxies ≠ [] then "client_ip" else "remote_ip") ++
      " " ++
        " ".intercalate route.allowIPs ++ "\n").toList =
      (directive 1 ("@tako_allowed" ::
        (if route.trustedProxies ≠ [] then "client_ip" else "remote_ip") ::
        route.allowIPs)).text := by
  rw [text_directive, flatMap_cons, ← join_spaced h]
  simp

theorem handler_printed :
    (writeCaddyHandlers address route).toList = printed (handlerLines address route) := by
  unfold writeCaddyHandlers handlerLines
  by_cases hallowed : route.allowIPs ≠ []
  · have hauth : (writeCaddyBasicAuth "\t\t" route).toList = _ := basicAuth_printed 2
    have hproxy : (writeCaddyReverseProxy "\t\t" address route).toList = _ := reverseProxy_printed 2
    have hfirst := allowed_printed hallowed
    rw [if_pos hallowed, if_pos hallowed]
    simp only [String.toList_append] at hfirst ⊢
    rw [hfirst, hauth, hproxy]
    simp [text_directive, text_block, text_close]
  · have hauth : (writeCaddyBasicAuth "\t" route).toList = _ := basicAuth_printed 1
    have hproxy : (writeCaddyReverseProxy "\t" address route).toList = _ := reverseProxy_printed 1
    rw [if_neg hallowed, if_neg hallowed, String.toList_append, hauth, hproxy, printed_append]

theorem route_printed :
    (writeCaddyRoute address route certificate).toList =
      printed (routeLines address route certificate) := by
  unfold writeCaddyRoute routeLines
  simp only [String.toList_append, tls_printed, handler_printed, accessLog_printed]
  simp [text_directive, text_block, text_close, text_blank]

theorem redirect_printed (host primary service : String) :
    (writeCaddyRedirect host primary service certificate).toList =
      printed (redirectLines host primary service certificate) := by
  unfold writeCaddyRedirect redirectLines
  cases certificate with
  | none =>
    simp only [String.toList_append, accessLog_printed]
    simp [text_directive, text_block, text_close, text_blank, certificateLines]
  | some =>
    simp only [String.toList_append, accessLog_printed, certificate_printed]
    simp [text_directive, text_block, text_close, text_blank]

theorem site_printed : site.text.toList = printed (siteLines site) := by
  cases site with
  | serving => exact route_printed
  | redirecting host primary service => exact redirect_printed host primary service

theorem sites_printed (sites : List Site) :
    (String.join (sites.map Site.text)).toList = printed (sites.flatMap siteLines) := by
  rw [String.toList_join, flatMap_map, printed, flatMap_assoc]
  congr 1
  funext site
  exact site_printed

theorem trustedProxies_printed :
    (writeTrustedProxies trustedProxies).toList = printed (trustedProxyLines trustedProxies) := by
  unfold writeTrustedProxies trustedProxyLines
  by_cases htrusted : trustedProxies ≠ []
  · rw [if_pos htrusted, if_pos htrusted]
    simp only [printed_cons, text_directive, flatMap_cons, ← join_spaced htrusted]
    simp [text_block, text_close]
  · rw [if_neg htrusted, if_neg htrusted]
    rfl

section

variable (dynamic : Option (ProxyRoute × ProxyDynamicDomain))

theorem ask_printed : (writeOnDemandTLS dynamic).toList = printed (askLines dynamic) := by
  unfold writeOnDemandTLS askLines
  cases dynamic with
  | none => rfl
  | some => simp [text_directive, text_block, text_close]

theorem dynamic_printed : (writeDynamicRoute dynamic).toList = printed (dynamicLines dynamic) := by
  cases dynamic with
  | none => rfl
  | some => exact route_printed

end

theorem empty_printed : emptyProxyCaddyfile.toList = printed (caddyfileLines .noRoutes) := by
  unfold emptyProxyCaddyfile caddyfileLines
  simp only [String.toList_append, accessLog_printed]
  simp [text_directive, text_block, text_close, text_blank, text_opening]

/-- The text of a Caddyfile is its lines, printed. -/
theorem caddyfile_printed (file : Caddyfile) :
    file.text.toList = printed (caddyfileLines file) := by
  cases file with
  | noRoutes => exact empty_printed
  | routes =>
    unfold Caddyfile.text caddyfileLines
    simp only [String.toList_append, accessLog_printed, trustedProxies_printed, ask_printed,
      sites_printed, dynamic_printed]
    simp [text_directive, text_block, text_close, text_blank, text_opening]

end ProxyLines
