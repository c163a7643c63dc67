import Tako.PortRegistry

/-! # Proxy route manifests and their validation

`validateProxyRouteManifest` fills the defaults in and checks the fields one after the other. The
parsers of URLs and addresses and the digest are parameters, and `Documented` says what their
documentation does.
-/
namespace ProxyManifests

open GoPrelude
open ResourceNames (hasPrefix networkName compactName shortHash dockerNetworkMax)
open OperationLeases (isSafeProjectName isSafeRuntimeName)
open NodeReconcile (isSafeServiceName)
open PortRegistry (portAllocationKey portAllocationKindMeshUpstream)
open NodeIdentity (validateClusterID validateNodeID quoted)

def proxyRouteManifestVersion : ℤ := 2

def proxyRouteVisibilityPublic : String := "public"
def proxyRouteVisibilityInternal : String := "internal"

def proxyDestinationRuntimeAlias : String := "runtime-alias"
def proxyDestinationMesh : String := "mesh-allocation"

structure ProxyDestination where
  (kind url project environment service revision : String)
  slot : ℤ
  (clusterID nodeID allocationKey : String)
  generation : ℕ
  issuedAt : Time
  signature : String
  (containerPort hostPort : ℤ)
  hostIP : String
  deriving DecidableEq

structure ProxyRouteBasicAuth where
  (username passwordBcrypt : String)
  deriving DecidableEq

structure ProxyRouteHealth where
  (path interval : String)
  deriving DecidableEq

structure ProxyDynamicDomain where
  askURL : String
  destination : Option ProxyDestination
  deriving DecidableEq

structure ProxyRoute where
  (service revision : String)
  (domains redirectFrom upstreams : List String)
  healthCheck : Option ProxyRouteHealth
  sticky : Bool
  priority : ℤ
  visibility : String
  dynamicDomain : Option ProxyDynamicDomain
  basicAuth : Option ProxyRouteBasicAuth
  (allowIPs trustedProxies : List String)
  destinations : List ProxyDestination
  deriving DecidableEq

structure ProxyRouteManifest where
  version : ℤ
  (project environment network clusterID : String)
  routes : List ProxyRoute
  deriving DecidableEq

/-- What the program reads of a `url.URL`; `user` tells whether there is user information. -/
structure ParsedURL where
  scheme : String
  user : Bool
  (host hostname port path rawQuery fragment : String)
  deriving DecidableEq

/-- A `netip.Addr`: its value and what its predicates answer. -/
structure Address where
  value : ℕ
  (valid unspecified loopback linkLocalUnicast linkLocalMulticast multicast : Bool)
  deriving DecidableEq

/-- A `netip.Prefix`; `masked` tells whether it equals its own `Masked`. -/
structure AddressRange where
  is4 : Bool
  bits : ℤ
  masked : Bool
  deriving DecidableEq

structure Platform where
  parseURL : String → Except String ParsedURL
  /-- `net.ParseIP` does not answer nil. -/
  (parsesIP parsesCIDR : String → Bool)
  parseAddr : String → Option Address
  parseRange : String → Option AddressRange
  sha256Hex : String → String
  /-- `sort.Slice`, which need not be stable. -/
  sortSlice : (ProxyRoute → ProxyRoute → Bool) → List ProxyRoute → List ProxyRoute

section

variable (value : String) (c : Char)

def isAddressRune : Bool :=
  isDigit c || ('a' ≤ c && c ≤ 'f') || ('A' ≤ c && c ≤ 'F') || c == '.' || c == ':' || c == '/'

structure Documented (P : Platform) : Prop where
  /-- The scheme of a URL is what stands before its first colon, in lower case. -/
  scheme : ∀ {value parsed}, P.parseURL value = .ok parsed → parsed.scheme ≠ "" →
    ∃ scheme rest, value.toList = scheme ++ ':' :: rest ∧
      scheme.map Char.toLower = parsed.scheme.toList
  ip : ∀ {value}, P.parsesIP value → ∀ c ∈ value.toList, isAddressRune c
  cidr : ∀ {value}, P.parsesCIDR value → ∀ c ∈ value.toList, isAddressRune c
  range : ∀ {value parsed}, P.parseRange value = some parsed → ∀ c ∈ value.toList, isAddressRune c
  sorts : ∀ less routes, (P.sortSlice less routes).Perm routes

/-- The characters of ``strings.ContainsAny(value, " \t\r\n`{}")``. -/
def isUnsafeRune : Bool :=
  c == ' ' || c == '\t' || c == '\r' || c == '\n' || c == Char.ofNat 96 || c == '\x7b' ||
    c == '\x7d'

def isHostRune : Bool := isLowerLetter c || isUpperLetter c || isDigit c || c == '-'

def isSafeHostLabel (label : String) : Bool :=
  decide (label ≠ "") && decide (label.utf8ByteSize ≤ 63) && (chars label).all isHostRune &&
    (chars label).head? != some '-' && (chars label).getLast? != some '-'

def isSafeRuntimeHost : Bool :=
  decide (value.utf8ByteSize ≤ 253) && !(chars value).any isUnsafeRune &&
    decide (2 ≤ (split value '.').length) && (split value '.').all isSafeHostLabel

def trimPrefix (value start : String) : String :=
  if hasPrefix value start then String.ofList ((chars value).drop (chars start).length) else value

def isSafeProxyHost : Bool :=
  if trimSpace value ≠ value ∨ value = "" then false
  else if hasPrefix value "*." then
    let base := trimPrefix value "*."
    !(chars base).contains '*' && isSafeRuntimeHost base
  else if (chars value).contains '*' then false
  else isSafeRuntimeHost value

def validateProxyUpstreamURL (P : Platform) (value : String) : Except String Unit := do
  require ((chars value).any isUnsafeRune = false) "must not contain unsafe characters"
  let parsed ← P.parseURL value
  require (parsed.scheme = "http" ∨ parsed.scheme = "https") "scheme must be http or https"
  require (parsed.host ≠ "") "host is required"

def isSafeHTTPPath : Bool := hasPrefix value "/" && !(chars value).any isUnsafeRune

def isSafeProxyBasicAuthUser : Bool :=
  decide (value ≠ "") && decide (value.utf8ByteSize ≤ 64) &&
    (chars value).all fun c =>
      isLowerLetter c || isUpperLetter c || isDigit c || c == '.' || c == '_' || c == '@' ||
        c == '-'

def isBcryptRune : Bool := isLowerLetter c || isUpperLetter c || isDigit c || c == '.' || c == '/'

/-- The pattern `^\$2[aby]\$[0-9]{2}\$[./A-Za-z0-9]{53}$`. -/
def isSafeProxyBcryptHash : Bool :=
  match chars value with
  | '$' :: '2' :: minor :: '$' :: tens :: ones :: '$' :: rest =>
    (minor == 'a' || minor == 'b' || minor == 'y') && isDigit tens && isDigit ones &&
      decide (rest.length = 53) && rest.all isBcryptRune
  | _ => false

end

section

variable (P : Platform)

def isSafeProxyAllowIP (value : String) : Bool :=
  if trimSpace value ≠ value ∨ value = "" then false
  else if (chars value).contains '/' then P.parsesCIDR value
  else P.parsesIP value

def isSafeTrustedProxyPrefix (value : String) : Bool :=
  if trimSpace value ≠ value ∨ value = "" then false
  else match P.parseRange value with
    | none => false
    | some range =>
      range.masked && if range.is4 then decide (8 ≤ range.bits) else decide (24 ≤ range.bits)

def containerAlias (project env service : String) (slot : ℤ) : String :=
  String.ofList (compactName P.sha256Hex '-' dockerNetworkMax
    ["tako", project, env, service, toString slot]
    (shortHash P.sha256Hex [project, env, service, toString slot]))

def revisionContainerAlias (project env service revision : String) (slot : ℤ) : String :=
  String.ofList (compactName P.sha256Hex '-' dockerNetworkMax
    ["tako", project, env, service, "r", revision, toString slot]
    (shortHash P.sha256Hex [project, env, service, revision, toString slot]))

def safeProxyMeshAddress (address : Address) : Bool :=
  address.valid && !address.unspecified && !address.loopback && !address.linkLocalUnicast &&
    !address.linkLocalMulticast && !address.multicast &&
    ["169.254.169.254", "100.100.100.200", "fd00:ec2::254"].all fun blocked =>
      P.parseAddr blocked != some address

def plainDestinationURL (url : String) : Except String ParsedURL :=
  let message := "destination URL must be plain HTTP without userinfo, query, or fragment"
  match P.parseURL url with
  | .error _ => .error message
  | .ok parsed =>
    if parsed.scheme = "http" ∧ parsed.user = false ∧ parsed.hostname ≠ "" ∧ parsed.fragment = "" ∧
        parsed.rawQuery = "" then .ok parsed
    else .error message

section

variable (manifest : ProxyRouteManifest) (route : ProxyRoute) (proof : ProxyDestination)
  (allowPath : Bool)

def validateRuntimeAlias (host : String) : Except String Unit := do
  require (proof.hostPort = proof.containerPort)
    "runtime alias proof must use the container port directly"
  require (P.parsesIP host = false ∧ (proof.service = route.service ∨ allowPath))
    "runtime alias proof cannot authorize this host"
  let expected :=
    if proof.revision ≠ "" then
      revisionContainerAlias P manifest.project manifest.environment proof.service proof.revision
        proof.slot
    else containerAlias P manifest.project manifest.environment proof.service proof.slot
  require (host = expected) s!"runtime alias {quoted host} does not match workload identity"
  require (proof.allocationKey = "" ∧ proof.clusterID = "" ∧ proof.nodeID = "" ∧ proof.hostIP = "" ∧
      proof.generation = 0 ∧ proof.issuedAt = 0 ∧ proof.signature = "")
    "runtime alias proof carries unexpected mesh evidence"

def validateMeshDestination (host : String) : Except String Unit := do
  require ((P.parseAddr host).any (safeProxyMeshAddress P))
    "mesh destination must use a non-special IP address"
  require (proof.hostIP = host) "mesh destination IP does not match its allocation proof"
  require ((validateClusterID proof.clusterID).toBool ∧ proof.clusterID = manifest.clusterID)
    "mesh destination cluster identity is invalid"
  require ((validateNodeID proof.nodeID).toBool) "mesh destination node identity is invalid"
  require (proof.allocationKey = portAllocationKey portAllocationKindMeshUpstream proof.project
      proof.environment proof.service proof.revision proof.slot)
    "mesh destination allocation identity is invalid"
  require (trimSpace proof.signature ≠ "") "mesh destination allocation signature is required"
  require (proof.generation ≠ 0 ∧ proof.issuedAt ≠ 0)
    "mesh destination allocation generation is required"

def validateProxyDestination : Except String Unit := do
  let parsed ← plainDestinationURL P proof.url
  require (if allowPath then isSafeHTTPPath parsed.path = true else parsed.path = "")
    "destination URL path is invalid"
  require (proof.project = manifest.project ∧ proof.environment = manifest.environment ∧
      isSafeServiceName proof.service ∧ 1 ≤ proof.slot ∧ proof.slot ≤ 10000 ∧
      1 ≤ proof.containerPort ∧ proof.containerPort ≤ 65535)
    "destination workload identity does not match the manifest"
  require (proof.revision = "" ∨ isSafeRuntimeName proof.revision) "destination revision is invalid"
  require (allowPath ∨ proof.service = route.service ∧ proof.revision = route.revision)
    "destination service/revision does not match its route"
  require (1 ≤ proof.hostPort ∧ proof.hostPort ≤ 65535 ∧ parsed.port ≠ "" ∧
    parsed.port = toString proof.hostPort) "destination port does not match its workload proof"
  if proof.kind = proxyDestinationRuntimeAlias then
    validateRuntimeAlias P manifest route proof allowPath parsed.hostname
  else if proof.kind = proxyDestinationMesh then
    validateMeshDestination P manifest proof parsed.hostname
  else .error s!"destination proof kind {quoted proof.kind} is unsupported"

end

end

def ProxyRoute.withVisibility (route : ProxyRoute) : ProxyRoute :=
  if route.visibility = "" then { route with visibility := proxyRouteVisibilityPublic } else route

section

variable (P : Platform) (manifest : ProxyRouteManifest)

def validateDestinations (route : ProxyRoute) : Except String Unit := do
  require (route.destinations.length = route.upstreams.length)
    s!"route {route.service}: every upstream requires destination identity proof"
  (route.destinations.zip route.upstreams).forM fun pair => do
    require (pair.1.url = pair.2)
      s!"route {route.service}: destination proof order does not match upstreams"
    wrap (fun cause => s!"route {route.service}: invalid destination proof: {cause}")
      (validateProxyDestination P manifest route pair.1 false)

def validateDynamicDomain (route : ProxyRoute) (dynamic : ProxyDynamicDomain) :
    Except String Unit := do
  wrap (fun cause => s!"route {route.service}: invalid dynamic ask URL: {cause}")
    (validateProxyUpstreamURL P dynamic.askURL)
  whenever (proxyRouteManifestVersion ≤ manifest.version)
    (match dynamic.destination with
    | none => .error s!"route {route.service}: dynamic ask URL requires destination identity proof"
    | some destination => do
      require (destination.url = dynamic.askURL)
        s!"route {route.service}: dynamic ask URL requires destination identity proof"
      wrap (fun cause => s!"route {route.service}: invalid dynamic ask destination: {cause}")
        (validateProxyDestination P manifest route destination true))

/-- The body of the loop over the routes. Of the health check only the path is looked at. -/
def validateProxyRoute (i : ℕ) (route : ProxyRoute) : Except String ProxyRoute := do
  require (isSafeRuntimeName route.service) s!"route {i}: invalid service name"
  require (route.revision = "" ∨ isSafeRuntimeName route.revision)
    s!"route {route.service}: invalid revision"
  require (route.domains ≠ [] ∨ route.dynamicDomain.isSome)
    s!"route {route.service}: at least one explicit or dynamic domain is required"
  require (route.upstreams ≠ []) s!"route {route.service}: at least one upstream is required"
  require (0 ≤ route.priority) s!"route {route.service}: priority cannot be negative"
  let route := route.withVisibility
  require (route.visibility = proxyRouteVisibilityPublic ∨
    route.visibility = proxyRouteVisibilityInternal)
    s!"route {route.service}: invalid visibility {quoted route.visibility}"
  whenever (route.visibility = proxyRouteVisibilityInternal) do
    require (route.dynamicDomain.isNone)
      s!"route {route.service}: internal routes do not support dynamic domains"
    require (route.redirectFrom = [])
      s!"route {route.service}: internal routes do not support redirects"
  (route.domains ++ route.redirectFrom).forM fun domain =>
    require (isSafeProxyHost domain) s!"route {route.service}: invalid proxy domain {quoted domain}"
  route.upstreams.forM fun upstream =>
    wrap (fun cause => s!"route {route.service}: invalid upstream {quoted upstream}: {cause}")
      (validateProxyUpstreamURL P upstream)
  whenever (proxyRouteManifestVersion ≤ manifest.version) (validateDestinations P manifest route)
  route.healthCheck.toList.forM fun health =>
    require (health.path = "" ∨ isSafeHTTPPath health.path)
      s!"route {route.service}: invalid health check path"
  route.dynamicDomain.toList.forM (validateDynamicDomain P manifest route)
  route.basicAuth.toList.forM fun auth => do
    require (isSafeProxyBasicAuthUser auth.username)
      s!"route {route.service}: invalid basic auth username"
    require (isSafeProxyBcryptHash auth.passwordBcrypt)
      s!"route {route.service}: basic auth password must be a bcrypt hash"
  route.allowIPs.forM fun entry =>
    require (isSafeProxyAllowIP P entry)
      s!"route {route.service}: invalid allow IP entry {quoted entry}"
  route.trustedProxies.forM fun entry =>
    require (isSafeTrustedProxyPrefix P entry)
      s!"route {route.service}: invalid trusted proxy CIDR {quoted entry}"
  pure route

end

def ProxyRouteManifest.withVersion (manifest : ProxyRouteManifest) : ProxyRouteManifest :=
  if manifest.version = 0 then { manifest with version := proxyRouteManifestVersion } else manifest

def ProxyRouteManifest.withNetwork (manifest : ProxyRouteManifest) (network : String) :
    ProxyRouteManifest :=
  if manifest.network = "" then { manifest with network := network } else manifest

def validateProxyRouteManifest (P : Platform) (manifest : ProxyRouteManifest) :
    Except String ProxyRouteManifest := do
  let manifest := manifest.withVersion
  require (manifest.version = 1 ∨ manifest.version = proxyRouteManifestVersion)
    s!"unsupported route manifest version {manifest.version}"
  require (isSafeProjectName manifest.project) "invalid project name"
  require (isSafeRuntimeName manifest.environment) "invalid environment name"
  let expectedNetwork := networkName P.sha256Hex manifest.project manifest.environment
  let manifest := manifest.withNetwork expectedNetwork
  require (manifest.network = expectedNetwork)
    (s!"route manifest network {quoted manifest.network} does not match project/environment " ++
      s!"network {quoted expectedNetwork}")
  require (isSafeRuntimeName manifest.network) "invalid network name"
  let routes ← manifest.routes.zipIdx.mapM fun entry =>
    validateProxyRoute P manifest entry.2 entry.1
  pure { manifest with routes := routes }

structure AcceptedRoute (P : Platform) (route : ProxyRoute) : Prop where
  service : isSafeRuntimeName route.service
  addressed : route.domains ≠ [] ∨ route.dynamicDomain.isSome
  visibility : route.visibility = proxyRouteVisibilityPublic ∨
    route.visibility = proxyRouteVisibilityInternal
  host : ∀ domain ∈ route.domains ++ route.redirectFrom, isSafeProxyHost domain
  upstream : ∀ upstream ∈ route.upstreams, validateProxyUpstreamURL P upstream = .ok ()
  path : ∀ health ∈ route.healthCheck, health.path = "" ∨ isSafeHTTPPath health.path
  ask : ∀ dynamic ∈ route.dynamicDomain, validateProxyUpstreamURL P dynamic.askURL = .ok ()
  auth : ∀ auth ∈ route.basicAuth, isSafeProxyBasicAuthUser auth.username ∧
    isSafeProxyBcryptHash auth.passwordBcrypt
  allowed : ∀ entry ∈ route.allowIPs, isSafeProxyAllowIP P entry
  trusted : ∀ entry ∈ route.trustedProxies, isSafeTrustedProxyPrefix P entry

theorem ask_of_validateDynamicDomain (h : validateDynamicDomain P manifest route dynamic = .ok ()) :
    validateProxyUpstreamURL P dynamic.askURL = .ok () := by
  simp only [validateDynamicDomain, bind_eq_ok, wrap_eq_ok] at h
  obtain ⟨_, hask, _⟩ := h
  exact hask

theorem withVisibility_eq (route : ProxyRoute) :
    route.withVisibility = { route with visibility := route.withVisibility.visibility } := by
  unfold ProxyRoute.withVisibility
  split_ifs <;> rfl

theorem validateProxyRoute_accepted (h : validateProxyRoute P manifest i route = .ok accepted) :
    AcceptedRoute P accepted := by
  simp only [validateProxyRoute, bind_eq_ok, require_eq_ok, forM_eq_ok, wrap_eq_ok] at h
  obtain ⟨_, hsvc, _, -, _, haddressed, _, -, _, -, _, hvisibility, _, -, _, hhost, _, hupstream, _,
    -, _, hpath, _, hdynamic, _, hauth, _, hallowed, _, htrusted, hres⟩ := h
  obtain rfl := Except.ok.inj hres
  have hkept := withVisibility_eq route
  refine ⟨?_, ?_, hvisibility, hhost, hupstream, ?_, ?_, ?_, hallowed, htrusted⟩
  · rw [hkept]
    exact hsvc
  · rw [hkept]
    exact haddressed
  · intro health hmem
    exact hpath health (Option.mem_toList.mpr hmem)
  · intro dynamic hmem
    exact ask_of_validateDynamicDomain (hdynamic dynamic (Option.mem_toList.mpr hmem))
  · intro auth hmem
    obtain ⟨_, huser, hhash⟩ := hauth auth (Option.mem_toList.mpr hmem)
    exact ⟨huser, hhash⟩

/-- A manifest as validation leaves it. -/
def Accepted (P : Platform) (manifest : ProxyRouteManifest) : Prop :=
  ∃ raw, validateProxyRouteManifest P raw = .ok manifest

theorem Accepted.route (h : Accepted P manifest) :
    ∀ route ∈ manifest.routes, AcceptedRoute P route := by
  obtain ⟨raw, hraw⟩ := h
  simp only [validateProxyRouteManifest, bind_eq_ok] at hraw
  obtain ⟨_, -, _, -, _, -, _, -, _, -, routes, hroutes, hres⟩ := hraw
  obtain rfl := Except.ok.inj hres
  intro route hroute
  obtain ⟨entry, -, hentry⟩ := exists_of_mapM_eq_ok hroutes hroute
  exact validateProxyRoute_accepted hentry

end ProxyManifests
