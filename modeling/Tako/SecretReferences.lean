import Tako.EnvFiles
import Tako.SecretStore

/-! # The secret references of services

`CreateEnvFile` copies a secret into the environment of a container under its own name, or under
another with a reference `VAR:KEY`. Two functions of the engine register the values of a service
with the event redactor. The manager of the secrets is loaded or has failed to load.
-/
namespace SecretReferences

open List GoPrelude GoMaps EnvFiles SecretStore

structure ServiceConfig where
  secrets : List String
  /-- `Env`, `EnvFile` or `EnvFiles` is set. -/
  configured : Bool := true
  /-- What they give before the secrets are added, or why they cannot be read. -/
  plain : Except String EnvFile

section

variable (secrets : StringMap) (manager : Except String StringMap) (secretRef : String)
  (service : ServiceConfig)

def containerVar : String := String.ofList ((chars secretRef).takeWhile (· ≠ ':'))

def secretKey : String :=
  if ':' ∈ chars secretRef then String.ofList (((chars secretRef).dropWhile (· ≠ ':')).drop 1)
    else secretRef

def addSecret (envFile : EnvFile) (secretRef : String) : Except String EnvFile := do
  let value ← wrap (s!"failed to resolve secret '{secretKey secretRef}': " ++ ·)
    (get secrets (secretKey secretRef))
  .ok (envFile.set (containerVar secretRef) value)

def createEnvFile : Except String EnvFile := do
  let envFile ← service.plain
  let envFile ← service.secrets.foldlM (addSecret secrets) envFile
  wrap ("env file validation failed: " ++ ·) envFile.validate
  .ok envFile

/-- The values passed to `RegisterSecret`; a reference is looked up as it is written. -/
def registered : List String := service.secrets.filterMap fun key => (get secrets key).toOption

def buildExecEnvFileContent : List String × Except String String :=
  if service.configured = false ∧ service.secrets = [] then ([], .ok "")
  else
    match manager with
    | .error cause => ([], .error ("failed to create secrets manager: " ++ cause))
    | .ok secrets =>
      (registered secrets service,
        (wrap ("failed to create env file: " ++ ·) (createEnvFile secrets service)).map
          EnvFile.toReader)

def registerServiceSecretValues (services : GoMap ServiceConfig) : List String :=
  match manager with
  | .error _ => []
  | .ok secrets => services.entries.flatMap fun entry => registered secrets entry.2

end

variable {secrets : StringMap} {service : ServiceConfig}

theorem get_eq_ok : get secrets key = .ok value ↔ secrets.lookup key = some value := by
  unfold SecretStore.get
  cases secrets.lookup key with
  | none | some => simp

theorem mem_registered : value ∈ registered secrets service ↔ ∃ key ∈ service.secrets,
    secrets.lookup key = some value := by
  simp only [registered, mem_filterMap, toOption_eq_some_iff, get_eq_ok]

theorem exec_registered (h : secretRef ∈ service.secrets) :
    (buildExecEnvFileContent (.ok secrets) service).1 = registered secrets service := by
  rw [buildExecEnvFileContent, if_neg]
  exact fun hnone => ne_nil_of_mem h hnone.2

theorem foldlM_addSecret {refs : List String} {before after : EnvFile}
    (h : refs.foldlM (addSecret secrets) before = .ok after) :
    ∀ secretRef ∈ refs, ∃ value, secrets.lookup (secretKey secretRef) = some value := by
  induction refs generalizing before with
  | nil => simp
  | cons secretRef rest ih =>
    rw [foldlM_cons, bind_eq_ok] at h
    obtain ⟨next, hnext, hrest⟩ := h
    simp only [addSecret, bind_eq_ok, wrap_eq_ok, get_eq_ok] at hnext
    obtain ⟨value, hvalue, -⟩ := hnext
    exact forall_mem_cons.mpr ⟨⟨value, hvalue⟩, ih hrest⟩

/-- Every value an accepted service gets from the store is registered, by both functions, as long as
the value of each `VAR:KEY` is also stored under a name that the references of the service spell
out. -/
theorem secrets_registered_iff {services : GoMap ServiceConfig}
    (haccepted : createEnvFile secrets service = .ok envFile)
    (hservice : services.lookup name = some service) :
    (∀ secretRef ∈ service.secrets, ∀ value, get secrets (secretKey secretRef) = .ok value →
        value ∈ (buildExecEnvFileContent (.ok secrets) service).1 ∧
          value ∈ registerServiceSecretValues (.ok secrets) services) ↔
      ∀ secretRef ∈ service.secrets, ':' ∈ chars secretRef →
        ∃ key ∈ service.secrets, secrets.lookup key = secrets.lookup (secretKey secretRef) := by
  simp only [createEnvFile, bind_eq_ok] at haccepted
  obtain ⟨_, _, _, hadded, _⟩ := haccepted
  constructor
  · intro h secretRef href _
    obtain ⟨value, hvalue⟩ := foldlM_addSecret hadded secretRef href
    have hmem := (h secretRef href value (get_eq_ok.mpr hvalue)).1
    rw [exec_registered href] at hmem
    obtain ⟨key, hkey, hfound⟩ := mem_registered.mp hmem
    exact ⟨key, hkey, hfound.trans hvalue.symm⟩
  · intro h secretRef href value hvalue
    have hmem : value ∈ registered secrets service := by
      by_cases halias : ':' ∈ chars secretRef
      · obtain ⟨key, hkey, hsame⟩ := h secretRef href halias
        exact mem_registered.mpr ⟨key, hkey, hsame.trans (get_eq_ok.mp hvalue)⟩
      · rw [secretKey, if_neg halias] at hvalue
        exact mem_registered.mpr ⟨secretRef, href, get_eq_ok.mp hvalue⟩
    rw [exec_registered href]
    exact ⟨hmem, mem_flatMap.mpr ⟨⟨name, service⟩, AList.mem_lookup_iff.mp hservice, hmem⟩⟩

def shopSecrets : StringMap := mapOf [("TOKEN", "hunter22")]

def shop (secrets : List String) : ServiceConfig :=
  { secrets := secrets, plain := .ok (newEnvFile [1] "now" (by decide)) }

theorem spelled_token_registered :
    "hunter22" ∈ (buildExecEnvFileContent (.ok shopSecrets) (shop ["API:TOKEN", "TOKEN"])).1 := by
  have hok : (createEnvFile shopSecrets (shop ["API:TOKEN", "TOKEN"])).toOption.isSome := by
    decide +kernel
  obtain ⟨envFile, hok⟩ := exists_ok hok
  have hregistered := (secrets_registered_iff hok
    (AList.lookup_insert ∅ : (mapOf [("web", shop ["API:TOKEN", "TOKEN"])]).lookup "web" = _)).mpr
      (by decide +kernel)
  exact (hregistered "API:TOKEN" mem_cons_self "hunter22" (by decide +kernel)).1

/-- The container gets the value, and neither function registers it. -/
theorem alias_not_registered :
    (createEnvFile shopSecrets (shop ["API:TOKEN"])).toOption.bind (·.values.lookup "API") =
      some "hunter22" ∧
    (buildExecEnvFileContent (.ok shopSecrets) (shop ["API:TOKEN"])).1 = [] ∧
    registerServiceSecretValues (.ok shopSecrets) (mapOf [("web", shop ["API:TOKEN"])]) = [] := by
  refine ⟨?_, ?_, ?_⟩
  · decide +kernel
  · decide +kernel
  · decide +kernel

end SecretReferences
