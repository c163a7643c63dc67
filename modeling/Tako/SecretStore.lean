import Mathlib.Data.Bool.AllAny
import Tako.Dotenv
import Tako.ResourceNames
import Tako.Runs

/-! # The secret store

The manager of secrets keeps one encrypted dotenv file for all environments and one for each.
`Set` and `Delete` read the file of the environment, write it back and load everything again.
Command substitution is disabled, and encryption is a pair of inverse functions.
-/
namespace SecretStore

open List GoPrelude GoMaps SeparatedWords Function Option
open ResourceNames (hasPrefix)
open Dotenv Runs

/-- `strings.ReplaceAll` of one character. -/
def replaceAll (old : Char) (new l : List Char) : List Char :=
  l.flatMap fun c => if c = old then new else [c]

def needsQuotes (c : Char) : Bool :=
  c == ' ' || c == '\t' || c == '\n' || c == '\r' || c == '"' || c == apostrophe || c == '$' ||
    c == '='

def encodeSecretValue (value : String) : Except String String :=
  let l := chars value
  if l.any needsQuotes = false then .ok value
  else if l.getLast? = some '\\' then
    .error "values ending in a backslash cannot be stored in the env-format secrets file"
  else if apostrophe ∉ l then .ok (String.ofList (apostrophe :: l ++ [apostrophe]))
  else if l.getLast? = some '"' then
    .error ("values containing a single quote and ending in a double quote cannot be stored in " ++
      "the env-format secrets file")
  else
    let escaped := replaceAll '\\' ['\\', '\\'] l
    let escaped := replaceAll '"' ['\\', '"'] escaped
    let escaped := replaceAll '$' ['\\', '$'] escaped
    .ok (String.ofList ('"' :: escaped ++ ['"']))

def hasSuffix (s suffix : String) : Bool := (chars suffix).isSuffixOf (chars s)

/-- A value of the form `$(command)`. -/
def isSubstitution (value : String) : Bool := hasPrefix value "$(" && hasSuffix value ")"

/-- `filepath.Clean` of a relative path, on its elements; the stack has the last one first. -/
def cleanElements : List (List Char) → List (List Char) → List (List Char)
  | stack, [] => stack.reverse
  | stack, e :: rest =>
    if e = [] ∨ e = ['.'] then cleanElements stack rest
    else if e = ['.', '.'] then
      match stack with
      | top :: below =>
        if top = ['.', '.'] then cleanElements (e :: top :: below) rest
          else cleanElements below rest
      | [] => cleanElements [e] rest
    else cleanElements (e :: stack) rest

/-- `filepath.Join` of two relative paths. -/
def joinPath (base name : String) : String :=
  match cleanElements [] ((chars (base ++ "/" ++ name)).splitOn '/') with
  | [] => "."
  | elements => String.ofList (['/'].intercalate elements)

def basePath : String := ".tako"

def commonPath : String := joinPath basePath "secrets"

section

variable (env : String)

def environmentPath : String := joinPath basePath ("secrets." ++ env)

/-- The environment in whose file `Set` and `Delete` work. -/
def scopeOf : String := if env = "" then "common" else env

def scopePath : String :=
  if scopeOf env = "common" then commonPath else environmentPath (scopeOf env)

end

/-- Whether the file system takes a path. -/
inductive Access where
  | usable
  | missing
  | refused (cause : String)
  deriving DecidableEq

structure Host where
  isEncrypted : String → Bool
  encrypt : ℕ → String → String
  decrypt : String → Except String String
  encrypt_header : ∀ nonce text, isEncrypted (encrypt nonce text)
  decrypt_encrypt : ∀ nonce text, decrypt (encrypt nonce text) = .ok text
  access : String → Access
  common_usable : access commonPath = .usable

/-- The files by path. -/
abbrev Disk : Type := String → Option String

inductive ReadError where
  | notExist
  | other (cause : String)
  deriving DecidableEq

def ReadError.text : ReadError → String
  | .notExist => "failed to read secrets file: file does not exist"
  | .other cause => cause

/-- `fault` is the error of the key file or of the read, if there is one. -/
def readSecretsFile (host : Host) (disk : Disk) (fault : Option String) (path : String) :
    Except ReadError StringMap :=
  match fault, host.access path, disk path with
  | some cause, _, _ => .error (.other cause)
  | none, .missing, _ => .error .notExist
  | none, .refused cause, _ => .error (.other ("failed to read secrets file: " ++ cause))
  | none, .usable, none => .error .notExist
  | none, .usable, some data =>
    match (if host.isEncrypted data then host.decrypt data else .ok data) with
    | .error cause => .error (.other ("failed to read secrets file: " ++ cause))
    | .ok text =>
      match unmarshal text with
      | .error cause => .error (.other s!"failed to parse {path}: {cause}")
      | .ok vars => .ok vars

def valueOf (secrets : StringMap) (key : String) : String := (secrets.lookup key).getD ""

def merge (secrets vars : StringMap) : StringMap :=
  (vars.keys.map fun key => (key, valueOf vars key)).foldl
    (fun m binding => m.insert binding.1 binding.2) secrets

section

variable (host : Host) (disk : Disk)

/-- `os.IsNotExist` of the error of `os.Stat`. -/
def statNotExist (path : String) : Bool :=
  match host.access path with
  | .usable => (disk path).isNone
  | .missing => true
  | .refused _ => false

def loadFile (fault : Option String) (path : String) (secrets : StringMap) :
    Except String StringMap :=
  if statNotExist host disk path then .ok secrets
  else
    match readSecretsFile host disk fault path with
    | .error e => .error e.text
    | .ok vars =>
      match vars.keys.find? fun key => isSubstitution (valueOf vars key) with
      | some key =>
        .error (s!"command substitution failed for {key}: command substitution is disabled; " ++
          "set TAKO_ALLOW_SECRET_COMMANDS=1 to enable it")
      | none => .ok (merge secrets vars)

def loadSecrets (fault : Option String) (env : String) : Except String StringMap := do
  let common ← wrap ("failed to load common secrets: " ++ ·) (loadFile host disk fault commonPath ∅)
  if env ≠ "" then
    wrap (s!"failed to load {env} secrets: " ++ ·)
      (loadFile host disk fault (environmentPath env) common)
  else .ok common

def newManager (env : String) : Except String StringMap :=
  wrap ("failed to load secrets: " ++ ·) (loadSecrets host disk none env)

end

def get (secrets : StringMap) (key : String) : Except String String :=
  match secrets.lookup key with
  | some value => .ok value
  | none =>
    .error (s!"secret '{key}' not found. Available secrets: " ++ ", ".intercalate secrets.keys)

structure Timestamp where
  text : String
  line : ∀ c ∈ chars text, isLineEnd c = false

def secretLines (secrets : StringMap) : List String → Except String (List String)
  | [] => .ok []
  | key :: keys =>
    match encodeSecretValue (valueOf secrets key) with
    | .error cause => .error s!"secret {key}: {cause}"
    | .ok encoded => (secretLines secrets keys).map ((key ++ "=" ++ encoded) :: ·)

def secretsHeader (now : Timestamp) : List String :=
  ["# Tako secrets file - ENCRYPTED", "# Generated/Updated: " ++ now.text, ""]

/-- What may go wrong outside the program: in the first read, in the write, in the reload. -/
structure Faults where
  (read write reload : Option String)
  deriving DecidableEq

structure Surroundings where
  managerEnvironment : String
  now : Timestamp
  nonce : ℕ
  faults : Faults

section

variable (host : Host) (ctx : Surroundings)

def writeSecrets (path : String) (secrets : StringMap) (disk : Disk) : Except String Disk :=
  match secretLines secrets (sortStrings secrets.keys) with
  | .error cause => .error cause
  | .ok lines =>
    match ctx.faults.write, host.access path with
    | some cause, _ => .error cause
    | none, .missing => .error "failed to create temp file: no such file or directory"
    | none, .refused cause => .error ("failed to create temp file: " ++ cause)
    | none, .usable =>
      .ok (update disk path
        (some (host.encrypt ctx.nonce (fileText (secretsHeader ctx.now ++ lines)))))

def existingSecrets (path : String) (disk : Disk) : Except String StringMap :=
  match readSecretsFile host disk ctx.faults.read path with
  | .ok vars => .ok vars
  | .error .notExist => .ok ∅
  | .error (.other cause) => .error ("failed to read existing secrets: " ++ cause)

def saveSecrets (verb path : String) (secrets : StringMap) (disk : Disk) :
    Except String StringMap × Disk :=
  match writeSecrets host ctx path secrets disk with
  | .error cause => (.error (s!"failed to {verb} secret: " ++ cause), disk)
  | .ok written => (loadSecrets host written ctx.faults.reload ctx.managerEnvironment, written)

/-- `Set` and `Delete` differ in the change they make and in a word of one error. -/
def changeSecrets (verb env : String)
    (change : StringMap → StringMap) (disk : Disk) : Except String StringMap × Disk :=
  match existingSecrets host ctx (scopePath env) disk with
  | .error cause => (.error cause, disk)
  | .ok vars => saveSecrets host ctx verb (scopePath env) (change vars) disk

end

inductive Call where
  | set (key value env : String)
  | delete (key env : String)
  deriving DecidableEq

def perform (host : Host) (ctx : Surroundings) (disk : Disk) : Call → Except String StringMap × Disk
  | .set key value env => changeSecrets host ctx "save" env (·.insert key value) disk
  | .delete key env => changeSecrets host ctx "delete" env (·.erase key) disk

/-- A value that is read back as it was set: no `\r\n`, not a command substitution, and, if it
is written without quotes, no blank at its ends or before a `#`. -/
structure Storable (value : String) : Prop where
  lineEnds : (chars value).IsChain NoLineEndPair
  noCommand : isSubstitution value = false
  unquoted : (chars value).any needsQuotes = false →
    (∀ c ∈ (chars value).head?, isBlank c = false) ∧
      (∀ c ∈ (chars value).getLast?, isBlank c = false) ∧
      (chars value).IsChain fun c d => ¬ (isBlank c ∧ d = '#')

theorem cutComment_of_isChain (hfirst : ∀ c ∈ l.head?, ¬ (c = '#' ∧ blank = true))
    (h : l.IsChain fun c d => ¬ (isBlank c = true ∧ d = '#')) : cutComment blank l = l := by
  induction l generalizing blank with
  | nil => rfl
  | cons c l ih =>
    obtain ⟨hpairs, hl⟩ := isChain_cons.mp h
    rw [cutComment, if_neg (hfirst c rfl), ih ?_ hl]
    rintro d hd ⟨hcomment, hblank⟩
    exact hpairs d hd ⟨hblank, hcomment⟩

theorem plain_of_unquoted (hplain : (chars value).any needsQuotes = false) (h : Storable value) :
    Plain (chars value) := by
  obtain ⟨hfirst, hlast, hcomment⟩ := h.unquoted hplain
  have hnone : ∀ c ∈ chars value, needsQuotes c = false := by
    intro c hc
    by_contra hneeds
    rw [Bool.not_eq_false] at hneeds
    rw [any_eq_true.mpr ⟨c, hc, hneeds⟩] at hplain
    cases hplain
  have hsafe : ∀ c ∈ chars value, c ≠ '\n' ∧ c ≠ '\r' ∧ c ≠ '$' ∧ c ≠ '"' ∧ c ≠ apostrophe := by
    intro c hc
    refine ⟨?_, ?_, ?_, ?_, ?_⟩ <;>
      · rintro rfl
        exact absurd (hnone _ hc) (by decide)
  constructor
  · intro c hc
    obtain ⟨hnewline, hreturn, -⟩ := hsafe c hc
    simp [isLineEnd, hnewline, hreturn]
  · intro hmem
    exact (hsafe _ hmem).2.2.1 rfl
  · intro c hc
    obtain ⟨-, -, -, hdouble, hsingle⟩ := hsafe c (mem_of_head? hc)
    exact ⟨hdouble, hsingle, hfirst c hc⟩
  · exact hlast
  · refine cutComment_of_isChain ?_ hcomment
    rintro c _ ⟨-, hblank⟩
    cases hblank

theorem replaceAll_eq_escapeChars (l : List Char) :
    replaceAll '$' ['\\', '$'] (replaceAll '"' ['\\', '"'] (replaceAll '\\' ['\\', '\\'] l)) =
      escapeChars l := by
  unfold replaceAll escapeChars
  rw [flatMap_assoc, flatMap_assoc]
  congr 1
  funext c
  by_cases hback : c = '\\'
  · subst hback; rfl
  · by_cases hquote : c = '"'
    · subst hquote; rfl
    · by_cases hdollar : c = '$'
      · subst hdollar; rfl
      · simp [isActive, hback, hquote, hdollar]

/-- The encoder and the reader agree on every storable value. -/
theorem encodeSecretValue_reads (hencode : encodeSecretValue value = .ok token)
    (h : Storable value) : Reads (chars token) (chars value) := by
  unfold encodeSecretValue at hencode
  dsimp only at hencode
  split_ifs at hencode with hplain hback hquote hlast
  · rw [← Except.ok.inj hencode]
    exact reads_plain (plain_of_unquoted hplain h)
  · rw [← Except.ok.inj hencode, chars_eq_toList (String.ofList _), String.toList_ofList,
      replaceAll_eq_escapeChars]
    exact reads_double h.lineEnds hback hlast
  · rw [← Except.ok.inj hencode, chars_eq_toList (String.ofList _), String.toList_ofList]
    exact reads_single h.lineEnds hquote hback

theorem environmentPath_eq (h : '/' ∉ chars env) :
    environmentPath env = ".tako/secrets." ++ env := by
  have helements : (chars (basePath ++ "/" ++ ("secrets." ++ env))).splitOn '/' =
      [chars ".tako", chars ("secrets." ++ env)] := by
    have hjoin : chars (basePath ++ "/" ++ ("secrets." ++ env)) =
        ['/'].intercalate [chars ".tako", chars ("secrets." ++ env)] := by
      simp [basePath]
    have hclean : ∀ l ∈ [chars ".tako", chars ("secrets." ++ env)], '/' ∉ l := by
      intro l hl
      rcases mem_cons.mp hl with rfl | hl
      · decide +kernel
      · rw [mem_singleton.mp hl]
        simpa using h
    rw [hjoin, splitOn_intercalate '/' hclean (cons_ne_nil _ _)]
  have hpath : cleanElements [] [chars ".tako", chars ("secrets." ++ env)] =
      [chars ".tako", chars ("secrets." ++ env)] := by
    simp [cleanElements]
  unfold environmentPath joinPath
  rw [helements, hpath]
  rw [← String.toList_inj]
  simp

/-- The stored secrets, by environment (`common` for those of all) and key. -/
abbrev Store : Type := String → String → Option String

/-- What a manager of the environment returns: its own secret, or the common one. -/
def view (store : Store) (env key : String) : Option String :=
  (store (scopeOf env) key).or (store "common" key)

namespace Call

def environment : Call → String
  | .set _ _ env => env
  | .delete _ env => env

def change : Call → (String → Option String) → String → Option String
  | .set key value _, secrets => update secrets key (some value)
  | .delete key _, secrets => update secrets key none

def apply (call : Call) (store : Store) : Store :=
  update store (scopeOf call.environment) (call.change (store (scopeOf call.environment)))

end Call

section Law

variable (host : Host)

/-- The environment names one file that the file system takes. -/
def PlainEnvironment (env : String) : Prop :=
  env = "" ∨ ('/' ∉ chars env ∧ host.access (environmentPath env) = .usable)

/-- A fresh manager of any such environment loads, and returns exactly the stored secrets. -/
def Serves (disk : Disk) (store : Store) : Prop :=
  ∀ env, PlainEnvironment host env → ∃ secrets,
    newManager host disk env = .ok secrets ∧
      ∀ key, (get secrets key).toOption = view store env key

def Sound (secrets : String → Option String) : Prop :=
  ∀ key value, secrets key = some value → Name (chars key) ∧ Storable value

structure Holds (disk : Disk) (path : String) (secrets : String → Option String) : Prop where
  usable : host.access path = .usable
  sound : Sound secrets
  absent : disk path = none → ∀ key, secrets key = none
  present : disk path ≠ none → ∃ vars, readSecretsFile host disk none path = .ok vars ∧
    ∀ key, vars.lookup key = secrets key

variable {host}

theorem readSecretsFile_congr (h : other path = disk path) :
    readSecretsFile host other fault path = readSecretsFile host disk fault path := by
  unfold readSecretsFile
  rw [h]

theorem Holds.congr (h : Holds host disk path secrets) (hsame : other path = disk path) :
    Holds host other path secrets := by
  refine ⟨h.usable, h.sound, ?_, ?_⟩
  · rw [hsame]
    exact h.absent
  · rw [hsame, readSecretsFile_congr hsame]
    exact h.present

theorem lookup_merge :
    (merge secrets vars).lookup key = (vars.lookup key).or (secrets.lookup key) := by
  unfold merge
  rw [lookup_foldl_insert]
  cases hlookup : vars.lookup key with
  | none =>
    have hkey : key ∉ vars.keys := AList.lookup_eq_none.mp hlookup
    rw [if_neg hkey, none_or]
  | some =>
    have hkey : key ∈ vars.keys := AList.lookup_isSome.mp (by rw [hlookup]; rfl)
    rw [if_pos hkey, valueOf, hlookup]
    rfl

theorem loadFile_holds (h : Holds host disk path secrets) (loaded : StringMap) :
    ∃ result, loadFile host disk none path loaded = .ok result ∧
      ∀ key, result.lookup key = (secrets key).or (loaded.lookup key) := by
  have hstat : statNotExist host disk path = (disk path).isNone := by
    unfold statNotExist
    rw [h.usable]
  unfold loadFile
  rw [hstat]
  cases hfile : disk path with
  | none =>
    refine ⟨loaded, rfl, ?_⟩
    intro key
    rw [h.absent hfile key, none_or]
  | some =>
    obtain ⟨vars, hread, hlookup⟩ := h.present (by simp [hfile])
    have hnone : vars.keys.find? (fun key => isSubstitution (valueOf vars key)) = none := by
      rw [find?_eq_none]
      intro key hkey
      obtain ⟨value, hvalue⟩ := exists_lookup hkey
      have hstorable := (h.sound key value (by rw [← hlookup, hvalue])).2
      rw [valueOf, hvalue, getD_some, hstorable.noCommand]
      decide
    refine ⟨merge loaded vars, ?_, ?_⟩
    · simp only [isNone_some, Bool.false_eq_true, if_false, hread, hnone]
    · intro key
      rw [lookup_merge, hlookup]

def secretToken (secrets : StringMap) (key : String) : String :=
  (encodeSecretValue (valueOf secrets key)).toOption.getD ""

theorem secretLines_ok {secrets : StringMap} {keys lines : List String}
    (h : secretLines secrets keys = .ok lines) :
    lines = keys.map (fun key => key ++ "=" ++ secretToken secrets key) ∧
      ∀ key ∈ keys, encodeSecretValue (valueOf secrets key) = .ok (secretToken secrets key) := by
  induction keys generalizing lines with
  | nil =>
    cases h
    exact ⟨rfl, fun key hkey => by cases hkey⟩
  | cons key keys ih =>
    unfold secretLines at h
    cases hencode : encodeSecretValue (valueOf secrets key) with
    | error => rw [hencode] at h; cases h
    | ok encoded =>
      rw [hencode] at h
      cases hrest : secretLines secrets keys with
      | error => rw [hrest] at h; cases h
      | ok =>
        rw [hrest] at h
        cases h
        obtain ⟨hlines, hall⟩ := ih hrest
        have htoken : secretToken secrets key = encoded := by
          unfold secretToken
          rw [hencode]
          rfl
        refine ⟨?_, ?_⟩
        · rw [map_cons, htoken, ← hlines]
        · intro k hk
          rcases mem_cons.mp hk with rfl | hmem
          · rw [hencode, htoken]
          · exact hall k hmem

theorem secretsHeader_silent (now : Timestamp) :
    ∀ line ∈ secretsHeader now, Silent (chars line) := by
  have hupdated : chars ("# Generated/Updated: " ++ now.text) =
      '#' :: (" Generated/Updated: ".toList ++ chars now.text) := by
    simp only [chars_eq_toList, String.toList_append]
    rfl
  have hclosed : ∀ l : List Char, (∀ c ∈ l, isLineEnd c = false) → (∀ c ∈ l.head?, c = '#') →
      Silent l := by
    intro l hline hhead
    have hnewline : '\n' ∉ l := fun hmem => absurd (hline _ hmem) (by decide)
    refine ⟨⟨isChain_of_no_newline hnewline, ?_⟩, hnewline, hhead⟩
    exact fun hlast => absurd (hline _ (mem_of_getLast? hlast)) (by decide)
  have hlabel : ∀ c ∈ " Generated/Updated: ".toList, isLineEnd c = false :=
    all_iff_forall_prop.mp (by decide +kernel)
  intro line hline
  simp only [secretsHeader, mem_cons, not_mem_nil, or_false] at hline
  rcases hline with rfl | rfl | rfl
  · exact hclosed _ (all_iff_forall_prop.mp (by decide +kernel)) (by simp)
  · rw [hupdated]
    refine hclosed _ ?_ (fun c hc => (some.inj hc).symm)
    intro c hc
    rcases mem_cons.mp hc with rfl | hc
    · decide
    · rcases mem_append.mp hc with htext | hnow
      · exact hlabel c htext
      · exact now.line c hnow
  · exact hclosed _ (all_iff_forall_prop.mp (by decide +kernel)) (by simp)

theorem writeSecrets_holds (husable : host.access path = .usable)
    (hsound : Sound fun key => vars.lookup key)
    (h : writeSecrets host ctx path vars disk = .ok written) :
    Holds host written path (fun key => vars.lookup key) ∧ ∀ other ≠ path,
      written other = disk other := by
  unfold writeSecrets at h
  cases hlines : secretLines vars (sortStrings vars.keys) with
  | error => rw [hlines] at h; cases h
  | ok =>
    rw [hlines] at h
    cases hfault : ctx.faults.write with
    | some => rw [hfault] at h; cases h
    | none =>
      rw [hfault, husable] at h
      cases h
      obtain ⟨rfl, hencode⟩ := secretLines_ok hlines
      have hmem : ∀ key, key ∈ sortStrings vars.keys ↔ key ∈ vars := by
        intro key
        rw [sortStrings, mem_insertionSort]
        exact Iff.rfl
      have hbound : ∀ key ∈ sortStrings vars.keys, Name (chars key) ∧
          Storable (valueOf vars key) := by
        intro key hkey
        obtain ⟨value, hvalue⟩ := exists_lookup ((hmem key).mp hkey)
        rw [valueOf, hvalue]
        exact hsound key value hvalue
      have hparse := unmarshal_fileText (secretsHeader_silent ctx.now)
        (fun key hkey => (hbound key hkey).1)
        (fun key hkey => encodeSecretValue_reads (hencode key hkey) (hbound key hkey).2)
      constructor
      · refine ⟨husable, hsound, ?_, ?_⟩
        · intro hnone
          rw [update_self] at hnone
          cases hnone
        · intro _
          refine ⟨ofBindings ((sortStrings vars.keys).map fun key => (key, valueOf vars key)), ?_,
            ?_⟩
          · unfold readSecretsFile
            rw [husable, update_self]
            simp only [host.encrypt_header, if_true, host.decrypt_encrypt, hparse]
          · intro key
            rw [ofBindings, lookup_foldl_insert]
            cases hlookup : vars.lookup key with
            | none =>
              rw [if_neg (fun hkey => AList.lookup_eq_none.mp hlookup ((hmem key).mp hkey))]
              rfl
            | some =>
              have hkey : key ∈ vars := AList.lookup_isSome.mp (by rw [hlookup]; rfl)
              rw [if_pos ((hmem key).mpr hkey), valueOf, hlookup]
              rfl
      · intro other hother
        rw [update_of_ne hother]

variable (host) in
def Scope (scope : String) : Prop :=
  scope = "common" ∨ (scope ≠ "" ∧ '/' ∉ chars scope ∧
    host.access (environmentPath scope) = .usable)

theorem scope_of_plain (h : PlainEnvironment host env) : Scope host (scopeOf env) := by
  unfold scopeOf
  by_cases hempty : env = ""
  · rw [if_pos hempty]
    exact .inl rfl
  · rw [if_neg hempty]
    exact .inr ⟨hempty, h.resolve_left hempty⟩

theorem scopeOf_scope (h : Scope host scope) : scopeOf scope = scope := by
  unfold scopeOf
  rw [if_neg]
  rintro rfl
  rcases h with hcommon | ⟨hne, -⟩
  · exact absurd hcommon (by decide)
  · exact hne rfl

theorem scopePath_eq (h : Scope host scope) :
    scopePath scope = if scope = "common" then ".tako/secrets" else ".tako/secrets." ++ scope := by
  unfold scopePath
  rw [scopeOf_scope h]
  split_ifs with hcommon
  · rfl
  · exact environmentPath_eq (h.resolve_left hcommon).2.1

theorem dotted_ne (scope : String) : ".tako/secrets" ≠ ".tako/secrets." ++ scope := by
  intro heq
  have hlen := congrArg (fun s => (String.toList s).length) heq
  simp at hlen

theorem dotted_injective (h : ".tako/secrets." ++ a = ".tako/secrets." ++ b) : a = b :=
  (String.append_right_inj _).mp h

theorem scopePath_injective (ha : Scope host a) (hb : Scope host b)
    (h : scopePath a = scopePath b) : a = b := by
  rw [scopePath_eq ha, scopePath_eq hb] at h
  split_ifs at h with hac hbc hbc
  · rw [hac, hbc]
  · exact absurd h (dotted_ne b)
  · exact absurd h.symm (dotted_ne a)
  · exact dotted_injective h

/-- The file of every scope holds its secrets, and no environment `common` has one. -/
structure Represents (host : Host) (disk : Disk) (store : Store) : Prop where
  scopes : ∀ scope, Scope host scope → Holds host disk (scopePath scope) (store scope)
  common : disk ".tako/secrets.common" = none

theorem Represents.serves (h : Represents host disk store) : Serves host disk store := by
  intro env hplain
  have hscope : scopePath "common" = commonPath := by
    unfold scopePath scopeOf
    simp
  have hcommon := h.scopes "common" (.inl rfl)
  rw [hscope] at hcommon
  obtain ⟨common, hload, hlookup⟩ := loadFile_holds hcommon ∅
  have hget : ∀ {secrets : StringMap} {key : String},
      (get secrets key).toOption = secrets.lookup key := by
    intro secrets key
    unfold get
    cases secrets.lookup key <;> rfl
  have hshared : ∀ key, common.lookup key = store "common" key := by
    intro key
    rw [hlookup, AList.lookup_empty, or_none]
  by_cases hempty : env = ""
  · refine ⟨common, ?_, ?_⟩
    · simp [newManager, loadSecrets, hload, hempty, wrap, bind, Except.bind]
    · intro key
      rw [hget, hshared]
      simp [view, scopeOf, hempty]
  · have hother := hplain.resolve_left hempty
    by_cases hname : env = "common"
    · -- The file `secrets.common` is read for this environment, and never written.
      have hskip : loadFile host disk none (environmentPath env) common = .ok common := by
        have hfile : disk (environmentPath env) = none := by
          rw [hname]
          exact h.common
        unfold loadFile statNotExist
        rw [hother.2, hfile]
        rfl
      refine ⟨common, ?_, ?_⟩
      · simp [newManager, loadSecrets, hload, hempty, hskip, wrap, bind, Except.bind]
      · intro key
        rw [hget, hshared]
        simp [view, scopeOf, hname]
    · have hscoped : Scope host env := .inr ⟨hempty, hother⟩
      have hpath : scopePath env = environmentPath env := by
        unfold scopePath
        rw [scopeOf_scope hscoped, if_neg hname]
      have hholds := h.scopes env hscoped
      rw [hpath] at hholds
      obtain ⟨secrets, hboth, hmerged⟩ := loadFile_holds hholds common
      refine ⟨secrets, ?_, ?_⟩
      · simp [newManager, loadSecrets, hload, hempty, hboth, wrap, bind, Except.bind]
      · intro key
        rw [hget, hmerged, hshared, view, scopeOf_scope hscoped]

/-- What is asked of a call: its key is read back, its value is storable, its environment and
that of the manager are plain, and the reload after the write meets no fault. -/
def Admissible (host : Host) (ctx : Surroundings) (call : Call) : Prop :=
  (match call with
    | .set key value _ => Name (chars key) ∧ Storable value
    | .delete _ _ => True) ∧
  PlainEnvironment host call.environment ∧ PlainEnvironment host ctx.managerEnvironment ∧
  ctx.faults.reload = none

open Call

theorem sound_change (hcall : Admissible host ctx call) (h : Sound secrets) :
    Sound (call.change secrets) := by
  intro key value hvalue
  cases call with
  | set changed =>
    by_cases hkey : key = changed
    · rw [hkey, change, update_self] at hvalue
      rw [hkey, ← some.inj hvalue]
      exact hcall.1
    · rw [change, update_of_ne hkey] at hvalue
      exact h key value hvalue
  | delete changed =>
    by_cases hkey : key = changed
    · rw [hkey, change, update_self] at hvalue
      cases hvalue
    · rw [change, update_of_ne hkey] at hvalue
      exact h key value hvalue

def Call.edit : Call → StringMap → StringMap
  | .set key value _, vars => vars.insert key value
  | .delete key _, vars => vars.erase key

theorem lookup_edit (call : Call) (vars : StringMap) :
    (fun key => (call.edit vars).lookup key) = call.change fun key => vars.lookup key := by
  funext key
  cases call with
  | set changed =>
    by_cases hkey : key = changed
    · rw [hkey, edit, change, AList.lookup_insert, update_self]
    · rw [edit, change, AList.lookup_insert_ne hkey, update_of_ne hkey]
  | delete changed =>
    by_cases hkey : key = changed
    · rw [hkey, edit, change, AList.lookup_erase, update_self]
    · rw [edit, change, AList.lookup_erase_ne hkey, update_of_ne hkey]

theorem perform_eq (host : Host) :
    ∃ verb, perform host ctx disk call =
      changeSecrets host ctx verb call.environment call.edit disk := by
  cases call with
  | set => exact ⟨"save", rfl⟩
  | delete => exact ⟨"delete", rfl⟩

theorem existingSecrets_holds (h : Holds host disk path secrets)
    (hread : existingSecrets host ctx path disk = .ok vars) :
    (fun key => vars.lookup key) = secrets := by
  have hfault : ctx.faults.read = none := by
    cases hcase : ctx.faults.read with
    | none => rfl
    | some => simp [existingSecrets, readSecretsFile, hcase] at hread
  unfold existingSecrets at hread
  rw [hfault] at hread
  cases hfile : disk path with
  | none =>
    have hmissing : readSecretsFile host disk none path = .error .notExist := by
      simp [readSecretsFile, h.usable, hfile]
    rw [hmissing] at hread
    cases hread
    exact (funext (h.absent hfile)).symm
  | some =>
    obtain ⟨found, hfound, hlookup⟩ := h.present (by simp [hfile])
    rw [hfound] at hread
    cases hread
    exact funext hlookup

theorem written_represents (h : Represents host disk store) (hscope : Scope host scope)
    (hholds : Holds host written (scopePath scope) secrets)
    (hframe : ∀ other ≠ scopePath scope, written other = disk other) :
    Represents host written (update store scope secrets) := by
  constructor
  · intro other hother
    by_cases hsame : other = scope
    · rw [hsame, update_self]
      exact hholds
    · rw [update_of_ne hsame]
      exact (h.scopes other hother).congr
        (hframe _ fun heq => hsame (scopePath_injective hother hscope heq))
  · rw [hframe _ ?_, h.common]
    rw [scopePath_eq hscope]
    split_ifs with hcommon
    · exact fun heq => dotted_ne "common" (heq.symm.trans (by decide +kernel))
    · intro heq
      have hdotted : ".tako/secrets." ++ "common" = ".tako/secrets." ++ scope :=
        Eq.trans (by decide +kernel) heq
      exact hcommon (dotted_injective hdotted).symm

/-- An admissible call fails and changes nothing, or succeeds and makes its change. -/
theorem perform_represents (h : Represents host disk store) (hcall : Admissible host ctx call) :
    (∃ cause, perform host ctx disk call = (.error cause, disk)) ∨
      ∃ loaded written, perform host ctx disk call = (.ok loaded, written) ∧
        Represents host written (call.apply store) := by
  obtain ⟨verb, hperform⟩ := perform_eq host
  have hscope := scope_of_plain hcall.2.1
  have hpath : scopePath call.environment = scopePath (scopeOf call.environment) := by
    unfold scopePath
    rw [scopeOf_scope hscope]
  have hholds := h.scopes _ hscope
  rw [hperform, changeSecrets, hpath]
  cases hold : existingSecrets host ctx (scopePath (scopeOf call.environment)) disk with
  | error cause => exact .inl ⟨cause, rfl⟩
  | ok vars =>
    dsimp only
    unfold saveSecrets
    cases hwritten : writeSecrets host ctx (scopePath (scopeOf call.environment))
      (call.edit vars) disk with
    | error => exact .inl ⟨_, rfl⟩
    | ok written =>
      -- The entries written are the changed secrets of the scope, so the reload finds sound files.
      have hlookup := lookup_edit call vars
      rw [existingSecrets_holds hholds hold] at hlookup
      have hsound := sound_change hcall hholds.sound
      rw [← hlookup] at hsound
      obtain ⟨hfile, hframe⟩ := writeSecrets_holds hholds.usable hsound hwritten
      rw [hlookup] at hfile
      have hafter := written_represents h hscope hfile hframe
      obtain ⟨loaded, hload, -⟩ := hafter.serves ctx.managerEnvironment hcall.2.2.1
      rw [newManager, wrap_eq_ok] at hload
      refine .inr ⟨loaded, written, ?_, hafter⟩
      dsimp only
      rw [hcall.2.2.2, hload]

end Law

structure State where
  disk : Disk
  store : Store

/-- The machine of the calls. The store keeps what the successful calls have set and not deleted. -/
def machine (host : Host) : Machine State (Surroundings × Call) where
  Enabled _ _ := True
  next s e :=
    let result := perform host e.1 s.disk e.2
    ⟨result.2, if result.1.toOption.isSome then e.2.apply s.store else s.store⟩

def Empty (s : State) : Prop := s.disk = (fun _ => none) ∧ s.store = fun _ _ => none

theorem represents_empty (h : Empty s) : Represents host s.disk s.store := by
  obtain ⟨hdisk, hstore⟩ := h
  rw [hdisk, hstore]
  refine ⟨?_, rfl⟩
  intro scope hscope
  refine ⟨?_, ?_, fun _ _ => rfl, fun hne => absurd rfl hne⟩
  · unfold scopePath
    rw [scopeOf_scope hscope]
    split_ifs with hcommon
    · exact host.common_usable
    · exact (hscope.resolve_left hcommon).2.2
  · intro key value hnone
    cases hnone

theorem next_represents (h : Represents host s.disk s.store) (he : Admissible host e.1 e.2) :
    Represents host ((machine host).next s e).disk ((machine host).next s e).store := by
  rcases perform_represents h he with ⟨cause, hfail⟩ | ⟨loaded, written, hdone, hafter⟩
  · simp only [machine, hfail]
    exact h
  · simp only [machine, hdone]
    exact hafter

/-- Along every run of admissible calls from the empty store, each further admissible call
either succeeds, and then every fresh manager returns exactly the secrets set and not deleted,
or fails, and then every fresh manager returns what it returned before. -/
theorem secret_store_law {host : Host} {s : State}
    (hreach : ((machine host).restrict fun _ e => Admissible host e.1 e.2).Reachable Empty s)
    {ctx : Surroundings} {call : Call} (hcall : Admissible host ctx call) :
    Serves host s.disk s.store ∧ (∀ loaded, (perform host ctx s.disk call).1 = .ok loaded →
        Serves host (perform host ctx s.disk call).2 (call.apply s.store)) ∧
      (∀ cause, (perform host ctx s.disk call).1 = .error cause →
        Serves host (perform host ctx s.disk call).2 s.store) := by
  have hrep : Represents host s.disk s.store := by
    refine Machine.Reachable.invariant (I := fun s => Represents host s.disk s.store) ?_ ?_ hreach
    · intro s
      exact represents_empty
    · intro s e hrep he
      exact next_represents hrep he.2
  refine ⟨hrep.serves, ?_, ?_⟩
  · intro loaded hok
    rcases perform_represents hrep hcall with ⟨cause, hfail⟩ | ⟨_, written, hdone, hafter⟩
    · rw [hfail] at hok
      cases hok
    · rw [hdone]
      exact hafter.serves
  · intro cause herror
    rcases perform_represents hrep hcall with ⟨_, hfail⟩ | ⟨loaded, written, hdone, -⟩
    · rw [hfail]
      exact hrep.serves
    · rw [hdone] at herror
      cases herror

def openHost : Host where
  isEncrypted := fun _ => true
  encrypt := fun _ text => text
  decrypt := fun data => .ok data
  encrypt_header := fun _ _ => rfl
  decrypt_encrypt := fun _ _ => rfl
  access := fun _ => .usable
  common_usable := rfl

def quiet : Surroundings where
  managerEnvironment := ""
  now := ⟨"2026-01-01T00:00:00Z", all_iff_forall_prop.mp (by decide +kernel)⟩
  nonce := 0
  faults := ⟨none, none, none⟩

def emptyDisk : Disk := fun _ => none

/-- A value with a quote and a dollar sign is served as it was set. -/
theorem secret_store_law_quoted :
    (perform openHost quiet emptyDisk (.set "API_KEY" "it's $5" "")).1.toOption.isSome ∧
      Serves openHost (perform openHost quiet emptyDisk (.set "API_KEY" "it's $5" "")).2
        (Call.apply (.set "API_KEY" "it's $5" "") fun _ _ => none) := by
  have hset :
      (perform openHost quiet emptyDisk (.set "API_KEY" "it's $5" "")).1.toOption.isSome := by
    decide +kernel
  have hstorable : Storable "it's $5" :=
    ⟨by decide +kernel, by decide +kernel, fun hplain => absurd hplain (by decide +kernel)⟩
  obtain ⟨loaded, hloaded⟩ := exists_ok hset
  refine ⟨hset, (secret_store_law (s := ⟨emptyDisk, fun _ _ => none⟩)
    ⟨_, ⟨rfl, rfl⟩, .refl _⟩ ?_).2.1 loaded hloaded⟩
  exact ⟨⟨by decide +kernel, hstorable⟩, .inl rfl, .inl rfl, rfl⟩

/-- A key with a hyphen and a value in the form of a command fail and leave a store that does
not load any more; `\r\n` in a value comes back as `\n`. -/
theorem single_calls_break_store :
    (∀ call ∈ [Call.set "my-key" "1" "", Call.set "TOKEN" "$(id)" ""],
      (perform openHost quiet emptyDisk call).1.toOption = none ∧
        (newManager openHost (perform openHost quiet emptyDisk call).2 "").toOption = none) ∧
      (perform openHost quiet emptyDisk (.set "CERT" "a\r\nb" "")).1.toOption.map
        (valueOf · "CERT") =
        some "a\nb" := by
  decide +kernel

end SecretStore
