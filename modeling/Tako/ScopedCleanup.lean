import Mathlib.Data.Bool.AllAny
import Tako.OperationLeases
import Tako.ResourceNames

/-! # Cleanup by project and environment

Docker's volumes and networks are listed, and those whose names begin with the prefix of the
scope are removed, one by one. Docker is given by what its commands answer.
-/
namespace ScopedCleanup

open List GoPrelude SeparatedWords ResourceNames OperationLeases

/-- The answers of Docker: the listings, and for each removal its error, with the output where
the caller looks at it. -/
structure Docker where
  networkLs : Except String String
  networkRm : String → Option String
  volumeLs : Except String String
  volumeRm : String → Option (String × String)

structure Removal where
  removed : List String
  err : Option String
  deriving DecidableEq

section

variable (docker : Docker) (output : String) (name : String) (project env : String)

def listedNames : List String := ((split output '\n').map trimSpace).filter (· ≠ "")

inductive Attempt where
  | done
  | skipped
  | failed (message : String)
  deriving DecidableEq

/-- The loop over the selected names; it ends at the first failure. -/
def removeEach (attempt : String → Attempt) : List String → List String → Removal
  | removed, [] => ⟨removed, none⟩
  | removed, name :: rest =>
    match attempt name with
    | .done => removeEach attempt (removed ++ [name]) rest
    | .skipped => removeEach attempt removed rest
    | .failed message => ⟨removed, some message⟩

def networkSelected (project env name : String) : Bool :=
  if env ≠ "" then hasPrefix name (networkEnvironmentPrefix project env)
  else hasPrefix name (networkProjectPrefix project)

def networkAttempt : Attempt :=
  match docker.networkRm name with
  | none => .done
  | some cause => .failed s!"failed to remove docker network {name}: {cause}"

def cleanupNetworks : Removal :=
  match docker.networkLs with
  | .error cause => ⟨[], some ("failed to list docker networks: " ++ cause)⟩
  | .ok output =>
    removeEach (networkAttempt docker) []
      ((listedNames output).filter (networkSelected project env))

def volumeNameMatchesProjectEnvironment (name project env : String) : Bool :=
  if env ≠ "" then hasPrefix name (volumeEnvironmentPrefix project env)
  else hasPrefix name (volumeProjectPrefix project)

/-- `strings.Contains`. -/
def containsText (text part : String) : Bool := (chars text).tails.any ((chars part).isPrefixOf ·)

/-- `unicode.ToLower` on ASCII letters and on the two other letters that it maps to one of them. -/
def toLowerRune (c : Char) : Char :=
  if c = 'İ' then 'i' else if c = '\u212a' then 'k' else c.toLower

def dockerVolumeInUse : Bool :=
  let lower := String.ofList ((chars output).map toLowerRune)
  containsText lower "volume is in use" || containsText lower "volume is still in use" ||
    containsText lower "is in use"

def volumeAttempt : Attempt :=
  match docker.volumeRm name with
  | none => .done
  | some (output, cause) =>
    if dockerVolumeInUse output then .skipped
    else .failed s!"failed to remove docker volume {name}: {cause}"

def cleanupUnusedProjectVolumes (protectedVolumes : List String) : Removal :=
  match docker.volumeLs with
  | .error cause => ⟨[], some ("failed to list docker volumes: " ++ cause)⟩
  | .ok output =>
    removeEach (volumeAttempt docker) [] (sortStrings ((listedNames output).filter fun name =>
      volumeNameMatchesProjectEnvironment name project env && decide (name ∉ protectedVolumes)))

end

theorem removeEach_subset (h : name ∈ (removeEach attempt removed names).removed) :
    name ∈ removed ∨ name ∈ names := by
  induction names generalizing removed with
  | nil => exact .inl h
  | cons first rest ih =>
    unfold removeEach at h
    split at h
    · rcases ih h with hdone | hrest
      · rcases mem_append.mp hdone with hbefore | hfirst
        · exact .inl hbefore
        · exact .inr (mem_cons.mpr (.inl (mem_singleton.mp hfirst)))
      · exact .inr (mem_cons_of_mem _ hrest)
    · rcases ih h with hbefore | hrest
      · exact .inl hbefore
      · exact .inr (mem_cons_of_mem _ hrest)
    · exact .inl h

theorem removed_network_selected (h : name ∈ (cleanupNetworks docker project env).removed) :
    networkSelected project env name := by
  unfold cleanupNetworks at h
  split at h
  · cases h
  · rcases removeEach_subset h with hnone | hsel
    · cases hnone
    · exact (mem_filter.mp hsel).2

theorem removed_volume_matches
    (h : name ∈ (cleanupUnusedProjectVolumes docker project env protectedVolumes).removed) :
    volumeNameMatchesProjectEnvironment name project env ∧ name ∉ protectedVolumes := by
  unfold cleanupUnusedProjectVolumes at h
  split at h
  · cases h
  · rcases removeEach_subset h with hnone | hsel
    · cases hnone
    · rw [sortStrings, mem_insertionSort] at hsel
      simpa using (mem_filter.mp hsel).2

def dockerWith (name : String) : Docker := ⟨.ok name, fun _ => none, .ok name, fun _ => none⟩

theorem listedNames_single (hline : '\n' ∉ chars name)
    (hspace : ∀ c ∈ chars name, isSpace c = false) (hne : name ≠ "") :
    listedNames name = [name] := by
  have hsplit : split name '\n' = [name] := by
    unfold split splitOn
    rw [splitOnP_eq_singleton fun c hc => by simpa using fun heq : c = '\n' => hline (heq ▸ hc)]
    simp
  have htrim : trimSpace name = name := by
    unfold trimSpace
    rw [trimChars_of_no_space hspace]
    simp
  unfold listedNames
  rw [hsplit, map_singleton, htrim]
  simp [hne]

theorem dockerWith_network (hlisted : listedNames name = [name])
    (hsel : networkSelected project env name) :
    name ∈ (cleanupNetworks (dockerWith name) project env).removed := by
  unfold cleanupNetworks dockerWith
  simp only [hlisted, filter_cons_of_pos hsel, filter_nil]
  simp [removeEach, networkAttempt]

theorem dockerWith_volume (hlisted : listedNames name = [name])
    (hmatches : volumeNameMatchesProjectEnvironment name project env) :
    name ∈ (cleanupUnusedProjectVolumes (dockerWith name) project env []).removed := by
  unfold cleanupUnusedProjectVolumes dockerWith
  simp only [hlisted]
  simp [hmatches, removeEach, volumeAttempt, sortStrings]

/-- The scope `(project, environment)` covers what belongs to `(owner, stage)`. -/
def Covers (project env owner stage : String) : Prop :=
  owner = project ∧ (env = "" ∨ stage = env)
  deriving Decidable

theorem safe_partWords (h : isSafeProjectName project) : partWords project ≠ [] := by
  unfold isSafeProjectName at h
  split at h
  · rename_i first rest last hfirst _
    simp only [Bool.and_eq_true] at h
    have hletter := h.1.1.2
    have hrune : isNameRune first := by
      unfold isNameRune
      rw [hletter, Bool.true_or]
    refine partWords_ne_nil (hfirst ▸ mem_cons_self) ?_
    rwa [lowerRune_nameRune hrune]
  · cases h

theorem listedNames_compactName (hhex : HexDigest sha256Hex) (hmax : 15 ≤ maxLen)
    (parts hashed : List String) :
    let name := String.ofList (compactName sha256Hex '_' maxLen ("tako" :: parts)
      (shortHash sha256Hex hashed))
    listedNames name = [name] := by
  intro name
  have hchars : chars name =
      compactName sha256Hex '_' maxLen ("tako" :: parts) (shortHash sha256Hex hashed) := by
    rw [chars_eq_toList, String.toList_ofList]
  have hspace : ∀ c ∈ chars name, isSpace c = false := by
    intro c hc
    rw [hchars] at hc
    rcases compactName_runes hhex hmax parts hashed c hc with rfl | hrune
    · decide
    · exact isSpace_nameRune hrune
  have hline : '\n' ∉ chars name := by
    intro hmem
    exact absurd (hspace _ hmem) (by decide)
  have hne : name ≠ "" := by
    intro hnil
    obtain ⟨hlen, hword⟩ := shortHash_word hhex hashed
    have hcharsNil : chars name = [] := by rw [hnil]; decide
    rw [hchars, compactName_eq hlen hword hmax] at hcharsNil
    simp at hcharsNil
  exact listedNames_single hline hspace hne

theorem networkSelected_eq :
    networkSelected project env name = hasPrefix name (scopePrefix project env) := by
  unfold networkSelected scopePrefix
  split_ifs <;> rfl

theorem volumeNameMatches_eq :
    volumeNameMatchesProjectEnvironment name project env =
      hasPrefix name (scopePrefix project env) := by
  unfold volumeNameMatchesProjectEnvironment scopePrefix
  split_ifs <;> rfl

section Owners

variable (hhex : HexDigest sha256Hex) (hproject : isSafeProjectName project)
  (env owner stage : String)
include hhex hproject

theorem volumeNameMatches_iff :
    volumeNameMatchesProjectEnvironment (volumeName sha256Hex owner stage volume) project env ↔
      Begins project env (cut 112 (partWords owner ++ partWords stage ++ partWords volume)) := by
  rw [volumeNameMatches_eq]
  have hiff := hasPrefix_scope_iff hhex (safe_partWords hproject) env
    (show 16 ≤ dockerNameMax by decide) [owner, stage, volume] [owner, stage, volume]
  simp only [flatMap_cons, flatMap_nil, append_nil] at hiff
  rw [append_assoc]
  exact hiff

/-- A network with such a name is removed by some cleanup exactly when its words begin with
those of the scope. -/
theorem network_removed_iff (parts hashed : List String) :
    (∃ docker, String.ofList (compactName sha256Hex '_' dockerNetworkMax ("tako" :: parts)
        (shortHash sha256Hex hashed)) ∈ (cleanupNetworks docker project env).removed) ↔
      Begins project env (cut 47 (parts.flatMap partWords)) := by
  have hiff := hasPrefix_scope_iff hhex (safe_partWords hproject) env
    (show 16 ≤ dockerNetworkMax by decide) parts hashed
  rw [← networkSelected_eq] at hiff
  constructor
  · rintro ⟨docker, hremoved⟩
    exact hiff.mp (removed_network_selected hremoved)
  · intro hbegins
    exact ⟨_, dockerWith_network (listedNames_compactName hhex (by decide) parts hashed)
      (hiff.mpr hbegins)⟩

theorem volume_removed_iff : (∃ docker kept, volumeName sha256Hex owner stage volume ∈
        (cleanupUnusedProjectVolumes docker project env kept).removed) ↔
      Begins project env (cut 112 (partWords owner ++ partWords stage ++ partWords volume)) := by
  rw [← volumeNameMatches_iff hhex hproject]
  constructor
  · rintro ⟨docker, kept, hremoved⟩
    exact (removed_volume_matches hremoved).1
  · intro hmatches
    exact ⟨_, [], dockerWith_volume (listedNames_compactName hhex (by decide) _ _) hmatches⟩

/-- For the volumes and networks of any owner: a cleanup of the scope spares what is not covered
exactly when the words of the scope are not the first words of the name, which is cut after 112
or 47 characters. -/
theorem scoped_cleanup_sound_iff :
    (∀ volume, (volumeNameMatchesProjectEnvironment (volumeName sha256Hex owner stage volume)
          project env → Covers project env owner stage) ↔
        (Begins project env (cut 112 (partWords owner ++ partWords stage ++ partWords volume)) →
          Covers project env owner stage)) ∧
    (∀ volume, (∀ docker kept, volumeName sha256Hex owner stage volume ∈
          (cleanupUnusedProjectVolumes docker project env kept).removed →
          Covers project env owner stage) ↔
        (Begins project env (cut 112 (partWords owner ++ partWords stage ++ partWords volume)) →
          Covers project env owner stage)) ∧
    ((∀ docker, networkName sha256Hex owner stage ∈ (cleanupNetworks docker project env).removed →
          Covers project env owner stage) ↔
        (Begins project env (cut 47 (partWords owner ++ partWords stage)) →
          Covers project env owner stage)) ∧
    (∀ service, (∀ docker, exportNetworkName sha256Hex owner stage service ∈
          (cleanupNetworks docker project env).removed → Covers project env owner stage) ↔
        (Begins project env
            (cut 47 (partWords owner ++ partWords stage ++ partWords service ++ [chars "export"])) →
          Covers project env owner stage)) := by
  have hexport : partWords "export" = [chars "export"] := by decide
  refine ⟨?_, ?_, ?_, ?_⟩
  · intro volume
    rw [volumeNameMatches_iff hhex hproject]
  · intro volume
    rw [← volume_removed_iff hhex hproject]
    constructor
    · rintro h ⟨docker, kept, hremoved⟩
      exact h docker kept hremoved
    · intro h docker kept hremoved
      exact h ⟨docker, kept, hremoved⟩
  · have hiff := network_removed_iff hhex hproject env [owner, stage] [owner, stage]
    simp only [flatMap_cons, flatMap_nil, append_nil] at hiff
    rw [← hiff]
    constructor
    · rintro h ⟨docker, hremoved⟩
      exact h docker hremoved
    · intro h docker hremoved
      exact h ⟨docker, hremoved⟩
  · intro service
    have hiff := network_removed_iff hhex hproject env [owner, stage, service, "export"]
      [owner, stage, service, "export"]
    simp only [flatMap_cons, flatMap_nil, append_nil, hexport] at hiff
    rw [append_assoc, append_assoc, ← hiff]
    constructor
    · rintro h ⟨docker, hremoved⟩
      exact h docker hremoved
    · intro h docker hremoved
      exact h ⟨docker, hremoved⟩

end Owners

def Fits (n : ℕ) (project env : String) : Prop :=
  partWords env ≠ [] ∧ (['_'].intercalate (partWords project ++ partWords env)).length ≤ n

instance (n : ℕ) (project env : String) : Decidable (Fits n project env) :=
  inferInstanceAs (Decidable (_ ∧ _))

theorem begins_own_iff (hproject : isSafeProjectName project) (henv : env ≠ "") :
    (∀ scope ∈ [env, ""], Begins project scope
      (cut n (partWords project ++ partWords env ++ rest))) ↔
      Fits n project env := by
  have hwords : ∀ w ∈ partWords project ++ partWords env, IsWord isNameRune w := by
    exact forall_mem_append.mpr ⟨partWords_isWord project, partWords_isWord env⟩
  have hempty : partWords "" = [] := by decide
  have hne : partWords project ++ partWords env ≠ [] := by simp [safe_partWords hproject]
  have hfits := prefix_cut_iff (s := '_') (u := rest) hwords hne n
  simp only [mem_cons, not_mem_nil, or_false, forall_eq_or_imp, forall_eq, Begins, Fits, henv,
    false_or, true_or, true_and, hempty, append_nil, hfits]
  refine and_iff_left_of_imp fun h => ?_
  exact (prefix_append _ _).trans (hfits.mpr h.2)

/-- A cleanup of its own scopes reaches a volume or a network exactly if the name was not cut
before the end of the environment. -/
theorem scoped_cleanup_reaches_iff (hhex : HexDigest sha256Hex)
    (hproject : isSafeProjectName project) (henv : isSafeRuntimeName env) :
    (∀ volume, (∀ scope ∈ [env, ""], volumeNameMatchesProjectEnvironment
        (volumeName sha256Hex project env volume) project scope) ↔ Fits 112 project env) ∧
      ((∀ scope ∈ [env, ""],
        networkSelected project scope (networkName sha256Hex project env)) ↔
          Fits 47 project env) := by
  have hne : env ≠ "" := by
    rintro rfl
    cases henv
  constructor
  · intro volume
    simp only [volumeNameMatches_iff hhex hproject]
    exact begins_own_iff hproject hne
  · have hnetwork : ∀ scope, networkSelected project scope (networkName sha256Hex project env) ↔
        Begins project scope (cut 47 (partWords project ++ partWords env ++ [])) := by
      intro scope
      have hiff := hasPrefix_scope_iff hhex (safe_partWords hproject) scope
        (show 16 ≤ dockerNetworkMax by decide) [project, env] [project, env]
      rw [networkSelected_eq, append_assoc]
      exact hiff
    simp only [hnetwork]
    exact begins_own_iff hproject hne

def zeroDigest : String → String :=
  fun _ => "0000000000000000000000000000000000000000000000000000000000000000"

theorem zeroDigest_hex : HexDigest zeroDigest := by
  intro text
  unfold zeroDigest
  exact ⟨by decide +kernel, all_iff_forall_prop.mp (by decide +kernel)⟩

/-- The environment `production` of `shop` spares what belongs to `other`. -/
theorem scoped_cleanup_sound_iff_production : isSafeProjectName "shop" ∧
    (volumeNameMatchesProjectEnvironment (volumeName zeroDigest "other" "production" "data") "shop"
      "production" → Covers "shop" "production" "other" "production") :=
  ⟨by decide +kernel,
    ((scoped_cleanup_sound_iff zeroDigest_hex (by decide +kernel) "production" "other"
      "production").1 "data").mpr (fun h => absurd h (by decide +kernel))⟩

theorem production_network_reached : isSafeRuntimeName "production" ∧ ∀ scope ∈ ["production", ""],
    networkSelected "shop" scope (networkName zeroDigest "shop" "production") :=
  ⟨by decide +kernel,
    (scoped_cleanup_reaches_iff zeroDigest_hex (by decide +kernel) (by decide +kernel)).2.mpr
      (by decide +kernel)⟩

/-- Safe names with more than 47 characters: the network is left behind by its own scope. -/
theorem long_names_not_reached : let project := "customer-relationship-management"
    let env := "production-europe-west"
    isSafeProjectName project ∧ isSafeRuntimeName env ∧
      networkSelected project env (networkName zeroDigest project env) = false := by
  decide +kernel

/-- The project `shop-web` has `shop` and `web` for its first words: a cleanup of `shop`, and one
of its environment `web`, accept its volumes and remove its networks. -/
theorem hyphenated_project_removed : isSafeProjectName "shop" ∧ isSafeProjectName "shop-web" ∧
    (∀ env ∈ ["", "web"],
      volumeNameMatchesProjectEnvironment (volumeName zeroDigest "shop-web" "production" "data")
        "shop" env ∧
      (∃ docker, networkName zeroDigest "shop-web" "production" ∈
        (cleanupNetworks docker "shop" env).removed) ∧
      ¬ Covers "shop" env "shop-web" "production") := by
  have hsafe : isSafeProjectName "shop" := by decide +kernel
  refine ⟨hsafe, by decide +kernel, ?_⟩
  intro env hmem
  have hvolume : Begins "shop" env
      (cut 112 (partWords "shop-web" ++ partWords "production" ++ partWords "data")) := by
    revert env
    decide +kernel
  have hnetwork : Begins "shop" env (cut 47 (["shop-web", "production"].flatMap partWords)) := by
    revert env
    decide +kernel
  refine ⟨?_, ?_, ?_⟩
  · exact (volumeNameMatches_iff zeroDigest_hex hsafe env _ _).mpr hvolume
  · exact (network_removed_iff zeroDigest_hex hsafe env _ _).mpr hnetwork
  · rintro ⟨howner, -⟩
    exact absurd howner (by decide +kernel)

end ScopedCleanup
