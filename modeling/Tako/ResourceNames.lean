import Tako.GoPrelude

/-! # Names of Docker resources

The sanitised parts of what a name stands for, joined with a separator and ended by a short hash of
the unsanitised parts: the only thing that tells apart two lists of parts with the same words.
-/
namespace ResourceNames

open List GoPrelude SeparatedWords

def dockerNameMax : ℕ := 128
def dockerNetworkMax : ℕ := 63

/-- `unicode.ToLower`, as far as the letters a to z are concerned: the Kelvin sign and the
dotted capital I are the only runes outside ASCII that it maps to one of them. -/
def lowerRune (c : Char) : Char :=
  if c = '\u212a' then 'k' else if c = '\u0130' then 'i' else c.toLower

def isNameRune (c : Char) : Bool := isLowerLetter c || isDigit c

def sanitizePart (value : String) (separator : Char) : List Char :=
  trimSep separator (squeeze isNameRune separator (trimChars ((chars value).map lowerRune)) false)

def shortHash (sha256Hex : String → String) (parts : List String) : List Char :=
  (chars (sha256Hex ("\x00".intercalate parts))).take 10

def compactName (sha256Hex : String → String) (separator : Char) (maxLen : ℕ) (parts : List String)
    (suffix : List Char) : List Char :=
  let sanitized := (parts.map fun part => sanitizePart part separator).filter (!·.isEmpty)
  let suffix := if suffix = [] then shortHash sha256Hex ["\x00".intercalate parts] else suffix
  let suffix := sanitizePart (String.ofList suffix) separator
  let suffix := if suffix = [] then ['i', 'd'] else suffix
  let name := [separator].intercalate (sanitized ++ [suffix])
  if name.length ≤ maxLen then name
  else if maxLen ≤ suffix.length + 1 then
    if suffix.length ≤ maxLen then suffix else suffix.take maxLen
  else
    let budget := maxLen - (suffix.length + 1)
    let stem := [separator].intercalate sanitized
    let stem := if budget < stem.length then stem.take budget else stem
    let stem := trimSep separator stem
    if stem = [] then suffix else stem ++ separator :: suffix

variable (sha256Hex : String → String)

def volumeName (project env volume : String) : String :=
  String.ofList (compactName sha256Hex '_' dockerNameMax ["tako", project, env, volume]
    (shortHash sha256Hex [project, env, volume]))

def networkName (project env : String) : String :=
  String.ofList (compactName sha256Hex '_' dockerNetworkMax ["tako", project, env]
    (shortHash sha256Hex [project, env]))

def exportNetworkName (project env service : String) : String :=
  String.ofList (compactName sha256Hex '_' dockerNetworkMax
    ["tako", project, env, service, "export"]
    (shortHash sha256Hex [project, env, service, "export"]))

/-- The body of both `VolumeProjectPrefix` and `NetworkProjectPrefix`. -/
def projectPrefix (project : String) : String :=
  String.ofList (['_'].intercalate [chars "tako", sanitizePart project '_'] ++ ['_'])

/-- The body of both `VolumeEnvironmentPrefix` and `NetworkEnvironmentPrefix`. -/
def environmentPrefix (project env : String) : String :=
  String.ofList (['_'].intercalate
    [chars "tako", sanitizePart project '_', sanitizePart env '_'] ++ ['_'])

def volumeProjectPrefix : String → String := projectPrefix
def volumeEnvironmentPrefix : String → String → String := environmentPrefix
def networkProjectPrefix : String → String := projectPrefix
def networkEnvironmentPrefix : String → String → String := environmentPrefix

/-- `strings.HasPrefix`. -/
def hasPrefix (name start : String) : Bool := (chars start).isPrefixOf (chars name)

/-- The words of a part: the runs of letters and digits of its lower case. -/
def partWords (value : String) : List (List Char) :=
  words isNameRune (trimChars ((chars value).map lowerRune))

theorem sanitizePart_words (hs : isNameRune s = false) :
    sanitizePart value s = [s].intercalate (partWords value) := trimSep_squeeze hs _

theorem sanitizePart_eq : sanitizePart value '_' = ['_'].intercalate (partWords value) :=
  sanitizePart_words (by decide)

theorem partWords_isWord (value : String) : ∀ w ∈ partWords value, IsWord isNameRune w :=
  words_isWord _

theorem lowerRune_nameRune (h : isNameRune c) : lowerRune c = c := by
  have hcode : c.toNat ≤ 122 ∧ ¬ (65 ≤ c.toNat ∧ c.toNat ≤ 90) := by
    simp only [isNameRune, isLowerLetter, isDigit, Bool.or_eq_true, Bool.and_eq_true,
      decide_eq_true_eq, Char.le_def, UInt32.le_iff_toNat_le] at h
    change (97 ≤ c.toNat ∧ c.toNat ≤ 122) ∨ (48 ≤ c.toNat ∧ c.toNat ≤ 57) at h
    omega
  have hkelvin : c ≠ '\u212a' := by
    rintro rfl
    exact absurd hcode.1 (by decide)
  have hdotted : c ≠ '\u0130' := by
    rintro rfl
    exact absurd hcode.1 (by decide)
  unfold lowerRune
  rw [if_neg hkelvin, if_neg hdotted]
  apply Char.toNat_inj.mp
  rw [toLower_toNat, if_neg hcode.2]

theorem isSpace_nameRune (h : isNameRune c) : isSpace c = false := by
  simp only [isNameRune, isLowerLetter, isDigit, Bool.or_eq_true, Bool.and_eq_true,
    decide_eq_true_eq, Char.le_def, UInt32.le_iff_toNat_le] at h
  change (97 ≤ c.toNat ∧ c.toNat ≤ 122) ∨ (48 ≤ c.toNat ∧ c.toNat ≤ 57) at h
  simp only [isSpace, Bool.or_eq_false_iff, Bool.and_eq_false_iff, beq_eq_false_iff_ne,
    decide_eq_false_iff_not]
  omega

theorem partWords_nameRunes (h : ∀ c ∈ l, isNameRune c) (hne : l ≠ []) :
    partWords (String.ofList l) = [l] := by
  have hlower : l.map lowerRune = l := by
    conv_rhs => rw [← map_id l]
    exact map_congr_left fun c hc => lowerRune_nameRune (h c hc)
  unfold partWords
  rw [chars_eq_toList, String.toList_ofList, hlower,
    trimChars_of_no_space fun c hc => isSpace_nameRune (h c hc)]
  exact words_of_word ⟨hne, h⟩

/-- The digest is written with at least ten lower-case hexadecimal digits. -/
def HexDigest : Prop :=
  ∀ text, 10 ≤ (chars (sha256Hex text)).length ∧ ∀ c ∈ chars (sha256Hex text), isDigit c ∨
    ('a' ≤ c ∧ c ≤ 'f')

variable {sha256Hex}

theorem shortHash_word (hhex : HexDigest sha256Hex) (parts : List String) :
    (shortHash sha256Hex parts).length = 10 ∧ IsWord isNameRune (shortHash sha256Hex parts) := by
  obtain ⟨hlen, hdigits⟩ := hhex ("\x00".intercalate parts)
  have hten : (shortHash sha256Hex parts).length = 10 := by
    unfold shortHash
    rw [length_take]
    omega
  refine ⟨hten, ?_, ?_⟩
  · intro hnil
    rw [hnil] at hten
    cases hten
  · intro c hc
    unfold isNameRune
    rcases hdigits c (mem_of_mem_take hc) with hdigit | ⟨hlow, hhigh⟩
    · rw [hdigit, Bool.or_true]
    · have hletter : isLowerLetter c := by
        simp only [isLowerLetter, Bool.and_eq_true, decide_eq_true_eq]
        exact ⟨hlow, hhigh.trans (by decide)⟩
      rw [hletter, Bool.true_or]

/-- The words of a name without its hash. Every name begins with the same word. -/
def nameWords (parts : List String) : List (List Char) := chars "tako" :: parts.flatMap partWords

theorem nameWords_isWord (parts : List String) : ∀ w ∈ nameWords parts, IsWord isNameRune w := by
  intro w hw
  rcases mem_cons.mp hw with rfl | hw
  · exact ⟨by decide, all_eq_true.mp (by decide)⟩
  · obtain ⟨part, _, hpart⟩ := mem_flatMap.mp hw
    exact partWords_isWord part w hpart

theorem sanitized_words (hs : isNameRune s = false) (parts : List String) :
    [s].intercalate ((parts.map fun part => sanitizePart part s).filter (!·.isEmpty)) =
      [s].intercalate (parts.flatMap partWords) := by
  have hmap : (parts.map fun part => sanitizePart part s) =
      (parts.map partWords).map [s].intercalate := by
    rw [map_map]
    exact map_congr_left fun part _ => sanitizePart_words hs
  have hwords : ∀ ws ∈ parts.map partWords, ∀ w ∈ ws, IsWord isNameRune w := by
    intro ws hws w hw
    obtain ⟨part, _, rfl⟩ := mem_map.mp hws
    exact partWords_isWord part w hw
  rw [hmap, intercalate_flatten_filter hwords]
  rfl

theorem sanitized_eq :
    ['_'].intercalate ((("tako" :: parts).map fun part => sanitizePart part '_').filter
      (!·.isEmpty)) =
      ['_'].intercalate (nameWords parts) := by
  rw [sanitized_words (by decide), flatMap_cons]
  rfl

theorem sanitizePart_word (hs : isNameRune s = false) (hword : IsWord isNameRune w) :
    sanitizePart (String.ofList w) s = w := by
  rw [sanitizePart_words hs, partWords_nameRunes hword.2 hword.1, intercalate_singleton]

/-- A compact name is the words of its parts, cut to make room, and the hash. -/
theorem compactName_eq (hlen : suffix.length = 10) (hword : IsWord isNameRune suffix)
    (hmax : 15 ≤ maxLen) :
    compactName sha256Hex '_' maxLen ("tako" :: parts) suffix =
      ['_'].intercalate (cut (maxLen - 11) (nameWords parts)) ++ '_' :: suffix := by
  have hsuffix := sanitizePart_word (s := '_') (by decide) hword
  have hsome : (("tako" :: parts).map fun part => sanitizePart part '_').filter (!·.isEmpty) ≠
      [] := by
    exact cons_ne_nil _ _
  have hname := intercalate_append (s := '_') hsome (cons_ne_nil suffix [])
  rw [intercalate_singleton] at hname
  have hlength : (['_'].intercalate (nameWords parts) ++ '_' :: suffix).length =
      (['_'].intercalate (nameWords parts)).length + 11 := by
    rw [length_append, length_cons, hlen]
  unfold compactName
  simp only [hword.1, if_false, hsuffix, hname, hlength, hlen, sanitized_eq]
  by_cases hfits : (['_'].intercalate (nameWords parts)).length + 11 ≤ maxLen
  · rw [if_pos hfits, cut_of_length_le (s := '_') (nameWords_isWord parts) (by omega)]
  · have htrim : trimSep '_' ((['_'].intercalate (nameWords parts)).take (maxLen - (10 + 1))) =
        ['_'].intercalate (cut (maxLen - 11) (nameWords parts)) :=
      trimSep_take (by decide) _ (nameWords_isWord parts)
    have hne : ['_'].intercalate (cut (maxLen - 11) (nameWords parts)) ≠ [] :=
      intercalate_ne_nil (cut_isWord _ (nameWords_isWord parts))
        (cut_ne_nil (by omega) (cons_ne_nil _ _))
    have hcut : maxLen - (10 + 1) < (['_'].intercalate (nameWords parts)).length := by omega
    rw [if_neg hfits, if_neg (by omega)]
    simp only [hcut, if_true, htrim, hne, if_false]

theorem compactName_runes (hhex : HexDigest sha256Hex) (hmax : 15 ≤ maxLen)
    (parts hashed : List String) :
    ∀ c ∈ compactName sha256Hex '_' maxLen ("tako" :: parts) (shortHash sha256Hex hashed),
      c = '_' ∨ isNameRune c := by
  obtain ⟨hlen, hword⟩ := shortHash_word hhex hashed
  intro c hc
  rw [compactName_eq hlen hword hmax, mem_append, mem_cons] at hc
  rcases hc with hbody | hsep | hhash
  · rcases mem_intercalate hbody with hs | ⟨w, hw, hcw⟩
    · exact .inl hs
    · exact .inr ((cut_isWord _ (nameWords_isWord parts) w hw).2 c hcw)
  · exact .inl hsep
  · exact .inr (hword.2 c hhash)

theorem partWords_ne_nil (hmem : c ∈ chars value) (hrune : isNameRune (lowerRune c)) :
    partWords value ≠ [] := by
  refine wordsFrom_ne_nil (.inr ⟨lowerRune c, ?_, hrune⟩)
  exact mem_trimChars (isSpace_nameRune hrune) (mem_map_of_mem hmem)

/-- Cutting after at least five characters keeps the first word. -/
theorem cut_nameWords (hn : 4 < n) (parts : List String) :
    cut n (nameWords parts) = chars "tako" :: cut (n - 5) (parts.flatMap partWords) := by
  have hlen : (chars "tako").length = 4 := by decide
  unfold nameWords
  rw [cut, if_neg (by omega), if_neg (by omega)]
  rfl

/-- The words of the scope are the first words of the name. An environment without a letter or a
digit begins no name. -/
def Begins (project env : String) (name : List (List Char)) : Prop :=
  (env = "" ∨ partWords env ≠ []) ∧ partWords project ++ partWords env <+: name
  deriving Decidable

def scopePrefix (project env : String) : String :=
  if env ≠ "" then environmentPrefix project env else projectPrefix project

theorem nameRune_ne_sep (h : IsWord isNameRune w) : '_' ∉ w := by
  intro hmem
  have hrune := h.2 _ hmem
  exact absurd hrune (by decide)

/-- What a scope has in the place of the environment: without words, one empty word. -/
def environmentWords (env : String) : List (List Char) :=
  if partWords env = [] then [[]] else partWords env

def scopeWords (project env : String) : List (List Char) :=
  chars "tako" :: partWords project ++ (if env ≠ "" then environmentWords env else [])

theorem sanitizePart_environment :
    sanitizePart env '_' = ['_'].intercalate (environmentWords env) := by
  rw [sanitizePart_eq]
  unfold environmentWords
  split_ifs with hnone
  · rw [hnone]
    rfl
  · rfl

theorem scopePrefix_eq (hproj : partWords project ≠ []) : scopePrefix project env =
      String.ofList (['_'].intercalate (scopeWords project env) ++ ['_']) := by
  have henv : environmentWords env ≠ [] := by
    unfold environmentWords
    split_ifs with hnone
    · exact cons_ne_nil _ _
    · exact hnone
  unfold scopePrefix scopeWords
  split_ifs
  · have hjoined := intercalate_flatten (s := '_')
      [[chars "tako"], partWords project, environmentWords env]
      (by simp [hproj.symm, henv.symm])
    simp only [map_cons, map_nil, intercalate_singleton, flatten_cons, flatten_nil,
      append_nil] at hjoined
    unfold environmentPrefix
    rw [sanitizePart_eq, sanitizePart_environment, hjoined]
    rfl
  · have hjoined := intercalate_flatten (s := '_') [[chars "tako"], partWords project]
      (by simp [hproj.symm])
    simp only [map_cons, map_nil, intercalate_singleton, flatten_cons, flatten_nil,
      append_nil] at hjoined
    unfold projectPrefix
    rw [sanitizePart_eq, hjoined, append_nil]
    rfl

theorem scopeWords_no_sep : ∀ w ∈ scopeWords project env, '_' ∉ w := by
  have hpart : ∀ value, ∀ w ∈ partWords value, '_' ∉ w := fun value w hw =>
    nameRune_ne_sep (partWords_isWord value w hw)
  intro w hw
  unfold scopeWords environmentWords at hw
  rcases mem_append.mp hw with hw | hw
  · rcases mem_cons.mp hw with rfl | hw
    · decide
    · exact hpart project w hw
  · split_ifs at hw
    · rw [mem_singleton] at hw
      simp [hw]
    · exact hpart env w hw
    · cases hw

theorem scopeWords_prefix_iff (hname : ∀ w ∈ name, IsWord isNameRune w) :
    scopeWords project env <+: chars "tako" :: name ↔ Begins project env name := by
  have hempty : partWords "" = [] := by decide
  unfold scopeWords environmentWords Begins
  rw [cons_append, cons_prefix_cons]
  by_cases hnone : env = ""
  · simp [hnone, hempty]
  · by_cases hwords : partWords env = []
    · simp only [hnone, hwords, ne_eq, not_false_eq_true, if_true, true_and, false_or,
        not_true_eq_false, false_and, iff_false]
      rintro ⟨rest, hrest⟩
      have hmem : ([] : List Char) ∈ name := by
        rw [← hrest]
        simp
      exact (hname _ hmem).1 rfl
    · simp [hnone, hwords]

/-- A name begins with the prefix of a scope exactly when its words begin with those of the
scope; the hash plays no part. -/
theorem hasPrefix_scope_iff (hhex : HexDigest sha256Hex) (hproj : partWords project ≠ [])
    (env : String) (hmax : 16 ≤ maxLen) (parts hashed : List String) :
    hasPrefix (String.ofList (compactName sha256Hex '_' maxLen ("tako" :: parts)
      (shortHash sha256Hex hashed))) (scopePrefix project env) ↔
      Begins project env (cut (maxLen - 16) (parts.flatMap partWords)) := by
  obtain ⟨hlen, hword⟩ := shortHash_word hhex hashed
  have hparts : ∀ w ∈ parts.flatMap partWords, IsWord isNameRune w := by
    intro w hw
    exact nameWords_isWord parts w (mem_cons_of_mem _ hw)
  have hkept := cut_isWord (maxLen - 11) (nameWords_isWord parts)
  have hcut := cut_nameWords (n := maxLen - 11) (by omega) parts
  unfold hasPrefix
  rw [compactName_eq hlen hword (by omega), scopePrefix_eq hproj, chars_eq_toList, chars_eq_toList,
    String.toList_ofList, String.toList_ofList, isPrefixOf_iff_prefix,
    prefix_append_iff (nameRune_ne_sep hword),
    intercalate_prefix_iff scopeWords_no_sep
      (fun w hw => nameRune_ne_sep (hkept w hw)) (by simp [scopeWords]) (by simp [hcut]), hcut]
  exact scopeWords_prefix_iff (cut_isWord _ hparts)

end ResourceNames
