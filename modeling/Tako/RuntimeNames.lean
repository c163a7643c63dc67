import Mathlib
import Tako.PlacementApply
import Tako.ScopedCleanup

/-! # What a name tells

The name of a container, a network or a volume ends in a hash of everything it stands for. The alias
of an exported service has a hash only if it would be too long.
-/
namespace RuntimeNames

open List GoPrelude SeparatedWords ResourceNames ScopedCleanup OperationLeases PlacementApply

def isAlphanumeric (c : Char) : Bool := isLowerLetter c || isUpperLetter c || isDigit c

/-- Docker's rule for names: `[a-zA-Z0-9][a-zA-Z0-9_.-]+`. -/
def DockerName (name : List Char) : Prop :=
  2 ≤ name.length ∧ (∀ c ∈ name.head?, isAlphanumeric c) ∧
    ∀ c ∈ name, isAlphanumeric c ∨ c = '_' ∨ c = '.' ∨ c = '-'

/-- The short hash does not take two texts for one. -/
def Apart (sha256Hex : String → String) (parts others : List String) : Prop :=
  shortHash sha256Hex parts = shortHash sha256Hex others →
    "\x00".intercalate parts = "\x00".intercalate others

/-- A name fits, ends in the hash of its parts, and is that of one identity without a NUL. -/
structure Identifies {ι : Type} (sha256Hex : String → String) (maxLen : ℕ) (parts : ι → List String)
    (name : ι → String) : Prop where
  fits : ∀ i, (chars (name i)).length ≤ maxLen
  ends : ∀ i, shortHash sha256Hex (parts i) <:+ chars (name i)
  accepted : ∀ i, DockerName (chars (name i))
  injective : ∀ i j, (∀ part ∈ parts i ++ parts j, '\x00' ∉ part.toList) →
    Apart sha256Hex (parts i) (parts j) →
    name i = name j → i = j

theorem parts_eq_of_joined (h : "\x00".intercalate parts = "\x00".intercalate others)
    (hnul : ∀ part ∈ parts ++ others, '\x00' ∉ part.toList) (hne : parts ≠ [])
    (hothers : others ≠ []) : parts = others := by
  have hsplit : ∀ {l : List String}, (∀ part ∈ l, '\x00' ∉ part.toList) → l ≠ [] →
      (("\x00".intercalate l).toList).splitOn '\x00' = l.map String.toList := by
    intro l hl hne
    rw [String.toList_intercalate]
    exact splitOn_intercalate '\x00' (by simpa using hl) (by simpa using hne)
  have hlists : parts.map String.toList = others.map String.toList := by
    rw [← hsplit (fun part hpart => hnul part (mem_append_left _ hpart)) hne, h,
      hsplit (fun part hpart => hnul part (mem_append_right _ hpart)) hothers]
  exact map_injective_iff.mpr (fun _ _ => String.toList_inj.mp) hlists

theorem isAlphanumeric_nameRune (h : isNameRune c) : isAlphanumeric c := by
  simp only [isNameRune, isAlphanumeric, Bool.or_eq_true] at *
  tauto

theorem identifies_compactName {ι : Type} {parts shown : ι → List String}
    (hhex : HexDigest sha256Hex) (hmax : 15 ≤ maxLen) (hparts : ∀ i j, parts i = parts j → i = j)
    (hne : ∀ i, parts i ≠ []) :
    Identifies sha256Hex maxLen parts fun i =>
      String.ofList (compactName sha256Hex '_' maxLen ("tako" :: shown i)
        (shortHash sha256Hex (parts i))) := by
  have hlen : ∀ i, (shortHash sha256Hex (parts i)).length = 10 := fun i =>
    (shortHash_word hhex (parts i)).1
  have hname : ∀ i, compactName sha256Hex '_' maxLen ("tako" :: shown i)
      (shortHash sha256Hex (parts i)) =
      ['_'].intercalate (cut (maxLen - 11) (nameWords (shown i))) ++
        '_' :: shortHash sha256Hex (parts i) :=
    fun i => compactName_eq (hlen i) (shortHash_word hhex (parts i)).2 hmax
  have hwords := fun i => cut_isWord (maxLen - 11) (nameWords_isWord (shown i))
  refine ⟨?_, ?_, ?_, ?_⟩
  · intro i
    have hcut := cut_length (s := '_') (by decide) (maxLen - 11) (nameWords_isWord (shown i))
    rw [chars_eq_toList, String.toList_ofList, hname, length_append, length_cons, hlen]
    omega
  · intro i
    rw [chars_eq_toList, String.toList_ofList, hname, append_cons]
    exact suffix_append _ _
  · intro i
    have hrunes := compactName_runes hhex hmax (shown i) (parts i)
    rw [chars_eq_toList, String.toList_ofList]
    refine ⟨?_, ?_, ?_⟩
    · rw [hname, length_append, length_cons, hlen]
      omega
    · intro c hc
      have hstart : ['_'].intercalate (cut (maxLen - 11) (nameWords (shown i))) ≠ [] :=
        intercalate_ne_nil (hwords i) (cut_ne_nil (by omega) (cons_ne_nil _ _))
      rw [hname, head?_append_of_ne_nil _ hstart] at hc
      exact isAlphanumeric_nameRune (intercalate_head (hwords i) c hc)
    · intro c hc
      rcases hrunes c hc with hsep | hrune
      · exact .inr (.inl hsep)
      · exact .inl (isAlphanumeric_nameRune hrune)
  · intro i j hnul hapart heq
    have hchars := String.ofList_injective heq
    rw [hname, hname] at hchars
    have htail := (append_inj' hchars (by simp [hlen])).2
    exact hparts i j (parts_eq_of_joined (hapart (cons.inj htail).2) hnul (hne i) (hne j))

/-- The parts of a name are without a NUL; the short hash has to tell only the two names apart. -/
theorem names_identify (O : Oracles) (hhex : HexDigest O.sha256Hex) : Identifies O.sha256Hex 128
        (fun i : String × String × String × ℤ => [i.1, i.2.1, i.2.2.1, toString i.2.2.2])
        (fun i => containerName O i.1 i.2.1 i.2.2.1 i.2.2.2) ∧
      Identifies O.sha256Hex 128
        (fun i : String × String × String × String × ℤ =>
          [i.1, i.2.1, i.2.2.1, i.2.2.2.1, toString i.2.2.2.2])
        (fun i => revisionContainerName O i.1 i.2.1 i.2.2.1 i.2.2.2.1 i.2.2.2.2) ∧
      Identifies O.sha256Hex 63 (fun i : String × String => [i.1, i.2])
        (fun i => networkName O.sha256Hex i.1 i.2) ∧
      Identifies O.sha256Hex 128 (fun i : String × String × String => [i.1, i.2.1, i.2.2])
        (fun i => volumeName O.sha256Hex i.1 i.2.1 i.2.2) := by
  have hslot : ∀ a b : ℤ, toString a = toString b → a = b := fun _ _ => Int.repr_inj.mp
  refine ⟨?_, ?_, ?_, ?_⟩
  · refine identifies_compactName hhex (by decide) ?_ (by simp)
    rintro ⟨p, e, s, slot⟩ ⟨p', e', s', slot'⟩ h
    simp only [cons.injEq, and_true] at h
    obtain ⟨rfl, rfl, rfl, h⟩ := h
    rw [hslot _ _ h]
  · refine identifies_compactName hhex (by decide) ?_ (by simp)
    rintro ⟨p, e, s, r, slot⟩ ⟨p', e', s', r', slot'⟩ h
    simp only [cons.injEq, and_true] at h
    obtain ⟨rfl, rfl, rfl, rfl, h⟩ := h
    rw [hslot _ _ h]
  · exact identifies_compactName hhex (by decide) (by rintro ⟨p, e⟩ ⟨p', e'⟩ h; simpa using h)
      (by simp)
  · exact identifies_compactName hhex (by decide)
      (by rintro ⟨p, e, v⟩ ⟨p', e', v'⟩ h; simpa using h) (by simp)

/-- A digest that tells one text from all others. -/
def markedDigest (parts : List String) (text : String) : String :=
  String.ofList (replicate 64 (if text = "\x00".intercalate parts then 'b' else 'a'))

theorem markedDigest_hex : HexDigest (markedDigest parts) := by
  intro text
  unfold markedDigest
  rw [chars_eq_toList, String.toList_ofList]
  refine ⟨by simp, fun c hc => ?_⟩
  rw [eq_of_mem_replicate hc]
  split_ifs <;> decide

def markedOracles : Oracles :=
  ⟨markedDigest ["shop", "production", "web", "1"], fun _ => "", fun _ => "", fun _ _ _ _ => ""⟩

theorem slot_names_differ : containerName markedOracles "shop" "production" "web" 1 ≠
    containerName markedOracles "shop" "production" "web" 2 := by
  have hidentify := (names_identify markedOracles markedDigest_hex).1
  intro heq
  have hslots := hidentify.injective ("shop", "production", "web", 1)
    ("shop", "production", "web", 2)
    (by decide +kernel) (fun hhash => absurd hhash (by decide +kernel)) heq
  exact absurd hslots (by decide)

/-- The parts are joined with a NUL before they are hashed. -/
theorem nul_moves_between_parts : ("a\x00b", "c") ≠ ("a", "b\x00c") ∧
    ∀ sha256Hex, HexDigest sha256Hex →
      networkName sha256Hex "a\x00b" "c" = networkName sha256Hex "a" "b\x00c" := by
  refine ⟨by decide, fun sha256Hex hhex => ?_⟩
  have hjoined : "\x00".intercalate ["a\x00b", "c"] = "\x00".intercalate ["a", "b\x00c"] := by
    decide
  have hwords : nameWords ["a\x00b", "c"] = nameWords ["a", "b\x00c"] := by decide +kernel
  have hhash : shortHash sha256Hex ["a\x00b", "c"] = shortHash sha256Hex ["a", "b\x00c"] := by
    unfold shortHash
    rw [hjoined]
  obtain ⟨hlen, hword⟩ := shortHash_word hhex ["a", "b\x00c"]
  unfold networkName
  rw [hhash, compactName_eq hlen hword (by decide), compactName_eq hlen hword (by decide), hwords]

section

variable (sha256Hex : String → String) (i : Exported)

def readableName (separator : Char) (maxLen : ℕ) (parts : List String) (suffix : List Char) :
    List Char :=
  let sanitized := (parts.map fun part => sanitizePart part separator).filter (!·.isEmpty)
  let name := trimSep separator ([separator].intercalate sanitized)
  let name := if name = [] then sanitizePart (String.ofList suffix) separator else name
  let name := if name = [] then ['i', 'd'] else name
  if name.length ≤ maxLen then name
  else
    let suffix := sanitizePart (String.ofList suffix) separator
    let suffix := if suffix = [] then shortHash sha256Hex ["\x00".intercalate parts] else suffix
    if maxLen ≤ suffix.length + 1 then
      if suffix.length ≤ maxLen then suffix else suffix.take maxLen
    else
      let stem := trimSep separator (name.take (maxLen - (suffix.length + 1)))
      if stem = [] then suffix else stem ++ separator :: suffix

/-- A project, an environment and a service. -/
structure Exported where
  (project environment service : String)

def exportAlias : String :=
  String.ofList (readableName sha256Hex '-' dockerNetworkMax [i.project, i.environment, i.service]
    (shortHash sha256Hex [i.project, i.environment, i.service, "export-alias"]))

/-- The words of the three names, without a mark where one name ends. -/
def Exported.words : List (List Char) := [i.project, i.environment, i.service].flatMap partWords

def Exported.hash : List Char :=
  shortHash sha256Hex [i.project, i.environment, i.service, "export-alias"]

/-- What an alias consists of: only names of more than 63 characters together are cut and get a
hash. -/
def aliasWords : List (List Char) :=
  if (['-'].intercalate i.words).length ≤ 63 then i.words else cut 52 i.words ++ [i.hash sha256Hex]

/-- The short hash tells the two identities apart, and the names of neither spell out the hash of
the other. -/
structure HashApart (j : Exported) : Prop where
  hash_ne : i.hash sha256Hex ≠ j.hash sha256Hex
  left : j.hash sha256Hex ∉ i.words
  right : i.hash sha256Hex ∉ j.words

end

theorem Exported.words_isWord (i : Exported) : ∀ w ∈ i.words, IsWord isNameRune w := by
  intro w hw
  obtain ⟨part, _, hpart⟩ := mem_flatMap.mp hw
  exact partWords_isWord part w hpart

open Exported

theorem Exported.words_ne_nil {i : Exported} (hsafe : isSafeProjectName i.project) :
    i.words ≠ [] := by
  simp [words, safe_partWords hsafe]

theorem exportAlias_eq (hhex : HexDigest sha256Hex) {i : Exported} (hne : i.words ≠ []) :
    exportAlias sha256Hex i = String.ofList (['-'].intercalate (aliasWords sha256Hex i)) := by
  obtain ⟨hlen, hword⟩ := shortHash_word hhex [i.project, i.environment, i.service, "export-alias"]
  have hsuffix := sanitizePart_word (s := '-') (by decide) hword
  have hsanitized : ['-'].intercalate (([i.project, i.environment, i.service].map fun part =>
      sanitizePart part '-').filter (!·.isEmpty)) = ['-'].intercalate i.words :=
    sanitized_words (by decide) _
  have hname := trimSep_joined (s := '-') (by decide) i.words_isWord
  have hjoined := intercalate_ne_nil (s := '-') i.words_isWord hne
  unfold exportAlias readableName aliasWords Exported.hash dockerNetworkMax
  simp only [hsanitized, hname, hjoined, hsuffix, hword.1, hlen, if_false]
  by_cases hfits : (['-'].intercalate i.words).length ≤ 63
  · simp only [hfits, if_true]
  · have hcut := cut_ne_nil (n := 52) (by decide) hne
    have hstem := trimSep_take (s := '-') (by decide) 52 i.words_isWord
    have hkept := intercalate_ne_nil (s := '-') (cut_isWord 52 i.words_isWord) hcut
    rw [if_neg hfits, if_neg (by decide), if_neg hfits, intercalate_append hcut (cons_ne_nil _ []),
      intercalate_singleton]
    simp only [hstem, hkept, if_false, Nat.reduceAdd, Nat.reduceSub]

theorem aliasWords_isWord (hhex : HexDigest sha256Hex) :
    ∀ w ∈ aliasWords sha256Hex i, IsWord isNameRune w := by
  unfold aliasWords
  split_ifs
  · exact i.words_isWord
  · exact forall_mem_append.mpr
      ⟨cut_isWord 52 i.words_isWord, forall_mem_singleton.mpr (shortHash_word hhex _).2⟩

theorem aliasWords_ne_nil {i : Exported} (hne : i.words ≠ []) : aliasWords sha256Hex i ≠ [] := by
  unfold aliasWords
  split_ifs
  · exact hne
  · simp

/-- An alias is read back as its words. -/
theorem splitOn_exportAlias (hhex : HexDigest sha256Hex) {i : Exported} (hne : i.words ≠ []) :
    (exportAlias sha256Hex i).toList.splitOn '-' = aliasWords sha256Hex i := by
  rw [exportAlias_eq hhex hne, String.toList_ofList]
  refine splitOn_intercalate '-' (fun w hw hmem => ?_) (aliasWords_ne_nil hne)
  exact absurd ((aliasWords_isWord hhex w hw).2 _ hmem) (by decide)

end RuntimeNames
