import Mathlib.Algebra.Ring.Nat
import Mathlib.Data.Bool.AllAny
import Tako.GoMaps

/-! # Environment files

The file `EnvFile.ToReader` writes for a service, read back by the rules of Docker for
`--env-file`, which process neither quotes nor escapes.
-/
namespace EnvFiles

open List GoPrelude GoMaps

structure EnvFile where
  values : StringMap
  (id createdAt : String)
  id_line : '\n' ∉ chars id
  createdAt_line : '\n' ∉ chars createdAt

def hexEncode (bytes : List UInt8) : String :=
  String.ofList (bytes.flatMap fun b =>
    [Nat.digitChar (b.toNat / 16), Nat.digitChar (b.toNat % 16)])

theorem hexEncode_line : '\n' ∉ chars (hexEncode bytes) := by
  have hdigit : ∀ n < 16, Nat.digitChar n ≠ '\n' := by decide
  unfold hexEncode
  rw [chars_eq_toList, String.toList_ofList]
  intro hmem
  obtain ⟨b, _, hb⟩ := mem_flatMap.mp hmem
  have hbyte : b.toNat < 256 := b.toNat_lt
  rcases mem_cons.mp hb with heq | hb
  · exact hdigit _ (by omega) heq.symm
  · exact hdigit _ (by omega) (mem_singleton.mp hb).symm

/-- `NewEnvFile`, given the random bytes and the time as RFC 3339 writes it. -/
def newEnvFile (b : List UInt8) (createdAt : String) (hline : '\n' ∉ chars createdAt) :
    EnvFile where
  values := ∅
  id := hexEncode b
  createdAt := createdAt
  id_line := hexEncode_line
  createdAt_line := hline

namespace EnvFile

variable (ef : EnvFile)

def set (key value : String) : EnvFile := { ef with values := ef.values.insert key value }

def escapeRune (c : Char) : List Char :=
  match c with
  | '"' => ['\\', '"']
  | '\\' => ['\\', '\\']
  | '\n' => ['\\', 'n']
  | '\r' => ['\\', 'r']
  | '\t' => ['\\', 't']
  | '$' => ['\\', '$']
  | _ => [c]

def escapeValue (value : String) : String :=
  let escaped := (chars value).flatMap escapeRune
  let spaced := (chars value).any fun c => c == ' ' || c == '\t'
  String.ofList (if spaced && escaped.head? != some '"' then '"' :: escaped ++ ['"'] else escaped)

def header : List String :=
  ["# Tako Environment File", "# Generated: " ++ ef.createdAt, "# ID: " ++ ef.id,
    "# This file is automatically deleted after deployment", ""]

def line (key : String) : String := key ++ "=" ++ escapeValue ((ef.values.lookup key).getD "")

def toReader : String := fileText (ef.header ++ (sortStrings ef.values.keys).map ef.line)

def size : ℕ :=
  (ef.values.entries.map fun binding => binding.1.utf8ByteSize + binding.2.utf8ByteSize + 2).sum

def isKeyRune (c : Char) : Bool := isUpperLetter c || isLowerLetter c || isDigit c || c == '_'

def firstInvalid : ℕ → List Char → Option (Char × ℕ)
  | _, [] => none
  | i, c :: rest => if isKeyRune c then firstInvalid (i + c.utf8Size) rest else some (c, i)

def validateKey (key : String) : Except String Unit :=
  match chars key with
  | [] => .error "empty environment variable name"
  | first :: rest =>
    if isUpperLetter first || isLowerLetter first || first == '_' then
      match firstInvalid 0 (first :: rest) with
      | some (r, i) =>
        .error s!"invalid character '{r}' at position {i} in environment variable name '{key}'"
      | none => .ok ()
    else .error s!"invalid environment variable name '{key}': must start with letter or underscore"

def maxSize : ℕ := 1024 * 1024

/-- The keys are checked in the order of the map, which Go leaves open. -/
def validate : Except String Unit := do
  require (ef.values.keys ≠ []) "env file is empty"
  ef.values.keys.forM validateKey
  require (ef.size ≤ maxSize) s!"env file too large: {ef.size} bytes (max {maxSize})"

end EnvFile

def isBlank (c : Char) : Bool := c == ' ' || c == '\t'

/-- A line is a binding unless it is empty or a comment. -/
def dockerLine (line : String) : Option (String × String) :=
  let l := (chars line).dropWhile isBlank
  if l.head? = none ∨ l.head? = some '#' ∨ '=' ∉ l then none
  else some (String.ofList (l.takeWhile (· ≠ '=')), String.ofList ((l.dropWhile (· ≠ '=')).drop 1))

def dockerEnvFile (text : String) : StringMap := ofBindings ((split text '\n').filterMap dockerLine)

namespace EnvFile

variable {ef : EnvFile}

variable {l : List Char}

theorem firstInvalid_none (h : firstInvalid i l = none) : ∀ c ∈ l, isKeyRune c = true := by
  induction l generalizing i with
  | nil => intro c hc; cases hc
  | cons d rest ih =>
    unfold firstInvalid at h
    split_ifs at h with hd
    exact forall_mem_cons.mpr ⟨hd, ih h⟩

theorem validateKey_ok (h : validateKey key = .ok ()) :
    chars key ≠ [] ∧ ∀ c ∈ chars key, isKeyRune c = true := by
  unfold validateKey at h
  split at h
  · cases h
  · rename_i first rest hchars
    split_ifs at h with hfirst
    split at h
    · cases h
    · rename_i hnone
      rw [hchars]
      exact ⟨cons_ne_nil _ _, firstInvalid_none hnone⟩

theorem validate_keys (h : ef.validate = .ok ()) :
    ∀ key ∈ ef.values.keys, validateKey key = .ok () := by
  unfold validate at h
  simp only [bind_eq_ok, require_eq_ok] at h
  obtain ⟨_, _, _, hkeys, _⟩ := h
  exact forM_eq_ok.mp hkeys

theorem escapeRune_no_newline (c : Char) : '\n' ∉ escapeRune c := by
  unfold escapeRune
  split
  case h_7 hnewline _ _ _ => simpa using fun heq => hnewline heq.symm
  all_goals decide

theorem escapeValue_no_newline (value : String) : '\n' ∉ chars (escapeValue value) := by
  have hescaped : '\n' ∉ (chars value).flatMap escapeRune := by
    intro hmem
    obtain ⟨c, _, hc⟩ := mem_flatMap.mp hmem
    exact escapeRune_no_newline c hc
  unfold escapeValue
  rw [chars_eq_toList, String.toList_ofList]
  split_ifs
  · simpa using hescaped
  · exact hescaped

def isEscaped (c : Char) : Bool :=
  c == '"' || c == '\\' || c == '\n' || c == '\r' || c == '\t' || c == '$'

theorem escapeRune_plain (h : isEscaped c = false) : escapeRune c = [c] := by
  unfold escapeRune
  split
  case h_7 => rfl
  all_goals exact absurd h (by decide)

theorem escapeRune_escaped (h : isEscaped c) : ∃ d, escapeRune c = ['\\', d] := by
  unfold escapeRune
  split
  case h_7 => simp_all [isEscaped]
  all_goals exact ⟨_, rfl⟩

theorem length_escapeRune_pos (c : Char) : 1 ≤ (escapeRune c).length := by
  cases h : isEscaped c with
  | false => rw [escapeRune_plain h]; exact le_refl 1
  | true =>
    obtain ⟨d, hd⟩ := escapeRune_escaped h
    rw [hd]
    exact Nat.le_succ 1

theorem escapeRune_head : (escapeRune c).head? ≠ some '"' := by
  cases h : isEscaped c with
  | false =>
    rw [escapeRune_plain h]
    intro hc
    rw [Option.some.inj hc] at h
    exact absurd h (by decide)
  | true =>
    obtain ⟨d, hd⟩ := escapeRune_escaped h
    rw [hd]
    simp

theorem flatMap_escapeRune_plain (h : ∀ c ∈ l, isEscaped c = false) : l.flatMap escapeRune = l := by
  induction l with
  | nil => rfl
  | cons c rest ih =>
    rw [flatMap_cons, escapeRune_plain (h c mem_cons_self),
      ih fun d hd => h d (mem_cons_of_mem _ hd)]
    rfl

theorem length_flatMap_escapeRune (l : List Char) : l.length ≤ (l.flatMap escapeRune).length := by
  induction l with
  | nil => exact le_refl 0
  | cons c =>
    have hc := length_escapeRune_pos c
    rw [flatMap_cons, length_append, length_cons]
    omega

theorem length_flatMap_escapeRune_lt (h : ∃ c ∈ l, isEscaped c = true) :
    l.length < (l.flatMap escapeRune).length := by
  induction l with
  | nil => obtain ⟨c, hc, _⟩ := h; cases hc
  | cons c rest ih =>
    rw [flatMap_cons, length_append, length_cons]
    cases hc : isEscaped c with
    | true =>
      obtain ⟨d, hd⟩ := escapeRune_escaped hc
      have hlen : (escapeRune c).length = 2 := by rw [hd]; rfl
      have hrest := length_flatMap_escapeRune rest
      omega
    | false =>
      obtain ⟨d, hd, hescaped⟩ := h
      have hmem : d ∈ rest := by
        rcases mem_cons.mp hd with rfl | hmem
        · rw [hc] at hescaped
          cases hescaped
        · exact hmem
      have hrest := ih ⟨d, hmem, hescaped⟩
      have hone := length_escapeRune_pos c
      omega

theorem flatMap_escapeRune_head (l : List Char) : ((l.flatMap escapeRune).head? != some '"') := by
  cases l with
  | nil => rfl
  | cons c rest =>
    have hpos := length_escapeRune_pos c
    have hhead : ((c :: rest).flatMap escapeRune).head? = (escapeRune c).head? := by
      exact head?_append_of_ne_nil _ (ne_nil_of_length_pos hpos)
    rw [hhead, bne_iff_ne]
    exact escapeRune_head

/-- The quotes are set around every value with a blank: no escaped value starts with one. -/
theorem escapeValue_eq : chars (escapeValue value) =
      if (chars value).any (fun c => c == ' ' || c == '\t') then
        '"' :: (chars value).flatMap escapeRune ++ ['"']
      else (chars value).flatMap escapeRune := by
  unfold escapeValue
  simp only [flatMap_escapeRune_head, Bool.and_true, chars_eq_toList, String.toList_ofList]

/-- A value is written as it is exactly when it has no blank and none of the escaped characters. -/
theorem escapeValue_eq_self_iff :
    escapeValue value = value ↔ ∀ c ∈ chars value, isEscaped c = false ∧ c ≠ ' ' := by
  have hchars : escapeValue value = value ↔ chars (escapeValue value) = chars value := by
    rw [chars_eq_toList, chars_eq_toList, String.toList_inj]
  rw [hchars, escapeValue_eq]
  constructor
  · intro heq c hc
    split_ifs at heq with hspaced
    · have hlen := congrArg length heq
      have hmin := length_flatMap_escapeRune (chars value)
      simp only [cons_append, length_cons, length_append] at hlen
      omega
    · constructor
      · by_contra hescaped
        rw [Bool.not_eq_false] at hescaped
        have hlt := length_flatMap_escapeRune_lt ⟨c, hc, hescaped⟩
        rw [heq] at hlt
        exact absurd hlt (lt_irrefl _)
      · rintro rfl
        exact hspaced (any_eq_true.mpr ⟨' ', hc, by decide⟩)
  · intro hplain
    have hspaced : ¬ (chars value).any (fun c => c == ' ' || c == '\t') := by
      intro hany
      obtain ⟨c, hc, hblank⟩ := any_eq_true.mp hany
      obtain ⟨hescaped, hspace⟩ := hplain c hc
      rcases Bool.or_eq_true _ _ |>.mp hblank with heq | heq
      · exact hspace (beq_iff_eq.mp heq)
      · rw [beq_iff_eq.mp heq] at hescaped
        exact absurd hescaped (by decide)
    rw [if_neg hspaced, flatMap_escapeRune_plain fun c hc => (hplain c hc).1]

theorem keyRune_ne (h : isKeyRune c) : isBlank c = false ∧ c ≠ '#' ∧ c ≠ '=' ∧ c ≠ '\n' := by
  refine ⟨?_, ?_, ?_, ?_⟩
  · by_contra hblank
    rw [Bool.not_eq_false] at hblank
    rcases Bool.or_eq_true _ _ |>.mp hblank with heq | heq <;>
      · rw [beq_iff_eq.mp heq] at h
        exact absurd h (by decide)
  all_goals
    rintro rfl
    exact absurd h (by decide)

theorem dockerLine_binding (hne : chars key ≠ []) (hkey : ∀ c ∈ chars key, isKeyRune c) :
    dockerLine (key ++ "=" ++ value) = some (key, value) := by
  have hchars : chars (key ++ "=" ++ value) = chars key ++ '=' :: chars value := by simp
  obtain ⟨first, rest, hfirst⟩ := exists_cons_of_ne_nil hne
  have hblank := (keyRune_ne (hkey first (hfirst ▸ mem_cons_self))).1
  have hcomment : first ≠ '#' := (keyRune_ne (hkey first (hfirst ▸ mem_cons_self))).2.1
  have hdrop : (chars (key ++ "=" ++ value)).dropWhile isBlank = chars key ++
      '=' :: chars value := by
    rw [hchars, hfirst, cons_append, dropWhile_cons_of_neg (by simp [hblank])]
  have hequals : ∀ c ∈ chars key, decide (c ≠ '=') := by
    intro c hc
    exact decide_eq_true (keyRune_ne (hkey c hc)).2.2.1
  have htake : (chars key ++ '=' :: chars value).takeWhile (· ≠ '=') = chars key := by
    rw [takeWhile_append_of_pos hequals]
    simp
  have hrest : (chars key ++ '=' :: chars value).dropWhile (· ≠ '=') = '=' :: chars value := by
    rw [dropWhile_append_of_pos hequals]
    simp
  have hbinding : ¬ ((chars key ++ '=' :: chars value).head? = none ∨
      (chars key ++ '=' :: chars value).head? = some '#' ∨
        '=' ∉ chars key ++ '=' :: chars value) := by
    rw [hfirst]
    simp [hcomment]
  unfold dockerLine
  rw [hdrop]
  rw [if_neg hbinding, htake, hrest]
  simp

theorem dockerLine_comment {line : String} (h : chars line = '#' :: rest) :
    dockerLine line = none := by
  have hdrop : (chars line).dropWhile isBlank = '#' :: rest := by
    rw [h]
    rfl
  unfold dockerLine
  rw [hdrop]
  simp

theorem header_comments : ∀ line ∈ ef.header, dockerLine line = none ∧ '\n' ∉ chars line := by
  have hgenerated : chars ("# Generated: " ++ ef.createdAt) = '#' ::
      (" Generated: ".toList ++ chars ef.createdAt) := by
    simp only [chars_eq_toList, String.toList_append]
    rfl
  have hid : chars ("# ID: " ++ ef.id) = '#' :: (" ID: ".toList ++ chars ef.id) := by
    simp only [chars_eq_toList, String.toList_append]
    rfl
  have hcreated := ef.createdAt_line
  have hidLine := ef.id_line
  unfold header
  simp only [forall_mem_cons, not_mem_nil, IsEmpty.forall_iff, implies_true, and_true]
  refine ⟨?_, ?_, ?_, ?_, ?_⟩
  · decide +kernel
  · exact ⟨dockerLine_comment hgenerated, by rw [hgenerated]; simpa using hcreated⟩
  · exact ⟨dockerLine_comment hid, by rw [hid]; simpa using hidLine⟩
  · decide +kernel
  · decide +kernel

theorem line_no_newline (hkey : ∀ c ∈ chars key, isKeyRune c) : '\n' ∉ chars (ef.line key) := by
  have hvalue := escapeValue_no_newline ((ef.values.lookup key).getD "")
  have hname : '\n' ∉ chars key := fun hmem => (keyRune_ne (hkey _ hmem)).2.2.2 rfl
  unfold line
  simp_all

/-- Docker reads every binding with the value as it was escaped. -/
theorem dockerEnvFile_lookup (hvalid : ef.validate = .ok ()) :
    (dockerEnvFile ef.toReader).lookup key = (ef.values.lookup key).map escapeValue := by
  have hsorted : ∀ k ∈ sortStrings ef.values.keys, chars k ≠ [] ∧ ∀ c ∈ chars k, isKeyRune c := by
    intro k hk
    exact validateKey_ok (validate_keys hvalid k ((mem_insertionSort _).mp hk))
  have hlines : ∀ l ∈ ef.header ++ (sortStrings ef.values.keys).map ef.line, '\n' ∉ chars l := by
    intro l hl
    rcases mem_append.mp hl with hheader | hbinding
    · exact (header_comments l hheader).2
    · obtain ⟨k, hk, rfl⟩ := mem_map.mp hbinding
      exact line_no_newline (hsorted k hk).2
  have hbind : ((sortStrings ef.values.keys).map ef.line).filterMap dockerLine =
      (sortStrings ef.values.keys).map fun k =>
        (k, escapeValue ((ef.values.lookup k).getD "")) := by
    rw [filterMap_map]
    apply filterMap_eq_map_iff_forall_eq_some.mpr
    intro k hk
    exact dockerLine_binding (hsorted k hk).1 (hsorted k hk).2
  have hheader : ef.header.filterMap dockerLine = [] := by
    rw [filterMap_eq_nil_iff]
    exact fun l hl => (header_comments l hl).1
  have hlast : [""].filterMap dockerLine = [] := by decide +kernel
  unfold dockerEnvFile toReader ofBindings
  rw [split_fileText hlines, filterMap_append, filterMap_append, hheader, hbind, hlast,
    nil_append, append_nil, lookup_foldl_insert]
  cases hlookup : ef.values.lookup key with
  | none =>
    have hmem : key ∉ sortStrings ef.values.keys := by
      rw [sortStrings, mem_insertionSort]
      exact AList.lookup_eq_none.mp hlookup
    rw [if_neg hmem]
    rfl
  | some =>
    have hmem : key ∈ sortStrings ef.values.keys := by
      rw [sortStrings, mem_insertionSort]
      exact AList.lookup_isSome.mp (by rw [hlookup]; rfl)
    rw [if_pos hmem]
    rfl

/-- The container receives exactly the values of the map if and only if none of them has a
blank, a quotation mark, a backslash or a dollar sign. -/
theorem container_values_exact_iff (hvalid : ef.validate = .ok ())
    (hvalues : ∀ key value, ef.values.lookup key = some value →
      ∀ c ∈ chars value, c ≠ '\n' ∧ c ≠ '\r' ∧ c ≠ '\x00') :
    (∀ key, (dockerEnvFile ef.toReader).lookup key = ef.values.lookup key) ↔
      ∀ key value, ef.values.lookup key = some value →
        ∀ c ∈ chars value, c ≠ ' ' ∧ c ≠ '\t' ∧ c ≠ '"' ∧ c ≠ '\\' ∧ c ≠ '$' := by
  have hexact : (∀ key, (dockerEnvFile ef.toReader).lookup key = ef.values.lookup key) ↔
      ∀ key value, ef.values.lookup key = some value → escapeValue value = value := by
    constructor
    · intro h key value hlookup
      have hkey := h key
      rw [dockerEnvFile_lookup hvalid, hlookup] at hkey
      exact Option.some.inj hkey
    · intro h key
      rw [dockerEnvFile_lookup hvalid]
      cases hlookup : ef.values.lookup key with
      | none => rfl
      | some value => exact congrArg some (h key value hlookup)
  rw [hexact]
  refine forall_congr' fun key => forall_congr' fun value => forall_congr' fun hlookup => ?_
  rw [escapeValue_eq_self_iff]
  refine forall_congr' fun c => forall_congr' fun hc => ?_
  obtain ⟨hnewline, hreturn, -⟩ := hvalues key value hlookup c hc
  unfold isEscaped
  simp only [Bool.or_eq_false_iff, beq_eq_false_iff_ne]
  tauto

def single (key value : String) : EnvFile :=
  (newEnvFile [0, 1, 2, 3, 4, 5, 6, 7] "2026-01-01T00:00:00Z" (by decide +kernel)).set key value

theorem single_lookup (h : (single key value).values.lookup name = some found) : found = value := by
  unfold single set newEnvFile at h
  by_cases hname : name = key
  · subst hname
    rw [AList.lookup_insert] at h
    exact (Option.some.inj h).symm
  · rw [AList.lookup_insert_ne hname, AList.lookup_empty] at h
    cases h

theorem container_values_exact_token : (single "API_TOKEN" "a1b2=c3").validate = .ok () ∧
    ∀ key, (dockerEnvFile (single "API_TOKEN" "a1b2=c3").toReader).lookup key =
      (single "API_TOKEN" "a1b2=c3").values.lookup key := by
  refine ⟨by decide +kernel, (container_values_exact_iff (by decide +kernel) ?_).mpr ?_⟩ <;>
    · intro key value hlookup
      rw [single_lookup hlookup]
      exact all_iff_forall_prop.mp (by decide +kernel)

/-- A password hash reaches the container with a backslash before each dollar sign. -/
theorem dollar_reaches_container_escaped : (single "HASH" "$2a$10$abc").validate = .ok () ∧
      (single "HASH" "$2a$10$abc").values.lookup "HASH" = some "$2a$10$abc" ∧
      (dockerEnvFile (single "HASH" "$2a$10$abc").toReader).lookup "HASH" =
        some "\\$2a\\$10\\$abc" := by
  decide +kernel

end EnvFile

end EnvFiles
