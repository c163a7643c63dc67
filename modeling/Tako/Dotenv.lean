import Mathlib.Data.List.Chain
import Tako.GoMaps

/-! # Dotenv files

Statements `KEY=value` with plain, single-quoted and double-quoted values, comments, `export`,
escapes and references to the variables already read.
-/
namespace Dotenv

open List GoPrelude GoMaps SeparatedWords

def isBlank (c : Char) : Bool :=
  c == '\t' || c == '\x0b' || c == '\x0c' || c == '\r' || c == ' ' || c.toNat == 0x85 ||
    c.toNat == 0xa0

def isLineEnd (c : Char) : Bool := c == '\n' || c == '\r'

def apostrophe : Char := Char.ofNat 39

def joinLineEnds : List Char → List Char
  | [] => []
  | c :: rest =>
    if c = '\r' ∧ rest.head? = some '\n' then joinLineEnds rest else c :: joinLineEnds rest

/-- The text from the next statement on, without space and comments before it. -/
def nextStatement : Bool → List Char → List Char
  | _, [] => []
  | true, c :: rest => nextStatement (c ≠ '\n') rest
  | false, c :: rest =>
    if isSpace c then nextStatement false rest
    else if c = '#' then nextStatement true rest
    else c :: rest

/-- Names are read byte by byte, each byte as a character: letters, numbers, `_`, `.` and blanks. -/
def isNameByte (b : UInt8) : Bool :=
  let n := b.toNat
  isBlank (Char.ofNat n) || n == 0x5f || n == 0x2e || (0x30 ≤ n && n ≤ 0x39) ||
    (0x41 ≤ n && n ≤ 0x5a) ||
    (0x61 ≤ n && n ≤ 0x7a) || n == 0xaa || n == 0xb5 || n == 0xba || (0xc0 ≤ n && n ≤ 0xd6) ||
    (0xd8 ≤ n && n ≤ 0xf6) || 0xf8 ≤ n || n == 0xb2 || n == 0xb3 || n == 0xb9 ||
      (0xbc ≤ n && n ≤ 0xbe)

def isNameRune (c : Char) : Bool := (String.utf8EncodeChar c).all isNameByte

def scanName : List Char → Except String (Option (List Char × List Char))
  | [] => .ok none
  | c :: rest =>
    if c = '=' ∨ c = ':' then .ok (some ([], rest))
    else if isNameRune c then (scanName rest).map fun found => found.map fun r => (c :: r.1, r.2)
    else .error s!"unexpected character {c} in variable name"

def exportText : List Char := ['e', 'x', 'p', 'o', 'r', 't']

def dropExport (src : List Char) : List Char :=
  if exportText.isPrefixOf src ∧ ((src.drop 6).head?.any isBlank) then
    (src.drop 6).dropWhile isBlank else src

def locateKeyName (src : List Char) : Except String (String × List Char) := do
  let src := dropExport (src.dropWhile isBlank)
  let found ← scanName src
  require (src ≠ []) "zero length string"
  match found with
  | some (key, rest) => .ok (String.ofList (key.rdropWhile isSpace), rest.dropWhile isBlank)
  | none => .ok ("", src.dropWhile isBlank)

def expandLineEscapes : List Char → List Char
  | '\\' :: c :: rest =>
    (if c = 'n' then ['\n'] else if c = 'r' then ['\r'] else ['\\', c]) ++ expandLineEscapes rest
  | c :: rest => c :: expandLineEscapes rest
  | [] => []

def dropBackslashes : List Char → List Char
  | '\\' :: c :: rest =>
    if c = '$' then '\\' :: '$' :: dropBackslashes rest else c :: dropBackslashes rest
  | c :: rest => c :: dropBackslashes rest
  | [] => []

def isVariableRune (c : Char) : Bool := isUpperLetter c || isDigit c || c == '_'

def takeOne (c : Char) (l : List Char) : List Char × List Char :=
  if l.head? = some c then ([c], l.tail) else ([], l)

def takeName (l : List Char) : List Char × List Char :=
  (l.takeWhile isVariableRune, l.dropWhile isVariableRune)

structure Reference where
  (text name rest : List Char)

/-- What follows a dollar sign: a parenthesis, a brace, a name and a brace, each optional. -/
def reference (l : List Char) : Reference :=
  let paren := takeOne '(' l
  let brace := takeOne '{' paren.2
  let name := takeName brace.2
  let close := takeOne '}' name.2
  ⟨paren.1 ++ brace.1 ++ name.1 ++ close.1, name.1, close.2⟩

/-- References become the values of their variables; a backslash before the dollar sign
protects it. Every round takes at least one character. -/
def expandVariables (vars : StringMap) : ℕ → List Char → List Char
  | 0, l => l
  | _, [] => []
  | fuel + 1, c :: rest =>
    if c = '\\' ∧ rest.head? = some '$' then
      let r := reference rest.tail
      '$' :: r.text ++ expandVariables vars fuel r.rest
    else if c = '$' then
      let r := reference rest
      (if r.name = [] then '$' :: r.text else
        chars ((vars.lookup (String.ofList r.name)).getD "")) ++ expandVariables vars fuel r.rest
    else c :: expandVariables vars fuel rest

def expandAll (vars : StringMap) (l : List Char) : List Char := expandVariables vars l.length l

def cutComment : Bool → List Char → List Char
  | _, [] => []
  | blank, c :: rest => if c = '#' ∧ blank then [] else c :: cutComment (isBlank c) rest

def trimBlanks (l : List Char) : List Char := (l.dropWhile isBlank).rdropWhile isBlank

/-- The text up to the first quote without a backslash before it, and the text after it. -/
def closeQuote (quote : Char) : Char → List Char → Option (List Char × List Char)
  | _, [] => none
  | previous, c :: rest =>
    if c = quote ∧ previous ≠ '\\' then some ([], rest)
    else (closeQuote quote c rest).map fun r => (c :: r.1, r.2)

def trimQuotes (quote : Char) (l : List Char) : List Char :=
  (l.rdropWhile (· == quote)).dropWhile (· == quote)

def extractVarValue (vars : StringMap) (src : List Char) : Except String (String × List Char) :=
  match src with
  | [] => .ok ("", [])
  | c :: rest =>
    if c = '"' ∨ c = apostrophe then
      match closeQuote c c rest with
      | none => .error ("unterminated quoted value " ++ String.ofList (src.takeWhile (· ≠ '\n')))
      | some (inner, left) =>
        let value := trimQuotes c (c :: inner)
        .ok (String.ofList
          (if c = '"' then expandAll vars (dropBackslashes (expandLineEscapes value)) else value),
          left)
    else
      let line := src.takeWhile (!isLineEnd ·)
      .ok (String.ofList (expandAll vars (trimBlanks (cutComment false line))),
        src.dropWhile (!isLineEnd ·))

/-- The statements of a file; each takes at least one character. -/
def parseStatements : ℕ → StringMap → List Char → Except String StringMap
  | 0, _, _ => .error "out of statements"
  | fuel + 1, vars, src =>
    match nextStatement false src with
    | [] => .ok vars
    | start => do
      let (key, left) ← locateKeyName start
      let (value, left) ← extractVarValue vars left
      parseStatements fuel (vars.insert key value) left

def unmarshal (text : String) : Except String StringMap :=
  let src := joinLineEnds (chars text)
  parseStatements (src.length + 1) ∅ src

def NoLineEndPair (c d : Char) : Prop := ¬ (c = '\r' ∧ d = '\n')

instance : DecidableRel NoLineEndPair :=
  fun c d => inferInstanceAs (Decidable (¬ (c = '\r' ∧ d = '\n')))

variable {l rest : List Char} {keys : List String} {value : String → String}

theorem joinLineEnds_of_isChain (h : l.IsChain NoLineEndPair) : joinLineEnds l = l := by
  induction l with
  | nil => rfl
  | cons c rest ih =>
    have hpair : ¬ (c = '\r' ∧ rest.head? = some '\n') := by
      rintro ⟨hc, hhead⟩
      cases rest with
      | nil => cases hhead
      | cons => exact (isChain_cons_cons.mp h).1 ⟨hc, Option.some.inj hhead⟩
    unfold joinLineEnds
    rw [if_neg hpair, ih (isChain_cons.mp h).2]

theorem nextStatement_newline (rest : List Char) :
    nextStatement false ('\n' :: rest) = nextStatement false rest := by
  have hspace : isSpace '\n' := by decide
  simp [nextStatement, hspace]

theorem nextStatement_inComment (h : '\n' ∉ text) (rest : List Char) :
    nextStatement true (text ++ '\n' :: rest) = nextStatement false rest := by
  induction text with
  | nil => simp [nextStatement]
  | cons c text ih =>
    have hc : c ≠ '\n' := fun heq => h (heq ▸ mem_cons_self)
    have hrest := ih fun hmem => h (mem_cons_of_mem _ hmem)
    simpa [nextStatement, hc] using hrest

theorem nextStatement_comment (h : '\n' ∉ text) (rest : List Char) :
    nextStatement false ('#' :: text ++ '\n' :: rest) = nextStatement false rest := by
  have hspace : isSpace '#' = false := by decide
  have hcomment := nextStatement_inComment h rest
  simpa [nextStatement, hspace] using hcomment

theorem nextStatement_start (hspace : isSpace c = false) (hcomment : c ≠ '#') :
    nextStatement false (c :: rest) = c :: rest := by
  simp [nextStatement, hspace, hcomment]

theorem parseStatements_congr (h : nextStatement false src = nextStatement false other) (fuel : ℕ)
    (vars : StringMap) : parseStatements fuel vars src = parseStatements fuel vars other := by
  cases fuel with
  | zero => rfl
  | succ => simp only [parseStatements, h]

structure Name (key : List Char) : Prop where
  runes : ∀ c ∈ key, isNameRune c
  first : ∀ c ∈ key.head?, isSpace c = false
  last : ∀ c ∈ key.getLast?, isSpace c = false
  noExport : ¬ (exportText.isPrefixOf key ∧ (key.drop 6).head?.any isBlank)

instance (key : List Char) : Decidable (Name key) :=
  decidable_of_iff (key.all isNameRune ∧ key.head?.all (!isSpace ·) ∧
    key.getLast?.all (!isSpace ·) ∧
    ¬ (exportText.isPrefixOf key ∧ (key.drop 6).head?.any isBlank)) (by
    simp only [all_eq_true, Option.all_eq_true, Bool.not_eq_true']
    exact ⟨fun ⟨runes, first, last, noExport⟩ => ⟨runes, first, last, noExport⟩,
      fun ⟨runes, first, last, noExport⟩ => ⟨runes, first, last, noExport⟩⟩)

theorem isSpace_of_isBlank (h : isBlank c) : isSpace c := by
  unfold isBlank at h
  simp only [Bool.or_eq_true, beq_iff_eq] at h
  rcases h with ((((((rfl | rfl) | rfl) | rfl) | rfl) | h) | h)
  any_goals decide
  all_goals simp [isSpace, h]

theorem isBlank_of_isSpace (h : isSpace c = false) : isBlank c = false := by
  by_contra hblank
  rw [isSpace_of_isBlank (Bool.not_eq_false _ ▸ hblank)] at h
  cases h

theorem nameRune_ne (h : isNameRune c) : c ≠ '=' ∧ c ≠ ':' ∧ c ≠ '#' ∧ c ≠ '\n' := by
  refine ⟨?_, ?_, ?_, ?_⟩ <;>
    · rintro rfl
      exact absurd h (by decide)

theorem scanName_append (h : ∀ c ∈ key, isNameRune c) :
    scanName (key ++ '=' :: rest) = .ok (some (key, rest)) := by
  induction key with
  | nil => simp [scanName]
  | cons c key ih =>
    have hc := h c mem_cons_self
    obtain ⟨hequals, hcolon, -, -⟩ := nameRune_ne hc
    have hrest := ih fun d hd => h d (mem_cons_of_mem _ hd)
    simp only [cons_append, scanName, hequals, hcolon, or_self, if_false, hc, if_true, hrest]
    rfl

theorem dropExport_name (h : Name key) : dropExport (key ++ '=' :: rest) = key ++ '=' :: rest := by
  have hnone : ¬ (exportText.isPrefixOf (key ++ '=' :: rest) ∧
      ((key ++ '=' :: rest).drop 6).head?.any isBlank) := by
    rintro ⟨hexport, hblank⟩
    have hword := isPrefixOf_iff_prefix.mp hexport
    by_cases hlen : 6 ≤ key.length
    · have hkey := prefix_of_prefix_length_le hword (prefix_append _ _) hlen
      rw [drop_append_of_le_length hlen] at hblank
      cases hafter : key.drop 6 with
      | nil =>
        rw [hafter] at hblank
        exact absurd (show isBlank '=' = true from hblank) (by decide)
      | cons =>
        refine h.noExport ⟨ isPrefixOf_iff_prefix.mpr hkey, ?_⟩
        rw [hafter] at hblank ⊢
        exact hblank
    · -- The sign `=` would be one of the letters.
      have hsign : key ++ ['='] <+: exportText := by
        refine prefix_of_prefix_length_le ?_ hword ?_
        · exact ⟨rest, by simp⟩
        · have hletters : exportText.length = 6 := rfl
          rw [length_append, length_singleton]
          omega
      have hmem : '=' ∈ exportText := hsign.subset (by simp)
      exact absurd hmem (by decide)
  unfold dropExport
  rw [if_neg hnone]

theorem locateKeyName_name (h : Name key) :
    locateKeyName (key ++ '=' :: rest) = .ok (String.ofList key, rest.dropWhile isBlank) := by
  have hstart : (key ++ '=' :: rest).dropWhile isBlank = key ++ '=' :: rest := by
    cases key with
    | nil => rfl
    | cons => exact dropWhile_of_head fun d hd => isBlank_of_isSpace (h.first d hd)
  unfold locateKeyName
  simp only [hstart, dropExport_name h, scanName_append h.runes]
  simp [bind, Except.bind, require, rdropWhile_of_last h.last]

theorem parseStatements_binding {key token value : List Char} (hkey : Name key)
    (hvalue : extractVarValue vars ((token ++ '\n' :: rest).dropWhile isBlank) =
      .ok (String.ofList value, '\n' :: rest)) (fuel : ℕ) :
    parseStatements (fuel + 1) vars (key ++ '=' :: token ++ '\n' :: rest) =
      parseStatements fuel (vars.insert (String.ofList key) (String.ofList value)) rest := by
  have hstart : nextStatement false (key ++ '=' :: token ++ '\n' :: rest) = key ++ '=' :: token ++
      '\n' :: rest := by
    cases key with
    | nil => exact nextStatement_start (by decide) (by decide)
    | cons c =>
      exact nextStatement_start (hkey.first c rfl) (nameRune_ne (hkey.runes c mem_cons_self)).2.2.1
  have hlocate : locateKeyName (key ++ '=' :: token ++ '\n' :: rest) =
      .ok (String.ofList key, (token ++ '\n' :: rest).dropWhile isBlank) := by
    rw [append_assoc]
    exact locateKeyName_name hkey
  have hnext := parseStatements_congr (nextStatement_newline rest) fuel
    (vars.insert (String.ofList key) (String.ofList value))
  rw [parseStatements, hstart]
  split
  · rename_i hnil
    simp at hnil
  · rw [hlocate]
    simp only [bind, Except.bind, hvalue]
    exact hnext

theorem takeWhile_line (h : ∀ c ∈ l, isLineEnd c = false) (rest : List Char) :
    (l ++ '\n' :: rest).takeWhile (!isLineEnd ·) = l ∧
      (l ++ '\n' :: rest).dropWhile (!isLineEnd ·) = '\n' :: rest := by
  have hline : ∀ c ∈ l, (!isLineEnd c) := by
    intro c hc
    rw [h c hc]
    rfl
  have hend : (!isLineEnd '\n') = false := by decide
  rw [takeWhile_append_of_pos hline, dropWhile_append_of_pos hline]
  simp [hend]

theorem expandVariables_plain (h : '$' ∉ l) (vars : StringMap) (fuel : ℕ) :
    expandVariables vars fuel l = l := by
  induction l generalizing fuel with
  | nil => cases fuel <;> rfl
  | cons c rest ih =>
    have hc : c ≠ '$' := fun heq => h (heq ▸ mem_cons_self)
    have hrest : '$' ∉ rest := fun hmem => h (mem_cons_of_mem _ hmem)
    have hhead : rest.head? ≠ some '$' := fun heq => hrest (mem_of_head? heq)
    cases fuel with
    | zero => rfl
    | succ =>
      rw [expandVariables, if_neg (fun hboth => hhead hboth.2), if_neg hc, ih hrest]

/-- A plain value: no line end, quote or dollar sign, blanks only inside and none before a `#`. -/
structure Plain (l : List Char) : Prop where
  line : ∀ c ∈ l, isLineEnd c = false
  noDollar : '$' ∉ l
  first : ∀ c ∈ l.head?, c ≠ '"' ∧ c ≠ apostrophe ∧ isBlank c = false
  last : ∀ c ∈ l.getLast?, isBlank c = false
  noComment : cutComment false l = l

theorem extractVarValue_plain (h : Plain l) (vars : StringMap) (rest : List Char) :
    extractVarValue vars ((l ++ '\n' :: rest).dropWhile isBlank) =
      .ok (String.ofList l, '\n' :: rest) := by
  obtain ⟨htake, hdrop⟩ := takeWhile_line h.line rest
  have hvalue : expandAll vars (trimBlanks (cutComment false l)) = l := by
    rw [h.noComment, trimBlanks, dropWhile_of_head fun c hc => (h.first c hc).2.2,
      rdropWhile_of_last h.last]
    exact expandVariables_plain h.noDollar vars _
  cases l with
  | nil =>
    have hblank : isBlank '\n' = false := by decide
    have hquote : ¬ ('\n' = '"' ∨ '\n' = apostrophe) := by decide
    rw [nil_append] at htake hdrop ⊢
    rw [dropWhile_cons_of_neg (by simp [hblank]), extractVarValue]
    simp only [hquote, if_false, htake, hdrop, hvalue]
  | cons c =>
    obtain ⟨hdouble, hsingle, hblank⟩ := h.first c rfl
    have hquote := not_or.mpr ⟨hdouble, hsingle⟩
    rw [cons_append] at htake hdrop ⊢
    rw [dropWhile_cons_of_neg (by simp [hblank]), extractVarValue]
    simp only [hquote, if_false, htake, hdrop, hvalue]

theorem trimQuotes_quoted (hfirst : ∀ c ∈ l.head?, c ≠ quote)
    (hlast : ∀ c ∈ l.getLast?, c ≠ quote) : trimQuotes quote (quote :: l) = l := by
  unfold trimQuotes
  cases l with
  | nil => simp [List.rdropWhile]
  | cons c l =>
    have hend : (quote :: c :: l).rdropWhile (· == quote) = quote :: c :: l := by
      apply rdropWhile_of_last
      intro d hd
      exact beq_eq_false_iff_ne.mpr (hlast d hd)
    rw [hend, dropWhile_cons_of_pos (by simp)]
    simpa using hfirst c rfl

theorem getLast_getD_ne (hlast : l.getLast? ≠ some c) (hne : d ≠ c) : l.getLast?.getD d ≠ c := by
  cases hl : l.getLast? with
  | none => exact hne
  | some => exact fun heq => hlast (hl.trans (congrArg some heq))

theorem closeQuote_single (h : quote ∉ l) (hlast : l.getLast?.getD previous ≠ '\\') :
    closeQuote quote previous (l ++ quote :: rest) = some (l, rest) := by
  induction l generalizing previous with
  | nil => simpa [closeQuote] using hlast
  | cons c l ih =>
    have hc : c ≠ quote := fun heq => h (heq ▸ mem_cons_self)
    have hnext : l.getLast?.getD c ≠ '\\' := by
      rw [List.getLast?_cons] at hlast
      exact hlast
    rw [cons_append, closeQuote, if_neg fun hboth => hc hboth.1,
      ih (fun hmem => h (mem_cons_of_mem _ hmem)) hnext]
    rfl

/-- A value in single quotes is literal, if it has no such quote and no backslash at its end. -/
theorem extractVarValue_single (h : apostrophe ∉ l) (hlast : l.getLast? ≠ some '\\')
    (rest : List Char) :
    extractVarValue vars ((apostrophe :: l ++ apostrophe :: '\n' :: rest).dropWhile isBlank) =
      .ok (String.ofList l, '\n' :: rest) := by
  have hblank : isBlank apostrophe = false := by decide
  have hdouble : ¬ apostrophe = '"' := by decide
  have hend := getLast_getD_ne hlast (by decide : apostrophe ≠ '\\')
  have htrim : trimQuotes apostrophe (apostrophe :: l) = l := by
    apply trimQuotes_quoted
    · intro c hc heq
      exact h (heq ▸ mem_of_head? hc)
    · intro c hc heq
      exact h (heq ▸ mem_of_getLast? hc)
  rw [cons_append, dropWhile_cons_of_neg (by simp [hblank]), extractVarValue]
  simp only [or_true, if_true, closeQuote_single h hend, htrim, hdouble, if_false]

def isActive (c : Char) : Bool := c == '\\' || c == '"' || c == '$'

def escapeChars (l : List Char) : List Char :=
  l.flatMap fun c => if isActive c then ['\\', c] else [c]

theorem inactive_ne (h : isActive c = false) : c ≠ '\\' ∧ c ≠ '"' ∧ c ≠ '$' := by
  simpa [isActive, and_assoc] using h

def protectChars (l : List Char) : List Char :=
  l.flatMap fun c => if c = '$' then ['\\', '$'] else [c]

theorem escapeChars_cons_active (h : isActive c = true) (l : List Char) :
    escapeChars (c :: l) = '\\' :: c :: escapeChars l := by
  simp [escapeChars, h]

theorem escapeChars_cons_plain (h : isActive c = false) (l : List Char) :
    escapeChars (c :: l) = c :: escapeChars l := by
  simp [escapeChars, h]

theorem closeQuote_escaped (hlast : l.getLast?.getD previous ≠ '\\') (rest : List Char) :
    closeQuote '"' previous (escapeChars l ++ '"' :: rest) = some (escapeChars l, rest) := by
  induction l generalizing previous with
  | nil => simpa [closeQuote, escapeChars] using hlast
  | cons c l ih =>
    have hnext : l.getLast?.getD c ≠ '\\' := by
      rw [List.getLast?_cons] at hlast
      exact hlast
    have hrest := ih hnext
    cases hc : isActive c with
    | true =>
      have hback : ¬ ('\\' = '"' ∧ previous ≠ '\\') := by
        rintro ⟨heq, -⟩
        exact absurd heq (by decide)
      rw [escapeChars_cons_active hc, cons_append, closeQuote, if_neg hback, cons_append,
        closeQuote, if_neg fun hboth => hboth.2 rfl, hrest]
      rfl
    | false =>
      rw [escapeChars_cons_plain hc, cons_append, closeQuote,
        if_neg fun hboth => (inactive_ne hc).2.1 hboth.1, hrest]
      rfl

theorem expandLineEscapes_escaped : expandLineEscapes (escapeChars l) = escapeChars l := by
  induction l with
  | nil => rfl
  | cons c l ih =>
    cases hc : isActive c with
    | true =>
      have hn : c ≠ 'n' ∧ c ≠ 'r' := by
        constructor <;> (rintro rfl; exact absurd hc (by decide))
      rw [escapeChars_cons_active hc, expandLineEscapes, if_neg hn.1, if_neg hn.2, ih]
      rfl
    | false =>
      rw [escapeChars_cons_plain hc, expandLineEscapes, ih]
      exact fun _ _ heq _ => (inactive_ne hc).1 heq

theorem protectChars_cons_dollar : protectChars ('$' :: l) = '\\' :: '$' :: protectChars l := by
  simp [protectChars]

theorem protectChars_cons_of_ne (h : c ≠ '$') : protectChars (c :: l) = c :: protectChars l := by
  simp [protectChars, h]

theorem dropBackslashes_escaped : dropBackslashes (escapeChars l) = protectChars l := by
  induction l with
  | nil => rfl
  | cons c l ih =>
    cases hc : isActive c with
    | true =>
      rw [escapeChars_cons_active hc, dropBackslashes, ih]
      by_cases hdollar : c = '$'
      · rw [if_pos hdollar, hdollar, protectChars_cons_dollar]
      · rw [if_neg hdollar, protectChars_cons_of_ne hdollar]
    | false =>
      obtain ⟨hback, -, hdollar⟩ := inactive_ne hc
      rw [escapeChars_cons_plain hc, dropBackslashes, ih, protectChars_cons_of_ne hdollar]
      exact fun _ _ heq _ => hback heq

def Takes (step : List Char → List Char × List Char) : Prop :=
  ∀ l, ∃ rest, l = (step (protectChars l)).1 ++ rest ∧ (step (protectChars l)).2 = protectChars rest

theorem takes_one (hback : c ≠ '\\') : Takes (takeOne c) := by
  intro l
  cases l with
  | nil => exact ⟨[], rfl, rfl⟩
  | cons d l =>
    by_cases hd : d = '$'
    · have hhead : (protectChars (d :: l)).head? ≠ some c := by
        rw [hd]
        exact fun heq => hback (Option.some.inj heq).symm
      unfold takeOne
      rw [if_neg hhead]
      exact ⟨d :: l, rfl, rfl⟩
    · rw [protectChars_cons_of_ne hd]
      unfold takeOne
      by_cases hc : d = c
      · rw [if_pos (by rw [hc]; rfl)]
        exact ⟨l, by rw [hc]; rfl, rfl⟩
      · have hhead : ¬ (d :: protectChars l).head? = some c := fun heq => hc (Option.some.inj heq)
        rw [if_neg hhead]
        exact ⟨d :: l, rfl, (protectChars_cons_of_ne hd).symm⟩

theorem takes_name : Takes takeName := by
  intro l
  induction l with
  | nil => exact ⟨[], rfl, rfl⟩
  | cons d l ih =>
    obtain ⟨rest, hl, hrest⟩ := ih
    by_cases hd : d = '$'
    · rw [hd]
      exact ⟨'$' :: l, rfl, protectChars_cons_dollar.symm⟩
    · rw [protectChars_cons_of_ne hd]
      unfold takeName at hl hrest ⊢
      cases hrune : isVariableRune d with
      | true =>
        rw [takeWhile_cons_of_pos hrune, dropWhile_cons_of_pos hrune]
        exact ⟨rest, congrArg (d :: ·) hl, hrest⟩
      | false =>
        rw [takeWhile_cons_of_neg (by simp [hrune]), dropWhile_cons_of_neg (by simp [hrune])]
        exact ⟨d :: l, rfl, (protectChars_cons_of_ne hd).symm⟩

theorem reference_protected (l : List Char) : ∃ rest, l = (reference (protectChars l)).text ++
    rest ∧
      (reference (protectChars l)).rest = protectChars rest := by
  obtain ⟨l₁, h₁, hparen⟩ := takes_one (c := '(') (by decide) l
  obtain ⟨l₂, h₂, hbrace⟩ := takes_one (c := '{') (by decide) l₁
  obtain ⟨l₃, h₃, hname⟩ := takes_name l₂
  obtain ⟨l₄, h₄, hclose⟩ := takes_one (c := '}') (by decide) l₃
  refine ⟨l₄, ?_, ?_⟩
  · unfold reference
    simp only [hparen, hbrace, hname]
    calc l = _ ++ l₁ := h₁
      _ = _ ++ (_ ++ l₂) := by rw [← h₂]
      _ = _ ++ (_ ++ (_ ++ l₃)) := by rw [← h₃]
      _ = _ ++ (_ ++ (_ ++ (_ ++ l₄))) := by rw [← h₄]
      _ = _ := by simp only [append_assoc]
  · unfold reference
    simp only [hparen, hbrace, hname]
    exact hclose

theorem length_le_protectChars : l.length ≤ (protectChars l).length := by
  induction l with
  | nil => exact le_refl 0
  | cons c =>
    by_cases hc : c = '$'
    · rw [hc, protectChars_cons_dollar]
      simp only [length_cons]
      omega
    · rw [protectChars_cons_of_ne hc]
      simp only [length_cons]
      omega

theorem expandVariables_protected (hfuel : l.length ≤ fuel) :
    expandVariables vars fuel (protectChars l) = l := by
  induction fuel generalizing l with
  | zero =>
    rw [eq_nil_of_length_eq_zero (Nat.le_zero.mp hfuel)]
    rfl
  | succ fuel ih =>
    cases l with
    | nil => rfl
    | cons c l =>
      have hlen : l.length ≤ fuel := by
        rw [length_cons] at hfuel
        omega
      by_cases hc : c = '$'
      · obtain ⟨rest, hl, hrest⟩ := reference_protected l
        have hshort : rest.length ≤ fuel := by
          have hsum := congrArg List.length hl
          rw [length_append] at hsum
          omega
        rw [hc, protectChars_cons_dollar, expandVariables, if_pos ⟨rfl, rfl⟩]
        simp only [tail_cons, hrest, ih hshort]
        rw [cons_append, ← hl]
      · have hhead : ¬ (c = '\\' ∧ (protectChars l).head? = some '$') := by
          rintro ⟨-, hdollar⟩
          cases l with
          | nil => cases hdollar
          | cons d =>
            by_cases hd : d = '$'
            · rw [hd] at hdollar
              exact absurd (Option.some.inj hdollar) (by decide)
            · rw [protectChars_cons_of_ne hd] at hdollar
              exact hd (Option.some.inj hdollar)
        rw [protectChars_cons_of_ne hc, expandVariables, if_neg hhead, if_neg hc, ih hlen]

theorem escapeChars_head : ∀ c ∈ (escapeChars l).head?, c ≠ '"' := by
  cases l with
  | nil => intro c hc; cases hc
  | cons d =>
    intro c hc
    cases hd : isActive d with
    | true =>
      rw [escapeChars_cons_active hd] at hc
      rw [← Option.some.inj hc]
      decide
    | false =>
      rw [escapeChars_cons_plain hd] at hc
      rw [← Option.some.inj hc]
      exact (inactive_ne hd).2.1

theorem escapeChars_getLast (l : List Char) : (escapeChars l).getLast? = l.getLast? := by
  induction l with
  | nil => rfl
  | cons c l ih =>
    have hsame : (escapeChars l).getLast?.getD c = l.getLast?.getD c := by rw [ih]
    cases hc : isActive c with
    | true =>
      rw [escapeChars_cons_active hc, getLast?_cons_cons, getLast?_cons, getLast?_cons, hsame]
    | false => rw [escapeChars_cons_plain hc, getLast?_cons, getLast?_cons, hsame]

/-- A value in double quotes is read back from its escaped form, if it ends with neither a
backslash nor a double quote. -/
theorem extractVarValue_double (hback : l.getLast? ≠ some '\\') (hquote : l.getLast? ≠ some '"')
    (vars : StringMap) (rest : List Char) :
    extractVarValue vars (('"' :: escapeChars l ++ '"' :: '\n' :: rest).dropWhile isBlank) =
      .ok (String.ofList l, '\n' :: rest) := by
  have hblank : isBlank '"' = false := by decide
  have hend := getLast_getD_ne hback (by decide : '"' ≠ '\\')
  have htrim : trimQuotes '"' ('"' :: escapeChars l) = escapeChars l := by
    refine trimQuotes_quoted escapeChars_head ?_
    intro c hc heq
    rw [escapeChars_getLast] at hc
    exact hquote (by rw [hc, heq])
  have hvalue : expandAll vars (dropBackslashes (expandLineEscapes (escapeChars l))) = l := by
    rw [expandLineEscapes_escaped, dropBackslashes_escaped]
    exact expandVariables_protected length_le_protectChars
  rw [cons_append, dropWhile_cons_of_neg (by simp [hblank]), extractVarValue]
  simp only [true_or, if_true, closeQuote_escaped hend, htrim, hvalue]

def SafeLine (l : List Char) : Prop := l.IsChain NoLineEndPair ∧ l.getLast? ≠ some '\r'

theorem isChain_of_no_newline (h : '\n' ∉ l) : l.IsChain NoLineEndPair := by
  induction l with
  | nil => exact isChain_nil
  | cons c l ih =>
    refine isChain_cons.mpr ⟨?_, ih fun hmem => h (mem_cons_of_mem _ hmem)⟩
    rintro d hd ⟨-, heq⟩
    exact h (mem_cons_of_mem _ (heq ▸ mem_of_head? hd))

theorem isChain_cons_of_ne (hc : c ≠ '\r') (h : l.IsChain NoLineEndPair) :
    (c :: l).IsChain NoLineEndPair :=
  isChain_cons.mpr ⟨fun _ _ hpair => hc hpair.1, h⟩

theorem isChain_append_of_ne (hc : c ≠ '\n') (h : l.IsChain NoLineEndPair)
    (hrest : (c :: rest).IsChain NoLineEndPair) : (l ++ c :: rest).IsChain NoLineEndPair := by
  refine h.append hrest ?_
  intro a _ b hb hpair
  exact hc ((Option.some.inj hb).trans hpair.2)

theorem isChain_terminated (h : ∀ line ∈ lines, SafeLine line) :
    (terminated '\n' lines).IsChain NoLineEndPair := by
  induction lines with
  | nil => exact isChain_nil
  | cons line lines ih =>
    obtain ⟨hchain, hlast⟩ := h line mem_cons_self
    have hrest := ih fun l hl => h l (mem_cons_of_mem _ hl)
    rw [terminated_cons]
    refine hchain.append (isChain_cons_of_ne (by decide) hrest) ?_
    intro a ha b _ hpair
    exact hlast (by rw [ha, hpair.1])

theorem isChain_escapeChars (h : l.IsChain NoLineEndPair) :
    (escapeChars l).IsChain NoLineEndPair := by
  induction l with
  | nil => exact isChain_nil
  | cons c l ih =>
    obtain ⟨hpairs, hl⟩ := isChain_cons.mp h
    have hchain : (c :: escapeChars l).IsChain NoLineEndPair := by
      refine isChain_cons.mpr ⟨?_, ih hl⟩
      cases l with
      | nil => intro d hd; cases hd
      | cons e =>
        intro d hd
        cases he : isActive e with
        | true =>
          rw [escapeChars_cons_active he] at hd
          rintro ⟨-, heq⟩
          exact absurd ((Option.some.inj hd).trans heq) (by decide)
        | false =>
          rw [escapeChars_cons_plain he] at hd
          rw [← Option.some.inj hd]
          exact hpairs e rfl
    cases hc : isActive c with
    | true =>
      rw [escapeChars_cons_active hc]
      exact isChain_cons_of_ne (by decide) hchain
    | false =>
      rw [escapeChars_cons_plain hc]
      exact hchain

/-- The token is read as the value, whatever was read before and whatever follows its line. -/
def Reads (token value : List Char) : Prop :=
  SafeLine token ∧ ∀ vars rest,
    extractVarValue vars ((token ++ '\n' :: rest).dropWhile isBlank) =
      .ok (String.ofList value, '\n' :: rest)

theorem reads_plain (h : Plain l) : Reads l l := by
  have hline : ∀ c ∈ l, c ≠ '\n' ∧ c ≠ '\r' := by
    intro c hc
    constructor <;>
      · rintro rfl
        exact absurd (h.line _ hc) (by decide)
  refine ⟨⟨isChain_of_no_newline fun hmem => (hline _ hmem).1 rfl, ?_⟩, extractVarValue_plain h⟩
  exact fun hlast => (hline _ (mem_of_getLast? hlast)).2 rfl

theorem safeLine_quoted (hquote : quote ≠ '\r' ∧ quote ≠ '\n') (h : l.IsChain NoLineEndPair) :
    SafeLine (quote :: l ++ [quote]) := by
  constructor
  · exact isChain_cons_of_ne hquote.1 (isChain_append_of_ne hquote.2 h (isChain_singleton _))
  · rw [List.getLast?_append_of_ne_nil _ (cons_ne_nil _ _)]
    exact fun heq => hquote.1 (Option.some.inj heq)

theorem reads_single (hchain : l.IsChain NoLineEndPair) (h : apostrophe ∉ l)
    (hlast : l.getLast? ≠ some '\\') : Reads (apostrophe :: l ++ [apostrophe]) l := by
  refine ⟨safeLine_quoted (by decide) hchain, ?_⟩
  intro vars rest
  rw [append_assoc]
  exact extractVarValue_single h hlast rest

theorem reads_double (hchain : l.IsChain NoLineEndPair) (hback : l.getLast? ≠ some '\\')
    (hquote : l.getLast? ≠ some '"') : Reads ('"' :: escapeChars l ++ ['"']) l := by
  refine ⟨safeLine_quoted (by decide) (isChain_escapeChars hchain), ?_⟩
  intro vars rest
  rw [append_assoc]
  exact extractVarValue_double hback hquote vars rest

def Silent (l : List Char) : Prop := SafeLine l ∧ '\n' ∉ l ∧ ∀ c ∈ l.head?, c = '#'

theorem nextStatement_silent (h : ∀ line ∈ lines, Silent line) (rest : List Char) :
    nextStatement false (terminated '\n' lines ++ rest) = nextStatement false rest := by
  induction lines with
  | nil => rfl
  | cons line lines ih =>
    obtain ⟨-, hnewline, hhead⟩ := h line mem_cons_self
    have hrest := ih fun l hl => h l (mem_cons_of_mem _ hl)
    rw [terminated_cons, append_assoc, cons_append]
    cases line with
    | nil => exact (nextStatement_newline _).trans hrest
    | cons c =>
      rw [hhead c rfl]
      exact (nextStatement_comment (fun hmem => hnewline (mem_cons_of_mem _ hmem)) _).trans hrest

theorem parseStatements_bindings {token : String → String} (hkeys : ∀ key ∈ keys, Name (chars key))
    (htokens : ∀ key ∈ keys, Reads (chars (token key)) (chars (value key)))
    (hfuel : keys.length < fuel) (vars : StringMap) :
    parseStatements fuel vars (terminated '\n'
      (keys.map fun key => chars key ++ '=' :: chars (token key))) =
      .ok ((keys.map fun key => (key, value key)).foldl
        (fun m binding => m.insert binding.1 binding.2) vars) := by
  induction keys generalizing fuel vars with
  | nil =>
    obtain ⟨n, rfl⟩ : ∃ n, fuel = n + 1 := ⟨fuel - 1, by rw [length_nil] at hfuel; omega⟩
    rfl
  | cons key keys ih =>
    obtain ⟨n, rfl⟩ : ∃ n, fuel = n + 1 := ⟨fuel - 1, by rw [length_cons] at hfuel; omega⟩
    have hlen : keys.length < n := by
      rw [length_cons] at hfuel
      omega
    have hrest := fun vars => ih (fun k hk => hkeys k (mem_cons_of_mem _ hk))
      (fun k hk => htokens k (mem_cons_of_mem _ hk)) hlen vars
    have hvalue := (htokens key mem_cons_self).2 vars
      (terminated '\n' (keys.map fun key => chars key ++ '=' :: chars (token key)))
    have hstep := parseStatements_binding (hkeys key mem_cons_self) hvalue n
    have hback : ∀ s : String, String.ofList (chars s) = s := by simp
    rw [map_cons, terminated_cons, hstep, hback, hback, hrest]
    rfl

theorem length_le_terminated (lines : List (List Char)) :
    lines.length ≤ (terminated '\n' lines).length := by
  induction lines with
  | nil => exact le_refl 0
  | cons =>
    rw [terminated_cons, length_append, length_cons, length_cons]
    omega

/-- A file of silent lines and then bindings is read as the map of the bindings. -/
theorem unmarshal_fileText {token : String → String}
    (hheader : ∀ line ∈ header, Silent (chars line)) (hkeys : ∀ key ∈ keys, Name (chars key))
    (htokens : ∀ key ∈ keys, Reads (chars (token key)) (chars (value key))) :
    unmarshal (fileText (header ++ keys.map fun key => key ++ "=" ++ token key)) =
      .ok (ofBindings (keys.map fun key => (key, value key))) := by
  have hlines : (header ++ keys.map fun key => key ++ "=" ++ token key).map chars =
      header.map chars ++ keys.map fun key => chars key ++ '=' :: chars (token key) := by
    simp
  have hsplit : terminated '\n' (header.map chars ++ keys.map fun key => chars key ++
      '=' :: chars (token key)) =
      terminated '\n' (header.map chars) ++
        terminated '\n' (keys.map fun key => chars key ++ '=' :: chars (token key)) := by
    simp [terminated]
  have hsafe : ∀ line ∈ header.map chars ++ keys.map fun key =>
      chars key ++ '=' :: chars (token key), SafeLine line := by
    intro line hline
    rcases mem_append.mp hline with hmem | hmem
    · obtain ⟨l, hl, rfl⟩ := mem_map.mp hmem
      exact (hheader l hl).1
    · obtain ⟨key, hkey, rfl⟩ := mem_map.mp hmem
      obtain ⟨hchain, hlast⟩ := (htokens key hkey).1
      have hname : '\n' ∉ chars key := fun hnewline =>
        (nameRune_ne ((hkeys key hkey).runes _ hnewline)).2.2.2 rfl
      constructor
      · exact isChain_append_of_ne (by decide) (isChain_of_no_newline hname)
          (isChain_cons_of_ne (by decide) hchain)
      · rw [getLast?_append_of_ne_nil _ (cons_ne_nil _ _), getLast?_cons]
        exact fun heq => getLast_getD_ne hlast (by decide) (Option.some.inj heq)
  have hchain := joinLineEnds_of_isChain (isChain_terminated hsafe)
  have hsilent : ∀ line ∈ header.map chars, Silent line := by
    intro line hline
    obtain ⟨l, hl, rfl⟩ := mem_map.mp hline
    exact hheader l hl
  unfold unmarshal fileText
  rw [chars_eq_toList, String.toList_ofList, hlines, hchain, hsplit]
  rw [parseStatements_congr (nextStatement_silent hsilent _)]
  refine parseStatements_bindings hkeys htokens ?_ ∅
  have hlen := length_le_terminated (keys.map fun key => chars key ++ '=' :: chars (token key))
  rw [length_map] at hlen
  rw [length_append]
  omega

end Dotenv
