import Tako.GoPrelude

/-! # Token streams of block-structured configuration text

Lines of words, split at whitespace as `unicode.IsSpace` has it; a quote or a backtick at the start
of a word delimits it, and a `#` there begins a comment. A printed file is read back as the tokens
it was printed from exactly if each of its arguments is an atom.
-/
namespace ConfigTokens

open List
open GoPrelude (isSpace chars chars_eq_toList)

inductive Part where
  | arg (text : String)
  | opening
  | closing
  deriving DecidableEq

inductive Token where
  | part (p : Part)
  | newline
  /-- The text ended inside a quoted word. -/
  | unclosed
  deriving DecidableEq

def isQuote (c : Char) : Bool := c == '"' || c == Char.ofNat 96

/-- What has been read of the word at hand, last character first. -/
inductive Mode where
  | between
  | word (read : List Char)
  | quoted (quote : Char) (read : List Char)
  | comment

def wordPart : List Char → Part
  | ['\x7b'] => .opening
  | ['\x7d'] => .closing
  | read => .arg (String.ofList read.reverse)

def gap (c : Char) : List Token := if c = '\n' then [.newline] else []

def step : Mode → Char → Mode × List Token
  | .between, c =>
    if isSpace c then (.between, gap c)
    else if c = '#' then (.comment, [])
    else if isQuote c then (.quoted c [c], [])
    else (.word [c], [])
  | .word read, c =>
    if isSpace c then (.between, .part (wordPart read) :: gap c) else (.word (c :: read), [])
  | .quoted quote read, c =>
    if c = quote then (.between, [.part (.arg (String.ofList (c :: read).reverse))])
    else (.quoted quote (c :: read), [])
  | .comment, c => if c = '\n' then (.between, gap c) else (.comment, [])

def finish : Mode → List Token
  | .between => []
  | .word read => [.part (wordPart read)]
  | .quoted _ _ => [.unclosed]
  | .comment => []

def lexFrom : Mode → List Char → List Token
  | mode, [] => finish mode
  | mode, c :: rest => (step mode c).2 ++ lexFrom (step mode c).1 rest

def lex (text : String) : List Token := lexFrom .between (chars text)

def startsWord (c : Char) : Bool := !(c == '#' || isQuote c)

def Bare (l : List Char) : Prop :=
  l ≠ [] ∧ (∀ c ∈ l, isSpace c = false) ∧ (∀ c ∈ l.head?, startsWord c) ∧ l ≠ ['\x7b'] ∧
    l ≠ ['\x7d']

def Quoted (l : List Char) : Prop :=
  ∃ quote ∈ l.head?, isQuote quote ∧ l.tail.getLast? = some quote ∧ quote ∉ l.tail.dropLast

/-- A text that the lexer reads as one argument. -/
def Atom (text : String) : Prop := Bare text.toList ∨ Quoted text.toList

-- The quantifiers are decided along the text and not over all characters.
instance (l : List Char) : Decidable (Bare l) :=
  decidable_of_iff (l ≠ [] ∧ (l.all fun c => !isSpace c) ∧ l.head?.all startsWord ∧
    l ≠ ['\x7b'] ∧ l ≠ ['\x7d']) (by cases h : l.head? <;> simp [Bare, h])

instance (l : List Char) : Decidable (Quoted l) :=
  decidable_of_iff
    (l.head?.any (fun quote => isQuote quote && decide (l.tail.getLast? = some quote) &&
    decide (quote ∉ l.tail.dropLast))) (by cases h : l.head? <;> simp [Quoted, h, and_assoc])

instance (text : String) : Decidable (Atom text) := inferInstanceAs (Decidable (_ ∨ _))

variable {l rest : List Char} {c : Char}

theorem quoted_iff :
    Quoted l ↔ ∃ quote body, isQuote quote ∧ quote ∉ body ∧ l = quote :: (body ++ [quote]) := by
  constructor
  · rintro ⟨quote, hhead, hquote, hlast, hbody⟩
    obtain ⟨rest, rfl⟩ : ∃ rest, l = quote :: rest := by
      cases l with
      | nil => cases hhead
      | cons c rest =>
        obtain rfl : c = quote := Option.some.inj hhead
        exact ⟨rest, rfl⟩
    refine ⟨quote, rest.dropLast, hquote, hbody, ?_⟩
    have hrest : rest.dropLast ++ [quote] = rest := dropLast_append_getLast? quote hlast
    rw [hrest]
  · rintro ⟨quote, body, hquote, hbody, rfl⟩
    refine ⟨quote, rfl, hquote, ?_, ?_⟩
    · simp
    · simpa using hbody

/-- Text that starts a word and holds no whitespace is an atom unless it is a brace. -/
theorem Bare.of_start (hstart : startsWord c) (hspace : ∀ d ∈ c :: rest, isSpace d = false)
    (hopen : c ≠ '\x7b') (hclose : c ≠ '\x7d') : Bare (c :: rest) := by
  refine ⟨cons_ne_nil c rest, hspace, ?_, ?_, ?_⟩
  · intro d hd
    obtain rfl : c = d := Option.some.inj hd
    exact hstart
  · intro h
    exact hopen (cons.inj h).1
  · intro h
    exact hclose (cons.inj h).1

/-- An atom that does not begin with a quote holds no whitespace. -/
theorem Atom.unspaced {text : String} (h : Atom text)
    (hquote : ∀ c ∈ text.toList.head?, isQuote c = false) :
    ∀ c ∈ text.toList, isSpace c = false := by
  rcases h with hbare | ⟨quote, hhead, hisQuote, -⟩
  · exact hbare.2.1
  · rw [hquote quote hhead] at hisQuote
    cases hisQuote

def Part.text : Part → List Char
  | .arg text => text.toList
  | .opening => ['\x7b']
  | .closing => ['\x7d']

def Part.Sound : Part → Prop
  | .arg text => Atom text
  | .opening => True
  | .closing => True

instance : (p : Part) → Decidable p.Sound
  | .arg text => inferInstanceAs (Decidable (Atom text))
  | .opening => inferInstanceAs (Decidable True)
  | .closing => inferInstanceAs (Decidable True)

structure Line where
  depth : ℕ
  parts : List Part
  deriving DecidableEq

def Line.directive (depth : ℕ) (args : List String) : Line := ⟨depth, args.map .arg⟩

def Line.block (depth : ℕ) (args : List String) : Line := ⟨depth, args.map .arg ++ [.opening]⟩

def Line.close (depth : ℕ) : Line := ⟨depth, [.closing]⟩

def Line.blank : Line := ⟨0, []⟩

def spaced : List Part → List Char
  | [] => []
  | p :: rest => p.text ++ rest.flatMap fun q => ' ' :: q.text

def Line.text (line : Line) : List Char :=
  replicate line.depth '\t' ++ (spaced line.parts ++ ['\n'])

def Line.tokens (line : Line) : List Token := line.parts.map .part ++ [.newline]

def Line.Sound (line : Line) : Prop := ∀ p ∈ line.parts, p.Sound

theorem lexFrom_space (h : isSpace c) :
    lexFrom .between (c :: rest) = gap c ++ lexFrom .between rest := by
  simp only [lexFrom, step, h, if_true]

theorem lexFrom_word (h : ∀ c ∈ l, isSpace c = false) (read : List Char) :
    lexFrom (.word read) (l ++ rest) = lexFrom (.word (l.reverse ++ read)) rest := by
  induction l generalizing read with
  | nil => rfl
  | cons c l ih =>
    have hc := h c mem_cons_self
    have hl := ih (fun d hd => h d (mem_cons_of_mem c hd)) (c :: read)
    simpa [lexFrom, step, hc] using hl

theorem lexFrom_quoted {quote : Char} {body : List Char} (h : quote ∉ body) (read : List Char) :
    lexFrom (.quoted quote read) (body ++ quote :: rest) =
      .part (.arg (String.ofList (read.reverse ++ (body ++ [quote])))) ::
        lexFrom .between rest := by
  induction body generalizing read with
  | nil => simp [lexFrom, step]
  | cons c body ih =>
    rw [mem_cons, not_or] at h
    simp [lexFrom, step, Ne.symm h.1, ih h.2]

theorem wordPart_reverse (hopen : l ≠ ['\x7b']) (hclose : l ≠ ['\x7d']) :
    wordPart l.reverse = .arg (String.ofList l) := by
  unfold wordPart
  split
  · next h => exact absurd (reverse_eq_iff.mp h) hopen
  · next h => exact absurd (reverse_eq_iff.mp h) hclose
  · rw [reverse_reverse]

theorem lexFrom_bare (h : Bare l) (hc : isSpace c) (rest : List Char) :
    lexFrom .between (l ++ c :: rest) = .part (.arg (String.ofList l)) ::
      lexFrom .between (c :: rest) := by
  obtain ⟨hne, hspace, hstart, hopen, hclose⟩ := h
  obtain ⟨d, l, rfl⟩ := exists_cons_of_ne_nil hne
  have hd := hspace d mem_cons_self
  have hword := hstart d rfl
  simp only [startsWord, Bool.not_eq_true', Bool.or_eq_false_iff, beq_eq_false_iff_ne] at hword
  have hfirst : lexFrom .between (d :: l ++ c :: rest) = lexFrom (.word [d]) (l ++ c :: rest) := by
    simp [lexFrom, step, hd, hword.1, hword.2]
  have hread : l.reverse ++ [d] = (d :: l).reverse := reverse_cons.symm
  rw [hfirst, lexFrom_word (fun e he => hspace e (mem_cons_of_mem d he)), hread]
  simp only [lexFrom, step, hc, if_true, wordPart_reverse hopen hclose, cons_append]

variable {p : Part} {lines : List Line}

theorem lexFrom_part (h : p.Sound) (hc : isSpace c) :
    lexFrom .between (p.text ++ c :: rest) = .part p :: lexFrom .between (c :: rest) := by
  cases p with
  | arg text =>
    rcases h with hbare | hquoted
    · have hread := lexFrom_bare hbare hc rest
      rwa [String.ofList_toList] at hread
    · obtain ⟨quote, body, hquote, hbody, htext⟩ := quoted_iff.mp hquoted
      have hspace : isSpace quote = false := by
        rcases Bool.or_eq_true _ _ ▸ hquote with h | h <;> rw [beq_iff_eq.mp h] <;> decide
      have hcomment : quote ≠ '#' := by
        rintro rfl
        exact absurd hquote (by decide)
      have hfirst : lexFrom .between (quote :: (body ++ quote :: c :: rest)) =
          lexFrom (.quoted quote [quote]) (body ++ quote :: c :: rest) := by
        simp [lexFrom, step, hspace, hcomment, hquote]
      have htoken : String.ofList ([quote].reverse ++ (body ++ [quote])) = text := by
        rw [reverse_singleton, singleton_append, ← htext, String.ofList_toList]
      change lexFrom .between (text.toList ++ c :: rest) = _
      rw [htext, cons_append, append_assoc, singleton_append, hfirst, lexFrom_quoted hbody, htoken]
  | opening =>
    simp [Part.text, lexFrom, step, hc, wordPart, isQuote, show isSpace '\x7b' = false by decide]
  | closing =>
    simp [Part.text, lexFrom, step, hc, wordPart, isQuote, show isSpace '\x7d' = false by decide]

theorem lexFrom_indent :
    lexFrom .between (replicate depth '\t' ++ rest) = lexFrom .between rest := by
  induction depth with
  | zero => rfl
  | succ depth ih => rw [replicate_succ, cons_append, lexFrom_space (by decide), ih]; rfl

theorem lexFrom_parts {parts : List Part} (h : ∀ p ∈ parts, p.Sound) (rest : List Char) :
    lexFrom .between ((parts.flatMap fun q => ' ' :: q.text) ++ '\n' :: rest) =
      parts.map .part ++ .newline :: lexFrom .between rest := by
  induction parts with
  | nil => exact lexFrom_space (by decide)
  | cons p parts ih =>
    have hp := h p mem_cons_self
    have hrest := ih fun q hq => h q (mem_cons_of_mem p hq)
    rw [flatMap_cons, append_assoc, cons_append, map_cons, cons_append, ← hrest]
    -- What follows a part begins with a space or the end of the line.
    cases parts with
    | nil | cons => exact lexFrom_part hp (by decide)

theorem lexFrom_line {line : Line} (h : line.Sound) :
    lexFrom .between (line.text ++ rest) = line.tokens ++ lexFrom .between rest := by
  obtain ⟨depth, parts⟩ := line
  unfold Line.text Line.tokens
  rw [append_assoc, lexFrom_indent]
  cases parts with
  | nil => exact lexFrom_space (by decide)
  | cons p parts =>
    have hrest := lexFrom_parts (fun q hq => h q (mem_cons_of_mem p hq)) rest
    have hp := h p mem_cons_self
    simp only [spaced, append_assoc, map_cons, cons_append, nil_append]
    rw [← hrest]
    cases parts with
    | nil | cons => exact lexFrom_part hp (by decide)

theorem lexFrom_lines (h : ∀ line ∈ lines, line.Sound) :
    lexFrom .between (lines.flatMap Line.text) = lines.flatMap Line.tokens := by
  induction lines with
  | nil => rfl
  | cons line lines ih =>
    rw [flatMap_cons, flatMap_cons, lexFrom_line (h line mem_cons_self),
      ih fun l hl => h l (mem_cons_of_mem line hl)]

/-- Whatever is read of a word in this mode becomes an atom when the word ends. -/
def Mode.Sound : Mode → Prop
  | .between => True
  | .word read => read ≠ [] ∧ (∀ c ∈ read, isSpace c = false) ∧ ∀ c ∈ read.getLast?, startsWord c
  | .quoted quote read => isQuote quote ∧ ∃ body, quote ∉ body ∧ read.reverse = quote :: body
  | .comment => True

theorem wordPart_sound {read : List Char} (h : (Mode.word read).Sound) : (wordPart read).Sound := by
  obtain ⟨hne, hspace, hstart⟩ := h
  unfold wordPart
  split
  · trivial
  · trivial
  · next hopen hclose =>
    left
    rw [String.toList_ofList]
    refine ⟨reverse_ne_nil_iff.mpr hne, ?_, ?_, ?_, ?_⟩
    · intro c hc
      exact hspace c (mem_reverse.mp hc)
    · rwa [head?_reverse]
    · intro h
      exact hopen (reverse_eq_iff.mp h)
    · intro h
      exact hclose (reverse_eq_iff.mp h)

theorem mem_gap : Token.part p ∉ gap c := by
  unfold gap
  split <;> simp

variable {mode : Mode}

theorem step_sound (h : mode.Sound) (c : Char) :
    (step mode c).1.Sound ∧ ∀ p, Token.part p ∈ (step mode c).2 → p.Sound := by
  cases mode with
  | between =>
    simp only [step]
    split_ifs with hspace hcomment hquote
    · exact ⟨trivial, fun p hp => absurd hp mem_gap⟩
    · exact ⟨trivial, by simp⟩
    · exact ⟨⟨hquote, [], by simp, rfl⟩, by simp⟩
    · refine ⟨⟨by simp, ?_, ?_⟩, by simp⟩
      · simpa using hspace
      · simpa [startsWord, hcomment] using hquote
  | word read =>
    simp only [step]
    split_ifs with hspace
    · refine ⟨trivial, fun p hp => ?_⟩
      rcases mem_cons.mp hp with heq | hgap
      · obtain rfl := Token.part.inj heq
        exact wordPart_sound h
      · exact absurd hgap mem_gap
    · obtain ⟨hne, hread, hstart⟩ := h
      refine ⟨⟨cons_ne_nil c read, ?_, ?_⟩, by simp⟩
      · exact forall_mem_cons.mpr ⟨Bool.eq_false_iff.mpr hspace, hread⟩
      · rwa [getLast?_cons_of_ne_nil hne]
  | quoted quote =>
    obtain ⟨hquote, body, hbody, hread⟩ := h
    simp only [step]
    split_ifs with hend
    · refine ⟨trivial, fun p hp => ?_⟩
      obtain rfl := Token.part.inj (mem_singleton.mp hp)
      right
      rw [String.toList_ofList, reverse_cons, hread, hend]
      exact quoted_iff.mpr ⟨quote, body, hquote, hbody, rfl⟩
    · refine ⟨⟨hquote, body ++ [c], ?_, ?_⟩, by simp⟩
      · simp [hbody, Ne.symm hend]
      · rw [reverse_cons, hread, cons_append]
  | comment =>
    simp only [step]
    split_ifs
    · exact ⟨trivial, fun p hp => absurd hp mem_gap⟩
    · exact ⟨trivial, by simp⟩

/-- Every part the lexer emits is sound, so only atoms come back as arguments. -/
theorem lexFrom_sound (h : mode.Sound) (text : List Char) :
    ∀ p, Token.part p ∈ lexFrom mode text → p.Sound := by
  induction text generalizing mode with
  | nil =>
    intro p hp
    cases mode with
    | word =>
      obtain rfl := Token.part.inj (mem_singleton.mp hp)
      exact wordPart_sound h
    | between | comment => cases hp
    | quoted => simp [lexFrom, finish] at hp
  | cons c text ih =>
    intro p hp
    obtain ⟨hmode, hemitted⟩ := step_sound h c
    rcases mem_append.mp hp with hnow | hlater
    · exact hemitted p hnow
    · exact ih hmode p hlater

/-- A printed file has the tokens it was printed from exactly if its lines are sound. -/
theorem lex_lines_iff {text : String} (h : text.toList = lines.flatMap Line.text) :
    lex text = lines.flatMap Line.tokens ↔ ∀ line ∈ lines, line.Sound := by
  unfold lex
  rw [chars_eq_toList, h]
  constructor
  · intro heq line hline p hp
    have hmem : Token.part p ∈ lines.flatMap Line.tokens := by
      refine mem_flatMap.mpr ⟨line, hline, mem_append_left _ ?_⟩
      exact mem_map_of_mem hp
    rw [← heq] at hmem
    exact @lexFrom_sound .between trivial _ p hmem
  · exact lexFrom_lines

end ConfigTokens
