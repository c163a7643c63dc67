import Mathlib.Algebra.Ring.Nat
import Mathlib.Data.List.Infix
import Tako.GoPrelude

/-! # Texts with arbitrary bytes, and slash-separated paths

A Go string is read as Go ranges over it: characters, and the bytes that are not part of one. JSON
replaces every other byte. `clean` resolves `..` by the text alone.
-/
namespace GoTexts

open List

inductive Rune where
  | char (c : Char)
  /-- A byte that is not part of the encoding of a character. -/
  | byte (b : UInt8)
  deriving DecidableEq

abbrev Text : Type := List Rune

def text (s : String) : Text := (GoPrelude.chars s).map .char

def slash : Rune := .char '/'

def dot : Rune := .char '.'

def nul : Rune := .char '\x00'

def dotdot : Text := [dot, dot]

namespace Rune

def isSpace : Rune → Bool
  | char c => GoPrelude.isSpace c
  | byte _ => false

def isValid : Rune → Bool
  | char _ => true
  | byte _ => false

def width : Rune → ℕ
  | char c => c.utf8Size
  | byte _ => 1

def replaced : Rune → Rune
  | char c => char c
  | byte _ => char '�'

theorem replaced_eq_self {r : Rune} : r.replaced = r ↔ r.isValid := by
  cases r with
  | char => exact iff_of_true rfl rfl
  | byte => exact iff_of_false (by simp [replaced]) (by simp [isValid])

end Rune

def byteLength (t : Text) : ℕ := (t.map Rune.width).sum

variable {t e : Text} {elements stack parents : List Text} {rooted : Bool}

theorem byteLength_pos (h : t ≠ []) : 0 < byteLength t := by
  cases t with
  | nil => exact absurd rfl h
  | cons r rest =>
    have hwidth : 0 < r.width := by
      cases r with
      | char c => exact c.utf8Size_pos
      | byte => exact Nat.one_pos
    change 0 < r.width + byteLength rest
    omega

def trimSpace (t : Text) : Text := (t.dropWhile Rune.isSpace).rdropWhile Rune.isSpace

/-- `strings.Trim(t, "/")`. -/
def trimSlashes (t : Text) : Text := (t.dropWhile (· == slash)).rdropWhile (· == slash)

def Valid (t : Text) : Prop := ∀ r ∈ t, r.isValid
  deriving Decidable

/-- The text after a round trip through JSON. -/
def replaceInvalid (t : Text) : Text := t.map Rune.replaced

theorem replaceInvalid_eq_self : replaceInvalid t = t ↔ Valid t := by
  induction t with
  | nil => exact iff_of_true rfl (by simp [Valid])
  | cons r rest ih =>
    have hvalid : Valid (r :: rest) ↔ r.isValid ∧ Valid rest := forall_mem_cons
    rw [replaceInvalid, map_cons, cons.injEq, Rune.replaced_eq_self, hvalid]
    exact and_congr_right fun _ => ih

def split (t : Text) : List Text := t.splitOn slash

def join (elements : List Text) : Text := [slash].intercalate elements

def isRooted (t : Text) : Bool := t.head? == some slash

/-- A step to the parent takes the last element away; a relative path keeps it if there is none. -/
def climb (rooted : Bool) : List Text → List Text
  | [] => if rooted then [] else [dotdot]
  | top :: below => if top = dotdot then dotdot :: top :: below else below

def pushElement (rooted : Bool) (stack : List Text) (e : Text) : List Text :=
  if e = [] ∨ e = [dot] then stack
  else if e = dotdot then climb rooted stack
  else e :: stack

/-- `filepath.Clean`. -/
def clean (t : Text) : Text :=
  let elements := ((split t).foldl (pushElement (isRooted t)) []).reverse
  if isRooted t then slash :: join elements
  else if elements = [] then [dot]
  else join elements

/-- `filepath.Dir`. -/
def dir (t : Text) : Text := clean (t.rdropWhile (· != slash))

/-- `filepath.Join` of two paths. -/
def joinPath (a b : Text) : Text :=
  if a ≠ [] then clean (a ++ slash :: b) else if b ≠ [] then clean b else []

structure Proper (e : Text) : Prop where
  nonempty : e ≠ []
  not_dot : e ≠ [dot]
  not_dotdot : e ≠ dotdot
  no_slash : slash ∉ e

theorem split_join (h : ∀ e ∈ elements, slash ∉ e) (hne : elements ≠ []) :
    split (join elements) = elements :=
  splitOn_intercalate slash h hne

theorem split_append_slash (a b : Text) : split (a ++ slash :: b) = split a ++ split b :=
  splitOnP_append_cons a b (beq_self_eq_true slash)

theorem split_ne_nil (t : Text) : split t ≠ [] := splitOnP_ne_nil _ t

theorem split_no_slash : ∀ e ∈ split t, slash ∉ e := fun _ => SeparatedWords.not_mem_of_mem_splitOn

theorem join_cons (h : elements ≠ []) : join (e :: elements) = e ++ slash :: join elements := by
  rw [join, intercalate_cons_of_ne_nil h]
  simp [join]

theorem join_append {a b : List Text} (ha : a ≠ []) (hb : b ≠ []) :
    join (a ++ b) = join a ++ slash :: join b := by
  induction a with
  | nil => exact absurd rfl ha
  | cons e rest ih =>
    by_cases hrest : rest = []
    · subst hrest
      rw [singleton_append, join_cons hb]
      simp [join]
    · have hne : rest ++ b ≠ [] := append_ne_nil_of_left_ne_nil hrest b
      rw [cons_append, join_cons hne, ih hrest, join_cons hrest]
      simp

def kept (stack elements : List Text) : List Text :=
  (elements.foldl (pushElement false) stack).reverse

/-- A stack of names above the steps to a parent that could not be resolved. -/
def Stacked (stack : List Text) : Prop :=
  ∃ names steps, stack = names ++ replicate steps dotdot ∧ ∀ e ∈ names, Proper e

theorem dotdot_ne_nil : dotdot ≠ [] := by decide

theorem pushElement_proper (h : Proper e) : pushElement rooted stack e = e :: stack := by
  rw [pushElement, if_neg (not_or.mpr ⟨h.nonempty, h.not_dot⟩), if_neg h.not_dotdot]

theorem pushElement_skipped (h : e = [] ∨ e = [dot]) : pushElement rooted stack e = stack := by
  rw [pushElement, if_pos h]

theorem pushElement_dotdot (rooted : Bool) (stack : List Text) :
    pushElement rooted stack dotdot = climb rooted stack := by
  rw [pushElement, if_neg (not_or.mpr ⟨dotdot_ne_nil, by decide⟩), if_pos rfl]

theorem element_cases (h : slash ∉ e) : (e = [] ∨ e = [dot]) ∨ e = dotdot ∨ Proper e := by
  by_cases hskip : e = [] ∨ e = [dot]
  · exact .inl hskip
  · by_cases hdotdot : e = dotdot
    · exact .inr (.inl hdotdot)
    · obtain ⟨hnil, hdot⟩ := not_or.mp hskip
      exact .inr (.inr ⟨hnil, hdot, hdotdot, h⟩)

theorem Stacked.push (h : Stacked stack) (he : slash ∉ e) :
    Stacked (pushElement false stack e) := by
  obtain ⟨names, steps, rfl, hnames⟩ := h
  rcases element_cases he with hskip | rfl | hproper
  · rw [pushElement_skipped hskip]
    exact ⟨names, steps, rfl, hnames⟩
  · rw [pushElement_dotdot]
    cases names with
    | nil =>
      cases steps with
      | zero => exact ⟨[], 1, rfl, hnames⟩
      | succ steps => exact ⟨[], steps + 2, rfl, hnames⟩
    | cons top below =>
      have htop := (hnames top mem_cons_self).not_dotdot
      rw [cons_append, climb, if_neg htop]
      exact ⟨below, steps, rfl, fun e he => hnames e (mem_cons_of_mem _ he)⟩
  · rw [pushElement_proper hproper]
    refine ⟨e :: names, steps, rfl, ?_⟩
    exact forall_mem_cons.mpr ⟨hproper, hnames⟩

theorem Stacked.foldl (h : Stacked stack) (helements : ∀ e ∈ elements, slash ∉ e) :
    Stacked (elements.foldl (pushElement false) stack) := by
  induction elements generalizing stack with
  | nil => exact h
  | cons e rest ih =>
    exact ih (h.push (helements e mem_cons_self)) fun other hother =>
      helements other (mem_cons_of_mem _ hother)

theorem foldl_pushElement_proper (h : ∀ e ∈ elements, Proper e) (stack : List Text) :
    elements.foldl (pushElement false) stack = elements.reverse ++ stack := by
  induction elements generalizing stack with
  | nil => rfl
  | cons e rest ih =>
    rw [foldl_cons, pushElement_proper (h e mem_cons_self),
      ih fun other hother => h other (mem_cons_of_mem _ hother)]
    simp

theorem dotdot_mem_push (h : dotdot ∈ stack) (he : slash ∉ e) :
    dotdot ∈ pushElement false stack e := by
  rcases element_cases he with hskip | rfl | hproper
  · rwa [pushElement_skipped hskip]
  · rw [pushElement_dotdot]
    cases stack with
    | nil => cases h
    | cons top =>
      by_cases htop : top = dotdot
      · rw [climb, if_pos htop]
        exact mem_cons_self
      · rw [climb, if_neg htop]
        exact (mem_cons.mp h).resolve_left fun heq => htop heq.symm
  · rw [pushElement_proper hproper]
    exact mem_cons_of_mem _ h

theorem dotdot_mem_foldl (h : dotdot ∈ stack) (he : ∀ e ∈ elements, slash ∉ e) :
    dotdot ∈ elements.foldl (pushElement false) stack := by
  induction elements generalizing stack with
  | nil => exact h
  | cons e rest ih =>
    exact ih (dotdot_mem_push h (he e mem_cons_self)) fun other hother =>
      he other (mem_cons_of_mem _ hother)

theorem clean_eq (h : isRooted t = false) :
    clean t = if kept [] (split t) = [] then [dot] else join (kept [] (split t)) := by
  simp only [clean, h, Bool.false_eq_true, if_false]
  rfl

theorem Stacked.no_slash (h : Stacked stack) : ∀ e ∈ stack, slash ∉ e := by
  obtain ⟨names, steps, rfl, hnames⟩ := h
  intro e he
  rcases mem_append.mp he with hname | hstep
  · exact (hnames e hname).no_slash
  · rw [eq_of_mem_replicate hstep]
    decide

theorem Stacked.kept_reverse (h : Stacked stack) : kept [] stack.reverse = stack.reverse := by
  obtain ⟨names, steps, rfl, hnames⟩ := h
  have hsteps : (replicate steps dotdot).foldl (pushElement false) [] = replicate steps dotdot := by
    induction steps with
    | zero => rfl
    | succ steps ih =>
      rw [replicate_succ', foldl_append, ih, foldl_cons, foldl_nil, pushElement_dotdot,
        ← replicate_succ']
      cases steps with
      | zero => rfl
      | succ => rw [replicate_succ, climb, if_pos rfl, ← replicate_succ, ← replicate_succ]
  have hreverse : (names ++ replicate steps dotdot).reverse = replicate steps dotdot ++
      names.reverse := by
    rw [reverse_append, reverse_replicate]
  rw [hreverse, kept, foldl_append, hsteps,
    foldl_pushElement_proper fun e he => hnames e (mem_reverse.mp he), reverse_reverse, hreverse]

theorem isRooted_join (h : ∀ e ∈ elements, slash ∉ e) (hfirst : ∀ e ∈ elements, e ≠ []) :
    isRooted (join elements) = false := by
  cases elements with
  | nil => rfl
  | cons e rest =>
    have hne := hfirst e mem_cons_self
    obtain ⟨r, others, rfl⟩ := exists_cons_of_ne_nil hne
    have hr : r ≠ slash := fun heq => h _ mem_cons_self (by rw [heq]; exact mem_cons_self)
    by_cases hrest : rest = []
    · simp [isRooted, join, hr]
    · rw [join_cons hrest]
      simp [isRooted, hr]

theorem Stacked.nonempty (h : Stacked stack) : ∀ e ∈ stack, e ≠ [] := by
  obtain ⟨names, steps, rfl, hnames⟩ := h
  intro e he
  rcases mem_append.mp he with hname | hstep
  · exact (hnames e hname).nonempty
  · rw [eq_of_mem_replicate hstep]
    exact dotdot_ne_nil

def keptText (elements : List Text) : Text := if elements = [] then [dot] else join elements

theorem clean_keptText (h : Stacked stack) :
    clean (keptText stack.reverse) = keptText stack.reverse := by
  by_cases hnil : stack.reverse = []
  · rw [keptText, if_pos hnil]
    rfl
  · have hslash : ∀ e ∈ stack.reverse, slash ∉ e := fun e he => h.no_slash e (mem_reverse.mp he)
    have hne : ∀ e ∈ stack.reverse, e ≠ [] := fun e he => h.nonempty e (mem_reverse.mp he)
    rw [keptText, if_neg hnil, clean_eq (isRooted_join hslash hne), split_join hslash hnil,
      h.kept_reverse, if_neg hnil]

def Local (t : Text) : Prop := ∀ e ∈ split t, Proper e

theorem Local.join_split : join (split t) = t := intercalate_splitOn slash

/-- A stack with an unresolved step has it at the front of the path. -/
theorem Stacked.proper_of_head (h : Stacked stack) (hhead : stack.reverse.head? ≠ some dotdot) :
    ∀ e ∈ stack, Proper e := by
  obtain ⟨names, steps, rfl, hnames⟩ := h
  cases steps with
  | zero =>
    intro e he
    rw [replicate_zero, append_nil] at he
    exact hnames e he
  | succ =>
    rw [reverse_append, reverse_replicate] at hhead
    exact absurd rfl hhead

theorem local_of_clean (hrooted : isRooted t = false) (hclean : clean t = t) (hdot : t ≠ [dot])
    (hdotdot : t ≠ dotdot) (hup : ¬ (dotdot ++ [slash]) <+: t) : Local t := by
  have hstacked : Stacked ((split t).foldl (pushElement false) []) :=
    Stacked.foldl ⟨[], 0, rfl, by simp⟩ split_no_slash
  have hclean := (clean_eq hrooted).symm.trans hclean
  by_cases hnil : kept [] (split t) = []
  · rw [if_pos hnil] at hclean
    exact absurd hclean.symm hdot
  · rw [if_neg hnil] at hclean
    have hsplit : split t = kept [] (split t) := by
      conv_lhs => rw [← hclean]
      exact split_join (fun e he => hstacked.no_slash e (mem_reverse.mp he)) hnil
    have hhead : (kept [] (split t)).head? ≠ some dotdot := by
      intro hhead
      obtain ⟨rest, hrest⟩ := head?_eq_some_iff.mp hhead
      rw [hrest] at hclean
      by_cases hlast : rest = []
      · rw [hlast] at hclean
        exact hdotdot (by rw [← hclean]; rfl)
      · rw [join_cons hlast] at hclean
        exact hup ⟨join rest, by rw [← hclean]; simp⟩
    intro e he
    rw [hsplit] at he
    exact hstacked.proper_of_head hhead e (mem_reverse.mp he)

theorem dir_of_local (h : Local t) (hsplit : split t = parents ++ [e]) :
    dir t = keptText parents := by
  have hproper : ∀ other ∈ parents ++ [e], Proper other := by
    intro other hother
    exact h other (by rw [hsplit]; exact hother)
  have he := hproper e (mem_append_right _ mem_cons_self)
  have hparents : ∀ other ∈ parents, Proper other := fun other hother =>
    hproper other (mem_append_left _ hother)
  have hdrop : e.rdropWhile (· != slash) = [] := by
    rw [rdropWhile_eq_nil_iff]
    intro r hr
    simp only [bne_iff_ne, ne_eq]
    rintro rfl
    exact he.no_slash hr
  by_cases hnil : parents = []
  · subst hnil
    have ht : t = e := by
      rw [← Local.join_split (t := t), hsplit]
      simp [join]
    rw [ht, dir, hdrop]
    rfl
  · have ht : t = join parents ++ [slash] ++ e := by
      rw [← Local.join_split (t := t), hsplit, join_append hnil (by simp)]
      simp [join]
    have hpre : t.rdropWhile (· != slash) = join parents ++ [slash] := by
      rw [ht, rdropWhile, reverse_append, reverse_append]
      have hrev : e.reverse.dropWhile (· != slash) = [] := by
        have := congrArg reverse hdrop
        rwa [rdropWhile, reverse_reverse] at this
      rw [dropWhile_append, hrev]
      simp
    have hsplits : split (join parents ++ [slash]) = parents ++ [[]] := by
      rw [split_append_slash, split_join (fun other hother => (hparents other hother).no_slash)
        hnil]
      rfl
    have hrooted : isRooted (join parents ++ [slash]) = false := by
      have hjoin := isRooted_join (fun other hother => (hparents other hother).no_slash)
        fun other hother => (hparents other hother).nonempty
      cases hj : join parents with
      | nil =>
        have hne := split_join (fun other hother => (hparents other hother).no_slash) hnil
        rw [hj] at hne
        have hempty : ([] : Text) ∈ parents := by
          rw [← hne]
          exact mem_cons_self
        exact absurd rfl (hparents [] hempty).nonempty
      | cons =>
        rw [hj] at hjoin
        exact hjoin
    have hkept : kept [] (parents ++ [[]]) = parents := by
      rw [kept, foldl_append, foldl_pushElement_proper hparents]
      simp [pushElement]
    rw [dir, hpre, clean_eq hrooted, hsplits, hkept, keptText]

theorem joinPath_dir {target : Text} (h : Local t) (hsplit : split t = parents ++ [e]) :
    joinPath (dir t) target = keptText (kept parents.reverse (split target)) := by
  have hparents : ∀ other ∈ parents, Proper other := by
    intro other hother
    exact h other (by rw [hsplit]; exact mem_append_left _ hother)
  rw [dir_of_local h hsplit]
  by_cases hnil : parents = []
  · subst hnil
    have hrooted : isRooted (dot :: slash :: target) = false := rfl
    have hsplits : split (dot :: slash :: target) = [dot] :: split target :=
      split_append_slash [dot] target
    rfl
  · have hclean : ∀ other ∈ parents, slash ∉ other := fun other hother =>
      (hparents other hother).no_slash
    have hjoin := split_join hclean hnil
    have hne : join parents ≠ [] := by
      intro hempty
      rw [hempty] at hjoin
      have hmem : ([] : Text) ∈ parents := by
        rw [← hjoin]
        exact mem_cons_self
      exact (hparents [] hmem).nonempty rfl
    have hrooted : isRooted (join parents ++ slash :: target) = false := by
      have hroot := isRooted_join hclean fun other hother => (hparents other hother).nonempty
      obtain ⟨r, rest, hj⟩ := exists_cons_of_ne_nil hne
      rw [hj] at hroot ⊢
      exact hroot
    rw [keptText, if_neg hnil, joinPath, if_pos hne, clean_eq hrooted, split_append_slash, hjoin,
      kept, foldl_append, foldl_pushElement_proper hparents, append_nil, keptText]
    rfl

/-- A path that is below a local one by its text never steps above its start. -/
theorem proper_of_below {target root : Text} (h : Local t) (hsplit : split t = parents ++ [e])
    (hroot : Local root)
    (hbelow : clean (joinPath (dir t) target) = root ∨
      (root ++ [slash]) <+: clean (joinPath (dir t) target)) :
    ∀ other ∈ (split target).foldl (pushElement false) parents.reverse, Proper other := by
  have hparents : ∀ other ∈ parents, Proper other := by
    intro other hother
    exact h other (by rw [hsplit]; exact mem_append_left _ hother)
  have hstacked : Stacked ((split target).foldl (pushElement false) parents.reverse) := by
    refine Stacked.foldl ⟨parents.reverse, 0, by simp, ?_⟩ split_no_slash
    intro other hother
    exact hparents other (mem_reverse.mp hother)
  rw [joinPath_dir h hsplit, kept, clean_keptText hstacked] at hbelow
  have hhead : ∀ first, (split (keptText (kept parents.reverse (split target)))).head? =
      some first → Proper first := by
    intro first hfirst
    refine hroot first ?_
    obtain ⟨other, others, hroots⟩ := exists_cons_of_ne_nil (split_ne_nil root)
    rcases hbelow with heq | ⟨rest, heq⟩
    · rw [kept, heq] at hfirst
      exact mem_of_mem_head? hfirst
    · rw [append_assoc, singleton_append] at heq
      rw [kept, ← heq, split_append_slash, hroots, cons_append] at hfirst
      rw [hroots, ← Option.some.inj hfirst]
      exact mem_cons_self
  refine hstacked.proper_of_head ?_
  intro hdotdot
  have hne : kept parents.reverse (split target) ≠ [] := by
    intro hempty
    rw [kept] at hempty
    rw [hempty] at hdotdot
    cases hdotdot
  have hkept : split (keptText (kept parents.reverse (split target))) =
      kept parents.reverse (split target) := by
    rw [keptText, if_neg hne]
    exact split_join (fun other hother => hstacked.no_slash other (mem_reverse.mp hother)) hne
  exact (hhead dotdot (by rw [hkept]; exact hdotdot)).not_dotdot rfl

end GoTexts
