import Mathlib.Data.List.Basic

/-! # Shell scripts

Scripts of a POSIX shell under `set -e`. The simple commands are a parameter; what is fixed here is
the flow of control. Words are expanded as far as quotes go.
-/
namespace ShellScripts

open List

variable {κ σ : Type}

inductive Script (κ : Type) where
  | simple (command : κ)
  | exit (status : ℕ)
  | orElse (first second : Script κ)
  | ifThen (condition body : Script κ)
  | pipe (producer consumer : Script κ)
  | seq (first second : Script κ)
  deriving Repr

namespace Script

def text (spell : κ → String) : String → Script κ → String
  | _, .simple command => spell command
  | _, .exit status => "exit " ++ toString status
  | indent, .orElse p q => p.text spell indent ++ " || " ++ q.text spell indent
  | indent, .ifThen p q =>
    "if " ++ p.text spell indent ++ "; then\n" ++ indent ++ "  " ++ q.text spell (indent ++ "  ") ++
      "\n" ++ indent ++ "fi"
  | indent, .pipe p q => p.text spell indent ++ " | " ++ q.text spell indent
  | indent, .seq p q => p.text spell indent ++ "\n" ++ indent ++ q.text spell indent

end Script

/-- The state a command leaves, the lines it printed and its status; `exited` says that the
shell has ended. -/
structure Result (σ : Type) where
  state : σ
  output : List String
  status : ℕ
  exited : Bool

namespace Result

def after (output : List String) (r : Result σ) : Result σ :=
  { r with output := output ++ r.output }

/-- Under `set -e` an untested failure ends the shell. -/
def stopIf (untested : Bool) (r : Result σ) : Result σ :=
  { r with exited := r.exited || (untested && decide (r.status ≠ 0)) }

@[simp] theorem after_state (output : List String) (r : Result σ) :
    (r.after output).state = r.state := rfl
@[simp] theorem after_status (output : List String) (r : Result σ) :
    (r.after output).status = r.status := rfl
@[simp] theorem stopIf_state (r : Result σ) : (r.stopIf untested).state = r.state := rfl
@[simp] theorem stopIf_status (r : Result σ) : (r.stopIf untested).status = r.status := rfl

end Result

section Execution

variable (run : κ → List String → σ → Result σ)

/-- The run of a script on its standard input; `untested` is false where the status of the
script is tested by the construct around it. -/
def exec : Bool → Script κ → List String → σ → Result σ
  | untested, .simple command, input, s => (run command input s).stopIf untested
  | _, .exit status, _, s => ⟨s, [], status, true⟩
  | untested, .orElse p q, input, s =>
    let r := exec false p input s
    if r.exited ∨ r.status = 0 then r else (exec untested q input r.state).after r.output
  | untested, .ifThen p q, input, s =>
    let r := exec false p input s
    if r.exited then r
    else if r.status = 0 then (exec untested q input r.state).after r.output
    else { r with status := 0 }
  | untested, .pipe p q, input, s =>
    let r := exec untested p input s
    Result.stopIf untested { exec untested q r.output r.state with exited := false }
  | untested, .seq p q, input, s =>
    let r := exec untested p input s
    if r.exited then r else (exec untested q input r.state).after r.output

variable {run}

variable {p q : Script κ} {untested : Bool} {input : List String} {s : σ}

theorem exec_seq_exited (h : (exec run untested p input s).exited) :
    exec run untested (.seq p q) input s = exec run untested p input s := by
  simp only [exec, h, if_true]

theorem exec_seq_done (h : (exec run untested p input s).exited = false) :
    exec run untested (.seq p q) input s =
      (exec run untested q input (exec run untested p input s).state).after
        (exec run untested p input s).output := by
  simp only [exec, h, Bool.false_eq_true, if_false]

end Execution

inductive Quoting where
  | bare
  | single
  | double
  deriving DecidableEq

def apostrophe : Char := Char.ofNat 39

/-- A character that stands for itself outside quotes. -/
def isPlain (c : Char) : Bool := c.isAlphanum || c == '/' || c == '-' || c == '_' || c == '.'

/-- A character that does not stand for itself between double quotes. -/
def isActive (c : Char) : Bool := c == '$' || c == '\\' || c == Char.ofNat 96

/-- The value of a word; a word with an expansion or an open quote has none here. -/
def expand : Quoting → List Char → Option (List Char)
  | .bare, [] => some []
  | _, [] => none
  | .bare, c :: rest =>
    if c = apostrophe then expand .single rest
    else if c = '"' then expand .double rest
    else if isPlain c then (expand .bare rest).map (c :: ·) else none
  | .single, c :: rest =>
    if c = apostrophe then expand .bare rest else (expand .single rest).map (c :: ·)
  | .double, c :: rest =>
    if c = '"' then expand .bare rest
    else if isActive c then none else (expand .double rest).map (c :: ·)

theorem expand_plain {l : List Char} (h : ∀ c ∈ l, isPlain c) (rest : List Char) :
    expand .bare (l ++ rest) = (expand .bare rest).map (l ++ ·) := by
  induction l with
  | nil => simp
  | cons c l ih =>
    have hc : isPlain c := h c mem_cons_self
    have hquote : c ≠ apostrophe ∧ c ≠ '"' := by
      constructor <;> (rintro rfl; exact absurd hc (by decide))
    simp only [cons_append, expand, hquote.1, hquote.2, if_false, hc, if_true]
    rw [ih fun d hd => h d (mem_cons_of_mem _ hd), Option.map_map]
    rfl

/-- A text in single quotes, where each of its own is set between double ones. -/
def quoteChars (l : List Char) : List Char :=
  l.flatMap fun c => if c = apostrophe then [apostrophe, '"', apostrophe, '"', apostrophe] else [c]

theorem expand_quoteChars (l rest : List Char) :
    expand .single (quoteChars l ++ apostrophe :: rest) = (expand .bare rest).map (l ++ ·) := by
  induction l with
  | nil => simp [quoteChars, expand]
  | cons c l ih =>
    have hne : ('"' : Char) ≠ apostrophe := by decide
    have hactive : isActive apostrophe = false := by decide
    by_cases hc : c = apostrophe
    · have hstep : quoteChars (c :: l) = [apostrophe, '"', apostrophe, '"', apostrophe] ++
          quoteChars l := by
        simp [quoteChars, hc]
      rw [hstep]
      simp only [cons_append, nil_append, expand, if_true, hne, if_false, hne.symm, hactive,
        Bool.false_eq_true]
      rw [ih, Option.map_map, hc]
      rfl
    · have hstep : quoteChars (c :: l) = c :: quoteChars l := by simp [quoteChars, hc]
      rw [hstep]
      simp only [cons_append, expand, hc, if_false]
      rw [ih, Option.map_map]
      rfl

end ShellScripts
