import Mathlib.Data.List.GetD
import Tako.GoPrelude

/-! # Standard base64 as Go reads it

The decoder skips line ends and does not look at the bits that a padded quantum leaves over, so one
list of bytes has many texts. Encoding what was decoded gives the normal form of the text.
-/
namespace Base64

open List GoPrelude

def alphabet : List Char := chars "ABCDEFGHIJKLMNOPQRSTUVWXYZabcdefghijklmnopqrstuvwxyz0123456789+/"

def value (c : Char) : ℕ := alphabet.idxOf c

def digit (n : ℕ) : Char := alphabet.getD n '='

section

variable (a b c d : Char)

def first : UInt8 := .ofNat (value a * 4 + value b / 16)
def second : UInt8 := .ofNat (value b % 16 * 16 + value c / 4)
def third : UInt8 := .ofNat (value c % 4 * 64 + value d)

end

def decodeQuanta : List Char → Option (List UInt8)
  | [] => some []
  | a :: b :: c :: d :: rest =>
    if a ∈ alphabet ∧ b ∈ alphabet ∧ c ∈ alphabet ∧ d ∈ alphabet then
      (decodeQuanta rest).map (first a b :: second b c :: third c d :: ·)
    else if a ∈ alphabet ∧ b ∈ alphabet ∧ c ∈ alphabet ∧ d :: rest = ['='] then
      some [first a b, second b c]
    else if a ∈ alphabet ∧ b ∈ alphabet ∧ c :: d :: rest = ['=', '='] then some [first a b]
    else none
  | _ => none

def encode : List UInt8 → List Char
  | [] => []
  | [x] => [digit (x.toNat / 4), digit (x.toNat % 4 * 16), '=', '=']
  | [x, y] =>
    [digit (x.toNat / 4), digit (x.toNat % 4 * 16 + y.toNat / 16), digit (y.toNat % 16 * 4), '=']
  | x :: y :: z :: rest =>
    digit (x.toNat / 4) :: digit (x.toNat % 4 * 16 + y.toNat / 16) ::
      digit (y.toNat % 16 * 4 + z.toNat / 64) :: digit (z.toNat % 64) :: encode rest

def clear (n : ℕ) (c : Char) : Char := if c ∈ alphabet then digit (value c / n * n) else c

/-- The bits that a padded quantum leaves over are set to zero. -/
def clearSpare : List Char → List Char
  | a :: b :: c :: d :: rest =>
    if c :: d :: rest = ['=', '='] then [a, clear 16 b, '=', '=']
    else if d :: rest = ['='] then [a, b, clear 4 c, '=']
    else a :: b :: c :: d :: clearSpare rest
  | l => l

def isLineEnd (c : Char) : Bool := c == '\r' || c == '\n'

def decode (text : String) : Option (List UInt8) :=
  decodeQuanta ((chars text).filter (!isLineEnd ·))

def normal (text : String) : List Char := clearSpare ((chars text).filter (!isLineEnd ·))

theorem value_lt (h : c ∈ alphabet) : value c < 64 := idxOf_lt_length_of_mem h

theorem digit_value (h : c ∈ alphabet) : digit (value c) = c := by
  unfold digit value
  rw [getD_eq_getElem _ _ (idxOf_lt_length_of_mem h), getElem_idxOf]

theorem pad_not_mem : '=' ∉ alphabet := by decide +kernel

theorem ne_pad (h : c ∈ alphabet) : c ≠ '=' := fun heq => pad_not_mem (heq ▸ h)

section

variable {a b c d : Char}

theorem first_toNat (ha : a ∈ alphabet) (hb : b ∈ alphabet) :
    (first a b).toNat = value a * 4 + value b / 16 := by
  have ha := value_lt ha
  have hb := value_lt hb
  rw [first, UInt8.toNat_ofNat']
  omega

theorem second_toNat (hc : c ∈ alphabet) :
    (second b c).toNat = value b % 16 * 16 + value c / 4 := by
  have hc := value_lt hc
  rw [second, UInt8.toNat_ofNat']
  omega

theorem third_toNat (hd : d ∈ alphabet) : (third c d).toNat = value c % 4 * 64 + value d := by
  have hd := value_lt hd
  rw [third, UInt8.toNat_ofNat']
  omega

end

theorem digit_eq (hc : c ∈ alphabet) (hn : n = value c) : digit n = c := by
  rw [hn, digit_value hc]

/-- What a text encodes determines its normal form. -/
theorem encode_decodeQuanta (h : decodeQuanta l = some bytes) : encode bytes = clearSpare l := by
  fun_induction decodeQuanta l generalizing bytes with
  | case1 => cases h; rfl
  | case2 a b c d rest hall ih =>
    obtain ⟨ha, hb, hc, hd⟩ := hall
    obtain ⟨tail, htail, rfl⟩ := Option.map_eq_some_iff.mp h
    have hb' := value_lt hb
    have hc' := value_lt hc
    have hd' := value_lt hd
    rw [clearSpare, if_neg fun heq => ne_pad hc (cons.inj heq).1,
      if_neg fun heq => ne_pad hd (cons.inj heq).1,
      encode, first_toNat ha hb, second_toNat hc, third_toNat hd, ih htail, digit_eq ha (by omega),
      digit_eq hb (by omega), digit_eq hc (by omega), digit_eq hd (by omega)]
  | case3 a b c d rest _ hpad =>
    obtain ⟨ha, hb, hc, hrest⟩ := hpad
    cases hrest
    cases h
    have hb' := value_lt hb
    have hc' := value_lt hc
    rw [clearSpare, if_neg fun heq => ne_pad hc (cons.inj heq).1, if_pos rfl, clear, if_pos hc,
      encode, first_toNat ha hb, second_toNat hc, digit_eq ha (by omega), digit_eq hb (by omega)]
    congr
    omega
  | case4 a b c d rest _ _ hpad =>
    obtain ⟨ha, hb, hrest⟩ := hpad
    cases hrest
    cases h
    have hb' := value_lt hb
    rw [clearSpare, if_pos rfl, clear, if_pos hb, encode, first_toNat ha hb, digit_eq ha (by omega)]
    congr
    omega
  | case5 | case6 => cases h

theorem value_digit (h : n < 64) : value (digit n) = n := by
  revert n
  decide +kernel

theorem clear_of_mem (hn : 0 < n) (hc : c ∈ alphabet) :
    clear n c ∈ alphabet ∧ value (clear n c) / n = value c / n := by
  have hlt := (Nat.div_mul_le_self (value c) n).trans_lt (value_lt hc)
  rw [clear, if_pos hc, value_digit hlt, Nat.mul_div_cancel _ hn, digit, getD_eq_getElem _ _ hlt]
  exact ⟨getElem_mem _, rfl⟩

theorem clearSpare_eq_nil : clearSpare l = [] ↔ l = [] := by
  fun_cases clearSpare l <;> simp

/-- A text is decoded like its normal form. -/
theorem decodeQuanta_clearSpare : decodeQuanta (clearSpare l) = decodeQuanta l := by
  fun_induction clearSpare l with
  | case1 a b c d rest hpad =>
    cases hpad
    by_cases hb : b ∈ alphabet
    · obtain ⟨hmem, hvalue⟩ := clear_of_mem (n := 16) (by decide) hb
      simp only [decodeQuanta, pad_not_mem, hb, hmem, first, hvalue, false_and, and_false, if_false]
    · rw [clear, if_neg hb]
  | case2 a b c d rest hpads hpad =>
    cases hpad
    by_cases hc : c ∈ alphabet
    · obtain ⟨hmem, hvalue⟩ := clear_of_mem (n := 4) (by decide) hc
      simp only [decodeQuanta, pad_not_mem, hc, hmem, second, hvalue]
      simp [ne_pad hc, ne_pad hmem]
    · rw [clear, if_neg hc]
  | case3 a b c d rest hpads hpad ih =>
    have hlong : ¬ d :: clearSpare rest = ['='] := by simpa [clearSpare_eq_nil] using hpad
    have hlonger : ¬ c :: d :: clearSpare rest = ['=', '='] := by
      simpa [clearSpare_eq_nil] using hpads
    simp only [decodeQuanta, ih, hpad, hpads, hlong, hlonger]
  | case4 => rfl

/-- Two texts stand for the same bytes exactly if they have one normal form. -/
theorem decode_eq_some_iff (h : decode text = some bytes) :
    decode other = some bytes ↔ normal other = normal text := by
  constructor
  · intro hother
    exact (encode_decodeQuanta hother).symm.trans (encode_decodeQuanta h)
  · intro hnormal
    rw [decode, ← decodeQuanta_clearSpare]
    change decodeQuanta (normal other) = _
    rw [hnormal, normal, decodeQuanta_clearSpare]
    exact h

end Base64
