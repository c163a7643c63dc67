import Mathlib.Data.String.Basic
import Mathlib.Data.List.Sort
import Mathlib.Algebra.Ring.Int.Defs
import Tako.SeparatedWords

/-! # Go text, counters, clocks and error returns

Strings are compared and folded as Go's `strings` package does. Folding is ASCII: every
folded comparison of the modelled program has a UUID on one side, and no rune outside
ASCII folds to a hexadecimal digit or a hyphen. A time is its instant in nanoseconds
since Go's zero time, so that `Time.IsZero` is `t = 0`.
-/
namespace GoPrelude

open List Char String SeparatedWords

abbrev Time := ℤ

def second : ℤ := 1000000000
def minute : ℤ := 60 * second
def hour : ℤ := 60 * minute

/-- The successor of a `uint64`, which wraps to zero. -/
def uint64Succ (n : ℕ) : ℕ := (n + 1) % 2 ^ 64

theorem uint64Succ_eq {n : ℕ} (h : uint64Succ n ≠ 0) (hn : n < 2 ^ 64) : uint64Succ n = n + 1 := by
  unfold uint64Succ at *
  rcases Nat.lt_or_ge (n + 1) (2 ^ 64) with hlt | hge
  · exact Nat.mod_eq_of_lt hlt
  · have : n + 1 = 2 ^ 64 := by omega
    simp [this] at h

theorem uint64Succ_lt (n : ℕ) : uint64Succ n < 2 ^ 64 := Nat.mod_lt _ (by decide)

def int64 (n : ℤ) : ℤ := n.bmod (2 ^ 64)

theorem int64_eq {n : ℤ} (hlow : -2 ^ 63 ≤ n) (hhigh : n < 2 ^ 63) : int64 n = n := by
  apply Int.bmod_eq_of_le <;> omega

/-- A guard that returns `message` as the error unless `p` holds. -/
def require (p : Prop) [Decidable p] (message : String) : Except String Unit :=
  if p then .ok () else .error message

variable {u : Unit} {ε α β : Type} {a b : String} {l : List Char}

@[simp] theorem require_eq_ok {p : Prop} [Decidable p] {message : String} :
    require p message = .ok u ↔ p := by
  unfold require
  split_ifs with h <;> simp [h]

def whenever (c : Prop) [Decidable c] (check : Except String Unit) : Except String Unit :=
  if c then check else .ok ()

@[simp] theorem whenever_eq_ok {c : Prop} [Decidable c] {check : Except String Unit} :
    whenever c check = .ok u ↔ (c → check = .ok u) := by
  unfold whenever
  split_ifs with h <;> simp [h]

theorem toOption_eq_some_iff {x : Except ε α} {a : α} : x.toOption = some a ↔ x = .ok a := by
  cases x <;> simp [Except.toOption]

theorem exists_of_any {o : Option α} {P : α → Prop} [DecidablePred P]
    (h : o.any fun a => decide (P a)) : ∃ a, o = some a ∧ P a := by
  simpa using (Option.any_eq_true _ _).mp h

theorem exists_ok_of_any {x : Except ε α} {P : α → Prop} [DecidablePred P]
    (h : x.toOption.any fun a => decide (P a)) : ∃ a, x = .ok a ∧ P a :=
  (exists_of_any h).imp fun _ => And.imp_left toOption_eq_some_iff.mp

theorem exists_ok {x : Except ε α} (h : x.toOption.isSome) : ∃ a, x = .ok a :=
  (Option.isSome_iff_exists.mp h).imp fun _ => toOption_eq_some_iff.mp

@[simp] theorem bind_eq_ok {x : Except ε α} {f : α → Except ε β} {b : β} :
    (x >>= f) = .ok b ↔ ∃ a, x = .ok a ∧ f a = .ok b := by
  cases x <;> simp [bind, Except.bind]

def wrap {α : Type} (context : String → String) : Except String α → Except String α
  | .ok a => .ok a
  | .error cause => .error (context cause)

@[simp] theorem wrap_eq_ok {context : String → String} {x : Except String α} {a : α} :
    wrap context x = .ok a ↔ x = .ok a := by
  cases x <;> simp [wrap]

theorem forM_eq_ok {check : α → Except ε Unit} {l : List α} :
    l.forM check = .ok u ↔ ∀ a ∈ l, check a = .ok () := by
  induction l with
  | nil => simp [List.forM, pure, Except.pure]
  | cons a l ih =>
    rw [forM_eq_forM] at ih ⊢
    rw [forM_cons, bind_eq_ok, forall_mem_cons, ← ih]
    constructor
    · rintro ⟨_, ha, hl⟩
      exact ⟨ha, hl⟩
    · rintro ⟨ha, hl⟩
      exact ⟨(), ha, hl⟩

/-- A loop that collects one result for each element. -/
theorem mapM_eq_ok {f : α → Except ε β} {l : List α} {m : List β} :
    l.mapM f = .ok m ↔ List.Forall₂ (fun a b => f a = .ok b) l m := by
  induction l generalizing m with
  | nil => simp [pure, Except.pure, eq_comm]
  | cons a l ih =>
    rw [mapM_cons, forall₂_cons_left_iff]
    simp only [bind_eq_ok, ih, pure, Except.pure, Except.ok.injEq]
    constructor
    · rintro ⟨b, hb, rest, hrest, rfl⟩
      exact ⟨b, rest, hb, hrest, rfl⟩
    · rintro ⟨b, rest, hb, hrest, rfl⟩
      exact ⟨b, hb, rest, hrest, rfl⟩

theorem exists_of_forall₂ {γ δ : Type*} {R : γ → δ → Prop} {l : List γ} {m : List δ} {b : δ}
    (h : Forall₂ R l m) (hb : b ∈ m) : ∃ a ∈ l, R a b := by
  induction h with
  | nil => cases hb
  | @cons a c l m hac _ ih =>
    rcases mem_cons.mp hb with rfl | hb
    · exact ⟨a, mem_cons_self, hac⟩
    · obtain ⟨d, hd, hdb⟩ := ih hb
      exact ⟨d, mem_cons_of_mem a hd, hdb⟩

section

variable {f : α → Except ε β} {l : List α} {m : List β}

theorem exists_of_mapM_eq_ok {b : β} (h : l.mapM f = .ok m) (hb : b ∈ m) : ∃ a ∈ l, f a = .ok b :=
  exists_of_forall₂ (R := fun a b => f a = .ok b) (mapM_eq_ok.mp h) hb

theorem exists_result_of_mapM_eq_ok {a : α} (h : l.mapM f = .ok m) (ha : a ∈ l) :
    ∃ b ∈ m, f a = .ok b :=
  exists_of_forall₂ (mapM_eq_ok.mp h).flip ha

end

/-- Where the results name the elements they come from, the loop keeps the names in order. -/
theorem map_of_mapM_eq_ok {γ : Type} {f : α → Except ε β} {l : List α} {m : List β} {name : β → γ}
    (source : α → γ) (h : l.mapM f = .ok m) (hf : ∀ a ∈ l, ∀ b, f a = .ok b → name b = source a) :
    m.map name = l.map source := by
  have hall := mapM_eq_ok.mp h
  clear h
  induction hall with
  | nil => rfl
  | @cons a b l m hab _ ih =>
    have hrest := ih fun c hc => hf c (mem_cons_of_mem a hc)
    rw [map_cons, map_cons, hf a mem_cons_self b hab, hrest]

section

variable (c : Char)

/-- `unicode.IsSpace`. -/
def isSpace : Bool :=
  c.toNat == 0x20 || (0x09 ≤ c.toNat && c.toNat ≤ 0x0d) || c.toNat == 0x85 || c.toNat == 0xa0 ||
  c.toNat == 0x1680 || (0x2000 ≤ c.toNat && c.toNat ≤ 0x200a) || c.toNat == 0x2028 ||
  c.toNat == 0x2029 || c.toNat == 0x202f || c.toNat == 0x205f || c.toNat == 0x3000

def isLowerLetter : Bool := 'a' ≤ c && c ≤ 'z'
def isUpperLetter : Bool := 'A' ≤ c && c ≤ 'Z'
def isDigit : Bool := '0' ≤ c && c ≤ '9'

/-- The characters of a string. An ASCII string is read off its bytes, which evaluates well. -/
def chars (s : String) : List Char :=
  let bytes := s.toByteArray.data.toList
  if bytes.all (· < 128) then bytes.map fun b => ofNat b.toNat else s.toList

theorem utf8EncodeChar_ascii {b : UInt8} (h : b < 128) : utf8EncodeChar (ofNat b.toNat) = [b] := by
  have hb : b.toNat < 128 := h
  have hvalid : b.toNat.isValidChar := .inl (by omega)
  have hv : (ofNat b.toNat).val.toNat = b.toNat := by
    unfold ofNat
    rw [dif_pos hvalid]
    rfl
  unfold utf8EncodeChar
  rw [hv]
  simp only [show b.toNat ≤ 0x7f by omega, if_true, UInt8.ofNat_toNat]

theorem flatMap_utf8EncodeChar {l : List UInt8} (h : ∀ b ∈ l, b < 128) :
    (l.map fun b => ofNat b.toNat).flatMap utf8EncodeChar = l := by
  induction l with
  | nil => rfl
  | cons b rest ih =>
    rw [map_cons, flatMap_cons, utf8EncodeChar_ascii (h b mem_cons_self),
      ih fun c hc => h c (mem_cons_of_mem b hc)]
    rfl

@[simp] theorem chars_eq_toList (s : String) : chars s = s.toList := by
  unfold chars
  dsimp only
  split_ifs with h
  · have hascii : ∀ b ∈ s.toByteArray.data.toList, b < 128 := by
      intro b hb
      exact of_decide_eq_true (all_eq_true.mp h b hb)
    have hs : ofList (s.toByteArray.data.toList.map fun b => ofNat b.toNat) = s := by
      rw [← String.toByteArray_inj, String.toByteArray_ofList, utf8Encode,
        flatMap_utf8EncodeChar hascii]
      ext1
      rw [data_toByteArray]
    rw [← toList_ofList (l := s.toByteArray.data.toList.map _), hs]
  · rfl

def trimChars (l : List Char) : List Char := (l.dropWhile isSpace).rdropWhile isSpace

def trimSpace (s : String) : String := ofList (trimChars (chars s))

def toLower (s : String) : String := ofList ((chars s).map Char.toLower)

def equalFold (a b : String) : Bool := (chars a).map Char.toLower == (chars b).map Char.toLower

theorem equalFold_iff : equalFold a b ↔ a.toList.map Char.toLower = b.toList.map Char.toLower := by
  simp [equalFold]

theorem toLower_toNat :
    c.toLower.toNat = if 65 ≤ c.toNat ∧ c.toNat ≤ 90 then c.toNat + 32 else c.toNat := by
  have hle : (c.val ≥ 'A'.val ∧ c.val ≤ 'Z'.val) ↔ (65 ≤ c.toNat ∧ c.toNat ≤ 90) := by
    exact Iff.rfl
  unfold Char.toLower
  split_ifs with h k k
  · change (c.toNat + 32) % 2 ^ 32 = c.toNat + 32
    omega
  · exact absurd (hle.mp h) k
  · exact absurd (hle.mpr k) h
  · rfl

theorem toLower_idem : c.toLower.toLower = c.toLower := by
  apply toNat_inj.mp
  have h₁ := toLower_toNat c
  have h₂ := toLower_toNat c.toLower
  split_ifs at h₁ h₂ <;> omega

@[simp] theorem isSpace_toLower : isSpace c.toLower = isSpace c := by
  have h := toLower_toNat c
  split_ifs at h with hu
  · rw [Bool.eq_iff_iff]
    simp only [isSpace, Bool.or_eq_true, Bool.and_eq_true, beq_iff_eq, decide_eq_true_eq]
    omega
  · simp [isSpace, h]

end

theorem trimChars_map_toLower :
    trimChars (l.map Char.toLower) = (trimChars l).map Char.toLower := by
  have drop : ∀ l : List Char,
      (l.map Char.toLower).dropWhile isSpace = (l.dropWhile isSpace).map Char.toLower := by
    intro l
    rw [dropWhile_map]
    congr 2
    funext c
    exact isSpace_toLower c
  unfold trimChars rdropWhile
  rw [drop, ← map_reverse, drop, ← map_reverse]

theorem trimChars_idem : trimChars (trimChars l) = trimChars l := by
  have front : (trimChars l).dropWhile isSpace = trimChars l := by
    -- Cutting at the back keeps the first character, which is not a space.
    rw [dropWhile_eq_self_iff]
    intro hl
    have hp := rdropWhile_prefix isSpace (l := l.dropWhile isSpace)
    have hself := dropWhile_eq_self_iff.mp
      (dropWhile_idempotent (p := isSpace) (l := l)) (hl.trans_le hp.length_le)
    rwa [← hp.getElem hl] at hself
  unfold trimChars at front ⊢
  rw [front, rdropWhile_idempotent]

theorem trimChars_of_ends (hfirst : ∀ c ∈ l.head?, isSpace c = false)
    (hlast : ∀ c ∈ l.getLast?, isSpace c = false) : trimChars l = l := by
  rw [trimChars, dropWhile_of_head hfirst, rdropWhile_of_last hlast]

theorem trimChars_of_no_space (h : ∀ c ∈ l, isSpace c = false) : trimChars l = l :=
  trimChars_of_ends (fun c hc => h c (mem_of_head? hc)) fun c hc => h c (mem_of_getLast? hc)

theorem trimSpace_normal (s : String) :
    trimSpace (toLower (trimSpace s)) = toLower (trimSpace s) := by
  simp only [trimSpace, toLower, chars_eq_toList, toList_ofList, trimChars_map_toLower,
    trimChars_idem]

@[simp] theorem toLower_toLower (s : String) : toLower (toLower s) = toLower s := by
  simp [toLower, Function.comp_def, toLower_idem]

theorem equalFold_iff_toLower : equalFold a b ↔ toLower a = toLower b := by
  rw [equalFold_iff]
  simp only [toLower, chars_eq_toList]
  exact ofList_inj.symm

theorem mem_trimChars {c : Char} (hc : isSpace c = false) (h : c ∈ l) : c ∈ trimChars l := by
  have hdrop : ∀ l : List Char, c ∈ l → c ∈ l.dropWhile isSpace := by
    intro l h
    rw [← takeWhile_append_dropWhile (p := isSpace) (l := l)] at h
    rcases mem_append.mp h with htaken | hrest
    · have hspace := mem_takeWhile_imp htaken
      simp [hc] at hspace
    · exact hrest
  have hback := hdrop _ (mem_reverse.mpr (hdrop l h))
  exact mem_reverse.mpr hback

/-- The separator of compound keys survives trimming and folding, and folding makes none. -/
theorem nul_mem_trimLower (h : '\x00' ∈ l) : '\x00' ∈ (trimChars l).map Char.toLower :=
  mem_map.mpr ⟨'\x00', mem_trimChars (by decide) h, by decide⟩

theorem nul_mem_of_mem_toLower {s : String} (h : '\x00' ∈ (toLower s).toList) :
    '\x00' ∈ s.toList := by
  simp only [toLower, chars_eq_toList, toList_ofList] at h
  obtain ⟨c, hc, hlower⟩ := mem_map.mp h
  have hcode := toLower_toNat c
  rw [hlower] at hcode
  have hzero : c.toNat = '\x00'.toNat := by
    change 0 = _ at hcode
    change c.toNat = 0
    split_ifs at hcode
    omega
  rwa [toNat_inj.mp hzero] at hc

/-- `strings.Split` with a one-character separator. -/
def split (s : String) (sep : Char) : List String := ((chars s).splitOn sep).map ofList

/-- `sort.StringsAreSorted`. -/
def stringsAreSorted : List String → Bool
  | a :: b :: rest => !(b < a) && stringsAreSorted (b :: rest)
  | _ => true

/-- The loop of `sort.Search` for the first index in `[i, j)` whose string is not below `x`. -/
def searchLoop (values : List String) (x : String) : ℕ → ℕ → ℕ → ℕ
  | 0, i, _ => i
  | fuel + 1, i, j =>
    if i < j then
      let h := (i + j) / 2
      if values.getD h "" < x then searchLoop values x fuel (h + 1) j
      else searchLoop values x fuel i h
    else i

/-- `sort.SearchStrings`; each round at least halves the interval, so the length is fuel. -/
def searchStrings (values : List String) (x : String) : ℕ :=
  searchLoop values x (values.length + 1) 0 values.length

/-- `sort.Strings`. -/
def sortStrings (values : List String) : List String := values.insertionSort (· ≤ ·)

/-- One round of a loop that refuses a key it has seen. -/
theorem nodup_cons_of_seen {σ : Type} [Membership β σ] {seen added : σ} {key : α → β} {a : α}
    {rest : List α} (hfresh : key a ∉ seen) (hadded : ∀ k, k = key a ∨ k ∈ seen → k ∈ added)
    (h : (rest.map key).Nodup ∧ ∀ b ∈ rest, key b ∉ added) :
    ((a :: rest).map key).Nodup ∧ ∀ b ∈ a :: rest, key b ∉ seen := by
  obtain ⟨hnodup, hunseen⟩ := h
  refine ⟨nodup_cons.mpr ⟨?_, hnodup⟩, forall_mem_cons.mpr ⟨hfresh, ?_⟩⟩
  · intro hmem
    obtain ⟨b, hb, hkey⟩ := mem_map.mp hmem
    exact hunseen b hb (hadded _ (.inl hkey))
  · intro b hb hseen
    exact hunseen b hb (hadded _ (.inr hseen))

theorem exists_of_map_eq {f : α → β} {a b : Option α} (h : a.map f = b.map f) (ha : a = some x) :
    ∃ y, b = some y ∧ f y = f x := by
  rw [ha] at h
  exact Option.map_eq_some_iff.mp h.symm

end GoPrelude
