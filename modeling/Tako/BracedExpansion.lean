import Mathlib.Data.List.Lex
import Mathlib.Data.List.Sort
import Tako.ByteStrings

/-! # Expansion of braced variables

`Braced` makes one pass over the bytes of a value. A dollar sign and an opening brace begin a
placeholder only if a closing brace follows somewhere; otherwise they are copied.
-/
namespace BracedExpansion

open List ByteStrings

abbrev Lookup := Bytes → Option Bytes

def dollar : UInt8 := 0x24
def opening : UInt8 := 0x7b
def closing : UInt8 := 0x7d

/-- The key of the placeholder that begins at the byte `b` before `rest`. -/
def keyAt (b : UInt8) (rest : Bytes) : Option Bytes :=
  if b ≠ dollar ∨ rest.head? ≠ some opening then none
  else (rest.tail.idxOf? closing).map rest.tail.take

/-- The loop, with the number of bytes that `i` has still to pass. -/
def bracedFrom (lookup : Lookup) : ℕ → Bytes → Bytes → List Bytes → Bytes × List Bytes
  | _, [], result, missing => (result, missing)
  | skipped + 1, _ :: rest, result, missing => bracedFrom lookup skipped rest result missing
  | 0, b :: rest, result, missing =>
    match keyAt b rest with
    | none => bracedFrom lookup 0 rest (result ++ [b]) missing
    | some key =>
      match lookup key with
      | some resolved => bracedFrom lookup (key.length + 2) rest (result ++ resolved) missing
      | none =>
        bracedFrom lookup (key.length + 2) rest result
          (if key ∈ missing then missing else missing ++ [key])

def braced (value : Bytes) (lookup : Lookup) : Bytes × List Bytes :=
  let (result, missing) := bracedFrom lookup 0 value [] []
  (result, missing.insertionSort (· ≤ ·))

/-! ## Decompositions -/

inductive Piece where
  | literal (b : UInt8)
  | placeholder (key : Bytes)

def Piece.expand (lookup : Lookup) : Piece → Bytes
  | literal b => [b]
  | placeholder key => (lookup key).getD []

/-- The text begins with a placeholder, whose key goes up to the next closing brace. -/
def Opens (text key rest : Bytes) : Prop :=
  closing ∉ key ∧ text = dollar :: opening :: (key ++ closing :: rest)

/-- The left-to-right reading of a text: a byte is literal if no placeholder begins there. -/
inductive Decomposes : List Piece → Bytes → Prop where
  | nil : Decomposes [] []
  | literal : (∀ key rest, ¬ Opens (b :: text) key rest) → Decomposes pieces text →
      Decomposes (.literal b :: pieces) (b :: text)
  | placeholder : Opens text key rest → Decomposes pieces rest →
      Decomposes (.placeholder key :: pieces) text

theorem Opens.unique (h : Opens text key rest) (h' : Opens text key' rest') :
    key = key' ∧ rest = rest' := by
  obtain ⟨hkey, rfl⟩ := h
  obtain ⟨hkey', heq⟩ := h'
  simp only [cons.injEq, true_and] at heq
  obtain ⟨as, rfl, has⟩ | ⟨as, rfl, has⟩ := append_eq_append_iff.mp heq
  all_goals
    cases as with
    | nil | cons a as => simp_all

theorem idxOf?_take_eq_some_iff {c : UInt8} {text key : Bytes} :
    (text.idxOf? c).map text.take = some key ↔ ∃ rest, c ∉ key ∧ text = key ++ c :: rest := by
  induction text generalizing key with
  | nil => simp
  | cons b text ih =>
    by_cases hb : b = c
    · cases key <;> simp [idxOf?_cons]
      grind
    · cases key with
      | nil => simp [idxOf?_cons, hb]
      | cons a key =>
        have hrest := @ih key
        simp only [Option.map_eq_some_iff] at hrest
        simp [idxOf?_cons, hb]
        grind

theorem keyAt_eq_some_iff : keyAt b text = some key ↔ ∃ rest, Opens (b :: text) key rest := by
  unfold keyAt Opens
  split_ifs with h
  · grind
  · obtain ⟨rfl, hhead⟩ : b = dollar ∧ text.head? = some opening := by simpa using h
    obtain ⟨tail, rfl⟩ := head?_eq_some_iff.mp hhead
    rw [tail_cons, idxOf?_take_eq_some_iff]
    simp

theorem bracedFrom_skip (lookup : Lookup) (skipped : ℕ) :
    bracedFrom lookup skipped text result missing =
      bracedFrom lookup 0 (text.drop skipped) result missing := by
  induction skipped generalizing text with
  | zero => rfl
  | succ skipped ih =>
    cases text with
    | nil => simp [bracedFrom]
    | cons => rw [bracedFrom, ih, drop_succ_cons]

theorem exists_decomposes (text : Bytes) : ∃ pieces, Decomposes pieces text := by
  induction hn : text.length using Nat.strong_induction_on generalizing text with
  | _ n ih =>
    subst hn
    by_cases hopens : ∃ key rest, Opens text key rest
    · obtain ⟨key, rest, hopens⟩ := hopens
      obtain ⟨pieces, hpieces⟩ := ih rest.length (by rw [hopens.2]; simp; omega) rest rfl
      exact ⟨_, .placeholder hopens hpieces⟩
    · push Not at hopens
      cases text with
      | nil => exact ⟨[], .nil⟩
      | cons b rest =>
        obtain ⟨pieces, hpieces⟩ := ih rest.length (by simp) rest rfl
        exact ⟨_, .literal hopens hpieces⟩

theorem Decomposes.unique (h : Decomposes pieces text) (hother : Decomposes other text) :
    other = pieces := by
  induction h generalizing other with
  | nil =>
    cases hother with
    | nil => rfl
    | placeholder hopens => cases hopens.2
  | literal hplain _ ih =>
    cases hother with
    | literal _ hrest => rw [ih hrest]
    | placeholder hopens _ => exact absurd hopens (hplain _ _)
  | placeholder hopens _ ih =>
    cases hother with
    | nil => cases hopens.2
    | literal hplain _ => exact absurd hopens (hplain _ _)
    | placeholder hopens' hrest =>
      obtain ⟨rfl, rfl⟩ := hopens.unique hopens'
      rw [ih hrest]

/-! ## The pass over a decomposed text -/

theorem bracedFrom_decomposes (lookup : Lookup) (h : Decomposes pieces text) (result : Bytes)
    (missing : List Bytes) :
    (bracedFrom lookup 0 text result missing).1 = result ++ pieces.flatMap (Piece.expand lookup) ∧
      (missing.Nodup → (bracedFrom lookup 0 text result missing).2.Nodup) ∧
      ∀ key, key ∈ (bracedFrom lookup 0 text result missing).2 ↔
        key ∈ missing ∨ .placeholder key ∈ pieces ∧ lookup key = none := by
  induction h generalizing result missing with
  | nil => simp [bracedFrom]
  | @literal b text pieces hplain _ ih =>
    have hnone : keyAt b text = none := by
      rw [Option.eq_none_iff_forall_ne_some]
      intro key hkey
      obtain ⟨_, hopens⟩ := keyAt_eq_some_iff.mp hkey
      exact hplain _ _ hopens
    rw [bracedFrom, hnone]
    simpa [Piece.expand] using ih (result ++ [b]) missing
  | @placeholder text key rest pieces hopens _ ih =>
    obtain ⟨b, tail, rfl⟩ : ∃ b tail, text = b :: tail := ⟨_, _, hopens.2⟩
    have hdrop : tail.drop (key.length + 2) = rest := by
      rw [(cons.inj hopens.2).2]
      simp
    rw [bracedFrom, keyAt_eq_some_iff.mpr ⟨rest, hopens⟩]
    cases hlookup : lookup key with
    | some resolved =>
      simp only [bracedFrom_skip lookup (key.length + 2), hdrop, hlookup]
      obtain ⟨hresult, hnodup, hmem⟩ := ih (result ++ resolved) missing
      refine ⟨by simp [hresult, Piece.expand, hlookup], hnodup, ?_⟩
      intro key'
      grind
    | none =>
      simp only [bracedFrom_skip lookup (key.length + 2), hdrop, hlookup]
      obtain ⟨hresult, hnodup, hmem⟩ :=
        ih result (if key ∈ missing then missing else missing ++ [key])
      refine ⟨by simp [hresult, Piece.expand, hlookup], ?_, ?_⟩
      · intro hmissing
        apply hnodup
        split_ifs with hseen
        · exact hmissing
        · exact nodup_append.mpr ⟨hmissing, nodup_singleton _, by grind⟩
      · intro key'
        grind

theorem braced_decomposes (lookup : Lookup) (h : Decomposes pieces value) :
    (braced value lookup).1 = pieces.flatMap (Piece.expand lookup) ∧ (braced value lookup).2.Nodup ∧
      ∀ key, key ∈ (braced value lookup).2 ↔ .placeholder key ∈ pieces ∧ lookup key = none := by
  obtain ⟨hresult, hnodup, hmem⟩ := bracedFrom_decomposes lookup h [] []
  have hperm := perm_insertionSort (· ≤ ·) (bracedFrom lookup 0 value [] []).2
  refine ⟨hresult, hperm.nodup_iff.mpr (hnodup nodup_nil), fun key => ?_⟩
  rw [braced, hperm.mem_iff, hmem]
  simp

theorem decomposes_literals (h : ∀ tail, tail <:+ text → ∀ key rest, ¬ Opens tail key rest) :
    Decomposes (text.map .literal) text := by
  induction text with
  | nil => exact .nil
  | cons b rest ih =>
    exact .literal (h _ suffix_rfl) (ih fun tail htail => h tail (htail.trans (suffix_cons b rest)))

/-- What straddles the end of the first text is neither a dollar sign with its brace nor a key. -/
theorem Decomposes.append (h : Decomposes pieces text) (hmore : Decomposes others more)
    (hlast : ¬ [dollar] <:+ text)
    (hclosed : ∀ rest, dollar :: opening :: rest <:+ text → closing ∈ rest) :
    Decomposes (pieces ++ others) (text ++ more) := by
  induction h with
  | nil => exact hmore
  | @literal b rest pieces hplain _ ih =>
    have hsuffix := suffix_cons b rest
    refine .literal ?_ (ih (fun hs => hlast (hs.trans hsuffix)) fun tail htail => hclosed tail
      (htail.trans hsuffix))
    rintro key after ⟨hkey, heq⟩
    cases rest with
    | nil =>
      simp only [cons.injEq] at heq
      exact hlast (by simp [heq.1])
    | cons a rest =>
      simp only [append_eq, cons_append, cons.injEq] at heq
      obtain ⟨rfl, rfl, -⟩ := heq
      obtain ⟨before, tail, htail, hbefore⟩ := eq_append_cons_of_mem (hclosed rest suffix_rfl)
      exact hplain before tail ⟨hbefore, by rw [htail]⟩
  | @placeholder text key rest pieces hopens _ ih =>
    have hsuffix : rest <:+ text := ⟨dollar :: opening :: (key ++ [closing]), by simp [hopens.2]⟩
    refine .placeholder ⟨hopens.1, ?_⟩
      (ih (fun hs => hlast (hs.trans hsuffix)) fun tail htail => hclosed tail (htail.trans hsuffix))
    simp [hopens.2]

/-- The expansion of a value is read off from its only decomposition. -/
theorem braced_single_pass (value : Bytes) (lookup : Lookup) :
    (∃ pieces, (∀ other, Decomposes other value ↔ other = pieces) ∧
      (braced value lookup).1 = pieces.flatMap (Piece.expand lookup) ∧
      ∀ key, key ∈ (braced value lookup).2 ↔ .placeholder key ∈ pieces ∧ lookup key = none) ∧
    (braced value lookup).2.Pairwise (· ≤ ·) ∧ (braced value lookup).2.Nodup ∧
    ((∀ tail, tail <:+ value → ∀ key rest, ¬ Opens tail key rest) →
      braced value lookup = (value, [])) ∧
    (¬ [dollar] <:+ value → (∀ rest, dollar :: opening :: rest <:+ value → closing ∈ rest) → ∀ more,
      (braced (value ++ more) lookup).1 = (braced value lookup).1 ++ (braced more lookup).1 ∧
      ∀ key, key ∈ (braced (value ++ more) lookup).2 ↔
        key ∈ (braced value lookup).2 ∨ key ∈ (braced more lookup).2) := by
  obtain ⟨pieces, hpieces⟩ := exists_decomposes value
  obtain ⟨hresult, hnodup, hmem⟩ := braced_decomposes lookup hpieces
  refine ⟨⟨pieces, fun other => ⟨hpieces.unique, ?_⟩, hresult, hmem⟩, pairwise_insertionSort _ _,
    hnodup, ?_, ?_⟩
  · rintro rfl
    exact hpieces
  · intro hplain
    obtain ⟨hcopied, -, hnone⟩ := braced_decomposes lookup (decomposes_literals hplain)
    refine Prod.ext (hcopied.trans (by simp [flatMap_map, Piece.expand])) ?_
    exact eq_nil_iff_forall_not_mem.mpr fun key hkey => by simpa using (hnone key).mp hkey
  · intro hlast hclosed more
    obtain ⟨others, hothers⟩ := exists_decomposes more
    obtain ⟨hresult', -, hmem'⟩ := braced_decomposes lookup hothers
    obtain ⟨hboth, -, hmemBoth⟩ := braced_decomposes lookup (hpieces.append hothers hlast hclosed)
    refine ⟨by rw [hboth, hresult, hresult', flatMap_append], fun key => ?_⟩
    rw [hmemBoth, hmem, hmem', mem_append, or_and_right]

end BracedExpansion
