import Mathlib.Data.List.Sort
import Mathlib.Data.List.Perm.Basic
import Mathlib.Data.List.Pairwise

/-! # Sorting slices by a key, and first matches in them

`sort.Slice` is not stable, but where the keys of a slice are distinct its result is determined. A
lookup that returns a pointer to the first match, written through, is `modifyFirst`.
-/
namespace SliceOrder

open List

variable {α κ : Type*} [LinearOrder κ]

def sortBy (key : α → κ) (l : List α) : List α := l.insertionSort (fun a b => key a ≤ key b)

def Ordered (key : α → κ) (l : List α) : Prop := l.Pairwise (fun a b => key a < key b)
  deriving Decidable

variable {key : α → κ} {l m : List α}

theorem sortBy_perm (key : α → κ) (l : List α) : (sortBy key l).Perm l := perm_insertionSort _ l

variable {a b : α} {β : Type*} {p : α → Bool} {f : α → α}

@[simp] theorem mem_sortBy : a ∈ sortBy key l ↔ a ∈ l := (sortBy_perm key l).mem_iff

theorem sortBy_eq_of_ordered (h : Ordered key l) : sortBy key l = l :=
  List.Pairwise.insertionSort_eq (h.imp fun h => h.le)

theorem sortBy_pairwise (key : α → κ) (l : List α) :
    (sortBy key l).Pairwise (fun a b => key a ≤ key b) :=
  pairwise_insertionSort _ l

/-- Distinct keys make the sorted slice strictly ascending. -/
theorem ordered_sortBy (h : (l.map key).Nodup) : Ordered key (sortBy key l) := by
  have hn := ((sortBy_perm key l).map key).nodup_iff.mpr h
  have hp := pairwise_map.mp hn
  exact (sortBy_pairwise key l).imp₂ (fun _ _ hle hne => lt_of_le_of_ne hle hne) hp

theorem sortBy_eq_of_perm (hp : l.Perm m) (h : (l.map key).Nodup) :
    sortBy key l = sortBy key m := by
  have hm := (hp.map key).nodup_iff.mp h
  have hperm := ((sortBy_perm key l).trans hp).trans (sortBy_perm key m).symm
  have hanti : ∀ a b, a ∈ sortBy key l → b ∈ sortBy key m → key a < key b → key b < key a → a = b :=
    fun a b _ _ hab hba => absurd hab hba.asymm
  exact List.Perm.eq_of_pairwise hanti (ordered_sortBy h) (ordered_sortBy hm) hperm

/-- An element stays among the first `n` of a descending slice that has at most `n` as great as it.
-/
theorem mem_take_of_countP_le {n : ℕ} (hl : l.Pairwise fun x y => key y ≤ key x) (ha : a ∈ l)
    (hn : l.countP (fun x => key a ≤ key x) ≤ n) : a ∈ l.take n := by
  induction l generalizing n with
  | nil => cases ha
  | cons b rest ih =>
    obtain ⟨hb, hrest⟩ := pairwise_cons.mp hl
    have hab : key a ≤ key b := by
      rcases mem_cons.mp ha with rfl | hmem
      · exact le_rfl
      · exact hb a hmem
    have hcount : (b :: rest).countP (fun x => key a ≤ key x) =
        rest.countP (fun x => key a ≤ key x) + 1 :=
      countP_cons_of_pos (decide_eq_true hab)
    obtain ⟨m, rfl⟩ : ∃ m, n = m + 1 := ⟨n - 1, by omega⟩
    rcases mem_cons.mp ha with rfl | hmem
    · exact mem_cons_self
    · exact mem_cons_of_mem _ (ih hrest hmem (by omega))

/-- A search of a descending slice finds the match that is greater than every other match. -/
theorem findSome?_eq_of_greatest {f : α → Option β} (hl : l.Pairwise fun x y => key y ≤ key x)
    (ha : a ∈ l) (hf : (f a).isSome) (hgreatest : ∀ b ∈ l, (f b).isSome → b = a ∨ key b < key a) :
    l.findSome? f = f a := by
  induction l with
  | nil => cases ha
  | cons b rest ih =>
    obtain ⟨hb, hrest⟩ := pairwise_cons.mp hl
    rcases mem_cons.mp ha with rfl | hmem
    · obtain ⟨value, hvalue⟩ := Option.isSome_iff_exists.mp hf
      rw [findSome?_cons, hvalue]
    · cases hfb : f b with
      | none =>
        rw [findSome?_cons, hfb]
        exact ih hrest hmem fun c hc => hgreatest c (mem_cons_of_mem _ hc)
      | some =>
        have hhead := hgreatest b mem_cons_self (by rw [hfb]; rfl)
        rcases hhead with rfl | hlt
        · rw [findSome?_cons, hfb]
        · exact absurd hlt (not_lt.mpr (hb a hmem))

/-- The slice with its first element that satisfies `p` rewritten by `f`. -/
def modifyFirst (p : α → Bool) (f : α → α) : List α → List α
  | [] => []
  | a :: rest => if p a then f a :: rest else a :: modifyFirst p f rest

theorem perm_cons_eraseP (h : l.find? p = some a) : l.Perm (a :: l.eraseP p) := by
  induction l with
  | nil => simp at h
  | cons b rest ih =>
    by_cases hp : p b
    · simp only [find?_cons, hp, Option.some.injEq] at h
      rw [eraseP_cons_of_pos hp, h]
    · simp only [find?_cons, hp] at h
      rw [eraseP_cons_of_neg hp]
      exact ((ih h).cons b).trans (List.Perm.swap a b _)

theorem modifyFirst_of_none (h : l.find? p = none) : modifyFirst p f l = l := by
  induction l with
  | nil => rfl
  | cons a rest ih =>
    obtain ⟨ha, hrest⟩ := forall_mem_cons.mp (find?_eq_none.mp h)
    rw [modifyFirst, if_neg ha, ih (find?_eq_none.mpr hrest)]

theorem modifyFirst_perm (h : l.find? p = some a) :
    (modifyFirst p f l).Perm (f a :: l.eraseP p) := by
  induction l with
  | nil => simp at h
  | cons b rest ih =>
    by_cases hp : p b
    · simp only [find?_cons, hp, Option.some.injEq] at h
      rw [modifyFirst, if_pos hp, eraseP_cons_of_pos hp, h]
    · simp only [find?_cons, hp] at h
      rw [modifyFirst, if_neg hp, eraseP_cons_of_neg hp]
      exact ((ih h).cons b).trans (List.Perm.swap (f a) b _)

theorem mem_modifyFirst (h : b ∈ modifyFirst p f l) :
    b ∈ l ∨ ∃ a, l.find? p = some a ∧ b = f a := by
  cases hf : l.find? p with
  | none =>
    rw [modifyFirst_of_none hf] at h
    exact .inl h
  | some a =>
    rcases mem_cons.mp ((modifyFirst_perm hf).mem_iff.mp h) with rfl | hmem
    · exact .inr ⟨a, rfl, rfl⟩
    · exact .inl (mem_of_mem_eraseP hmem)

theorem mem_modifyFirst_of_find? (h : l.find? p = some a) : f a ∈ modifyFirst p f l :=
  (modifyFirst_perm h).mem_iff.mpr mem_cons_self

theorem mem_modifyFirst_of_mem (h : a ∈ l) :
    a ∈ modifyFirst p f l ∨ (l.find? p = some a ∧ f a ∈ modifyFirst p f l) := by
  cases hf : l.find? p with
  | none =>
    rw [modifyFirst_of_none hf]
    exact .inl h
  | some =>
    rcases mem_cons.mp ((perm_cons_eraseP hf).mem_iff.mp h) with rfl | hmem
    · exact .inr ⟨rfl, mem_modifyFirst_of_find? hf⟩
    · exact .inl ((modifyFirst_perm hf).mem_iff.mpr (mem_cons_of_mem _ hmem))

theorem mem_modifyFirst_key {ι : Type*} [DecidableEq ι] {id : α → ι} {k : ι}
    (hnodup : (l.map id).Nodup) (h : b ∈ modifyFirst (fun a => id a == k) f l) :
    (b ∈ l ∧ id b ≠ k) ∨ ∃ a ∈ l, id a = k ∧ b = f a := by
  cases hf : l.find? (fun a => id a == k) with
  | none =>
    rw [modifyFirst_of_none hf] at h
    exact .inl ⟨h, fun hk => find?_eq_none.mp hf b h (beq_iff_eq.mpr hk)⟩
  | some a =>
    have hk : id a = k := beq_iff_eq.mp (find?_some hf :)
    rcases mem_cons.mp ((modifyFirst_perm hf).mem_iff.mp h) with rfl | hmem
    · exact .inr ⟨a, mem_of_find?_eq_some hf, hk, rfl⟩
    · refine .inl ⟨mem_of_mem_eraseP hmem, ?_⟩
      have hfresh := (nodup_cons.mp (((perm_cons_eraseP hf).map id).nodup_iff.mp hnodup)).1
      exact fun hkb => hfresh (mem_map.mpr ⟨b, hmem, hkb.trans hk.symm⟩)

theorem modifyFirst_related {R : α → α → Prop} (hrefl : ∀ a, R a a)
    (h : ∀ a, l.find? p = some a → R a (f a)) :
    (∀ a ∈ l, ∃ b ∈ modifyFirst p f l, R a b) ∧ ∀ b ∈ modifyFirst p f l, ∃ a ∈ l, R a b := by
  constructor
  · intro a ha
    rcases mem_modifyFirst_of_mem ha with hkept | ⟨hfound, himage⟩
    · exact ⟨a, hkept, hrefl a⟩
    · exact ⟨f a, himage, h a hfound⟩
  · intro b hb
    rcases mem_modifyFirst hb with hkept | ⟨a, hfound, rfl⟩
    · exact ⟨b, hkept, hrefl b⟩
    · exact ⟨a, mem_of_find?_eq_some hfound, h a hfound⟩

theorem map_modifyFirst {g : α → β} (h : ∀ a, p a → g (f a) = g a) (l : List α) :
    (modifyFirst p f l).map g = l.map g := by
  induction l with
  | nil => rfl
  | cons a rest ih =>
    by_cases hp : p a
    · simp [modifyFirst, hp, h a hp]
    · simp [modifyFirst, hp, ih]

theorem find?_modifyFirst (h : ∀ a, p (f a)) (l : List α) :
    (modifyFirst p f l).find? p = (l.find? p).map f := by
  induction l with
  | nil => rfl
  | cons a rest ih =>
    by_cases hp : p a
    · simp [modifyFirst, hp, h a]
    · simp [modifyFirst, hp, ih]

theorem find?_modifyFirst_other {q : α → Bool} (hq : ∀ a, p a → q a = false)
    (hf : ∀ a, q (f a) = false) (l : List α) : (modifyFirst p f l).find? q = l.find? q := by
  induction l with
  | nil => rfl
  | cons a rest ih =>
    by_cases hp : p a
    · simp [modifyFirst, hp, hq a hp, hf a]
    · simp only [modifyFirst, hp, Bool.false_eq_true, if_false, find?_cons, ih]

/-- A lookup that at most one element satisfies does not depend on the order. -/
theorem find?_eq_of_perm (hp : l.Perm m) (hunique : ∀ a ∈ l, ∀ b ∈ l, p a → p b → a = b) :
    l.find? p = m.find? p := by
  cases hm : m.find? p with
  | none =>
    rw [find?_eq_none] at hm ⊢
    intro a ha
    exact hm a (hp.mem_iff.mp ha)
  | some a =>
    have ha : a ∈ l := hp.mem_iff.mpr (mem_of_find?_eq_some hm)
    have hpa : p a := find?_some hm
    cases hl : l.find? p with
    | none => exact absurd hpa (find?_eq_none.mp hl a ha)
    | some b => rw [hunique b (mem_of_find?_eq_some hl) a ha (find?_some hl) hpa]

theorem mem_eraseP_or_find? (h : a ∈ l) : a ∈ l.eraseP p ∨ l.find? p = some a := by
  cases hf : l.find? p with
  | none =>
    rw [eraseP_of_forall_not (find?_eq_none.mp hf)]
    exact .inl h
  | some =>
    rcases mem_cons.mp ((perm_cons_eraseP hf).mem_iff.mp h) with rfl | hmem
    · exact .inr rfl
    · exact .inl hmem

end SliceOrder
