import Mathlib.Data.Nat.Notation
import Mathlib.Logic.Function.Basic

/-! # Lock files

A lock file is opened by its path and locked by its inode. Two locks on different inodes do not see
each other.
-/
namespace LockFiles

variable {ι : Type}

structure Files (ι : Type) where
  /-- The inode at the path. -/
  path : Option ℕ
  inodes : ℕ
  /-- Who holds the lock of each inode. -/
  owner : ℕ → Option ι

structure Stake where
  (relies locks : Option ℕ)
  deriving DecidableEq

def noStake : Stake := ⟨none, none⟩

namespace Files

variable (f : Files ι)

def opened : Files ι × ℕ :=
  match f.path with
  | some i => (f, i)
  | none => ({ f with path := some f.inodes, inodes := f.inodes + 1 }, f.inodes)

def unlinked : Files ι := { f with path := none }

def withOwner (i : ℕ) (p : Option ι) : Files ι := { f with owner := Function.update f.owner i p }

/-- A party dies: the system closes its files, and its locks are gone. -/
def released [DecidableEq ι] (p : ι) : Files ι :=
  { f with owner := fun i => if f.owner i = some p then none else f.owner i }

end Files

/-- Whoever relies on an inode relies on the one at the path, and whoever has a lock owns it. -/
structure Coherent (f : Files ι) (stake : ι → Stake) : Prop where
  current : ∀ p i, (stake p).relies = some i → f.path = some i
  owned : ∀ p i, (stake p).locks = some i → f.owner i = some p

namespace Coherent

variable {f : Files ι} {stake : ι → Stake} {p q : ι} {i j : ℕ} {new : Stake}

/-- Two parties that rely on the inode they hold the lock of are the same. -/
theorem exclusive (h : Coherent f stake) (hp : stake p = ⟨some i, some i⟩)
    (hq : stake q = ⟨some j, some j⟩) : p = q := by
  have hi := h.current p i (by rw [hp])
  have hj := h.current q j (by rw [hq])
  have hij : i = j := Option.some.inj (hi.symm.trans hj)
  subst hij
  have howner := (h.owned p i (by rw [hp])).symm.trans (h.owned q i (by rw [hq]))
  exact Option.some.inj howner

/-- Unlinking is safe while nobody relies on the inode at the path. -/
theorem unlink (h : Coherent f stake)
    (hunused : ∀ q, (stake q).relies = none ∨ (stake q).relies ≠ f.path) :
    Coherent f.unlinked stake := by
  refine ⟨fun q k hq => ?_, h.owned⟩
  rcases hunused q with hnone | hother
  · rw [hnone] at hq
    cases hq
  · exact absurd (hq.trans (h.current q k hq).symm) hother

variable [DecidableEq ι]

section

variable (h : Coherent f stake)

include h

theorem update (hrelies : ∀ i, new.relies = some i → f.path = some i)
    (hlocks : ∀ i, new.locks = some i → f.owner i = some p) :
    Coherent f (Function.update stake p new) := by
  constructor
  · intro q k hq
    by_cases hqp : q = p
    · subst hqp
      rw [Function.update_self] at hq
      exact hrelies k hq
    · rw [Function.update_of_ne hqp] at hq
      exact h.current q k hq
  · intro q k hq
    by_cases hqp : q = p
    · subst hqp
      rw [Function.update_self] at hq
      exact hlocks k hq
    · rw [Function.update_of_ne hqp] at hq
      exact h.owned q k hq

theorem openFile : Coherent f.opened.1 (Function.update stake p ⟨some f.opened.2, none⟩) := by
  unfold Files.opened
  cases hpath : f.path with
  | some => exact h.update (fun k hk => by rw [hpath]; exact hk) fun _ hk => by cases hk
  | none =>
    -- nobody relies on an inode, so the new one is no news to anybody
    have hnew : Coherent { f with path := some f.inodes, inodes := f.inodes + 1 } stake := by
      refine ⟨fun q k hq => ?_, h.owned⟩
      have hk := h.current q k hq
      rw [hpath] at hk
      cases hk
    exact hnew.update (fun _ hk => hk) fun _ hk => by cases hk

theorem lock (hp : (stake p).relies = some i) (hfree : f.owner i = none) :
    Coherent (f.withOwner i (some p)) (Function.update stake p ⟨some i, some i⟩) := by
  have hothers : Coherent (f.withOwner i (some p)) stake := by
    refine ⟨h.current, fun q k hq => ?_⟩
    have hk := h.owned q k hq
    have hki : k ≠ i := by
      rintro rfl
      rw [hfree] at hk
      cases hk
    exact (Function.update_of_ne hki _ _).trans hk
  refine hothers.update (fun k hk => ?_) fun k hk => ?_
  · cases hk
    exact h.current p i hp
  · cases hk
    exact Function.update_self _ _ _

theorem withdraw {g : Files ι} (hpath : g.path = f.path)
    (howner : ∀ q k, q ≠ p → f.owner k = some q → g.owner k = some q) :
    Coherent g (Function.update stake p noStake) := by
  constructor
  · intro q k hq
    by_cases hqp : q = p
    · subst hqp
      rw [Function.update_self] at hq
      cases hq
    · rw [Function.update_of_ne hqp] at hq
      exact hpath.trans (h.current q k hq)
  · intro q k hq
    by_cases hqp : q = p
    · subst hqp
      rw [Function.update_self] at hq
      cases hq
    · rw [Function.update_of_ne hqp] at hq
      exact howner q k hqp (h.owned q k hq)

theorem unlock (hp : (stake p).locks = some i) :
    Coherent (f.withOwner i none) (Function.update stake p noStake) := by
  refine h.withdraw rfl ?_
  intro q k hqp hk
  have hki : k ≠ i := by
    rintro rfl
    exact hqp (Option.some.inj (hk.symm.trans (h.owned p k hp)))
  exact (Function.update_of_ne hki _ _).trans hk

theorem die : Coherent (f.released p) (Function.update stake p noStake) := by
  refine h.withdraw rfl ?_
  intro q k hqp hk
  change (if f.owner k = some p then none else f.owner k) = some q
  rw [hk, if_neg fun heq => hqp (Option.some.inj heq)]

end

end Coherent

end LockFiles
