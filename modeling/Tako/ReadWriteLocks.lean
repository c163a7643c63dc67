import Mathlib.Data.List.AList
import Tako.Runs

/-! # Read/write locks

Readers and the writer keep data of their own while they hold the lock. Nothing is assumed about who
is served first. What a reader remembers of data that changes only under the writer is current until
it leaves.
-/
namespace ReadWriteLocks

open Runs

/-- The free lock is the one without readers. -/
inductive Lock (ι ρ ω : Type) where
  | shared (readers : AList fun _ : ι => ρ)
  | exclusive (writer : ω)

variable {ι ρ ω : Type}

namespace Lock

def free : Lock ι ρ ω := .shared ∅

def isFree : Lock ι ρ ω → Bool
  | .shared readers => readers.entries.isEmpty
  | .exclusive _ => false

def writer : Lock ι ρ ω → Option ω
  | .shared _ => none
  | .exclusive w => some w

variable [DecidableEq ι]

section

variable (i : ι)

def reader : Lock ι ρ ω → Option ρ
  | .shared readers => readers.lookup i
  | .exclusive _ => none

/-- The reader `i` enters, or goes on with the data `r`. -/
def enter (r : ρ) : Lock ι ρ ω → Lock ι ρ ω
  | .shared readers => .shared (readers.insert i r)
  | .exclusive w => .exclusive w

def leave : Lock ι ρ ω → Lock ι ρ ω
  | .shared readers => .shared (readers.erase i)
  | .exclusive w => .exclusive w

@[simp] theorem reader_free : (free : Lock ι ρ ω).reader i = none := rfl

@[simp] theorem writer_enter (r : ρ) (L : Lock ι ρ ω) : (L.enter i r).writer = L.writer := by
  cases L <;> rfl

@[simp] theorem writer_leave (L : Lock ι ρ ω) : (L.leave i).writer = L.writer := by
  cases L <;> rfl

end

variable {i j : ι} {p : ρ} {L : Lock ι ρ ω}

theorem reader_enter {r : ρ} (h : (L.enter i r).reader j = some p) :
    (j = i ∧ p = r) ∨ L.reader j = some p := by
  cases L with
  | exclusive => cases h
  | shared =>
    simp only [enter, reader] at h ⊢
    by_cases hij : j = i
    · subst j
      rw [AList.lookup_insert] at h
      exact .inl ⟨rfl, (Option.some.inj h).symm⟩
    · rw [AList.lookup_insert_ne hij] at h
      exact .inr h

theorem reader_leave (h : (L.leave i).reader j = some p) : L.reader j = some p := by
  cases L with
  | exclusive => cases h
  | shared =>
    simp only [leave, reader] at h ⊢
    by_cases hij : j = i
    · subst j
      rw [AList.lookup_erase] at h
      cases h
    · rwa [AList.lookup_erase_ne hij] at h

theorem writer_none_of_reader (h : L.reader i = some p) : L.writer = none := by
  cases L with
  | shared => rfl
  | exclusive => cases h

end Lock

section Guarded

variable [DecidableEq ι] {σ ε δ : Type} (M : Machine σ ε) (lock : σ → Lock ι ρ ω) (view : σ → δ)
  (seen : ρ → Option δ)

structure Guarded : Prop where
  written : ∀ s e, M.Enabled s e → view (M.next s e) ≠ view s → (lock s).writer ≠ none
  remembered : ∀ s e i r d, M.Enabled s e → (lock (M.next s e)).reader i = some r →
    seen r = some d →
    d = view (M.next s e) ∨ ∃ p, (lock s).reader i = some p ∧ seen p = some d

/-- What the readers remember is what they would see. -/
def Current (s : σ) : Prop := ∀ i r d, (lock s).reader i = some r → seen r = some d → view s = d

variable {M lock view seen}

variable {s : σ}

theorem Guarded.step_current (h : Guarded M lock view seen) {e : ε} (hs : Current lock view seen s)
    (he : M.Enabled s e) : Current lock view seen (M.next s e) := by
  intro i r d hr hd
  rcases h.remembered s e i r d he hr hd with hnew | ⟨p, hp, hpd⟩
  · exact hnew.symm
  · have hkept : view (M.next s e) = view s := by
      by_contra hchanged
      exact h.written s e he hchanged (Lock.writer_none_of_reader hp)
    rw [hkept]
    exact hs i p d hp hpd

theorem Guarded.reachable_current (h : Guarded M lock view seen) {init : σ → Prop}
    (start : ∀ s, init s → ∀ i, (lock s).reader i = none) (hs : M.Reachable init s) :
    Current lock view seen s := by
  refine hs.invariant ?_ ?_
  · intro s₀ h₀ i r d hr
    rw [start s₀ h₀ i] at hr
    cases hr
  · intro u e
    exact h.step_current

end Guarded

end ReadWriteLocks
