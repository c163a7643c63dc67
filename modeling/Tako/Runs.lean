import Mathlib.Order.Basic

/-! # Guarded machines and their finite runs

A machine is a guard and a next-state function over an event type. Runs are finite;
every safety statement of the development is an induction over them. The machine may be
restricted to the events that satisfy a further condition on the state before the event.
-/
namespace Runs

variable {σ ε : Type*}

structure Machine (σ ε : Type*) where
  Enabled : σ → ε → Prop
  next : σ → ε → σ

namespace Machine

def Step (M : Machine σ ε) (s : σ) (e : ε) (u : σ) : Prop := M.Enabled s e ∧ u = M.next s e

inductive Execution (M : Machine σ ε) : σ → σ → Prop where
  | refl (s) : Execution M s s
  | tail : Execution M s u → M.Step u e v → Execution M s v

def Reachable (M : Machine σ ε) (init : σ → Prop) (s : σ) : Prop := ∃ s₀, init s₀ ∧ M.Execution s₀ s

/-- The same machine, taking only the events that meet `P` in the state before them. -/
def restrict (M : Machine σ ε) (P : σ → ε → Prop) : Machine σ ε where
  Enabled s e := M.Enabled s e ∧ P s e
  next := M.next

variable {M : Machine σ ε} {init : σ → Prop}

variable {s u : σ} {e : ε} {I : σ → Prop} {es : List ε}

theorem Execution.single (h : M.Step s e u) : M.Execution s u := .tail (.refl s) h

theorem Execution.trans {v : σ} (h : M.Execution s u) (k : M.Execution u v) : M.Execution s v := by
  induction k with
  | refl => exact h
  | tail _ hs ih => exact .tail ih hs

theorem Reachable.after (h : M.Reachable init s) (k : M.Execution s u) : M.Reachable init u := by
  obtain ⟨s₀, h₀, hs⟩ := h
  exact ⟨s₀, h₀, hs.trans k⟩

theorem Reachable.step (h : M.Reachable init s) (k : M.Step s e u) : M.Reachable init u :=
  h.after (.single k)

theorem Execution.invariant (keep : ∀ s e, I s → M.Enabled s e → I (M.next s e))
    (h : M.Execution s u) (hs : I s) : I u := by
  induction h with
  | refl => exact hs
  | tail _ k ih =>
    obtain ⟨he, rfl⟩ := k
    exact keep _ _ ih he

theorem Reachable.invariant (start : ∀ s, init s → I s)
    (keep : ∀ s e, I s → M.Enabled s e → I (M.next s e)) (h : M.Reachable init s) : I s := by
  obtain ⟨s₀, h₀, hs⟩ := h
  exact hs.invariant keep (start s₀ h₀)

/-- What is known of every reachable state may be used to show that an invariant is kept. -/
theorem Reachable.invariant_with {J : σ → Prop} (known : ∀ s, M.Reachable init s → J s)
    (start : ∀ s, init s → I s) (keep : ∀ s e, J s → I s → M.Enabled s e → I (M.next s e))
    (h : M.Reachable init s) : I s := by
  have hboth : M.Reachable init s ∧ I s := by
    refine h.invariant (I := fun s => M.Reachable init s ∧ I s) ?_ ?_
    · exact fun s hs => ⟨⟨s, hs, .refl s⟩, start s hs⟩
    · rintro s e ⟨hr, hs⟩ he
      exact ⟨hr.step ⟨he, rfl⟩, keep s e (known s hr) hs he⟩
  exact hboth.2

/-- A reflexive and transitive relation that holds across every step taken from an
invariant state holds across every run that starts in one. -/
theorem Execution.relation {R : σ → σ → Prop} (hrefl : ∀ s, R s s)
    (htrans : ∀ a b c, R a b → R b c → R a c) (keep : ∀ s e, I s → M.Enabled s e → I (M.next s e))
    (hstep : ∀ s e, I s → M.Enabled s e → R s (M.next s e)) (h : M.Execution s u) (hs : I s) :
    R s u := by
  induction h with
  | refl => exact hrefl _
  | tail hx k ih =>
    obtain ⟨he, rfl⟩ := k
    exact htrans _ _ _ ih (hstep _ _ (hx.invariant keep hs) he)

/-- A run of `M` is a run of `N` when `N` can follow each step of `M`, in any number of steps. -/
theorem Execution.simulation {τ φ : Type*} {N : Machine τ φ} (f : σ → τ)
    (hstep : ∀ s e, M.Enabled s e → N.Execution (f s) (f (M.next s e))) (h : M.Execution s u) :
    N.Execution (f s) (f u) := by
  induction h with
  | refl => exact .refl _
  | tail _ k ih =>
    obtain ⟨he, rfl⟩ := k
    exact ih.trans (hstep _ _ he)

theorem Execution.of_restrict {P : σ → ε → Prop} (h : (M.restrict P).Execution s u) :
    M.Execution s u :=
  h.simulation (M := M.restrict P) id fun _ _ he => .single ⟨he.1, rfl⟩

theorem Reachable.of_restrict {P : σ → ε → Prop} (h : (M.restrict P).Reachable init s) :
    M.Reachable init s := by
  obtain ⟨s₀, h₀, hs⟩ := h
  exact ⟨s₀, h₀, hs.of_restrict⟩

def runTrace (M : Machine σ ε) (s : σ) : List ε → σ
  | [] => s
  | e :: es => M.runTrace (M.next s e) es

def ValidTrace (M : Machine σ ε) (s : σ) : List ε → Prop
  | [] => True
  | e :: es => M.Enabled s e ∧ M.ValidTrace (M.next s e) es

instance decidableValidTrace (M : Machine σ ε) [h : ∀ s e, Decidable (M.Enabled s e)] :
    (s : σ) → (es : List ε) → Decidable (M.ValidTrace s es)
  | _, [] => isTrue trivial
  | s, e :: es =>
    have := decidableValidTrace M (M.next s e) es
    inferInstanceAs (Decidable (M.Enabled s e ∧ M.ValidTrace (M.next s e) es))

instance {P : σ → ε → Prop} [∀ s e, Decidable (M.Enabled s e)] [∀ s e, Decidable (P s e)] (s : σ)
    (e : ε) :
    Decidable ((M.restrict P).Enabled s e) := inferInstanceAs (Decidable (M.Enabled s e ∧ P s e))

theorem ValidTrace.execution (h : M.ValidTrace s es) : M.Execution s (M.runTrace s es) := by
  induction es generalizing s with
  | nil => exact .refl s
  | cons e es ih => exact (Execution.single ⟨h.1, rfl⟩).trans (ih h.2)

theorem Reachable.of_trace (h₀ : init s) (es : List ε) (h : M.ValidTrace s es) :
    M.Reachable init (M.runTrace s es) := ⟨s, h₀, h.execution⟩

/-- When every event decreases a measure, no run is longer than the measure of its start. -/
theorem ValidTrace.length_le {μ : σ → ℕ} (decrease : ∀ s e, M.Enabled s e → μ (M.next s e) < μ s)
    (h : M.ValidTrace s es) : es.length ≤ μ s := by
  induction es generalizing s with
  | nil => exact Nat.zero_le _
  | cons e es ih =>
    have hrest := ih h.2
    have hstep := decrease s e h.1
    rw [List.length_cons]
    omega

end Machine

end Runs
