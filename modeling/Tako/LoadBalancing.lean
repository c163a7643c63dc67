import Mathlib.Data.List.Count
import Mathlib.Data.List.Basic
import Mathlib.Order.Lattice

/-! # Balancing loads in one greedy pass

An item either stays, or it moves to a node of least load that has at least two items fewer than its
home. The least load never falls and only nodes of least load gain, so a settled node stays settled;
a node that is not settled has kept none of the items taken so far.
-/
namespace LoadBalancing

open List

section Selection

variable {α κ : Type*} [LinearOrder κ]

section

variable (first : α) (rest : List α) (load : α → κ)

def leastLoaded : α :=
  rest.foldl (fun selected node => if load node < load selected then node else selected) first

theorem leastLoaded_mem : leastLoaded first rest load ∈ first :: rest := by
  induction rest generalizing first with
  | nil => exact mem_cons_self
  | cons node rest ih =>
    have hstep := ih (if load node < load first then node else first)
    unfold leastLoaded at hstep ⊢
    rw [foldl_cons]
    by_cases hlt : load node < load first
    · rw [if_pos hlt] at hstep ⊢
      exact mem_cons_of_mem _ hstep
    · rw [if_neg hlt] at hstep ⊢
      rcases mem_cons.mp hstep with heq | hmem
      · rw [heq]
        exact mem_cons_self
      · exact mem_cons_of_mem _ (mem_cons_of_mem _ hmem)

theorem leastLoaded_le {node : α} (h : node ∈ first :: rest) :
    load (leastLoaded first rest load) ≤ load node := by
  induction rest generalizing first node with
  | nil =>
    rw [mem_singleton.mp h]
    exact le_rfl
  | cons next rest ih =>
    have hfirst : load (leastLoaded first (next :: rest) load) ≤ min (load first) (load next) := by
      have hstep := @ih (if load next < load first then next else first) _ mem_cons_self
      refine hstep.trans ?_
      by_cases hlt : load next < load first
      · rw [if_pos hlt]
        exact le_min hlt.le le_rfl
      · rw [if_neg hlt]
        exact le_min le_rfl (not_lt.mp hlt)
    rcases mem_cons.mp h with rfl | htail
    · exact hfirst.trans (min_le_left _ _)
    rcases mem_cons.mp htail with rfl | hrest
    · exact hfirst.trans (min_le_right _ _)
    · exact ih _ (mem_cons_of_mem _ hrest)

end

end Selection

variable {α : Type*} [DecidableEq α]

/-- The node `a` has at most one item more than any of `nodes`. -/
def Settled (nodes homes : List α) (a : α) : Prop := ∀ b ∈ nodes, homes.count a ≤ homes.count b + 1

def Balanced (nodes homes : List α) : Prop := ∀ a ∈ nodes, Settled nodes homes a

/-- The item at `a` may move to `b` while the items' homes are `homes`. -/
structure Relieves (nodes homes : List α) (a b : α) : Prop where
  target : b ∈ nodes
  least : ∀ c ∈ nodes, homes.count b ≤ homes.count c
  gap : homes.count b + 1 < homes.count a

/-- A pass over the items with the homes `pending`, after those taken before it got the homes
`placed`. -/
inductive Pass (nodes : List α) : List α → List α → List α → Prop
  | done (placed : List α) : Pass nodes placed [] placed
  | stay {placed pending final : List α} {a : α}
      (settled : a ∈ nodes → Settled nodes (placed ++ a :: pending) a)
      (rest : Pass nodes (placed ++ [a]) pending final) : Pass nodes placed (a :: pending) final
  | move {placed pending final : List α} {a b : α}
      (relieves : Relieves nodes (placed ++ a :: pending) a b)
      (rest : Pass nodes (placed ++ [b]) pending final) : Pass nodes placed (a :: pending) final

variable {nodes placed pending final : List α} {a b c : α}

theorem count_move (placed pending : List α) (a b c : α) :
    (placed ++ [b] ++ pending).count c + (if a = c then 1 else 0) =
      (placed ++ a :: pending).count c + (if b = c then 1 else 0) := by
  simp only [count_append, count_cons, count_nil, beq_iff_eq]
  omega

theorem Relieves.settled (h : Relieves nodes (placed ++ a :: pending) a b)
    (hc : Settled nodes (placed ++ a :: pending) c ∨ c = b) :
    Settled nodes (placed ++ [b] ++ pending) c := by
  intro d hd
  have hcount := count_move placed pending a b
  have hca := hcount c
  have hda := hcount d
  have hgap := h.gap
  have hleast := h.least d hd
  by_cases hcb : b = c
  · split_ifs at hca hda <;> subst_vars <;> omega
  · have hbound := (hc.resolve_right (Ne.symm hcb)) b h.target
    split_ifs at hca hda <;> subst_vars <;> omega

def Progress (nodes placed pending : List α) : Prop :=
  ∀ a ∈ nodes, a ∈ placed → Settled nodes (placed ++ pending) a

theorem progress_stay (h : Progress nodes placed (a :: pending))
    (ha : a ∈ nodes → Settled nodes (placed ++ a :: pending) a) :
    Progress nodes (placed ++ [a]) pending := by
  intro c hc hplaced
  rw [append_assoc]
  rcases mem_append.mp hplaced with hold | hnew
  · exact h c hc hold
  · rw [mem_singleton.mp hnew] at hc ⊢
    exact ha hc

theorem progress_move (h : Progress nodes placed (a :: pending))
    (hr : Relieves nodes (placed ++ a :: pending) a b) :
    Progress nodes (placed ++ [b]) pending := by
  intro c hc hplaced
  apply hr.settled
  rcases mem_append.mp hplaced with hold | hnew
  · exact .inl (h c hc hold)
  · exact .inr (mem_singleton.mp hnew)

theorem Pass.progress (h : Pass nodes placed pending final) (hp : Progress nodes placed pending) :
    Progress nodes final [] := by
  induction h with
  | done => exact hp
  | stay settled _ ih => exact ih (progress_stay hp settled)
  | move relieves _ ih => exact ih (progress_move hp relieves)

/-- A pass over all items leaves the nodes balanced. -/
theorem Pass.balanced (h : Pass nodes [] pending final) : Balanced nodes final := by
  have hfinal := h.progress (fun a _ hnone => absurd hnone not_mem_nil)
  intro a ha
  by_cases hplaced : a ∈ final
  · have hsettled := hfinal a ha hplaced
    rwa [append_nil] at hsettled
  · intro b _
    rw [count_eq_zero.mpr hplaced]
    exact Nat.zero_le _

/-- A node gives an item away only while it has another one. -/
theorem Pass.occupied (h : Pass nodes placed pending final) (hc : c ∈ placed ++ pending) :
    c ∈ final := by
  induction h with
  | done => rwa [append_nil] at hc
  | stay _ _ ih =>
    apply ih
    rwa [append_assoc]
  | @move placed pending _ a b relieves _ ih =>
    apply ih
    have hcount := count_move placed pending a b c
    have hgap := relieves.gap
    rw [← count_pos_iff] at hc ⊢
    split_ifs at hcount <;> subst_vars <;> omega

end LoadBalancing
