import Tako.Scheduler

/-! # Global plans

`planGlobal` numbers the new nodes of a global service after the highest slot that the service has,
which is right as long as these numbers fit into an `int`.
-/
namespace Scheduler

open List GoPrelude SliceOrder Assignment

variable {maxSlot start bound : ℤ}

theorem highestSlot_lt : highestSlot l start < bound ↔ start < bound ∧ ∀ a ∈ l, a.slot < bound := by
  induction l generalizing start with
  | nil => simp [highestSlot]
  | cons a rest ih =>
    have hnext : highestSlot (a :: rest) start = highestSlot rest (max start a.slot) := rfl
    rw [hnext, ih, max_lt_iff, forall_mem_cons, and_assoc]

theorem highestSlot_bounds :
    start ≤ highestSlot l start ∧ ∀ a ∈ l, a.slot ≤ highestSlot l start := by
  obtain ⟨hstart, hall⟩ := highestSlot_lt.mp (Int.lt_succ (highestSlot l start))
  exact ⟨Int.lt_add_one_iff.mp hstart, fun a ha => Int.lt_add_one_iff.mp (hall a ha)⟩

theorem numbered_ascending (hlow : 0 ≤ maxSlot) (hfits : maxSlot + nodes.length < 2 ^ 63) :
    Ordered slot (numbered maxSlot nodes) ∧ ∀ a ∈ numbered maxSlot nodes, maxSlot < a.slot := by
  induction nodes generalizing maxSlot with
  | nil => simp [numbered, Ordered]
  | cons node rest ih =>
    rw [length_cons] at hfits
    have hnext : int64 (maxSlot + 1) = maxSlot + 1 := int64_eq (by omega) (by omega)
    rw [numbered, hnext]
    obtain ⟨hordered, habove⟩ := @ih (maxSlot + 1) (by omega) (by omega)
    refine ⟨pairwise_cons.mpr ⟨habove, hordered⟩, forall_mem_cons.mpr ⟨Int.lt_succ maxSlot, ?_⟩⟩
    intro a ha
    have := habove a ha
    omega

/-- The slot after the greatest `int` is the least one. -/
theorem numbered_wraps (hlow : 0 ≤ maxSlot) (hmax : maxSlot < 2 ^ 63)
    (h : 2 ^ 63 ≤ maxSlot + nodes.length) : ∃ a ∈ numbered maxSlot nodes, a.slot < 1 := by
  induction nodes generalizing maxSlot with
  | nil =>
    rw [length_nil] at h
    omega
  | cons node rest ih =>
    rw [length_cons] at h
    by_cases hlast : maxSlot + 1 < 2 ^ 63
    · have hnext : int64 (maxSlot + 1) = maxSlot + 1 := int64_eq (by omega) (by omega)
      obtain ⟨a, ha, hslot⟩ := @ih (maxSlot + 1) (by omega) hlast (by omega)
      rw [numbered, hnext]
      exact ⟨a, mem_cons_of_mem _ ha, hslot⟩
    · obtain rfl : maxSlot = 2 ^ 63 - 1 := by omega
      exact ⟨_, mem_cons_self, show int64 (2 ^ 63 - 1 + 1) < 1 by decide⟩

def Fits (prior : List Assignment) (eligible : List String) : Prop :=
  highestSlot prior 0 + (uniqueFrom (prior.map node) eligible).length < 2 ^ 63
  deriving Decidable

structure Global (permitted eligible : List String) (prior planned : List Assignment) : Prop where
  kept : prior ⊆ planned
  nodes : (planned.map node).Nodup
  ordered : Ordered slot planned
  added : ∀ node, (∃ a ∈ planned, a ∉ prior ∧ a.node = node) ↔ node ∈ eligible ∧
    node ∉ prior.map Assignment.node
  above : ∀ a ∈ planned, a ∉ prior → ∀ p ∈ prior, p.slot < a.slot
  again : ∀ others, others ⊆ planned.map node → planGlobal permitted others planned = .ok planned

theorem planned_of_fits (hprior : Valid prior) (hfits : Fits prior eligible) :
    Ordered slot (stable prior ++ addedTo prior eligible) ∧
      ∀ a ∈ addedTo prior eligible, highestSlot prior 0 < a.slot := by
  obtain ⟨hlow, hbounds⟩ := highestSlot_bounds
  obtain ⟨hadded, habove⟩ := numbered_ascending hlow hfits
  refine ⟨pairwise_append.mpr ⟨hprior.ordered_stable, hadded, ?_⟩, habove⟩
  intro a ha b hb
  exact (hbounds a ((stable_perm prior).mem_iff.mp ha)).trans_lt (habove b hb)

theorem mem_planned_iff (h : planned = stable prior ++ addedTo prior eligible) (a : Assignment) :
    a ∈ planned ↔ a ∈ prior ∨ a ∈ addedTo prior eligible := by
  rw [h, mem_append, (stable_perm prior).mem_iff]

theorem mem_eligible_of_added (h : a ∈ addedTo prior eligible) :
    a.node ∈ eligible ∧ a.node ∉ prior.map node := by
  have hnode : a.node ∈ (addedTo prior eligible).map node := mem_map_of_mem h
  rw [addedTo_nodes] at hnode
  exact mem_uniqueFrom.mp hnode

theorem global_plan_iff (hnamed : ∀ node ∈ permitted, node ≠ "") (heligible : eligible ⊆ permitted)
    (hslots : ∀ a ∈ prior, a.slot < 2 ^ 63)
    (h : planGlobal permitted eligible prior = .ok planned) :
    Global permitted eligible prior planned ↔ Fits prior eligible := by
  obtain ⟨hvalid, hpermitted, -, hsome, hplanned⟩ := planGlobal_eq_ok.mp h
  obtain ⟨hlow, hbounds⟩ := highestSlot_bounds
  constructor
  · intro hglobal
    by_contra hover
    obtain ⟨a, ha, hslot⟩ := numbered_wraps hlow (highestSlot_lt.mpr ⟨by decide, hslots⟩)
      (not_lt.mp hover)
    have hmem : a ∈ planned := by
      rw [hplanned, (stable_perm _).mem_iff]
      exact mem_append_right _ ha
    obtain ⟨hagain, -⟩ := planGlobal_eq_ok.mp (hglobal.again [] (nil_subset _))
    exact absurd (hagain.named a hmem).1 (not_le.mpr hslot)
  · intro hfits
    obtain ⟨hordered, habove⟩ := planned_of_fits hvalid hfits
    rw [stable, sortBy_eq_of_ordered hordered] at hplanned
    have hmem := mem_planned_iff hplanned
    have hnodes := planGlobal_nodes h
    rw [← hplanned] at hordered
    refine ⟨fun a ha => (hmem a).mpr (.inl ha), hnodes.1, hordered, ?_, ?_, ?_⟩
    · intro node
      constructor
      · rintro ⟨a, ha, hnew, rfl⟩
        exact mem_eligible_of_added (((hmem a).mp ha).resolve_left hnew)
      · intro hnode
        rw [← mem_uniqueFrom, ← addedTo_nodes] at hnode
        obtain ⟨a, ha, rfl⟩ := mem_map.mp hnode
        refine ⟨a, (hmem a).mpr (.inr ha), ?_, rfl⟩
        exact fun hold => (mem_eligible_of_added ha).2 (mem_map_of_mem hold)
    · intro a ha hnew p hp
      exact (hbounds p hp).trans_lt (habove a (((hmem a).mp ha).resolve_left hnew))
    · intro others hothers
      have hfresh : uniqueFrom (planned.map node) others = [] := by
        refine eq_nil_iff_forall_not_mem.mpr fun node hnode => ?_
        exact (mem_uniqueFrom.mp hnode).2 (hothers (mem_uniqueFrom.mp hnode).1)
      refine planGlobal_eq_ok.mpr ⟨⟨?_, (pairwise_map.mpr hordered).imp ne_of_lt⟩, ?_, hnodes.1,
        hsome, ?_⟩
      · intro a ha
        rcases (hmem a).mp ha with hold | hnew
        · exact hvalid.named a hold
        · exact ⟨hlow.trans_lt (habove a hnew), hnamed _ (heligible (mem_eligible_of_added hnew).1)⟩
      · intro a ha
        rcases (hmem a).mp ha with hold | hnew
        · exact hpermitted a hold
        · exact heligible (mem_eligible_of_added hnew).1
      · rw [addedTo, hfresh, numbered, append_nil, stable_stable, stable,
          sortBy_eq_of_ordered hordered]

theorem global_plan_grows :
    planGlobal ["a", "b"] ["b", "b", "a"] [{ slot := 4, nodeID := "id-a", node := "a" }] =
        .ok [{ slot := 4, nodeID := "id-a", node := "a" },
          { slot := 5, nodeID := "", node := "b" }] ∧
      Global ["a", "b"] ["b", "b", "a"] [{ slot := 4, nodeID := "id-a", node := "a" }]
        [{ slot := 4, nodeID := "id-a", node := "a" }, { slot := 5, nodeID := "", node := "b" }] :=
  ⟨by decide +kernel, (global_plan_iff (by decide) (by decide) (by decide) (by decide +kernel)).mpr
    (by decide +kernel)⟩

/-- The slot of the second node has wrapped, and the plan cannot be planned on. -/
theorem last_slot_wraps : planGlobal ["a", "b"] ["b"]
    [{ slot := 2 ^ 63 - 1, nodeID := "id-a", node := "a" }] =
        .ok [{ slot := -2 ^ 63, nodeID := "", node := "b" },
          { slot := 2 ^ 63 - 1, nodeID := "id-a", node := "a" }] ∧
      planGlobal ["a", "b"] [] [{ slot := -2 ^ 63, nodeID := "", node := "b" },
        { slot := 2 ^ 63 - 1, nodeID := "id-a", node := "a" }] =
          .error "assignment has an invalid slot or node" := by
  constructor <;> decide +kernel

end Scheduler
