import Tako.Scheduler

/-! # Sticky plans

`planSticky` counts the kept replicas before it places any, so planning on from a plan is the same
as planning in one go.
-/
namespace Scheduler

open List GoPrelude LoadBalancing Loads

def replicaCount (assignments : List Assignment) (node : String) : ℤ :=
  ((assignments.map Assignment.node).count node : ℤ)

@[simp] theorem replicaCount_nil : replicaCount [] node = 0 := rfl

theorem replicaCount_cons :
    replicaCount (a :: l) node = replicaCount l node + if a.node = node then 1 else 0 := by
  simp only [replicaCount, map_cons, count_cons, beq_iff_eq]
  split_ifs <;> omega

theorem replicaCount_append :
    replicaCount (l ++ m) node = replicaCount l node + replicaCount m node := by
  simp [replicaCount]

theorem replicaCount_perm (hp : l.Perm m) : replicaCount l = replicaCount m := by
  funext node
  rw [replicaCount, replicaCount, (hp.map Assignment.node).count_eq]

theorem Loads.add_apply (loads : Loads) :
    loads.add node delta other = loads other + if node = other then delta else 0 := by
  by_cases h : node = other
  · subst h
    simp [add]
  · simp [add, Function.update_of_ne (Ne.symm h), h]

def keptUpTo (replicas : ℤ) (prior : List Assignment) : List Assignment :=
  prior.filter fun a => a.slot ≤ replicas

theorem keptUpTo_cons_of_le (h : a.slot ≤ replicas) :
    keptUpTo replicas (a :: rest) = a :: keptUpTo replicas rest := by
  simp [keptUpTo, h]

theorem keptUpTo_cons_of_lt (h : ¬ a.slot ≤ replicas) :
    keptUpTo replicas (a :: rest) = keptUpTo replicas rest := by
  simp [keptUpTo, h]

theorem keptUpTo_eq_self (h : ∀ a ∈ l, a.slot ≤ replicas) : keptUpTo replicas l = l := by
  rw [keptUpTo, filter_eq_self]
  intro a ha
  exact decide_eq_true (h a ha)

structure Placeable (permitted : List String) (prior : List Assignment) :
    Prop extends Valid prior where
  permitted : ∀ a ∈ prior, a.node ∈ permitted

theorem placeable_cons : Placeable permitted (a :: rest) ↔
      (1 ≤ a.slot ∧ a.node ≠ "") ∧ a.node ∈ permitted ∧ (∀ b ∈ rest, b.slot ≠ a.slot) ∧
        Placeable permitted rest := by
  have hfresh : a.slot ∉ rest.map Assignment.slot ↔ ∀ b ∈ rest, b.slot ≠ a.slot := by simp
  constructor
  · rintro ⟨⟨hnamed, hdist⟩, hperm⟩
    obtain ⟨hslot, hrest⟩ := nodup_cons.mp hdist
    obtain ⟨ha, hnamed⟩ := forall_mem_cons.mp hnamed
    obtain ⟨hnode, hperm⟩ := forall_mem_cons.mp hperm
    exact ⟨ha, hnode, hfresh.mp hslot, ⟨⟨hnamed, hrest⟩, hperm⟩⟩
  · rintro ⟨ha, hnode, hslot, hrest⟩
    refine ⟨⟨?_, ?_⟩, ?_⟩
    · exact forall_mem_cons.mpr ⟨ha, hrest.named⟩
    · exact nodup_cons.mpr ⟨hfresh.mpr hslot, hrest.distinct⟩
    · exact forall_mem_cons.mpr ⟨hnode, hrest.permitted⟩

theorem retain_eq_ok : retain replicas permitted retained a = .ok result ↔
      (1 ≤ a.slot ∧ a.node ≠ "") ∧ assignmentForSlot retained.bySlot a.slot = none ∧
        a.node ∈ permitted ∧
        result =
          { bySlot := a :: retained.bySlot
            load := if a.slot ≤ replicas then retained.load.add a.node 1 else retained.load } := by
  simp only [retain, bind_eq_ok, require_eq_ok, exists_and_left, exists_const, not_or, not_lt,
    Except.ok.injEq, ne_eq, @eq_comm _ _ result]

/-- The loop over the prior assignments accepts what can be planned on. It ends with those
assignments and with the loads of the kept ones. -/
theorem retainAll_eq_ok {prior : List Assignment} {start : Retained} :
    prior.foldlM (retain replicas permitted) start = .ok result ↔
      Placeable permitted prior ∧ (∀ a ∈ prior, assignmentForSlot start.bySlot a.slot = none) ∧
        result =
          { bySlot := prior.reverse ++ start.bySlot
            load := fun node => start.load node +
              replicaCount (keptUpTo replicas prior) node } := by
  induction prior generalizing start with
  | nil =>
    have hnil : Placeable permitted [] := ⟨⟨by simp, by simp⟩, by simp⟩
    simp [hnil, keptUpTo, pure, Except.pure, eq_comm]
  | cons a rest ih =>
    have hload : ∀ node, (if a.slot ≤ replicas then start.load.add a.node 1 else start.load) node +
        replicaCount (keptUpTo replicas rest) node = start.load node +
          replicaCount (keptUpTo replicas (a :: rest)) node := by
      intro node
      by_cases hkept : a.slot ≤ replicas
      · rw [if_pos hkept, add_apply, keptUpTo_cons_of_le hkept, replicaCount_cons]
        omega
      · rw [if_neg hkept, keptUpTo_cons_of_lt hkept]
    rw [foldlM_cons, bind_eq_ok, placeable_cons, forall_mem_cons]
    constructor
    · rintro ⟨next, hnext, hrest⟩
      obtain ⟨hnamed, hfresh, hnode, rfl⟩ := retain_eq_ok.mp hnext
      obtain ⟨hplaceable, hseen, rfl⟩ := ih.mp hrest
      have hslots : ∀ b ∈ rest, b.slot ≠ a.slot ∧ assignmentForSlot start.bySlot b.slot = none := by
        intro b hb
        have hnone := assignmentForSlot_eq_none.mp (hseen b hb)
        obtain ⟨hne, hold⟩ := forall_mem_cons.mp hnone
        exact ⟨hne.symm, assignmentForSlot_eq_none.mpr hold⟩
      refine ⟨⟨hnamed, hnode, fun b hb => (hslots b hb).1, hplaceable⟩,
        ⟨hfresh, fun b hb => (hslots b hb).2⟩, ?_⟩
      simp only [hload, reverse_cons, append_assoc, singleton_append]
    · rintro ⟨⟨hnamed, hnode, hslots, hplaceable⟩, ⟨hfresh, hseen⟩, rfl⟩
      refine ⟨_, retain_eq_ok.mpr ⟨hnamed, hfresh, hnode, rfl⟩, ih.mpr ⟨hplaceable, ?_, ?_⟩⟩
      · intro b hb
        rw [assignmentForSlot_eq_none]
        refine forall_mem_cons.mpr ⟨(hslots b hb).symm, ?_⟩
        exact assignmentForSlot_eq_none.mp (hseen b hb)
      · simp only [hload, reverse_cons, append_assoc, singleton_append]

section Slots

variable {eligible : List String}

variable {slots : List ℤ}

theorem assignSlots_congr
    (h : ∀ slot ∈ slots, assignmentForSlot bySlot slot = assignmentForSlot other slot) :
    slots.foldlM (assignSlot eligible bySlot) state =
      slots.foldlM (assignSlot eligible other) state := by
  induction slots generalizing state with
  | nil => rfl
  | cons slot rest ih =>
    obtain ⟨hslot, hrest⟩ := forall_mem_cons.mp h
    have hstep : assignSlot eligible bySlot state slot = assignSlot eligible other state slot := by
      simp only [assignSlot, hslot]
    rw [foldlM_cons, hstep]
    exact bind_congr fun _ => ih hrest

theorem assignSlots_kept {kept : List Assignment}
    (h : ∀ a ∈ kept, assignmentForSlot bySlot a.slot = some a) :
    (kept.map Assignment.slot).foldlM (assignSlot eligible bySlot) state =
      .ok (state.1 ++ kept, state.2) := by
  induction kept generalizing state with
  | nil =>
    rw [append_nil]
    rfl
  | cons a rest ih =>
    obtain ⟨ha, hrest⟩ := forall_mem_cons.mp h
    have hstep : assignSlot eligible bySlot state a.slot = .ok (state.1 ++ [a], state.2) := by
      simp only [assignSlot, ha]
    rw [map_cons, foldlM_cons, hstep]
    refine (ih hrest).trans ?_
    rw [append_assoc, singleton_append]

variable (eligible bySlot) in
/-- The slots placed one after the other, from these loads to those. -/
inductive Placing : Loads → List ℤ → List Assignment → Loads → Prop
  | done (loads : Loads) : Placing loads [] [] loads
  | keep {loads final : Loads} {slot : ℤ} {slots : List ℤ} {a : Assignment}
      {added : List Assignment}
      (found : assignmentForSlot bySlot slot = some a) (rest : Placing loads slots added final) :
      Placing loads (slot :: slots) (a :: added) final
  | place {loads final : Loads} {slot : ℤ} {slots : List ℤ} {node : String}
      {added : List Assignment}
      (missing : assignmentForSlot bySlot slot = none) (target : node ∈ eligible)
      (least : ∀ other ∈ eligible, loads node ≤ loads other)
      (rest : Placing (loads.add node 1) slots added final) :
      Placing loads (slot :: slots) ({ slot := slot, nodeID := "", node := node } :: added) final

theorem assignSlots_placing {state result : List Assignment × Loads}
    (h : slots.foldlM (assignSlot eligible bySlot) state = .ok result) :
    ∃ added, result.1 = state.1 ++ added ∧
      Placing eligible bySlot state.2 slots added result.2 := by
  induction slots generalizing state with
  | nil =>
    cases h
    exact ⟨[], by simp, Placing.done _⟩
  | cons slot rest ih =>
    rw [foldlM_cons, bind_eq_ok] at h
    obtain ⟨next, hnext, hrest⟩ := h
    obtain ⟨added, hres, hplacing⟩ := ih hrest
    unfold assignSlot at hnext
    split at hnext
    case h_1 a hfound =>
      cases hnext
      exact ⟨a :: added, by simp [hres], Placing.keep hfound hplacing⟩
    case h_2 => cases hnext
    case h_3 first others hmissing =>
      cases hnext
      refine ⟨_ :: added, by rw [hres, append_assoc, singleton_append], Placing.place hmissing
        (leastLoaded_mem first others state.2) ?_ hplacing⟩
      intro other
      exact leastLoaded_le first others state.2

def placed (prior planned : List Assignment) : List Assignment :=
  planned.filter fun a => (assignmentForSlot prior a.slot).isNone

theorem placed_cons_of_some (h : assignmentForSlot bySlot a.slot = some b) :
    placed bySlot (a :: rest) = placed bySlot rest := by
  simp [placed, h]

theorem placed_cons_of_none (h : assignmentForSlot bySlot a.slot = none) :
    placed bySlot (a :: rest) = a :: placed bySlot rest := by
  simp [placed, h]

namespace Placing

section

variable (h : Placing eligible bySlot loads slots added final)

include h

theorem slots_eq : added.map Assignment.slot = slots := by
  induction h with
  | done => rfl
  | keep found _ ih => rw [map_cons, ih, (assignmentForSlot_slot found).2]
  | place _ _ _ _ ih => rw [map_cons, ih]

theorem keeps (hslot : slot ∈ slots) (ha : assignmentForSlot bySlot slot = some a) : a ∈ added := by
  induction h with
  | done => cases hslot
  | keep found _ ih =>
    rcases mem_cons.mp hslot with rfl | hrest
    · rw [ha] at found
      cases found
      exact mem_cons_self
    · exact mem_cons_of_mem _ (ih hrest)
  | place missing _ _ _ ih =>
    rcases mem_cons.mp hslot with rfl | hrest
    · rw [ha] at missing
      cases missing
    · exact mem_cons_of_mem _ (ih hrest)

theorem final_eq (node : String) :
    final node = loads node + replicaCount (placed bySlot added) node := by
  induction h with
  | done => simp [placed]
  | keep found _ ih =>
    have hslot := (assignmentForSlot_slot found).2
    rw [ih, placed_cons_of_some (by rw [hslot]; exact found)]
  | place missing _ _ _ ih =>
    rw [ih, add_apply, placed_cons_of_none missing, replicaCount_cons]
    dsimp only
    omega

/-- A placed slot is on an eligible node of least load, counting the slots placed before it. -/
theorem places_least (hslots : slots.Pairwise (· < ·)) (ha : a ∈ added)
    (hmissing : assignmentForSlot bySlot a.slot = none) : a.node ∈ eligible ∧ ∀ other ∈ eligible,
      loads a.node + replicaCount ((placed bySlot added).filter (·.slot < a.slot)) a.node ≤
        loads other + replicaCount ((placed bySlot added).filter (·.slot < a.slot)) other := by
  induction h with
  | done => cases ha
  | keep found _ ih =>
    have hslot := (assignmentForSlot_slot found).2
    rw [placed_cons_of_some (by rw [hslot]; exact found)]
    rcases mem_cons.mp ha with rfl | hrest
    · rw [hslot, found] at hmissing
      cases hmissing
    · exact ih (pairwise_cons.mp hslots).2 hrest
  | @place loads final slot slots node added missing target least rest ih =>
    obtain ⟨hlater, hslots⟩ := pairwise_cons.mp hslots
    have hafter : ∀ b ∈ added, slot < b.slot := by
      intro b hb
      apply hlater
      rw [← rest.slots_eq]
      exact mem_map_of_mem hb
    rw [placed_cons_of_none missing]
    rcases mem_cons.mp ha with rfl | hrest
    · -- Nothing was placed before the first slot.
      have hnone :
          (({ slot := slot, nodeID := "", node := node } : Assignment) ::
        placed bySlot added).filter
          (·.slot < slot) = [] := by
        rw [filter_eq_nil_iff]
        refine forall_mem_cons.mpr ⟨by simp, ?_⟩
        intro b hb
        have := hafter b (mem_of_mem_filter hb)
        simp only [decide_eq_true_eq]
        omega
      rw [hnone]
      refine ⟨target, ?_⟩
      intro other hother
      simpa using least other hother
    · obtain ⟨hnode, hleast⟩ := ih hslots hrest
      refine ⟨hnode, ?_⟩
      intro other hother
      have hle := hleast other hother
      have hfirst :
          (({ slot := slot, nodeID := "", node := node } : Assignment) ::
        placed bySlot added).filter
          (·.slot < a.slot) = { slot := slot, nodeID := "", node := node } ::
            (placed bySlot added).filter (·.slot < a.slot) := by
        simp [hafter a hrest]
      rw [hfirst, replicaCount_cons, replicaCount_cons]
      rw [add_apply, add_apply] at hle
      dsimp only
      omega

end

end Placing

end Slots

theorem slotNumbers_take (h : fewer ≤ replicas) :
    (slotNumbers replicas).take fewer.toNat = slotNumbers fewer := by
  have hle := Int.toNat_le_toNat h
  rw [slotNumbers, ← map_take, take_range, Nat.min_eq_left hle, slotNumbers]

theorem mem_slotNumbers : slot ∈ slotNumbers replicas ↔ 1 ≤ slot ∧ slot ≤ replicas := by
  simp only [slotNumbers, mem_map, mem_range]
  constructor
  · rintro ⟨index, hindex, rfl⟩
    omega
  · rintro ⟨hlow, hhigh⟩
    exact ⟨(slot - 1).toNat, by omega, by omega⟩

theorem slotNumbers_pairwise (replicas : ℤ) : (slotNumbers replicas).Pairwise (· < ·) := by
  rw [slotNumbers, pairwise_map]
  refine pairwise_lt_range.imp ?_
  intro i j hij
  omega

theorem slotNumbers_append (hnonneg : 0 ≤ replicas) (h : replicas ≤ more) :
    ∃ later, slotNumbers more = slotNumbers replicas ++ later ∧ ∀ slot ∈ later,
      replicas < slot := by
  refine ⟨(slotNumbers more).drop replicas.toNat, ?_, ?_⟩
  · rw [← slotNumbers_take h, take_append_drop]
  · intro slot hslot
    have hsorted := slotNumbers_pairwise more
    rw [← take_append_drop replicas.toNat (slotNumbers more), slotNumbers_take h,
      pairwise_append] at hsorted
    by_cases hzero : replicas = 0
    · have := (mem_slotNumbers.mp (mem_of_mem_drop hslot)).1
      omega
    · exact hsorted.2.2 replicas (mem_slotNumbers.mpr (by omega)) slot hslot

/-- The load of a node at the turn of a slot: the replicas that are kept, and those placed before.
-/
def loadAt (replicas : ℤ) (prior planned : List Assignment) (slot : ℤ) (node : String) : ℤ :=
  replicaCount (keptUpTo replicas prior) node +
    replicaCount ((placed prior planned).filter (·.slot < slot)) node

structure Sticky (replicas : ℤ) (eligible : List String) (prior planned : List Assignment) :
    Prop where
  slots : planned.map Assignment.slot = slotNumbers replicas
  kept : ∀ a ∈ prior, a.slot ≤ replicas → a ∈ planned
  placed : ∀ a ∈ planned, (∀ b ∈ prior, b.slot ≠ a.slot) → a.node ∈ eligible ∧
    ∀ other ∈ eligible, loadAt replicas prior planned a.slot a.node ≤
      loadAt replicas prior planned a.slot other

structure Planned (replicas : ℤ) (permitted eligible : List String)
    (prior planned : List Assignment) (final : Loads) : Prop where
  nonneg : 0 ≤ replicas
  started : ¬ (0 < replicas ∧ eligible = [] ∧ prior = [])
  placeable : Placeable permitted prior
  loop : (slotNumbers replicas).foldlM (assignSlot eligible prior)
    ([], replicaCount (keptUpTo replicas prior)) =
    .ok (planned, final)

theorem planSticky_eq (hnonneg : 0 ≤ replicas)
    (hsome : ¬ (0 < replicas ∧ eligible = [] ∧ prior = [])) (hprior : Placeable permitted prior) :
    planSticky replicas permitted eligible prior =
      ((slotNumbers replicas).foldlM (assignSlot eligible prior)
        ([], replicaCount (keptUpTo replicas prior))).map Prod.fst := by
  have hretain :=
    (@retainAll_eq_ok replicas permitted _ prior { bySlot := [], load := fun _ => 0 }).mpr
    ⟨hprior, by simp [assignmentForSlot], rfl⟩
  simp only [Int.zero_add, append_nil] at hretain
  have hlookup : ∀ slot ∈ slotNumbers replicas,
      assignmentForSlot prior.reverse slot = assignmentForSlot prior slot := by
    intro slot _
    exact (assignmentForSlot_perm (reverse_perm prior).symm hprior.distinct slot).symm
  rw [planSticky, require, if_pos hnonneg, require, if_pos hsome, hretain]
  change ((slotNumbers replicas).foldlM (assignSlot eligible prior.reverse)
    ([], replicaCount (keptUpTo replicas prior)) >>= fun planned => .ok planned.1) = _
  rw [assignSlots_congr hlookup]
  cases (slotNumbers replicas).foldlM (assignSlot eligible prior)
    ([], replicaCount (keptUpTo replicas prior)) <;> rfl

theorem planSticky_planned (h : planSticky replicas permitted eligible prior = .ok planned) :
    ∃ final, Planned replicas permitted eligible prior planned final := by
  have hsuccess := h
  simp only [planSticky, bind_eq_ok, require_eq_ok, exists_and_left, exists_const] at hsuccess
  obtain ⟨hnonneg, hstarted, retained, hretained, -⟩ := hsuccess
  have hprior := (retainAll_eq_ok.mp hretained).1
  rw [planSticky_eq hnonneg hstarted hprior] at h
  cases hloop : (slotNumbers replicas).foldlM (assignSlot eligible prior)
      ([], replicaCount (keptUpTo replicas prior)) with
  | error =>
    rw [hloop] at h
    cases h
  | ok result =>
    rw [hloop] at h
    cases h
    exact ⟨result.2, hnonneg, hstarted, hprior, hloop⟩

namespace Planned

variable (h : Planned replicas permitted eligible prior planned final)
include h

theorem placing :
    Placing eligible prior (replicaCount (keptUpTo replicas prior))
      (slotNumbers replicas) planned final := by
  obtain ⟨added, hadded, hplacing⟩ := assignSlots_placing h.loop
  subst hadded
  exact hplacing

theorem slots_eq : planned.map Assignment.slot = slotNumbers replicas := h.placing.slots_eq

theorem length_eq : planned.length = replicas.toNat := by
  rw [← length_map Assignment.slot, h.slots_eq, slotNumbers, length_map, length_range]

theorem distinct : (planned.map Assignment.slot).Nodup := by
  rw [h.slots_eq]
  exact (slotNumbers_pairwise replicas).imp fun hlt => hlt.ne

theorem keeps (ha : a ∈ prior) (hslot : a.slot ≤ replicas) : a ∈ planned := by
  apply h.placing.keeps (mem_slotNumbers.mpr ⟨(h.placeable.named a ha).1, hslot⟩)
  exact (assignmentForSlot_eq_some h.placeable.distinct).mpr ⟨ha, rfl⟩

theorem slot_bounds (ha : a ∈ planned) : 1 ≤ a.slot ∧ a.slot ≤ replicas := by
  apply mem_slotNumbers.mp
  rw [← h.slots_eq]
  exact mem_map_of_mem ha

theorem eq_of_found (ha : a ∈ planned) (hb : assignmentForSlot prior a.slot = some b) : a = b := by
  obtain ⟨hmem, hslot⟩ := assignmentForSlot_slot hb
  have hle : b.slot ≤ replicas := by
    rw [hslot]
    exact (h.slot_bounds ha).2
  exact inj_on_of_nodup_map h.distinct ha (h.keeps hmem hle) hslot.symm

theorem sticky : Sticky replicas eligible prior planned where
  slots := h.slots_eq
  kept _ := h.keeps
  placed _ ha hnew :=
    h.placing.places_least (slotNumbers_pairwise replicas) ha (assignmentForSlot_eq_none.mpr hnew)

/-- A plan can be planned on again, also with further nodes. -/
theorem replannable (hnamed : ∀ node ∈ permitted, node ≠ "") (heligible : eligible ⊆ permitted)
    (hwider : permitted ⊆ wider) : Placeable wider planned := by
  have hnode : ∀ a ∈ planned, a.node ∈ permitted := by
    intro a ha
    cases hfound : assignmentForSlot prior a.slot with
    | none => exact heligible (h.sticky.placed a ha (assignmentForSlot_eq_none.mp hfound)).1
    | some b =>
      rw [h.eq_of_found ha hfound]
      exact h.placeable.permitted b (assignmentForSlot_slot hfound).1
  exact
    { named := fun a ha => ⟨(h.slot_bounds ha).1, hnamed _ (hnode a ha)⟩
      distinct := h.distinct
      permitted := fun a ha => hwider (hnode a ha) }

/-- The planned assignments are the kept ones and the placed ones. -/
theorem perm_kept_placed : planned.Perm
    (keptUpTo replicas prior ++ Scheduler.placed prior planned) := by
  have hsplit :=
    (filter_append_perm (fun a => (assignmentForSlot prior a.slot).isSome) planned).symm
  have hnone : planned.filter (fun a => !(assignmentForSlot prior a.slot).isSome) =
      Scheduler.placed prior planned := by
    simp only [Scheduler.placed, Option.not_isSome]
  rw [hnone] at hsplit
  refine hsplit.trans (List.Perm.append_right _ ?_)
  -- Both lists have no duplicates, so they need the same members only.
  have hplanned : planned.Nodup := List.Nodup.of_map _ h.distinct
  have hprior : prior.Nodup := List.Nodup.of_map _ h.placeable.distinct
  rw [keptUpTo, perm_ext_iff_of_nodup (hplanned.filter _) (hprior.filter _)]
  intro a
  rw [mem_filter, mem_filter, Option.isSome_iff_exists, decide_eq_true_eq]
  constructor
  · rintro ⟨ha, b, hb⟩
    have heq := h.eq_of_found ha hb
    rw [heq]
    exact ⟨(assignmentForSlot_slot hb).1, heq ▸ (h.slot_bounds ha).2⟩
  · rintro ⟨ha, hslot⟩
    exact ⟨h.keeps ha hslot, a, (assignmentForSlot_eq_some h.placeable.distinct).mpr ⟨ha, rfl⟩⟩

theorem final_eq : final = replicaCount planned := by
  funext node
  rw [h.placing.final_eq, replicaCount_perm h.perm_kept_placed, replicaCount_append]

theorem fewer {others : List String} (hplaceable : Placeable wider planned) {count : ℤ}
    (hnonneg : 0 ≤ count) (hcount : count ≤ replicas) :
    planSticky count wider others planned = .ok (planned.take count.toNat) := by
  have hsome : ¬ (0 < count ∧ others = [] ∧ planned = []) := by
    rintro ⟨hpos, -, rfl⟩
    have hslots := h.slots_eq
    have hone : (1 : ℤ) ∈ slotNumbers replicas := mem_slotNumbers.mpr (by omega)
    rw [← hslots] at hone
    cases hone
  rw [planSticky_eq hnonneg hsome hplaceable]
  have hkept : slotNumbers count = (planned.take count.toNat).map Assignment.slot := by
    rw [map_take, h.slots_eq, slotNumbers_take hcount]
  rw [hkept, assignSlots_kept]
  · rfl
  · intro a ha
    exact (assignmentForSlot_eq_some h.distinct).mpr ⟨mem_of_mem_take ha, rfl⟩

theorem more (hplaceable : Placeable permitted planned) (hprior : ∀ a ∈ prior, a.slot ≤ replicas)
    {count : ℤ} (hcount : replicas ≤ count) :
    planSticky count permitted eligible planned = planSticky count permitted eligible prior := by
  have hnonneg : 0 ≤ count := h.nonneg.trans hcount
  have hlen := h.length_eq
  by_cases hstart : replicas = 0
  · -- Without replicas there is neither a prior nor a planned assignment.
    subst hstart
    have hplanned : planned = [] := eq_nil_of_length_eq_zero hlen
    have hnone : prior = [] := by
      rw [eq_nil_iff_forall_not_mem]
      intro a ha
      have := (h.placeable.named a ha).1
      have := hprior a ha
      omega
    rw [hplanned, hnone]
  have hpos : 0 < replicas := lt_of_le_of_ne h.nonneg (Ne.symm hstart)
  have hplanned : ¬ (0 < count ∧ eligible = [] ∧ planned = []) := by
    rintro ⟨-, -, rfl⟩
    rw [length_nil] at hlen
    omega
  have hprior' : ¬ (0 < count ∧ eligible = [] ∧ prior = []) := by
    rintro ⟨-, hnodes, hnone⟩
    exact h.started ⟨hpos, hnodes, hnone⟩
  have hbounds : ∀ a ∈ planned, a.slot ≤ replicas := fun a ha => (h.slot_bounds ha).2
  have hplannedKept := keptUpTo_eq_self fun a ha => (hbounds a ha).trans hcount
  have hpriorKept : keptUpTo count prior = keptUpTo replicas prior := by
    rw [keptUpTo_eq_self hprior, keptUpTo_eq_self fun a ha => (hprior a ha).trans hcount]
  obtain ⟨later, hlater, hafter⟩ := slotNumbers_append h.nonneg hcount
  rw [planSticky_eq hnonneg hplanned hplaceable, planSticky_eq hnonneg hprior' h.placeable,
    hpriorKept,
    hplannedKept, hlater, foldlM_append, foldlM_append, h.loop, h.final_eq, ← h.slots_eq,
    assignSlots_kept fun a ha => (assignmentForSlot_eq_some h.distinct).mpr ⟨ha, rfl⟩]
  -- From here neither list has an assignment for the slots to come.
  change ((later.foldlM (assignSlot eligible planned) (planned, replicaCount planned)).map
    Prod.fst) =
    (later.foldlM (assignSlot eligible prior) (planned, replicaCount planned)).map Prod.fst
  rw [assignSlots_congr]
  intro slot hslot
  have hgreater := hafter slot hslot
  rw [assignmentForSlot_eq_none.mpr, assignmentForSlot_eq_none.mpr]
  · intro a ha
    have := hprior a ha
    omega
  · intro a ha
    have := hbounds a ha
    omega

end Planned

/-- A sticky plan keeps what it can and places the rest on least loaded nodes. Planning on from it
gives what planning in one go gives, planning back from it cuts it off, and planning it again
changes nothing, whatever nodes have joined. -/
theorem sticky_plan_composes {replicas : ℤ} {permitted eligible : List String}
    {prior planned : List Assignment} (hnamed : ∀ node ∈ permitted, node ≠ "")
    (heligible : eligible ⊆ permitted)
    (h : planSticky replicas permitted eligible prior = .ok planned) :
    Sticky replicas eligible prior planned ∧
      (∀ more, replicas ≤ more → (∀ a ∈ prior, a.slot ≤ replicas) →
        planSticky more permitted eligible planned = planSticky more permitted eligible prior) ∧
      (∀ fewer, 0 ≤ fewer → fewer ≤ replicas →
        planSticky fewer permitted eligible planned = .ok (planned.take fewer.toNat)) ∧
      ∀ permitted' eligible', permitted ⊆ permitted' → eligible ⊆ eligible' →
        planSticky replicas permitted' eligible' planned = .ok planned := by
  obtain ⟨final, hplanned⟩ := planSticky_planned h
  have hagain := hplanned.replannable hnamed heligible (List.Subset.refl permitted)
  refine ⟨hplanned.sticky, ?_, ?_, ?_⟩
  · intro more hmore hprior
    exact hplanned.more hagain hprior hmore
  · intro fewer
    exact hplanned.fewer hagain
  · intro permitted' eligible' hpermitted _
    have hwider := hplanned.replannable hnamed heligible hpermitted
    have hsame : planSticky replicas permitted' eligible' planned =
        .ok (planned.take replicas.toNat) :=
      hplanned.fewer hwider hplanned.nonneg le_rfl
    rwa [take_of_length_le hplanned.length_eq.le] at hsame

/-- Slot 2 is kept, and the slots 1 and 3 go to the nodes that have fewer replicas. -/
theorem sticky_plan_of_three :
    planSticky 3 ["a", "b"] ["a", "b"] [{ slot := 2, nodeID := "id-a", node := "a" }] =
        .ok [{ slot := 1, nodeID := "", node := "b" }, { slot := 2, nodeID := "id-a", node := "a" },
          { slot := 3, nodeID := "", node := "a" }] ∧
      Sticky 3 ["a", "b"] [{ slot := 2, nodeID := "id-a", node := "a" }]
        [{ slot := 1, nodeID := "", node := "b" }, { slot := 2, nodeID := "id-a", node := "a" },
          { slot := 3, nodeID := "", node := "a" }] :=
  ⟨by decide +kernel, (@sticky_plan_composes 3 ["a", "b"] ["a", "b"] _ _ (by decide) (by decide)
    (by decide +kernel)).1⟩

end Scheduler
