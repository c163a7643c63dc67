import Tako.GoPrelude
import Tako.LoadBalancing
import Tako.SliceOrder

/-! # Replica slots

A replica of a service is a slot with a stable number, bound to a node. `planSticky` keeps
the slots a service has and assigns only the missing ones; `planGlobal` keeps one slot per
node. Loads are a Go map of counters: a node that is absent has load zero.
-/
namespace Scheduler

open List GoPrelude SliceOrder LoadBalancing

structure Assignment where
  slot : ℤ
  (nodeID node : String)
  deriving DecidableEq

abbrev Loads : Type := String → ℤ

def Loads.add (loads : Loads) (node : String) (delta : ℤ) : Loads :=
  Function.update loads node (loads node + delta)

section

variable (assignments : List Assignment)

/-- Slot-ordered copy of the assignments. The order of equal slots is that of the input,
which `sort.Slice` does not promise; validated assignments have no equal slots. -/
def stable : List Assignment := sortBy Assignment.slot assignments

def assignmentForSlot (slot : ℤ) : Option Assignment :=
  assignments.find? fun assignment => assignment.slot == slot

def validateFrom (seenSlots : List ℤ) : List Assignment → Except String Unit
  | [] => .ok ()
  | assignment :: rest => do
    require (¬ (assignment.slot < 1 ∨ assignment.node = ""))
      "assignment has an invalid slot or node"
    require (assignment.slot ∉ seenSlots) s!"assignment slot {assignment.slot} is duplicated"
    validateFrom (assignment.slot :: seenSlots) rest

def validateAssignments : Except String Unit := validateFrom [] assignments

end

structure Valid (assignments : List Assignment) : Prop where
  named : ∀ a ∈ assignments, 1 ≤ a.slot ∧ a.node ≠ ""
  distinct : (assignments.map Assignment.slot).Nodup

theorem validateFrom_eq_ok : validateFrom seen l = .ok () ↔ Valid l ∧ ∀ a ∈ l, a.slot ∉ seen := by
  induction l generalizing seen with
  | nil => simp [validateFrom, Valid.mk]
  | cons a rest ih =>
    simp only [validateFrom, bind_eq_ok, require_eq_ok, exists_and_left, exists_const, ih]
    constructor
    · rintro ⟨hnamed, hfresh, hvalid, hrest⟩
      refine ⟨⟨?_, ?_⟩, ?_⟩
      · refine forall_mem_cons.mpr ⟨?_, hvalid.named⟩
        rw [not_or, not_lt] at hnamed
        exact hnamed
      · refine nodup_cons.mpr ⟨?_, hvalid.distinct⟩
        intro hmem
        obtain ⟨b, hb, hslot⟩ := mem_map.mp hmem
        exact hrest b hb (hslot ▸ mem_cons_self)
      · refine forall_mem_cons.mpr ⟨hfresh, ?_⟩
        intro b hb hseen
        exact hrest b hb (mem_cons_of_mem _ hseen)
    · rintro ⟨hvalid, hfresh⟩
      obtain ⟨hslot, hdist⟩ := nodup_cons.mp hvalid.distinct
      obtain ⟨hhead, htail⟩ := forall_mem_cons.mp hvalid.named
      refine ⟨?_, hfresh a mem_cons_self, ⟨htail, hdist⟩, ?_⟩
      · rw [not_or, not_lt]
        exact hhead
      · intro b hb hmem
        rcases mem_cons.mp hmem with heq | hseen
        · exact hslot (heq ▸ mem_map_of_mem hb)
        · exact hfresh b (mem_cons_of_mem _ hb) hseen

theorem validateAssignments_eq_ok : validateAssignments l = .ok () ↔ Valid l := by
  rw [validateAssignments, validateFrom_eq_ok]
  simp

theorem stable_perm (l : List Assignment) : (stable l).Perm l := sortBy_perm _ l

theorem Valid.perm (h : Valid l) (hp : l.Perm m) : Valid m where
  named a ha := h.named a (hp.mem_iff.mpr ha)
  distinct := (hp.map _).nodup_iff.mp h.distinct

theorem Valid.ordered_stable (h : Valid l) : Ordered Assignment.slot (stable l) :=
  ordered_sortBy h.distinct

@[simp] theorem stable_stable (l : List Assignment) : stable (stable l) = stable l :=
  List.Pairwise.insertionSort_eq (sortBy_pairwise Assignment.slot l)

@[simp] theorem stable_eq_nil : stable l = [] ↔ l = [] := by
  constructor
  · intro h
    have hp := stable_perm l
    rw [h] at hp
    exact hp.symm.eq_nil
  · rintro rfl
    rfl

theorem stable_eq_of_slots (h : Ordered Assignment.slot l)
    (hslots : m.map Assignment.slot = l.map Assignment.slot) : stable m = m := by
  apply sortBy_eq_of_ordered
  have hm := pairwise_map.mpr h
  rw [← hslots] at hm
  exact pairwise_map.mp hm

theorem assignmentForSlot_slot (h : assignmentForSlot l slot = some a) : a ∈ l ∧ a.slot = slot := by
  have hmatch := find?_some h
  exact ⟨mem_of_find?_eq_some h, beq_iff_eq.mp hmatch⟩

theorem assignmentForSlot_eq_none : assignmentForSlot l slot = none ↔ ∀ a ∈ l, a.slot ≠ slot := by
  simp [assignmentForSlot, find?_eq_none]

theorem assignmentForSlot_eq_some (hl : (l.map Assignment.slot).Nodup) :
    assignmentForSlot l slot = some a ↔ a ∈ l ∧ a.slot = slot := by
  constructor
  · exact assignmentForSlot_slot
  · rintro ⟨ha, hslot⟩
    cases hfound : assignmentForSlot l slot with
    | none => exact absurd hslot (assignmentForSlot_eq_none.mp hfound a ha)
    | some =>
      obtain ⟨hb, hbslot⟩ := assignmentForSlot_slot hfound
      rw [inj_on_of_nodup_map hl hb ha (hbslot.trans hslot.symm)]

theorem assignmentForSlot_perm (hp : l.Perm m) (hl : (l.map Assignment.slot).Nodup) (slot : ℤ) :
    assignmentForSlot l slot = assignmentForSlot m slot := by
  have hm := (hp.map _).nodup_iff.mp hl
  ext a
  rw [assignmentForSlot_eq_some hl, assignmentForSlot_eq_some hm, hp.mem_iff]

/-- Two lists with distinct slots have one slot-ordered form if they agree at each slot. -/
theorem stable_eq_iff (hl : (l.map Assignment.slot).Nodup) (hm : (m.map Assignment.slot).Nodup) :
    stable l = stable m ↔ ∀ slot, assignmentForSlot l slot = assignmentForSlot m slot := by
  constructor
  · intro h slot
    have hperm : l.Perm m := (stable_perm l).symm.trans (h ▸ stable_perm m)
    exact assignmentForSlot_perm hperm hl slot
  · intro h
    have hperm : l.Perm m := by
      rw [perm_ext_iff_of_nodup (List.Nodup.of_map _ hl) (List.Nodup.of_map _ hm)]
      intro a
      have hleft : a ∈ l ↔ assignmentForSlot l a.slot = some a := by
        simp [assignmentForSlot_eq_some hl]
      have hright : a ∈ m ↔ assignmentForSlot m a.slot = some a := by
        simp [assignmentForSlot_eq_some hm]
      rw [hleft, hright, h]
    exact sortBy_eq_of_perm hperm hl

/-- The slots read from the prior assignments, and the loads of those that are kept. -/
structure Retained where
  bySlot : List Assignment
  load : Loads

def retain (replicas : ℤ) (permitted : List String) (retained : Retained)
    (assignment : Assignment) : Except String Retained := do
  require (¬ (assignment.slot < 1 ∨ assignment.node = ""))
    "prior assignment has an invalid slot or node"
  require (assignmentForSlot retained.bySlot assignment.slot = none)
    s!"prior assignment slot {assignment.slot} is duplicated"
  require (assignment.node ∈ permitted)
    (s!"replica slot {assignment.slot} is assigned to node {assignment.node} outside current " ++
      "placement; create and approve an explicit movement plan")
  .ok
    { bySlot := assignment :: retained.bySlot
      load := if assignment.slot ≤ replicas then retained.load.add assignment.node 1
        else retained.load }

def assignSlot (eligible : List String) (bySlot : List Assignment) (state : List Assignment × Loads)
    (slot : ℤ) : Except String (List Assignment × Loads) :=
  match assignmentForSlot bySlot slot, eligible with
  | some assignment, _ => .ok (state.1 ++ [assignment], state.2)
  | none, [] =>
    .error s!"replica slot {slot} needs a new assignment but no schedulable node is eligible"
  | none, first :: rest =>
    let node := leastLoaded first rest state.2
    .ok (state.1 ++ [{ slot := slot, nodeID := "", node := node }], state.2.add node 1)

def slotNumbers (replicas : ℤ) : List ℤ :=
  (range replicas.toNat).map fun index : ℕ => (index : ℤ) + 1

def planSticky (replicas : ℤ) (permitted eligible : List String) (prior : List Assignment) :
    Except String (List Assignment) := do
  require (0 ≤ replicas) "replicas cannot be negative"
  require (¬ (0 < replicas ∧ eligible = [] ∧ prior = []))
    "no schedulable nodes are eligible for new assignments"
  let retained ← prior.foldlM (retain replicas permitted) { bySlot := [], load := fun _ => 0 }
  let planned ← (slotNumbers replicas).foldlM (assignSlot eligible retained.bySlot)
    ([], retained.load)
  .ok planned.1

theorem assignSlot_grows (h : assignSlot eligible bySlot state slot = .ok result) :
    ∃ assignment, result.1 = state.1 ++ [assignment] := by
  unfold assignSlot at h
  split at h
  · cases h
    exact ⟨_, rfl⟩
  · cases h
  · cases h
    exact ⟨_, rfl⟩

theorem assignSlots_length {slots : List ℤ}
    (h : slots.foldlM (assignSlot eligible bySlot) state = .ok result) :
    result.1.length = state.1.length + slots.length := by
  induction slots generalizing state with
  | nil =>
    cases h
    simp
  | cons slot rest ih =>
    rw [foldlM_cons, bind_eq_ok] at h
    obtain ⟨next, hnext, hrest⟩ := h
    obtain ⟨assignment, hgrown⟩ := assignSlot_grows hnext
    rw [ih hrest, hgrown, length_append, length_cons, length_cons, length_nil]
    omega

theorem planSticky_length {replicas : ℤ}
    (h : planSticky replicas permitted eligible prior = .ok planned) :
    (planned.length : ℤ) = replicas := by
  simp only [planSticky, bind_eq_ok, require_eq_ok, exists_and_left, exists_const] at h
  obtain ⟨hnonneg, -, retained, -, result, hslots, hplanned⟩ := h
  cases hplanned
  rw [assignSlots_length hslots]
  simp [slotNumbers, hnonneg]

structure Occupied where
  usedNodes : List String
  maxSlot : ℤ

def occupy (permitted : List String) (occupied : Occupied) (assignment : Assignment) :
    Except String Occupied := do
  require (assignment.node ∈ permitted)
    (s!"global replica slot {assignment.slot} is assigned to node {assignment.node} outside " ++
      "current placement; create and approve an explicit movement plan")
  require (assignment.node ∉ occupied.usedNodes)
    s!"global assignments contain duplicate node {assignment.node}"
  .ok
    { usedNodes := assignment.node :: occupied.usedNodes
      maxSlot := if occupied.maxSlot < assignment.slot then assignment.slot else occupied.maxSlot }

def extendGlobal (state : List Assignment × Occupied) (node : String) :
    List Assignment × Occupied :=
  if node ∈ state.2.usedNodes then state
  else
    let slot := int64 (state.2.maxSlot + 1)
    (state.1 ++ [{ slot := slot, nodeID := "", node := node }],
      { usedNodes := node :: state.2.usedNodes, maxSlot := slot })

def planGlobal (permitted eligible : List String) (prior : List Assignment) :
    Except String (List Assignment) := do
  validateAssignments prior
  let kept := stable prior
  let occupied ← kept.foldlM (occupy permitted) { usedNodes := [], maxSlot := 0 }
  let planned := (eligible.foldl extendGlobal (kept, occupied)).1
  require (planned ≠ []) "global service has no schedulable nodes eligible for assignments"
  .ok (stable planned)

def uniqueFrom (seen : List String) : List String → List String
  | [] => []
  | value :: rest =>
    if value ∈ seen then uniqueFrom seen rest else value :: uniqueFrom (value :: seen) rest

def numbered (maxSlot : ℤ) : List String → List Assignment
  | [] => []
  | node :: rest =>
    { slot := int64 (maxSlot + 1), nodeID := "", node := node } ::
      numbered (int64 (maxSlot + 1)) rest

def highestSlot (assignments : List Assignment) (start : ℤ) : ℤ :=
  (assignments.map Assignment.slot).foldl max start

theorem mem_uniqueFrom : node ∈ uniqueFrom used eligible ↔ node ∈ eligible ∧ node ∉ used := by
  induction eligible generalizing used with
  | nil => simp [uniqueFrom]
  | cons first rest ih =>
    unfold uniqueFrom
    by_cases hused : first ∈ used
    · rw [if_pos hused, ih, mem_cons]
      constructor
      · exact fun h => ⟨.inr h.1, h.2⟩
      · rintro ⟨rfl | hrest, hfresh⟩
        · exact absurd hused hfresh
        · exact ⟨hrest, hfresh⟩
    · rw [if_neg hused, mem_cons, ih]
      by_cases heq : node = first <;> simp [heq, hused]

theorem nodup_uniqueFrom (used eligible : List String) : (uniqueFrom used eligible).Nodup := by
  induction eligible generalizing used with
  | nil => exact nodup_nil
  | cons first rest ih =>
    unfold uniqueFrom
    split_ifs with hused
    · exact ih used
    · exact nodup_cons.mpr ⟨fun hmem => (mem_uniqueFrom.mp hmem).2 mem_cons_self, ih _⟩

theorem numbered_nodes : (numbered maxSlot nodes).map Assignment.node = nodes := by
  induction nodes generalizing maxSlot with
  | nil => rfl
  | cons node rest ih => simp [numbered, ih]

theorem occupy_eq_ok {start result : Occupied} :
    occupy permitted start a = .ok result ↔ a.node ∈ permitted ∧ a.node ∉ start.usedNodes ∧
      result = ⟨a.node :: start.usedNodes, max start.maxSlot a.slot⟩ := by
  have hmax : (if start.maxSlot < a.slot then a.slot else start.maxSlot) =
      max start.maxSlot a.slot := by
    split_ifs <;> omega
  simp only [occupy, bind_eq_ok, require_eq_ok, exists_and_left, exists_const, hmax,
    Except.ok.injEq]
  rw [eq_comm]

theorem occupyAll_eq_ok {start result : Occupied} : l.foldlM (occupy permitted) start = .ok result ↔
      (∀ a ∈ l, a.node ∈ permitted ∧ a.node ∉ start.usedNodes) ∧ (l.map Assignment.node).Nodup ∧
        result = ⟨(l.map Assignment.node).reverse ++ start.usedNodes,
          highestSlot l start.maxSlot⟩ := by
  induction l generalizing start with
  | nil =>
    simp [pure, Except.pure, highestSlot, eq_comm]
  | cons a rest ih =>
    rw [foldlM_cons, bind_eq_ok]
    simp only [occupy_eq_ok, ih]
    rw [forall_mem_cons, map_cons, nodup_cons]
    constructor
    · rintro ⟨next, ⟨hperm, hfresh, rfl⟩, hrest, hnodup, rfl⟩
      refine ⟨⟨⟨hperm, hfresh⟩, ?_⟩, ⟨?_, hnodup⟩, by simp [highestSlot]⟩
      · exact fun b hb => ⟨(hrest b hb).1, fun hused => (hrest b hb).2 (mem_cons_of_mem _ hused)⟩
      · intro hmem
        obtain ⟨b, hb, hnode⟩ := mem_map.mp hmem
        exact (hrest b hb).2 (hnode ▸ mem_cons_self)
    · rintro ⟨⟨⟨hperm, hfresh⟩, hrest⟩, ⟨hfirst, hnodup⟩, rfl⟩
      refine ⟨_, ⟨hperm, hfresh, rfl⟩, ?_, hnodup, by simp [highestSlot]⟩
      intro b hb
      refine ⟨(hrest b hb).1, not_mem_cons_of_ne_of_not_mem ?_ (hrest b hb).2⟩
      rintro heq
      exact hfirst (heq ▸ mem_map_of_mem hb)

theorem extendAll_planned : (eligible.foldl extendGlobal state).1 =
      state.1 ++ numbered state.2.maxSlot (uniqueFrom state.2.usedNodes eligible) := by
  induction eligible generalizing state with
  | nil => simp [uniqueFrom, numbered]
  | cons node rest ih =>
    rw [foldl_cons, ih, uniqueFrom, extendGlobal]
    by_cases hused : node ∈ state.2.usedNodes
    · rw [if_pos hused, if_pos hused]
    · rw [if_neg hused, if_neg hused]
      simp [numbered]

theorem uniqueFrom_congr (h : ∀ node, node ∈ used ↔ node ∈ others) :
    uniqueFrom used eligible = uniqueFrom others eligible := by
  induction eligible generalizing used others with
  | nil => rfl
  | cons node rest ih =>
    have hnext : ∀ n, n ∈ node :: used ↔ n ∈ node :: others := fun n => by simp [h]
    rw [uniqueFrom, uniqueFrom, ih h, ih hnext]
    simp only [h]

section

variable (prior : List Assignment) (eligible : List String)

def addedTo : List Assignment :=
  numbered (highestSlot prior 0) (uniqueFrom (prior.map Assignment.node) eligible)

theorem addedTo_nodes :
    (addedTo prior eligible).map Assignment.node =
      uniqueFrom (prior.map Assignment.node) eligible :=
  numbered_nodes

end

theorem planGlobal_eq_ok {prior : List Assignment} :
    planGlobal permitted eligible prior = .ok planned ↔
      Valid prior ∧ (∀ a ∈ prior, a.node ∈ permitted) ∧ (prior.map Assignment.node).Nodup ∧
        planned ≠ [] ∧ planned = stable (stable prior ++ addedTo prior eligible) := by
  have hnodes := (stable_perm prior).map Assignment.node
  have hlisted : ∀ a, a ∈ stable prior ↔ a ∈ prior := fun a => (stable_perm prior).mem_iff
  have hadded : numbered (highestSlot (stable prior) 0)
      (uniqueFrom (((stable prior).map Assignment.node).reverse ++ []) eligible) =
        addedTo prior eligible := by
    have hfresh : uniqueFrom (((stable prior).map Assignment.node).reverse ++ []) eligible =
        uniqueFrom (prior.map Assignment.node) eligible :=
          uniqueFrom_congr fun node => by simp [hlisted]
    rw [addedTo, hfresh, highestSlot, ((stable_perm prior).map Assignment.slot).foldl_eq,
      highestSlot]
  simp only [planGlobal, bind_eq_ok, require_eq_ok, exists_and_left, exists_const, occupyAll_eq_ok,
    extendAll_planned, hnodes.nodup_iff, hlisted, not_mem_nil, not_false_eq_true, and_true,
    Except.ok.injEq, @eq_comm _ _ planned]
  constructor
  · rintro ⟨_, hvalid, _, ⟨hperm, hnodup, rfl⟩, hsome, rfl⟩
    rw [hadded] at hsome ⊢
    exact ⟨validateAssignments_eq_ok.mp hvalid, hperm, hnodup, stable_eq_nil.not.mpr hsome, rfl⟩
  · rintro ⟨hvalid, hperm, hnodup, hsome, rfl⟩
    refine ⟨(), validateAssignments_eq_ok.mpr hvalid, _, ⟨hperm, hnodup, rfl⟩, ?_⟩
    rw [hadded]
    exact ⟨stable_eq_nil.not.mp hsome, rfl⟩

theorem planGlobal_nodes
    (h : planGlobal permitted eligible prior = .ok planned) : (planned.map Assignment.node).Nodup ∧
      ∀ node, node ∈ planned.map Assignment.node ↔ node ∈ prior.map Assignment.node ∨
        node ∈ eligible := by
  obtain ⟨-, -, hnodup, -, rfl⟩ := planGlobal_eq_ok.mp h
  have hprior := (stable_perm prior).map Assignment.node
  have hplanned := (stable_perm (stable prior ++ addedTo prior eligible)).map Assignment.node
  rw [map_append, addedTo_nodes] at hplanned
  refine ⟨?_, ?_⟩
  · rw [hplanned.nodup_iff, nodup_append']
    refine ⟨hprior.nodup_iff.mpr hnodup, nodup_uniqueFrom _ _, ?_⟩
    intro node hold hnew
    exact (mem_uniqueFrom.mp hnew).2 (hprior.mem_iff.mp hold)
  · intro node
    rw [hplanned.mem_iff, mem_append, mem_uniqueFrom, hprior.mem_iff]
    tauto

end Scheduler
