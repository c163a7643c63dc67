import Tako.ReviewedMovement

/-! # Planned movement

A round of the loop over the slots adds one proposed assignment, at most one move for it and at most
one blocker; a plan document is the workloads' plans in the order of their names.
-/
namespace PlacementMovement

open List GoPrelude GoMaps SliceOrder LoadBalancing Scheduler

theorem moveFor_append :
    moveFor (moves ++ more) service slot =
      (moveFor moves service slot).or (moveFor more service slot) :=
  find?_append

variable {α : Type} {hash : MovementPlan → String}

theorem moveFor_flatMap_none {xs : List α} (h : ∀ y ∈ xs, moveFor (f y) service slot = none) :
    moveFor (xs.flatMap f) service slot = none := by
  induction xs with
  | nil => rfl
  | cons y ys ih =>
    obtain ⟨hy, hys⟩ := forall_mem_cons.mp h
    rw [flatMap_cons, moveFor_append, hy, ih hys, Option.or_none]

theorem moveFor_flatMap {xs : List α} (hx : x ∈ xs)
    (hothers : ∀ y ∈ xs, y ≠ x → moveFor (f y) service slot = none) :
    moveFor (xs.flatMap f) service slot = moveFor (f x) service slot := by
  cases hfound : moveFor (f x) service slot with
  | none =>
    apply moveFor_flatMap_none
    intro y hy
    by_cases hsame : y = x
    · rw [hsame, hfound]
    · exact hothers y hy hsame
  | some =>
    induction xs with
    | nil => cases hx
    | cons y ys ih =>
      obtain ⟨hfirst, hrest⟩ := forall_mem_cons.mp hothers
      rw [flatMap_cons, moveFor_append]
      by_cases hsame : y = x
      · rw [hsame, hfound, Option.some_or]
      · rw [hfirst hsame]
        exact ih ((mem_cons.mp hx).resolve_left (Ne.symm hsame)) hrest

/-- A move that waits for a reviewed migration and names no destination. -/
structure Movement.Blocked (move : Movement) : Prop where
  persistent : move.persistent
  requiresVolumeMigration : move.requiresVolumeMigration
  toNode : move.toNode = ""
  toNodeID : move.toNodeID = ""

structure SlotPlan (mode : Mode) (targetNode : String) (workload : MovementWorkload) where
  (current proposed : Assignment)
  moves : List Movement
  blockers : List MovementBlocker
  listed : ∀ move ∈ moves, move.service = workload.service ∧ move.slot = current.slot
  applied : proposed = (moves.head?.map fun move => move.apply current).getD current
  inPlace : isPersistent workload → ∀ move ∈ moves, move.Blocked
  drained : mode = .drain → blockers = [] → proposed.node ≠ targetNode

section Slots

variable {mode : Mode} {targetNode : String} {nodeIDs : StringMap} {workload : MovementWorkload}

/-- A slot that neither moves nor blocks; it is not one that a drain must move. -/
def SlotPlan.keep (a : Assignment) (h : mode = .drain → a.node ≠ targetNode) :
    SlotPlan mode targetNode workload where
  current := a
  proposed := a
  moves := []
  blockers := []
  listed := by simp
  applied := rfl
  inPlace := by simp
  drained hdrain _ := h hdrain

/-- A replica with volumes stays, and its move is listed for a migration. -/
def SlotPlan.awaitMigration (a : Assignment) : SlotPlan mode targetNode workload where
  current := a
  proposed := a
  moves :=
    [{ service := workload.service, slot := a.slot, fromNode := a.node, fromNodeID := a.nodeID,
       persistent := true, volumes := workload.volumes, requiresVolumeMigration := true }]
  blockers :=
    [{ service := workload.service, slot := a.slot, node := a.node, reason := persistentReason }]
  listed := by simp
  applied := rfl
  inPlace := by
    intro _ move hmove
    rw [mem_singleton.mp hmove]
    exact ⟨rfl, rfl, rfl, rfl⟩
  drained := by simp

def SlotPlan.block (a : Assignment) : SlotPlan mode targetNode workload where
  current := a
  proposed := a
  moves := []
  blockers :=
    [{ service := workload.service, slot := a.slot, node := a.node, reason := destinationReason }]
  listed := by simp
  applied := rfl
  inPlace := by simp
  drained := by simp

def SlotPlan.relocate (nodeIDs : StringMap) (a : Assignment) (destination : String)
    (hpersistent : ¬ isPersistent workload) (hdrain : mode = .drain → destination ≠ targetNode) :
    SlotPlan mode targetNode workload where
  current := a
  proposed := { a with node := destination, nodeID := nodeIDOf nodeIDs destination }
  moves :=
    [{ service := workload.service, slot := a.slot, fromNode := a.node, fromNodeID := a.nodeID,
       toNode := destination, toNodeID := nodeIDOf nodeIDs destination }]
  blockers := []
  listed := by simp
  applied := rfl
  inPlace h := absurd h hpersistent
  drained h _ := hdrain h

variable {loads : Loads}

theorem keep_of_not_mustMove (h : mustMove mode targetNode eligible loads node = false)
    (hdrain : mode = .drain) : node ≠ targetNode := by
  subst hdrain
  exact beq_eq_false_iff_ne.mp h

theorem destination_ne_target
    (hdest : destinationsFor mode targetNode eligible node = first :: rest)
    (hdrain : mode = .drain) : leastLoaded first rest loads ≠ targetNode := by
  subst hdrain
  have hmem := leastLoaded_mem first rest loads
  rw [← hdest, destinationsFor, mem_withoutString] at hmem
  exact hmem.2

open SlotPlan

variable (mode targetNode nodeIDs workload eligible) in
theorem planSlot_adds : ∃ s : SlotPlan mode targetNode workload, s.current = a ∧
      (planSlot mode targetNode nodeIDs workload eligible p a).proposed = p.proposed ++
        [s.proposed] ∧
      (planSlot mode targetNode nodeIDs workload eligible p a).moves = p.moves ++ s.moves ∧
      (planSlot mode targetNode nodeIDs workload eligible p a).blockers = p.blockers ++
        s.blockers := by
  unfold planSlot
  split
  case isTrue hstay =>
    have hkeep : mode = .drain → a.node ≠ targetNode := keep_of_not_mustMove (by simpa using hstay)
    exact ⟨keep a hkeep, rfl, rfl, (append_nil _).symm, (append_nil _).symm⟩
  split
  case isTrue => exact ⟨awaitMigration a, rfl, rfl, rfl, rfl⟩
  case isFalse hpers =>
    split
    case h_1 => exact ⟨block a, rfl, rfl, (append_nil _).symm, rfl⟩
    case h_2 first rest hdest =>
      dsimp only
      split
      case isTrue hclose =>
        -- Only a rebalance leaves a slot where it is for want of a gap.
        have hkeep : mode = .drain → a.node ≠ targetNode := by
          rintro rfl
          cases hclose.1
        exact ⟨keep a hkeep, rfl, rfl, (append_nil _).symm, (append_nil _).symm⟩
      case isFalse =>
        exact ⟨relocate nodeIDs a _ hpers (destination_ne_target hdest), rfl, rfl, rfl,
          (append_nil _).symm⟩

theorem planSlots_adds (current : List Assignment) (p : Progress) :
    ∃ slots : List (SlotPlan mode targetNode workload), slots.map SlotPlan.current = current ∧
      (current.foldl (planSlot mode targetNode nodeIDs workload eligible) p).proposed =
        p.proposed ++ slots.map proposed ∧
      (current.foldl (planSlot mode targetNode nodeIDs workload eligible) p).moves =
        p.moves ++ slots.flatMap moves ∧
      (current.foldl (planSlot mode targetNode nodeIDs workload eligible) p).blockers =
        p.blockers ++ slots.flatMap blockers := by
  induction current generalizing p with
  | nil => exact ⟨[], by simp⟩
  | cons a rest ih =>
    obtain ⟨s, hs, hprop, hmoves, hblockers⟩ :=
      planSlot_adds mode targetNode nodeIDs workload eligible
    obtain ⟨slots, hslots, hproposals, hallMoves, hallBlockers⟩ :=
      ih (planSlot mode targetNode nodeIDs workload eligible p a)
    refine ⟨s :: slots, by rw [map_cons, hs, hslots], ?_, ?_, ?_⟩
    · rw [foldl_cons, hproposals, hprop, append_assoc, singleton_append, map_cons]
    · rw [foldl_cons, hallMoves, hmoves, append_assoc, flatMap_cons]
    · rw [foldl_cons, hallBlockers, hblockers, append_assoc, flatMap_cons]

theorem SlotPlan.moveFor_own (s : SlotPlan mode targetNode workload) :
    moveFor s.moves workload.service s.current.slot = s.moves.head? := by
  have hlisted := s.listed
  cases hmoves : s.moves with
  | nil => rfl
  | cons move =>
    rw [hmoves] at hlisted
    obtain ⟨hsvc, hslot⟩ := hlisted move mem_cons_self
    simp [moveFor, hsvc, hslot]

theorem SlotPlan.moveFor_other (s : SlotPlan mode targetNode workload) (h : s.current.slot ≠ slot) :
    moveFor s.moves service slot = none := by
  rw [moveFor_eq_none]
  intro move hmove _
  rw [(s.listed move hmove).2]
  exact h

theorem slotPlans_applied {slots : List (SlotPlan mode targetNode workload)}
    (hdistinct : ((slots.map current).map Assignment.slot).Nodup) :
    slots.map proposed = applyMoves (slots.flatMap moves) workload.service (slots.map current) := by
  rw [map_map] at hdistinct
  rw [applyMoves, map_map]
  apply map_congr_left
  intro s hs
  have hmove : moveFor (slots.flatMap moves) workload.service s.current.slot = s.moves.head? := by
    rw [moveFor_flatMap hs, s.moveFor_own]
    intro other hother hne
    exact other.moveFor_other fun heq => hne (inj_on_of_nodup_map hdistinct hother hs heq)
  rw [s.applied, Function.comp_apply, moved, hmove]
  cases s.moves.head? <;> rfl

end Slots

structure WorkloadPlan.Faithful (mode : Mode) (targetNode : String) (workload : MovementWorkload)
    (planned : WorkloadPlan) : Prop where
  service : planned.proposal.service = workload.service
  current : planned.proposal.current = stable workload.current
  listed : ∀ move ∈ planned.moves, move.service = workload.service
  applied : planned.proposal.proposed = applyMoves planned.moves workload.service
    (stable workload.current)
  unmoved : workload.global → planned.moves = []
  inPlace : isPersistent workload → ∀ move ∈ planned.moves, move.Blocked
  drained : mode = .drain → planned.blockers = [] → ∀ a ∈ planned.proposal.proposed,
    a.node ≠ targetNode

theorem applyMoves_nil : applyMoves [] service current = current :=
  applyMoves_of_unlisted (by simp) current

theorem planWorkloadMovement_faithful (mode : Mode) (targetNode : String) (nodeIDs : StringMap)
    {workload : MovementWorkload} (hvalid : Valid workload.current) :
    (planWorkloadMovement mode targetNode nodeIDs workload).Faithful mode targetNode workload := by
  unfold planWorkloadMovement
  dsimp only
  split
  case isTrue hcordon =>
    subst hcordon
    exact
      { service := rfl, current := rfl, listed := by simp,
        applied := by rw [applyMoves_nil, stable_stable]
        unmoved := fun _ => rfl, inPlace := by simp, drained := fun hdrain => by cases hdrain }
  split
  case isTrue hglobal =>
    refine
      { service := rfl, current := rfl, listed := by simp,
        applied := by rw [applyMoves_nil, stable_stable]
        unmoved := fun _ => rfl, inPlace := by simp, drained := ?_ }
    intro hdrain hnone a ha hnode
    -- A replica on the drained node would have been a blocker.
    rw [if_pos hdrain, map_eq_nil_iff, filter_eq_nil_iff] at hnone
    rw [stable_stable] at ha
    exact hnone a ha (beq_iff_eq.mpr hnode)
  case isFalse hcordon hglobal =>
    obtain ⟨slots, hslots, hprop, hmoves, hblockers⟩ :=
      @planSlots_adds mode targetNode nodeIDs workload (uniqueStrings workload.eligible)
        (stable workload.current)
        { proposed := [], loads := initialLoads (stable workload.current), moves := [],
          blockers := [] }
    have hordered := hvalid.ordered_stable
    have hdistinct : ((slots.map SlotPlan.current).map Assignment.slot).Nodup := by
      rw [hslots]
      exact ((stable_perm workload.current).map _).nodup_iff.mpr hvalid.distinct
    have happlied := slotPlans_applied hdistinct
    rw [hslots] at happlied
    rw [nil_append] at hprop hmoves hblockers
    rw [hprop, hmoves, hblockers]
    have hstable : stable (slots.map SlotPlan.proposed) = slots.map SlotPlan.proposed := by
      apply stable_eq_of_slots hordered
      rw [happlied, applyMoves_slots]
    exact
      { service := rfl
        current := rfl
        listed := by
          intro move hmove
          obtain ⟨s, -, hs⟩ := mem_flatMap.mp hmove
          exact (s.listed move hs).1
        applied := hstable.trans happlied
        unmoved := fun h => absurd h hglobal
        inPlace := by
          intro hpers move hmove
          obtain ⟨s, -, hs⟩ := mem_flatMap.mp hmove
          exact s.inPlace hpers move hs
        drained := by
          intro hdrain hnone a ha
          rw [hstable] at ha
          obtain ⟨s, hs, rfl⟩ := mem_map.mp ha
          exact s.drained hdrain (flatMap_eq_nil_iff.mp hnone s hs) }

section Strays

variable {eligible : List String}

theorem destinations_of_mustMove (hnodup : eligible.Nodup) (hsome : eligible ≠ [])
    (h : mustMove .rebalance targetNode eligible loads node) :
    destinationsFor .rebalance targetNode eligible node ≠ [] := by
  intro hnone
  have hall : ∀ candidate ∈ eligible, candidate = node := by
    intro candidate hcand
    by_contra hne
    have hmem := mem_withoutString.mpr ⟨hcand, hne⟩
    rw [show withoutString eligible node = [] from hnone] at hmem
    cases hmem
  -- The node is the only eligible one, and does not exceed itself.
  have hlen : eligible.length = 1 := by
    have hpos := length_pos_iff.mpr hsome
    have hle := nodup_replicate.mp (eq_replicate_of_mem hall ▸ hnodup)
    omega
  rw [eq_replicate_of_mem hall, hlen] at h
  simp [mustMove, overloadedNode] at h

structure Sent (eligible : List String) (p : Progress) : Prop where
  blockers : p.blockers = []
  moves : ∀ move ∈ p.moves, move.requiresVolumeMigration = false ∧ move.toNode ∈ eligible

theorem planSlot_sent (hstateless : isPersistent workload = false) (hnodup : eligible.Nodup)
    (hsome : eligible ≠ []) (hp : Sent eligible p) (a : Assignment) :
    Sent eligible (planSlot .rebalance targetNode nodeIDs workload eligible p a) := by
  unfold planSlot
  split
  case isTrue => exact ⟨hp.blockers, hp.moves⟩
  case isFalse hmust =>
    rw [hstateless, if_neg Bool.false_ne_true]
    split
    case h_1 hnone =>
      exact absurd hnone (destinations_of_mustMove hnodup hsome (by simpa using hmust))
    case h_2 first rest hdest =>
      dsimp only
      split
      case isTrue => exact ⟨hp.blockers, hp.moves⟩
      case isFalse =>
        refine ⟨hp.blockers, forall_mem_append.mpr ⟨hp.moves, forall_mem_singleton.mpr ⟨rfl, ?_⟩⟩⟩
        have hmem := leastLoaded_mem first rest p.loads
        rw [← hdest, destinationsFor, mem_withoutString] at hmem
        · exact hmem.1
        · exact Mode.noConfusion

theorem moved_of_sent
    (h : ∀ move ∈ moves, move.requiresVolumeMigration = false ∧ move.toNode ∈ eligible)
    (hnode : (moved moves service a).node ∉ eligible) :
    moveFor moves service a.slot = none ∧ a.node ∉ eligible := by
  unfold moved at hnode
  cases hmove : moveFor moves service a.slot with
  | none => exact ⟨rfl, by rwa [hmove] at hnode⟩
  | some move =>
    obtain ⟨hmigration, hto⟩ := h move (moveFor_some hmove).1
    rw [hmove] at hnode
    simp only [Movement.apply, hmigration] at hnode
    exact absurd hto hnode

theorem rebalance_sent (hglobal : workload.global = false)
    (hstateless : isPersistent workload = false) (hsome : workload.eligible ≠ []) :
    (planWorkloadMovement .rebalance targetNode nodeIDs workload).blockers = [] ∧
      ∀ move ∈ (planWorkloadMovement .rebalance targetNode nodeIDs workload).moves,
        move.requiresVolumeMigration = false ∧ move.toNode ∈ workload.eligible := by
  have hsent : Sent (uniqueStrings workload.eligible) ((stable workload.current).foldl
      (planSlot .rebalance targetNode nodeIDs workload (uniqueStrings workload.eligible))
      { proposed := [], loads := initialLoads (stable workload.current), moves := [],
        blockers := [] }) := by
    apply foldlRecOn
    · exact ⟨rfl, by simp⟩
    · intro p hp a _
      exact planSlot_sent hstateless (nodup_uniqueFrom _ _)
        (ne_nil_of_mem (mem_uniqueStrings.mpr (head_mem hsome))) hp a
  simp only [planWorkloadMovement, hglobal, reduceCtorEq, if_false, Bool.false_eq_true]
  exact ⟨hsent.blockers, fun move hmove => (hsent.moves move hmove).imp_right mem_uniqueStrings.mp⟩

/-- A node that is not eligible keeps a replica: no move empties it, and a replica that stays there
has neither a move nor a blocker. -/
theorem rebalance_leaves_no_stray_iff (targetNode : String) (nodeIDs : StringMap)
    (workload : MovementWorkload) (hglobal : workload.global = false)
    (hstateless : isPersistent workload = false) (hsome : workload.eligible ≠ [])
    (hvalid : validateAssignments workload.current = .ok ()) :
    (∀ a ∈ workload.current, a.node ∉ workload.eligible →
      (∃ move ∈ (planWorkloadMovement .rebalance targetNode nodeIDs workload).moves,
        move.slot = a.slot) ∨
        (planWorkloadMovement .rebalance targetNode nodeIDs workload).blockers ≠ []) ↔
      ∀ a ∈ workload.current, a.node ∈ workload.eligible := by
  constructor
  · intro hmoved stray hstray
    by_contra hnode
    rw [validateAssignments_eq_ok] at hvalid
    have hfaithful := planWorkloadMovement_faithful .rebalance targetNode nodeIDs hvalid
    obtain ⟨hblockers, hmoves⟩ := rebalance_sent hglobal hstateless hsome
    obtain ⟨-, hpass⟩ := rebalance_pass targetNode nodeIDs hglobal hstateless hvalid
    have hlisted : stray.node ∈ (stable workload.current).map Assignment.node :=
      mem_map_of_mem ((stable_perm _).mem_iff.mpr hstray)
    obtain ⟨b, hb, hsame⟩ := mem_map.mp (hpass.occupied hlisted)
    rw [hfaithful.applied] at hb
    obtain ⟨a, ha, rfl⟩ := mem_map.mp hb
    obtain ⟨hnone, hstays⟩ := moved_of_sent hmoves (hsame ▸ hnode)
    rcases hmoved a ((stable_perm _).mem_iff.mp ha) hstays with ⟨move, hmove, hslot⟩ | hblocked
    · exact moveFor_eq_none.mp hnone move hmove (hfaithful.listed move hmove) hslot
    · exact hblocked hblockers
  · intro hall a ha
    exact absurd (hall a ha)

/-- With the fifth node eligible again nothing is stray. -/
theorem rebalance_crowded_leaves_no_stray : validateAssignments crowded.current = .ok () ∧
    ∀ a ∈ crowded.current, a.node ∉ ["a", "b", "x"] →
      (∃ move ∈ (planWorkloadMovement .rebalance "" ∅
        { crowded with eligible := ["a", "b", "x"] }).moves,
          move.slot = a.slot) ∨
        (planWorkloadMovement .rebalance "" ∅
          { crowded with eligible := ["a", "b", "x"] }).blockers ≠ [] :=
  ⟨by decide +kernel,
    (rebalance_leaves_no_stray_iff "" ∅ { crowded with eligible := ["a", "b", "x"] } rfl rfl
    (by decide) (by decide +kernel)).mpr (by decide)⟩

/-- The replica on the node that has left stays there, and the plan is silent about it. -/
theorem crowded_stray_unmentioned :
    { slot := 5, nodeID := "id-x", node := "x" } ∈ crowded.current ∧ "x" ∉ crowded.eligible ∧
      (planWorkloadMovement .rebalance "" ∅ crowded).moves.map Movement.slot = [1, 2] ∧
      (planWorkloadMovement .rebalance "" ∅ crowded).blockers = [] := by
  decide +kernel

end Strays

def planDocument (hash : MovementPlan → String) (now : Time) (mode : Mode)
    (targetNode inputRevisionID : String) (nodeIDs : StringMap) (ordered : List MovementWorkload) :
    MovementPlan :=
  let planned := ordered.map (planWorkloadMovement mode targetNode nodeIDs)
  let plan : MovementPlan :=
    { apiVersion := planAPIVersion, kind := planKind, planID := "", mode := mode.text,
      inputRevisionID := inputRevisionID, targetNode := targetNode,
      targetNodeID := nodeIDOf nodeIDs targetNode
      services := planned.map WorkloadPlan.proposal
      impacts := planned.flatMap WorkloadPlan.impacts
      moves := planned.flatMap WorkloadPlan.moves
      blockers := planned.flatMap WorkloadPlan.blockers
      executable := (planned.flatMap WorkloadPlan.blockers).isEmpty
      requiresReview := true, createdAt := now }
  { plan with planID := movementPlanDigest hash plan }

theorem addWorkloads_eq_ok {ordered : List MovementWorkload} :
    ordered.foldlM (addWorkload mode targetNode nodeIDs) start = .ok result ↔
      (∀ w ∈ ordered, trimSpace w.service ≠ "") ∧ result = { start with
          services := start.services ++
            (ordered.map (planWorkloadMovement mode targetNode nodeIDs)).map WorkloadPlan.proposal
          impacts := start.impacts ++ (ordered.map
            (planWorkloadMovement mode targetNode nodeIDs)).flatMap WorkloadPlan.impacts
          moves := start.moves ++
            (ordered.map (planWorkloadMovement mode targetNode nodeIDs)).flatMap WorkloadPlan.moves
          blockers := start.blockers ++
            (ordered.map (planWorkloadMovement mode targetNode nodeIDs)).flatMap
              WorkloadPlan.blockers } := by
  induction ordered generalizing start with
  | nil =>
    simp only [foldlM_nil, pure, Except.pure, Except.ok.injEq, map_nil, flatMap_nil, append_nil]
    constructor
    · rintro rfl
      exact ⟨by simp, rfl⟩
    · rintro ⟨-, rfl⟩
      rfl
  | cons w rest ih =>
    simp only [foldlM_cons, addWorkload, bind_eq_ok, require_eq_ok, exists_and_left, exists_const,
      Except.ok.injEq, exists_eq_left', ih, forall_mem_cons, map_cons, flatMap_cons,
      append_assoc, singleton_append, and_assoc]

theorem planMovement_eq_ok :
    planMovement hash now modeText targetNode inputRevisionID nodeIDs workloads = .ok plan ↔
      ∃ mode, Mode.ofText? (trimSpace modeText) = some mode ∧ trimSpace inputRevisionID ≠ "" ∧
        ¬ (mode ≠ .rebalance ∧ trimSpace targetNode = "") ∧
          (∀ w ∈ workloads, trimSpace w.service ≠ "") ∧
        validateMovementPlan hash plan = .ok () ∧
        plan = planDocument hash now mode targetNode inputRevisionID nodeIDs
          (sortBy MovementWorkload.service workloads) := by
  unfold planMovement
  cases hmode : Mode.ofText? (trimSpace modeText) with
  | none => simp
  | some =>
    simp only [bind_eq_ok, require_eq_ok, wrap_eq_ok, exists_and_left, exists_const,
      addWorkloads_eq_ok, mem_sortBy,
      nil_append, Option.some.injEq, exists_eq_left', Except.ok.injEq]
    constructor
    · rintro ⟨hinput, htarget, _, ⟨hnames, rfl⟩, _, hvalid, rfl⟩
      exact ⟨hinput, htarget, hnames, hvalid, rfl⟩
    · rintro ⟨hinput, htarget, hnames, hvalid, rfl⟩
      exact ⟨hinput, htarget, _, ⟨hnames, rfl⟩, (), hvalid, rfl⟩

section Document

variable {now : Time} {mode : Mode} {targetNode inputRevisionID : String} {nodeIDs : StringMap}
  {ordered : List MovementWorkload}

theorem mem_planDocument_services :
    p ∈ (planDocument hash now mode targetNode inputRevisionID nodeIDs ordered).services ↔
      ∃ w ∈ ordered, (planWorkloadMovement mode targetNode nodeIDs w).proposal = p := by
  simp [planDocument]

theorem planDocument_moves :
    (planDocument hash now mode targetNode inputRevisionID nodeIDs ordered).moves =
      ordered.flatMap fun w => (planWorkloadMovement mode targetNode nodeIDs w).moves := by
  simp [planDocument, flatMap_map]

theorem planDocument_shown (hvalid : ∀ w ∈ ordered, Valid w.current) :
    (planDocument hash now mode targetNode inputRevisionID nodeIDs ordered).services.map
        (fun p => (p.service, p.current)) = ordered.map fun w => (w.service, stable w.current) := by
  have hshown : ∀ w ∈ ordered, ((planWorkloadMovement mode targetNode nodeIDs w).proposal.service,
      (planWorkloadMovement mode targetNode nodeIDs w).proposal.current) =
        (w.service, stable w.current) := by
    intro w hw
    have hfaithful := planWorkloadMovement_faithful mode targetNode nodeIDs (hvalid w hw)
    rw [hfaithful.service, hfaithful.current]
  simp only [planDocument, map_map]
  exact map_congr_left hshown

theorem planDocument_distinct (hvalid : ∀ w ∈ ordered, Valid w.current)
    (h : validateMovementPlan hash (planDocument hash now mode targetNode inputRevisionID nodeIDs
      ordered) = .ok ()) :
    (ordered.map MovementWorkload.service).Nodup := by
  have hsvcs := congrArg (map Prod.fst)
    (@planDocument_shown hash now mode targetNode inputRevisionID nodeIDs ordered hvalid)
  simp only [map_map, Function.comp_def] at hsvcs
  rw [← hsvcs]
  exact validateMovementPlan_nodup h

variable (hvalid : ∀ w ∈ ordered, Valid w.current)
  (hdistinct : (ordered.map MovementWorkload.service).Nodup)

include hvalid hdistinct

theorem moveFor_planDocument (hw : w ∈ ordered) :
    moveFor (planDocument hash now mode targetNode inputRevisionID nodeIDs ordered).moves w.service
      slot =
      moveFor (planWorkloadMovement mode targetNode nodeIDs w).moves w.service slot := by
  rw [planDocument_moves, moveFor_flatMap hw]
  intro other hother hne
  rw [moveFor_eq_none]
  intro move hmove hsvc
  have hown := (planWorkloadMovement_faithful mode targetNode nodeIDs (hvalid other hother)).listed
    move hmove
  exact absurd (inj_on_of_nodup_map hdistinct hother hw (hown.symm.trans hsvc)) hne

theorem planDocument_applied
    (hp : p ∈ (planDocument hash now mode targetNode inputRevisionID nodeIDs ordered).services) :
    p.proposed = applyMoves (planDocument hash now mode targetNode inputRevisionID nodeIDs
      ordered).moves p.service
      p.current := by
  obtain ⟨w, hw, rfl⟩ := mem_planDocument_services.mp hp
  have hfaithful := planWorkloadMovement_faithful mode targetNode nodeIDs (hvalid w hw)
  rw [hfaithful.applied, hfaithful.service, hfaithful.current]
  apply map_congr_left
  intro a _
  rw [moved, moved, moveFor_planDocument hvalid hdistinct hw]

theorem own_move (hw : w ∈ ordered)
    (hmove : move ∈ (planDocument hash now mode targetNode inputRevisionID nodeIDs ordered).moves)
    (hsvc : move.service = w.service) :
    move ∈ (planWorkloadMovement mode targetNode nodeIDs w).moves := by
  rw [planDocument_moves] at hmove
  obtain ⟨other, hother, hlisted⟩ := mem_flatMap.mp hmove
  have hown := (planWorkloadMovement_faithful mode targetNode nodeIDs (hvalid other hother)).listed
    move hlisted
  rw [inj_on_of_nodup_map hdistinct hother hw (hown.symm.trans hsvc)] at hlisted
  exact hlisted

end Document

theorem applyMoves_of_blocked (h : ∀ move ∈ moves, move.service = service → move.Blocked) :
    applyMoves moves service current = current := by
  have hmoved : ∀ a ∈ current, moved moves service a = id a := by
    intro a _
    unfold moved
    cases hmove : moveFor moves service a.slot with
    | none => rfl
    | some move =>
      obtain ⟨hmem, hsvc, -⟩ := moveFor_some hmove
      exact if_pos (h move hmem hsvc).requiresVolumeMigration
  rw [applyMoves, map_congr_left hmoved, map_id]

def MovementWorkload.ordered (w : MovementWorkload) : MovementWorkload :=
  { w with current := stable w.current }

/-- The same workloads in another order, each with its assignments in another order. -/
def Reordered (workloads others : List MovementWorkload) : Prop :=
  ∃ permuted : List MovementWorkload, permuted.Perm workloads ∧
    List.Forall₂ (fun w other => other.current.Perm w.current ∧
      other = { w with current := other.current }) permuted others

theorem Reordered.perm (h : Reordered workloads others)
    (hvalid : ∀ w ∈ workloads, Valid w.current) :
    (others.map MovementWorkload.ordered).Perm (workloads.map MovementWorkload.ordered) ∧
      ∀ w ∈ others, Valid w.current := by
  obtain ⟨permuted, hperm, hsame⟩ := h
  have hpermuted : ∀ w ∈ permuted, Valid w.current := fun w hw => hvalid w (hperm.mem_iff.mp hw)
  have hall : others.map MovementWorkload.ordered = permuted.map MovementWorkload.ordered ∧
      ∀ w ∈ others, Valid w.current := by
    clear hperm
    induction hsame with
    | nil => simp
    | @cons w other rest others hpair _ ih =>
      obtain ⟨hw, hrest⟩ := forall_mem_cons.mp hpermuted
      obtain ⟨heq, hothers⟩ := ih hrest
      have hstable : stable other.current = stable w.current :=
        (sortBy_eq_of_perm hpair.1.symm hw.distinct).symm
      have hordered : other.ordered = w.ordered := by
        rw [hpair.2]
        simp only [MovementWorkload.ordered, hstable]
      exact ⟨by rw [map_cons, map_cons, heq, hordered],
        forall_mem_cons.mpr ⟨hw.perm hpair.1.symm, hothers⟩⟩
  exact ⟨hall.1 ▸ hperm.map _, hall.2⟩

theorem planWorkloadMovement_ordered (w : MovementWorkload) :
    planWorkloadMovement mode targetNode nodeIDs w.ordered =
      planWorkloadMovement mode targetNode nodeIDs w := by
  have hslot : planSlot mode targetNode nodeIDs w.ordered = planSlot mode targetNode nodeIDs w :=
    rfl
  simp only [planWorkloadMovement, hslot]
  simp only [MovementWorkload.ordered, stable_stable]

theorem sortBy_ordered :
    sortBy MovementWorkload.service (workloads.map MovementWorkload.ordered) =
      (sortBy MovementWorkload.service workloads).map MovementWorkload.ordered :=
  (map_insertionSort (fun a b : MovementWorkload => a.service ≤ b.service) _
    MovementWorkload.ordered workloads
    fun _ _ _ _ => Iff.rfl).symm

theorem planDocument_ordered (hash : MovementPlan → String) (nodeIDs : StringMap) :
    planDocument hash now mode targetNode inputRevisionID nodeIDs
      (ordered.map MovementWorkload.ordered) =
      planDocument hash now mode targetNode inputRevisionID nodeIDs ordered := by
  have hplanned : planWorkloadMovement mode targetNode nodeIDs ∘ MovementWorkload.ordered =
      planWorkloadMovement mode targetNode nodeIDs :=
    funext planWorkloadMovement_ordered
  simp only [planDocument, map_map, hplanned]

theorem Reordered.sortBy_eq (h : Reordered workloads others)
    (hvalid : ∀ w ∈ workloads, Valid w.current)
    (hdistinct : (workloads.map MovementWorkload.service).Nodup) :
    (sortBy MovementWorkload.service others).map MovementWorkload.ordered =
      (sortBy MovementWorkload.service workloads).map MovementWorkload.ordered := by
  rw [← sortBy_ordered, ← sortBy_ordered]
  refine (sortBy_eq_of_perm (h.perm hvalid).1.symm ?_).symm
  rw [map_map]
  exact hdistinct

theorem checkImpacts_createdAt (now : Time) (seen : List String) (impacts : List MovementImpact) :
    checkImpacts { plan with createdAt := now } seen impacts = checkImpacts plan seen impacts := by
  induction impacts generalizing seen with
  | nil => rfl
  | cons impact rest ih =>
    simp only [checkImpacts, ih]
    rfl

theorem validateMovementPlan_createdAt (hash : MovementPlan → String) (now : Time) :
    validateMovementPlan hash { plan with createdAt := now } = validateMovementPlan hash plan := by
  have hmoves : ∀ seen moves, checkMoves { plan with createdAt := now } seen moves =
    checkMoves plan seen moves :=
    checkMoves_congr rfl
  have hdigest : movementPlanDigest hash { plan with createdAt := now } =
    movementPlanDigest hash plan := rfl
  simp only [validateMovementPlan, checkImpacts_createdAt, hmoves, hdigest]

/-- Planning the reordered workloads at another time gives the same plan, of that time. -/
theorem planMovement_reordered (hvalid : ∀ w ∈ workloads, Valid w.current)
    (h : planMovement hash now modeText targetNode inputRevisionID nodeIDs workloads = .ok plan)
    (hothers : Reordered workloads others) (later : Time) :
    planMovement hash later modeText targetNode inputRevisionID nodeIDs others =
      .ok { plan with createdAt := later } := by
  obtain ⟨mode, hmode, hinput, htarget, hnames, hacc, rfl⟩ := planMovement_eq_ok.mp h
  have hsorted : ∀ w ∈ sortBy MovementWorkload.service workloads, Valid w.current :=
    fun w hw => hvalid w (mem_sortBy.mp hw)
  have hdistinct :=
    ((sortBy_perm _ workloads).map _).nodup_iff.mp (planDocument_distinct hsorted hacc)
  have hsame : ∀ time, planDocument hash time mode targetNode inputRevisionID nodeIDs
      (sortBy MovementWorkload.service others) =
        planDocument hash time mode targetNode inputRevisionID nodeIDs
        (sortBy MovementWorkload.service workloads) := by
    intro time
    rw [← planDocument_ordered, hothers.sortBy_eq hvalid hdistinct, planDocument_ordered]
  have hperm := (hothers.perm hvalid).1.map MovementWorkload.service
  simp only [map_map] at hperm
  have hsvcs : ∀ w ∈ others, trimSpace w.service ≠ "" := by
    intro w hw
    obtain ⟨v, hv, hsame⟩ := mem_map.mp (hperm.mem_iff.mp (mem_map_of_mem hw))
    have hname : v.service = w.service := hsame
    exact hname ▸ hnames v hv
  refine planMovement_eq_ok.mpr ⟨mode, hmode, hinput, htarget, hsvcs, ?_, ?_⟩
  · rw [validateMovementPlan_createdAt]
    exact hacc
  · rw [hsame]
    rfl

/-- The plan that is returned is accepted, and proposes the current assignments with exactly its
moves applied. A global workload has no move; a persistent one has only moves that stay blocked in
place. An executable drain leaves nothing on the drained node. The order of the workloads and of
their assignments does not count. -/
theorem planned_movement_faithful {hash : MovementPlan → String} {now : Time}
    {modeText targetNode inputRevisionID : String} {nodeIDs : StringMap}
    {workloads : List MovementWorkload} {plan : MovementPlan}
    (hvalid : ∀ w ∈ workloads, validateAssignments w.current = .ok ())
    (h : planMovement hash now modeText targetNode inputRevisionID nodeIDs workloads = .ok plan) :
    validateMovementPlan hash plan = .ok () ∧ (plan.services.map fun p => (p.service, p.current)) =
        ((sortBy MovementWorkload.service workloads).map fun w => (w.service, stable w.current)) ∧
      (∀ p ∈ plan.services, p.proposed = applyMoves plan.moves p.service p.current) ∧
      (∀ w ∈ workloads, w.global → ∀ move ∈ plan.moves, move.service ≠ w.service) ∧
      (∀ w ∈ workloads, isPersistent w →
        (∀ move ∈ plan.moves, move.service = w.service → move.Blocked) ∧
          ∀ p ∈ plan.services, p.service = w.service → p.proposed = p.current) ∧
      (plan.mode = Mode.drain.text → plan.executable →
        ∀ p ∈ plan.services, ∀ a ∈ p.proposed, a.node ≠ plan.targetNode) ∧
      ∀ others later, Reordered workloads others →
        planMovement hash later modeText targetNode inputRevisionID nodeIDs others =
          .ok { plan with createdAt := later } := by
  have hassigned : ∀ w ∈ workloads, Valid w.current := fun w hw =>
    validateAssignments_eq_ok.mp (hvalid w hw)
  have hreordered := fun (others : List MovementWorkload) later
    (hothers : Reordered workloads others) =>
    planMovement_reordered hassigned h hothers later
  obtain ⟨mode, -, -, -, -, haccepted, rfl⟩ := planMovement_eq_ok.mp h
  have hsorted : ∀ w ∈ sortBy MovementWorkload.service workloads, Valid w.current :=
    fun w hw => hassigned w (mem_sortBy.mp hw)
  have hdistinct := planDocument_distinct hsorted haccepted
  refine ⟨haccepted, planDocument_shown hsorted,
    fun p hp => planDocument_applied hsorted hdistinct hp, ?_, ?_, ?_, hreordered⟩
  · intro w hw hglobal move hmove hservice
    have hown := own_move hsorted hdistinct (mem_sortBy.mpr hw) hmove hservice
    rw [(planWorkloadMovement_faithful mode targetNode nodeIDs (hassigned w hw)).unmoved
      hglobal] at hown
    cases hown
  · intro w hw hpersistent
    have hblocked : ∀ move ∈ (planDocument hash now mode targetNode inputRevisionID nodeIDs
        (sortBy MovementWorkload.service workloads)).moves, move.service = w.service →
          move.Blocked := by
      intro move hmove hservice
      exact (planWorkloadMovement_faithful mode targetNode nodeIDs (hassigned w hw)).inPlace
        hpersistent move (own_move hsorted hdistinct (mem_sortBy.mpr hw) hmove hservice)
    refine ⟨hblocked, ?_⟩
    intro p hp hservice
    rw [planDocument_applied hsorted hdistinct hp, hservice, applyMoves_of_blocked hblocked]
  · intro hdrain hexecutable p hp a ha
    have htext : mode.text = Mode.drain.text := hdrain
    have hmode : mode = .drain := by
      cases mode with
      | cordon | rebalance => exact absurd htext (by decide)
      | drain => rfl
    obtain ⟨w, hw, rfl⟩ := mem_planDocument_services.mp hp
    have hnone : (planWorkloadMovement mode targetNode nodeIDs w).blockers = [] := by
      have hall := flatMap_eq_nil_iff.mp (isEmpty_iff.mp hexecutable)
      exact hall _ (mem_map_of_mem hw)
    exact (planWorkloadMovement_faithful mode targetNode nodeIDs (hsorted w hw)).drained hmode hnone
      a ha

def drainedWorkloads : List MovementWorkload :=
  [{ service := "web", global := false, persistent := false, volumes := [],
     current := [{ slot := 2, nodeID := "id-b", node := "b" },
       { slot := 1, nodeID := "id-a", node := "a" }],
     eligible := ["b"] },
   { service := "db", global := false, persistent := true, volumes := ["data:/var/lib/db"],
     current := [{ slot := 1, nodeID := "id-a", node := "a" }], eligible := ["b"] }]

/-- The plan without the database is executable, and moves the replica on the drained node. -/
theorem drain_web_faithful :
    ∃ plan, planMovement (fun _ => "digest") 0 "drain" "a" "r1" ∅ (drainedWorkloads.take 1) =
      .ok plan ∧
      plan.executable ∧ ∀ p ∈ plan.services, ∀ a ∈ p.proposed, a.node ≠ "a" := by
  have hvalid : ∀ w ∈ drainedWorkloads.take 1, validateAssignments w.current = .ok () := by
    decide +kernel
  obtain ⟨plan, hplan, hexecutable, hmode, htarget⟩ := exists_ok_of_any
    (x := planMovement (fun _ => "digest") 0 "drain" "a" "r1" ∅ (drainedWorkloads.take 1))
    (P := fun plan => plan.executable ∧ plan.mode = "drain" ∧ plan.targetNode = "a")
      (by decide +kernel)
  obtain ⟨-, -, -, -, -, hdrained, -⟩ := planned_movement_faithful hvalid hplan
  exact ⟨plan, hplan, hexecutable, htarget ▸ hdrained hmode hexecutable⟩

/-- The database is in the way: its replica is blocked, and a move is listed for it. -/
theorem persistent_workload_has_move :
    (planMovement (fun _ => "digest") 0 "drain" "a" "r1" ∅ drainedWorkloads).toOption.map
        (fun plan => (plan.executable,
          plan.moves.map fun move => (move.service, move.slot, move.toNode))) =
      some (false, [("db", 1, ""), ("web", 1, "b")]) := by
  decide +kernel

end PlacementMovement
