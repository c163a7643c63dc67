import Tako.GoMaps
import Tako.Scheduler

/-! # Movement plans for placed workloads

`planMovement` proposes what a cordon, a drain or a rebalance does to the replica slots of
each service. A plan is a document that an operator reviews: `validateMovementPlan` accepts
it later only if its digest still matches its contents.
-/
namespace PlacementMovement

open List GoPrelude GoMaps SliceOrder LoadBalancing Scheduler

inductive Mode where
  | cordon
  | drain
  | rebalance
  deriving DecidableEq

def Mode.text : Mode → String
  | .cordon => "cordon"
  | .drain => "drain"
  | .rebalance => "rebalance"

def Mode.ofText? (text : String) : Option Mode :=
  [Mode.cordon, .drain, .rebalance].find? fun mode => mode.text == text

structure MovementWorkload where
  service : String
  (global persistent : Bool)
  volumes : List String
  current : List Assignment
  eligible : List String

structure MovementServiceProposal where
  service : String
  (current proposed : List Assignment)
  deriving DecidableEq

structure Movement where
  service : String
  slot : ℤ
  (fromNode fromNodeID : String)
  (toNode toNodeID : String := "")
  persistent : Bool := false
  volumes : List String := []
  requiresVolumeMigration : Bool := false
  deriving DecidableEq

structure MovementImpact where
  service : String
  slot : ℤ
  (node nodeID : String)
  deriving DecidableEq

structure MovementBlocker where
  service : String
  slot : ℤ
  (node reason : String)
  deriving DecidableEq

def uniqueStrings (values : List String) : List String := uniqueFrom [] values

def withoutString (values : List String) (excluded : String) : List String :=
  values.filter fun value => value != excluded

def nodeIDOf (nodeIDs : StringMap) (node : String) : String := (nodeIDs.lookup node).getD ""

def overloadedNode (node : String) (eligible : List String) (loads : Loads) : Bool :=
  if node ∈ eligible then
    match eligible with
    | [] => true
    | first :: rest =>
      let minimum := rest.foldl (fun minimum candidate =>
        if loads candidate < minimum then loads candidate else minimum) (loads first)
      decide (minimum + 1 < loads node)
  else true

structure Progress where
  proposed : List Assignment
  loads : Loads
  moves : List Movement
  blockers : List MovementBlocker

def Progress.keep (p : Progress) (assignment : Assignment) : Progress :=
  { p with proposed := p.proposed ++ [assignment] }

def Progress.block (p : Progress) (service : String) (assignment : Assignment) (reason : String) :
    Progress :=
  { p with
    proposed := p.proposed ++ [assignment]
    blockers := p.blockers ++
      [{ service := service, slot := assignment.slot, node := assignment.node, reason := reason }] }

def Progress.relocate (p : Progress) (service : String) (nodeIDs : StringMap)
    (assignment : Assignment) (destination : String) : Progress :=
  { p with
    proposed := p.proposed ++
      [{ assignment with node := destination, nodeID := nodeIDOf nodeIDs destination }]
    loads := (p.loads.add assignment.node (-1)).add destination 1
    moves := p.moves ++
      [{ service := service, slot := assignment.slot, fromNode := assignment.node,
         fromNodeID := assignment.nodeID, toNode := destination,
         toNodeID := nodeIDOf nodeIDs destination }] }

def persistentReason : String :=
  "persistent workload movement requires a separately reviewed backup, restore, and cutover " ++
    "strategy"

def destinationReason : String := "no schedulable placement-compatible destination is available"

def globalReason : String :=
  "global service drain requires an explicit membership/removal operation; duplicating the " ++
    "replica on another node would violate global placement"

def isPersistent (workload : MovementWorkload) : Bool :=
  workload.persistent || !workload.volumes.isEmpty

section

variable (mode : Mode) (targetNode : String)

def mustMove (eligible : List String) (loads : Loads) (node : String) : Bool :=
  match mode with
  | .cordon => false
  | .drain => node == targetNode
  | .rebalance => !eligible.contains node || overloadedNode node eligible loads

def destinationsFor (eligible : List String) (node : String) : List String :=
  match mode with
  | .drain => withoutString (withoutString eligible node) targetNode
  | _ => withoutString eligible node

/-- One round of the loop. The slot's entry of `proposed` is written in its own round only, so
the list grows by it. -/
def planSlot (nodeIDs : StringMap) (workload : MovementWorkload)
    (eligible : List String) (p : Progress) (assignment : Assignment) : Progress :=
  if !mustMove mode targetNode eligible p.loads assignment.node then p.keep assignment
  else if isPersistent workload then
    let blocked := p.block workload.service assignment persistentReason
    { blocked with
      moves := p.moves ++
        [{ service := workload.service, slot := assignment.slot, fromNode := assignment.node,
           fromNodeID := assignment.nodeID, persistent := true, volumes := workload.volumes,
           requiresVolumeMigration := true }] }
  else
    match destinationsFor mode targetNode eligible assignment.node with
    | [] => p.block workload.service assignment destinationReason
    | first :: rest =>
      let destination := leastLoaded first rest p.loads
      if mode = .rebalance ∧ p.loads assignment.node ≤ p.loads destination + 1 then
        p.keep assignment
      else p.relocate workload.service nodeIDs assignment destination

end

def initialLoads (current : List Assignment) : Loads :=
  current.foldl (fun loads assignment => loads.add assignment.node 1) fun _ => 0

structure WorkloadPlan where
  proposal : MovementServiceProposal
  impacts : List MovementImpact
  moves : List Movement
  blockers : List MovementBlocker
  deriving DecidableEq

def planWorkloadMovement (mode : Mode) (targetNode : String) (nodeIDs : StringMap)
    (workload : MovementWorkload) : WorkloadPlan :=
  let current := stable workload.current
  let eligible := uniqueStrings workload.eligible
  let affected := current.filter fun assignment => assignment.node == targetNode
  let unmoved : MovementServiceProposal :=
    { service := workload.service, current := current, proposed := stable current }
  if mode = .cordon then
    { proposal := unmoved
      impacts := affected.map fun a =>
        { service := workload.service, slot := a.slot, node := a.node, nodeID := a.nodeID }
      moves := []
      blockers := [] }
  else if workload.global then
    { proposal := unmoved
      impacts := []
      moves := []
      blockers :=
        if mode = .drain then
          affected.map fun a =>
            { service := workload.service, slot := a.slot, node := a.node, reason := globalReason }
        else [] }
  else
    let final := current.foldl (planSlot mode targetNode nodeIDs workload eligible)
      { proposed := [], loads := initialLoads current, moves := [], blockers := [] }
    { proposal := {
      service := workload.service, current := current, proposed := stable final.proposed }
      impacts := []
      moves := final.moves
      blockers := final.blockers }

structure MovementPlan where
  (apiVersion kind planID mode inputRevisionID targetNode targetNodeID : String)
  services : List MovementServiceProposal
  impacts : List MovementImpact
  moves : List Movement
  blockers : List MovementBlocker
  (executable requiresReview : Bool)
  createdAt : Time
  deriving DecidableEq

def planAPIVersion : String := "tako.redentor.dev/v1alpha1"

def planKind : String := "PlacementMovementPlan"

/-- The digest covers every field but `planID` and `createdAt`; `hash` is the hexadecimal
SHA-256 of a document's JSON form. -/
def movementPlanDigest (hash : MovementPlan → String) (plan : MovementPlan) : String :=
  "sha256:" ++ hash { plan with planID := "", createdAt := 0 }

def slotKey (service : String) (slot : ℤ) : String := s!"{service}/{slot}"

def proposalFor (services : List MovementServiceProposal) (name : String) :
    Option MovementServiceProposal :=
  services.find? fun proposal => proposal.service == name

def checkProposals (seen : List String) : List MovementServiceProposal → Except String Unit
  | [] => .ok ()
  | proposal :: rest => do
    require (proposal.service ≠ "") "placement movement plan has an unnamed service"
    require (proposal.service ∉ seen)
      s!"placement movement plan duplicates service {proposal.service}"
    wrap (fun cause => s!"service {proposal.service} current assignments are invalid: {cause}")
      (validateAssignments proposal.current)
    wrap (fun cause => s!"service {proposal.service} proposed assignments are invalid: {cause}")
      (validateAssignments proposal.proposed)
    checkProposals (proposal.service :: seen) rest

def impactMatches (plan : MovementPlan) (impact : MovementImpact) : Bool :=
  match (proposalFor plan.services impact.service).bind fun p =>
    assignmentForSlot p.current impact.slot with
  | some assignment => assignment.node == impact.node && assignment.nodeID == impact.nodeID
  | none => false

def checkImpacts (plan : MovementPlan) (seen : List String) : List MovementImpact →
    Except String Unit
  | [] => .ok ()
  | impact :: rest => do
    let key := slotKey impact.service impact.slot
    require (plan.mode = Mode.cordon.text ∧ impact.node = plan.targetNode)
      s!"placement movement plan impact {key} is invalid for mode {plan.mode}"
    require (key ∉ seen) s!"placement movement plan duplicates impact {key}"
    require (impactMatches plan impact)
      s!"placement movement plan impact {key} does not match its current assignment"
    checkImpacts plan (key :: seen) rest

def checkMove (key : String) (move : Movement) (proposal : MovementServiceProposal) :
    Except String Unit :=
  match assignmentForSlot proposal.current move.slot,
    assignmentForSlot proposal.proposed move.slot with
  | some current, some proposed => do
    require (current.node = move.fromNode ∧ current.nodeID = move.fromNodeID)
      s!"placement movement plan move {key} does not match its current assignment"
    if move.requiresVolumeMigration then
      require (move.persistent ∧ move.toNode = "" ∧ proposed = current)
        s!"placement movement plan persistent move {key} must remain blocked in place"
    else
      require (¬ move.persistent ∧ move.toNode ≠ "" ∧ move.toNode ≠ move.fromNode ∧
          proposed.node = move.toNode ∧ proposed.nodeID = move.toNodeID)
        s!"placement movement plan move {key} does not match its proposed assignment"
  | _, _ => .error s!"placement movement plan move {key} does not match its current assignment"

def checkMoves (plan : MovementPlan) (seen : List String) : List Movement → Except String Unit
  | [] => .ok ()
  | move :: rest => do
    let key := slotKey move.service move.slot
    require (key ∉ seen) s!"placement movement plan duplicates move {key}"
    match proposalFor plan.services move.service with
    | none => .error s!"placement movement plan move {key} has no service proposal"
    | some proposal => checkMove key move proposal
    checkMoves plan (key :: seen) rest

def validateMovementPlan (hash : MovementPlan → String) (plan : MovementPlan) :
    Except String Unit := do
  require (plan.apiVersion = planAPIVersion ∧ plan.kind = planKind)
    "unsupported placement movement plan version or kind"
  require (Mode.ofText? plan.mode ≠ none) "placement movement plan mode is invalid"
  require (¬ (plan.inputRevisionID = "" ∨ (plan.mode ≠ Mode.rebalance.text ∧ plan.targetNode = "")))
    "placement movement plan is missing its input revision or drain target"
  require (plan.planID ≠ "" ∧ plan.planID = movementPlanDigest hash plan)
    "placement movement plan digest does not match its contents"
  require (plan.requiresReview) "placement movement plan must require review"
  require (plan.executable = plan.blockers.isEmpty)
    "placement movement plan executable flag does not match its blockers"
  checkProposals [] plan.services
  checkImpacts plan [] plan.impacts
  require (¬ (plan.mode = Mode.cordon.text ∧ (plan.moves ≠ [] ∨ plan.blockers ≠ [])))
    "cordon impact plans cannot move or block replicas"
  checkMoves plan [] plan.moves

def addWorkload (mode : Mode) (targetNode : String) (nodeIDs : StringMap) (plan : MovementPlan)
    (workload : MovementWorkload) : Except String MovementPlan := do
  require (trimSpace workload.service ≠ "") "movement workload service name is required"
  let planned := planWorkloadMovement mode targetNode nodeIDs workload
  .ok
    { plan with
      services := plan.services ++ [planned.proposal]
      impacts := plan.impacts ++ planned.impacts
      moves := plan.moves ++ planned.moves
      blockers := plan.blockers ++ planned.blockers }

def planMovement (hash : MovementPlan → String) (now : Time)
    (modeText targetNode inputRevisionID : String) (nodeIDs : StringMap)
    (workloads : List MovementWorkload) : Except String MovementPlan :=
  match Mode.ofText? (trimSpace modeText) with
  | none => .error "movement mode must be cordon, drain, or rebalance"
  | some mode => do
    require (trimSpace inputRevisionID ≠ "") "input desired revision ID is required"
    require (¬ (mode ≠ .rebalance ∧ trimSpace targetNode = ""))
      s!"{mode.text} target node is required"
    let plan ← (sortBy MovementWorkload.service workloads).foldlM
      (addWorkload mode targetNode nodeIDs)
      { apiVersion := planAPIVersion, kind := planKind, planID := "", mode := mode.text,
        inputRevisionID := inputRevisionID, targetNode := targetNode,
        targetNodeID := nodeIDOf nodeIDs targetNode, services := [], impacts := [], moves := [],
        blockers := [], executable := false, requiresReview := true, createdAt := now }
    let plan := { plan with executable := plan.blockers.isEmpty }
    let plan := { plan with planID := movementPlanDigest hash plan }
    wrap (fun cause => s!"generated invalid movement plan: {cause}")
      (validateMovementPlan hash plan)
    .ok plan

theorem checkProposals_nodup (h : checkProposals seen services = .ok ()) :
    (services.map MovementServiceProposal.service).Nodup ∧ ∀ p ∈ services, p.service ∉ seen := by
  induction services generalizing seen with
  | nil => simp
  | cons p rest ih =>
    simp only [checkProposals, bind_eq_ok, require_eq_ok, exists_and_left, exists_const] at h
    obtain ⟨-, hfresh, _, -, _, -, hrest⟩ := h
    exact nodup_cons_of_seen hfresh (fun _ => mem_cons.mpr) (ih hrest)

theorem validateMovementPlan_nodup {hash : MovementPlan → String}
    (h : validateMovementPlan hash plan = .ok ()) :
    (plan.services.map MovementServiceProposal.service).Nodup := by
  simp only [validateMovementPlan, bind_eq_ok, require_eq_ok, exists_and_left, exists_const] at h
  obtain ⟨-, -, -, -, -, -, _, hproposals, -⟩ := h
  exact (checkProposals_nodup hproposals).1

@[simp] theorem mem_uniqueStrings : value ∈ uniqueStrings values ↔ value ∈ values := by
  simp [uniqueStrings, mem_uniqueFrom]

@[simp] theorem mem_withoutString :
    value ∈ withoutString values excluded ↔ value ∈ values ∧ value ≠ excluded := by
  simp [withoutString]

theorem foldl_minimum_le (loads : Loads) (rest : List String) (start : ℤ) :
    (∀ candidate ∈ rest, rest.foldl (fun minimum candidate =>
        if loads candidate < minimum then loads candidate else minimum) start ≤ loads candidate) ∧
      rest.foldl (fun minimum candidate =>
        if loads candidate < minimum then loads candidate else minimum) start ≤ start := by
  induction rest generalizing start with
  | nil => simp
  | cons first rest ih =>
    obtain ⟨hrest, hstart⟩ := ih (if loads first < start then loads first else start)
    have hboth : (if loads first < start then loads first else start) ≤ loads first ∧
        (if loads first < start then loads first else start) ≤ start := by
      split_ifs <;> omega
    refine ⟨forall_mem_cons.mpr ⟨hstart.trans hboth.1, hrest⟩, hstart.trans hboth.2⟩

/-- A node that is not overloaded is eligible and exceeds no eligible node by more than one. -/
theorem not_overloadedNode (h : overloadedNode node eligible loads = false) :
    node ∈ eligible ∧ ∀ candidate ∈ eligible, loads node ≤ loads candidate + 1 := by
  unfold overloadedNode at h
  split_ifs at h with hmem
  refine ⟨hmem, ?_⟩
  cases eligible with
  | nil => cases h
  | cons first rest =>
    obtain ⟨hrest, hfirst⟩ := foldl_minimum_le loads rest (loads first)
    rw [decide_eq_false_iff_not] at h
    refine forall_mem_cons.mpr ⟨by omega, ?_⟩
    intro candidate hcand
    have := hrest candidate hcand
    omega

theorem foldl_add_apply (assignments : List Assignment) (loads : Loads) :
    assignments.foldl (fun loads assignment => loads.add assignment.node 1) loads node =
      loads node + ((assignments.map Assignment.node).count node : ℤ) := by
  induction assignments generalizing loads with
  | nil => simp
  | cons a rest ih =>
    rw [foldl_cons, ih, map_cons, Loads.add]
    by_cases hnode : a.node = node
    · subst hnode
      simp
      omega
    · simp [hnode, Function.update_of_ne (Ne.symm hnode)]

theorem initialLoads_apply (node : String) :
    initialLoads current node = ((current.map Assignment.node).count node : ℤ) := by
  rw [initialLoads, foldl_add_apply, Int.zero_add]

section Loop

variable (mode : Mode) (targetNode : String) (nodeIDs : StringMap) (workload : MovementWorkload)
  (eligible : List String)

theorem planSlot_slot :
    ∃ b, (planSlot mode targetNode nodeIDs workload eligible p a).proposed = p.proposed ++ [b] ∧
      b.slot = a.slot := by
  unfold planSlot
  split
  · exact ⟨a, rfl, rfl⟩
  split
  · exact ⟨a, rfl, rfl⟩
  split
  · exact ⟨a, rfl, rfl⟩
  dsimp only
  split
  · exact ⟨a, rfl, rfl⟩
  · exact ⟨_, rfl, rfl⟩

theorem planSlots_slots (current : List Assignment) (p : Progress) :
    (current.foldl (planSlot mode targetNode nodeIDs workload eligible) p).proposed.map
      Assignment.slot =
      p.proposed.map Assignment.slot ++ current.map Assignment.slot := by
  induction current generalizing p with
  | nil => simp
  | cons a rest ih =>
    obtain ⟨b, hgrown, hslot⟩ := planSlot_slot mode targetNode nodeIDs workload eligible
    rw [foldl_cons, ih, hgrown]
    simp [hslot]

/-! ## Rebalancing is a greedy pass

The loads of the loop are the numbers of items in `homes`: the nodes chosen so far, and the
present nodes of the slots still to come. -/

def LoadsOf (loads : Loads) (homes : List String) : Prop :=
  ∀ node, loads node = (homes.count node : ℤ)

section

variable (p next : Progress) (a : Assignment) (homes : List String)

def Stays : Prop :=
  next.proposed = p.proposed ++ [a] ∧ next.loads = p.loads ∧
    (a.node ∈ eligible → Settled eligible homes a.node)

def Moves : Prop :=
  ∃ b : Assignment, next.proposed = p.proposed ++ [b] ∧ Relieves eligible homes a.node b.node ∧
    next.loads = (p.loads.add a.node (-1)).add b.node 1

end

variable {workload eligible}

variable {loads : Loads}

theorem settled_of_loads (hloads : LoadsOf loads homes)
    (h : ∀ candidate ∈ eligible, loads node ≤ loads candidate + 1) :
    Settled eligible homes node := by
  intro candidate hcand
  have hle := h candidate hcand
  rw [hloads, hloads] at hle
  omega

theorem destination_le (hdest : withoutString eligible node = first :: rest)
    (hcand : candidate ∈ eligible) (hother : candidate ≠ node) :
    loads (leastLoaded first rest loads) ≤ loads candidate := by
  apply leastLoaded_le
  rw [← hdest, mem_withoutString]
  exact ⟨hcand, hother⟩

/-- The destination is least loaded among the other eligible nodes; below its gap the slot's own
node cannot be below it either. -/
theorem relieves_of_loads (hloads : LoadsOf loads homes)
    (hdest : withoutString eligible node = first :: rest)
    (hgap : loads (leastLoaded first rest loads) + 1 < loads node) :
    Relieves eligible homes node (leastLoaded first rest loads) := by
  have hmem := leastLoaded_mem first rest loads
  rw [← hdest, mem_withoutString] at hmem
  have hcounts := hloads (leastLoaded first rest loads)
  refine ⟨hmem.1, ?_, ?_⟩
  · intro candidate hcand
    have hc := hloads candidate
    by_cases hsame : candidate = node
    · subst hsame
      omega
    · have hle : loads (leastLoaded first rest loads) ≤ loads candidate :=
        destination_le hdest hcand hsame
      omega
  · have hn := hloads node
    omega

theorem planSlot_rebalance (hstateless : isPersistent workload = false)
    (hloads : LoadsOf p.loads homes) :
    Stays eligible p (planSlot .rebalance targetNode nodeIDs workload eligible p a) a homes ∨
      Moves eligible p (planSlot .rebalance targetNode nodeIDs workload eligible p a) a homes := by
  unfold planSlot
  split
  case isTrue hstay =>
    -- Eligible and not overloaded.
    simp only [mustMove, Bool.not_eq_true', Bool.or_eq_false_iff] at hstay
    obtain ⟨-, hle⟩ := not_overloadedNode hstay.2
    exact .inl ⟨rfl, rfl, fun _ => settled_of_loads hloads hle⟩
  case isFalse =>
    rw [hstateless]
    simp only [Bool.false_eq_true, if_false, destinationsFor, true_and]
    split
    case h_1 hnone =>
      -- No other node is eligible, so the slot's node has nobody to exceed.
      refine .inl ⟨rfl, rfl, fun _ => settled_of_loads hloads ?_⟩
      intro candidate hcand
      by_cases hsame : candidate = a.node
      · subst hsame
        omega
      · have hother := mem_withoutString.mpr ⟨hcand, hsame⟩
        rw [hnone] at hother
        cases hother
    case h_2 first rest hdest =>
      split
      case isTrue hclose =>
        refine .inl ⟨rfl, rfl, fun _ => settled_of_loads hloads ?_⟩
        intro candidate hcand
        by_cases hsame : candidate = a.node
        · subst hsame
          omega
        · have hle : p.loads (leastLoaded first rest p.loads) ≤ p.loads candidate :=
            destination_le hdest hcand hsame
          omega
      case isFalse hgap =>
        exact .inr ⟨_, rfl, relieves_of_loads hloads hdest (by omega), rfl⟩

theorem loads_move (h : LoadsOf loads (placed ++ node :: pending)) :
    LoadsOf ((loads.add node (-1)).add destination 1) (placed ++ [destination] ++ pending) := by
  intro x
  have hcount := count_move placed pending node destination x
  have hx := h x
  simp only [Loads.add, Function.update_apply]
  split_ifs at hcount ⊢ <;> subst_vars <;> simp_all
  omega

/-- The loop with the mode `rebalance` is a greedy pass over the slots' nodes. -/
theorem planSlots_pass (hstateless : isPersistent workload = false) (current : List Assignment)
    (p : Progress)
    (hloads : LoadsOf p.loads (p.proposed.map Assignment.node ++ current.map Assignment.node)) :
    Pass eligible (p.proposed.map Assignment.node) (current.map Assignment.node)
      ((current.foldl (planSlot .rebalance targetNode nodeIDs workload eligible) p).proposed.map
        Assignment.node) := by
  induction current generalizing p with
  | nil => exact Pass.done _
  | cons a rest ih =>
    have hrest := ih (planSlot .rebalance targetNode nodeIDs workload eligible p a)
    rcases planSlot_rebalance targetNode nodeIDs hstateless hloads with
      ⟨hprop, hkept, hsettled⟩ | ⟨b, hprop, hrelieves, hmoved⟩
    · rw [hprop, hkept, map_append, append_assoc] at hrest
      exact Pass.stay hsettled (hrest hloads)
    · rw [hprop, hmoved, map_append] at hrest
      exact Pass.move hrelieves (hrest (loads_move hloads))

end Loop

/-- The proposal of a rebalance is that of the loop, which is in the order of the slots already. -/
theorem rebalance_pass (targetNode : String) (nodeIDs : StringMap)
    (hglobal : workload.global = false) (hstateless : isPersistent workload = false)
    (hvalid : Valid workload.current) :
    let proposed := (planWorkloadMovement .rebalance targetNode nodeIDs workload).proposal.proposed
    proposed.map Assignment.slot = (stable workload.current).map Assignment.slot ∧
      Pass (uniqueStrings workload.eligible) [] ((stable workload.current).map Assignment.node)
        (proposed.map Assignment.node) := by
  intro proposed
  let start : Progress :=
    { proposed := [], loads := initialLoads (stable workload.current), moves := [], blockers := [] }
  have hslots := planSlots_slots .rebalance targetNode nodeIDs workload
    (uniqueStrings workload.eligible) (stable workload.current) start
  have hprop : proposed = ((stable workload.current).foldl
      (planSlot .rebalance targetNode nodeIDs workload (uniqueStrings workload.eligible))
        start).proposed := by
    refine Eq.trans ?_ (stable_eq_of_slots hvalid.ordered_stable hslots)
    simp [proposed, planWorkloadMovement, hglobal, start]
  rw [hprop]
  exact ⟨hslots, planSlots_pass targetNode nodeIDs hstateless (stable workload.current) start
    initialLoads_apply⟩

/-- A rebalance keeps the slots of the workload and leaves its replicas balanced over the
eligible nodes. Replicas on nodes that are not eligible count for none of these. -/
theorem rebalance_keeps_slots_and_balances (targetNode : String) (nodeIDs : StringMap)
    (workload : MovementWorkload) (hglobal : workload.global = false)
    (hpersistent : workload.persistent = false) (hvolumes : workload.volumes = [])
    (hvalid : validateAssignments workload.current = .ok ()) :
    let proposed := (planWorkloadMovement .rebalance targetNode nodeIDs workload).proposal.proposed
    (proposed.map Assignment.slot).Perm (workload.current.map Assignment.slot) ∧
      Balanced workload.eligible (proposed.map Assignment.node) := by
  intro proposed
  have hstateless : isPersistent workload = false := by simp [isPersistent, hpersistent, hvolumes]
  obtain ⟨hslots, hpass⟩ :=
    rebalance_pass targetNode nodeIDs hglobal hstateless (validateAssignments_eq_ok.mp hvalid)
  refine ⟨?_, ?_⟩
  · rw [hslots]
    exact (stable_perm _).map _
  · intro a ha b hb
    exact hpass.balanced a (mem_uniqueStrings.mpr ha) b (mem_uniqueStrings.mpr hb)

def crowded : MovementWorkload where
  service := "web"
  global := false
  persistent := false
  volumes := []
  current :=
    [{ slot := 2, nodeID := "id-a", node := "a" }, { slot := 1, nodeID := "id-a", node := "a" },
     { slot := 3, nodeID := "id-a", node := "a" }, { slot := 5, nodeID := "id-x", node := "x" },
     { slot := 4, nodeID := "id-a", node := "a" }]
  eligible := ["a", "b", "c", "b"]

theorem rebalance_crowded :
    (planWorkloadMovement .rebalance "" ∅ crowded).proposal.proposed.map Assignment.node =
        ["b", "c", "a", "a", "x"] ∧
      Balanced crowded.eligible
        ((planWorkloadMovement .rebalance "" ∅ crowded).proposal.proposed.map Assignment.node) :=
  ⟨by decide +kernel,
    (rebalance_keeps_slots_and_balances "" ∅ crowded rfl rfl rfl (by decide +kernel)).2⟩

end PlacementMovement
