import Tako.DurablePrograms
import Tako.PlatformMembership

/-! # The membership store

Two files: the authoritative membership and the published inventory. An operation holds the
store's lock, writes the membership first and the inventory second, and the process may stop
between the two. `reconcileInventory` repairs the second file from the first.
-/
namespace MembershipStore

open GoPrelude NodeIdentity SliceOrder DurablePrograms PlatformMembership Except

def membershipMaxBytes : ℕ := 8 * 2 ^ 20

structure Files where
  membership : Option MembershipState
  inventory : Option ClusterInventory
  deriving DecidableEq

/-- `membershipLen` is the length of the encoded membership file. -/
structure Store where
  oracles : Oracles
  path : String
  membershipLen : MembershipState → ℕ

/-- The failing system calls of one operation, with their errors. `inventoryPublish` fails
after the inventory was replaced: the checks and syncs that follow the rename. -/
structure StoreFaults where
  (lock membershipRead membershipWrite inventoryRead inventoryLock inventoryWrite : Option String)
  inventoryPublish : Option String
  deriving DecidableEq

def noStoreFaults : StoreFaults := ⟨none, none, none, none, none, none, none⟩

structure CallClock where
  (validatedAt mutatedAt updatedAt prunedAt checkedAt : Time)
  deriving DecidableEq

def succeeds (fault : Option String) : Except String Unit :=
  match fault with
  | some cause => .error cause
  | none => .ok ()

variable (S : Store)

section

variable (faults : StoreFaults) (before after : MembershipState) (fault : Option String)
  (m : MembershipState)

def readMembershipState (file : Option MembershipState) : Except String MembershipState :=
  match fault, file with
  | some cause, _ => .error cause
  | none, none => .error s!"lstat {S.path}: no such file or directory"
  | none, some m => do
    require (S.membershipLen m ≤ membershipMaxBytes)
      "membership state must be a private regular file"
    .ok m

/-- The order in which `writeMembershipState` leaves the slices. Allocations keep theirs. -/
def sorted : MembershipState :=
  { m with
    nodes := sortBy (·.nodeID) m.nodes
    tombstones := sortBy (·.nodeID) m.tombstones
    joinTokens := sortBy (·.id) m.joinTokens
    removalOperations := sortBy (·.node.nodeID) m.removalOperations }

def writeMembershipState : Durable Files Unit := do
  .check fun _ => require (S.membershipLen (sorted m) ≤ membershipMaxBytes)
    s!"membership state exceeds {membershipMaxBytes} bytes"
  .write (faults.membershipWrite.map ("write membership state: " ++ ·))
    fun d => { d with membership := some (sorted m) }

/-- `CreateInventory` and `ReplaceInventory`; which of them depends on the file's existence. -/
def publishInventory (inventory : ClusterInventory) : Durable Files Unit := do
  .check fun _ => succeeds faults.inventoryLock
  let published ← .check fun _ => marshalInventory S.oracles inventory
  .write faults.inventoryWrite fun d => { d with inventory := some published }
  .check fun _ => succeeds faults.inventoryPublish

def notAhead (existing : ClusterInventory) (m : MembershipState) : Except String Unit :=
  require (existing.generation ≤ m.generation ∧
    existing.allocationGeneration ≤ m.allocationGeneration)
    (s!"trusted inventory generation {existing.generation} is ahead of controller membership " ++
      s!"{m.generation}")

/-- Nothing is compared but the two generations. -/
def reconcileInventory : Durable Files Unit := do
  let existing ← .check fun d => wrap (fun cause => "read trusted inventory: " ++ cause)
    (readInventoryOptional S.oracles faults.inventoryRead d.inventory)
  match existing with
  | none => publishInventory S faults m.inventory
  | some existing => do
    .check fun _ => notAhead existing m
    if existing.generation = m.generation ∧
      existing.allocationGeneration = m.allocationGeneration then
      pure ()
    else publishInventory S faults m.inventory

def read : Durable Files MembershipState := do
  .check fun _ => succeeds faults.lock
  let m ← .check fun d => readMembershipState S faults.membershipRead d.membership
  reconcileInventory S faults m
  pure m

def emptyMembership : MembershipState := ⟨"", "", "", 0, 0, "", "", [], [], [], [], [], [], 0⟩

def readForMutation (allowMissing : Bool) (file : Option MembershipState) :
    Except String MembershipState :=
  if fault = none ∧ file = none ∧ allowMissing then .ok emptyMembership
  else readMembershipState S fault file

/-- The comparisons of allocations and high-water marks. A slice built anew is never equal
to an absent one, even when both are empty. -/
def allocationsChanged (fresh : Bool) : Bool :=
  decide (before.activeAllocations ≠ after.activeAllocations ∨
    (fresh ∧ before.activeAllocations = []) ∨
    before.allocationHighWater ≠ after.allocationHighWater)

def withoutAllocations : MembershipState :=
  { m with activeAllocations := [], allocationHighWater := [], allocationGeneration := 0 }

/-- `reflect.DeepEqual(before, *state)` after a mutation. -/
def sameState (fresh : Bool) : Bool :=
  decide (before = after) && !(fresh && decide (before.activeAllocations = []))

def advanceGeneration : MembershipState :=
  if withoutAllocations before ≠ withoutAllocations after then
    { after with generation := uint64Succ after.generation }
  else after

def advanceAllocationGeneration (before : MembershipState) (fresh : Bool)
    (after : MembershipState) : Except String MembershipState :=
  if allocationsChanged before after fresh then do
    require (uint64Succ after.allocationGeneration ≠ 0) "allocation authority generation exhausted"
    .ok { after with allocationGeneration := uint64Succ after.allocationGeneration }
  else .ok after

def pruneTokens (now : Time) : MembershipState :=
  { m with
    joinTokens := m.joinTokens.filter fun token => decide
      ((token.consumedAt = 0 ∧ now < token.expiresAt) ∨
        (token.consumedAt ≠ 0 ∧ now - token.consumedAt < 24 * hour)) }

end

section

variable (clock : CallClock) (before after : MembershipState) (fresh : Bool)

/-- The generations and the timestamp after a mutation; an initial state keeps its own. Both
comparisons read the state as the mutation left it. -/
def advance : Except String MembershipState :=
  if before.clusterID = "" then .ok after
  else do
    let raised ← advanceAllocationGeneration before fresh after
    .ok { raised with
      generation := (advanceGeneration before after).generation
      updatedAt := clock.updatedAt }

def settle : Except String MembershipState := do
  require (after.generation ≠ 0) "membership mutation did not initialize generation"
  let advanced ← advance clock before after fresh
  let pruned := pruneTokens advanced clock.prunedAt
  pruned.validate S.oracles clock.checkedAt
  .ok pruned

end

section

variable (faults : StoreFaults) (project env : String) (clock : CallClock) (O : Oracles)

def mutate (allowMissing : Bool) (mutation : MembershipState → Time → Except String Change) :
    Durable Files (MembershipState × Receipt) := do
  .check fun _ => succeeds faults.lock
  let before ← .check fun d => readForMutation S faults.membershipRead allowMissing d.membership
  .check fun _ => whenever (before.clusterID ≠ "") (before.validate S.oracles clock.validatedAt)
  let change ← .check fun _ => mutation before clock.mutatedAt
  match change.next with
  | none => do
    reconcileInventory S faults before
    pure (before, change.receipt)
  | some after =>
    -- an equal state is returned as it is: the inventory is not looked at
    if sameState before after change.freshAllocations then pure (after, change.receipt)
    else do
      let settled ← .check fun _ => settle S clock before after change.freshAllocations
      writeMembershipState S faults settled
      (reconcileInventory S faults (sorted settled)).mapError fun cause =>
        s!"membership committed at generation {settled.generation} but inventory publication " ++
          s!"failed: {cause}"
      pure (sorted settled, change.receipt)

/-- The exported operations of the store that go through `mutate`. -/
inductive Request where
  | initializeFirstNode (installation : Installation) (meshCIDR meshPublicKey meshEndpoint : String)
  | createJoinToken (expectedNodeID : String) (ttl : ℤ) (id secret : Except String String)
  | reserveJoinToken (token nodeID : String) (secret : Except String String)
  | enrollWorker (request : EnrollWorkerRequest)
  | markReady (nodeID : String)
  | setNodeMeshEndpoint (nodeID endpoint : String)
  | prepareRemoval (nodeID : String)
  | markRemovalPeersRevoked (nodeID : String)
  | markSchedulable (nodeID : String)
  | cordon (nodeID : String)
  | beginDrain (nodeID : String)
  | remove (nodeID : String)
  | completeRemoval (nodeID : String)
  | authorizeAllocations (project env : String) (allocations : List ActiveAllocation)

def checkScope : Except String Unit :=
  require (safeAllocationScopeName (trimSpace project) ∧
    safeAllocationScopeName (trimSpace env)) "allocation project/environment is invalid"

def Request.precheck : Request → Except String Unit
  | .initializeFirstNode installation _ _ _ => do
    installation.validate O
    require (roleControlPlane ∈ installation.enrollmentRoles)
      "first membership node must be a controller"
  | .createJoinToken expectedNodeID ttl _ _ => do
    validateNodeID expectedNodeID
    require (ttl = 0 ∨ (minute ≤ ttl ∧ ttl ≤ maximumJoinTokenTTL))
      "join token TTL must be between 1m and 24h0m0s"
  | .reserveJoinToken _ nodeID _ => validateNodeID (toLower (trimSpace nodeID))
  | .setNodeMeshEndpoint _ endpoint =>
    require (validMeshEndpoint O (trimSpace endpoint)) "invalid platform mesh endpoint"
  | .authorizeAllocations project env _ => checkScope project env
  | _ => .ok ()

def Request.allowMissing : Request → Bool
  | .initializeFirstNode .. => true
  | _ => false

def Request.mutation : Request → MembershipState → Time → Except String Change
  | .initializeFirstNode installation meshCIDR meshPublicKey meshEndpoint =>
    PlatformMembership.initializeFirstNode O installation meshCIDR meshPublicKey meshEndpoint
  | .createJoinToken expectedNodeID ttl id secret =>
    PlatformMembership.createJoinToken O expectedNodeID ttl id secret
  | .reserveJoinToken token nodeID secret =>
    PlatformMembership.reserveJoinToken O token nodeID secret
  | .enrollWorker request => PlatformMembership.enrollWorker O request
  | .markReady nodeID => PlatformMembership.markReady nodeID
  | .setNodeMeshEndpoint nodeID endpoint => PlatformMembership.setNodeMeshEndpoint nodeID endpoint
  | .prepareRemoval nodeID => PlatformMembership.prepareRemoval nodeID
  | .markRemovalPeersRevoked nodeID => PlatformMembership.markRemovalPeersRevoked nodeID
  | .markSchedulable nodeID => PlatformMembership.markSchedulable nodeID
  | .cordon nodeID => PlatformMembership.cordon nodeID
  | .beginDrain nodeID => PlatformMembership.beginDrain nodeID
  | .remove nodeID => PlatformMembership.remove O nodeID
  | .completeRemoval nodeID => PlatformMembership.completeRemoval nodeID
  | .authorizeAllocations project env allocations =>
    PlatformMembership.authorizeAllocations O project env allocations

def perform (request : Request) : Durable Files (MembershipState × Receipt) := do
  .check fun _ => request.precheck S.oracles
  mutate S faults clock request.allowMissing (request.mutation S.oracles)

def previewOf (allocations : List ActiveAllocation)
    (current : MembershipState) (now : Time) : Except String MembershipState := do
  let next ← applyAllocationAuthorization S.oracles current (trimSpace project) (trimSpace env)
    allocations now
  let advanced ← advanceAllocationGeneration current true next
  let candidate := if allocationsChanged current next true then { advanced with updatedAt := now }
    else advanced
  candidate.validate S.oracles now
  .ok candidate

def previewAllocations (allocations : List ActiveAllocation) (now : Time) :
    Durable Files MembershipState := do
  .check fun _ => checkScope project env
  let current ← read S faults
  .check fun _ => previewOf S project env allocations current now

def commitPreparedAllocations (candidate : MembershipState)
    (baseGeneration baseAllocationGeneration : ℕ) (now : Time) : Durable Files MembershipState := do
  .check fun _ => succeeds faults.lock
  let current ← .check fun d => readMembershipState S faults.membershipRead d.membership
  .check fun _ => require (current.generation = baseGeneration ∧
    current.allocationGeneration = baseAllocationGeneration)
      "prepared allocation base generation changed"
  .check fun _ => candidate.validate S.oracles now
  writeMembershipState S faults candidate
  (reconcileInventory S faults (sorted candidate)).mapError fun cause =>
    "prepared allocations committed but inventory publication failed: " ++ cause
  pure (sorted candidate)

end

variable {S}

structure Publishable (S : Store) (m : MembershipState) (file : Option ClusterInventory) :
    Prop where
  valid : m.inventory.sorted.validate S.oracles = .ok ()
  behind : ∀ i, file = some i → i.generation ≤ m.generation ∧
    i.allocationGeneration ≤ m.allocationGeneration ∧
    ¬(i.generation = m.generation ∧ i.allocationGeneration = m.allocationGeneration)

inductive Reconciled (S : Store) (m : MembershipState) (d : Files) : Files → Prop where
  | current : d.inventory = some i → i.generation = m.generation →
      i.allocationGeneration = m.allocationGeneration → readInventory S.oracles (some i) = .ok i →
      Reconciled S m d d
  | published : Publishable S m d.inventory →
      Reconciled S m d { d with inventory := some m.inventory.sorted }

theorem Reconciled.membership_eq (h : Reconciled S m d w) : w.membership = d.membership := by
  cases h <;> rfl

theorem readInventory_some (h : readInventory O (some i) = .ok j) : j = i := by
  simp only [readInventory, bind_eq_ok, ok.injEq] at h
  obtain ⟨_, _, _, _, rfl⟩ := h
  rfl

theorem readInventoryOptional_some (h : readInventoryOptional O fault file = .ok (some i)) :
    file = some i ∧ readInventory O (some i) = .ok i := by
  cases fault with
  | some => simp [readInventoryOptional] at h
  | none =>
    cases file with
    | none => simp [readInventoryOptional] at h
    | some =>
      simp only [readInventoryOptional, bind_eq_ok, ok.injEq, Option.some.injEq] at h
      obtain ⟨k, hk, rfl⟩ := h
      have hj := readInventory_some hk
      subst hj
      exact ⟨rfl, hk⟩

theorem readInventoryOptional_none (h : readInventoryOptional O fault file = .ok none) :
    file = none := by
  cases fault with
  | some => simp [readInventoryOptional] at h
  | none =>
    cases file with
    | none => rfl
    | some =>
      simp only [readInventoryOptional, bind_eq_ok, ok.injEq] at h
      obtain ⟨_, _, hcontra⟩ := h
      cases hcontra

theorem publishInventory_sorted : Holds (publishInventory S faults inventory) d
      (fun w => inventory.sorted.validate S.oracles = .ok () ∧
        w = { d with inventory := some inventory.sorted })
      fun _ w => inventory.sorted.validate S.oracles = .ok () ∧
        w = { d with inventory := some inventory.sorted } := by
  refine holds_guard ?_
  intro _ _
  refine holds_guard ?_
  intro published hmarshal
  simp only [marshalInventory, bind_eq_ok, ok.injEq] at hmarshal
  obtain ⟨_, hvalid, rfl⟩ := hmarshal
  refine holds_bind (holds_write ⟨hvalid, rfl⟩ ?_)
  refine holds_check ?_
  intro _ _
  exact ⟨hvalid, rfl⟩

theorem publishInventory_holds (hbehind : ∀ i, d.inventory = some i → i.generation ≤ m.generation ∧
      i.allocationGeneration ≤ m.allocationGeneration ∧
      ¬(i.generation = m.generation ∧ i.allocationGeneration = m.allocationGeneration)) :
    Holds (publishInventory S faults m.inventory) d (Reconciled S m d) fun _ =>
      Reconciled S m d := by
  refine publishInventory_sorted.weaken ?_ ?_
  · rintro w ⟨hvalid, rfl⟩
    exact .published ⟨hvalid, hbehind⟩
  · rintro _ w ⟨hvalid, rfl⟩
    exact .published ⟨hvalid, hbehind⟩

theorem reconcileInventory_holds :
    Holds (reconcileInventory S faults m) d (Reconciled S m d) fun _ => Reconciled S m d := by
  refine holds_guard ?_
  intro existing hread
  rw [wrap_eq_ok] at hread
  cases existing with
  | none =>
    have hnone := readInventoryOptional_none hread
    refine publishInventory_holds ?_
    intro i hi
    rw [hnone] at hi
    cases hi
  | some =>
    obtain ⟨hfile, hvalid⟩ := readInventoryOptional_some hread
    refine holds_guard ?_
    intro _ hahead
    rw [notAhead, require_eq_ok] at hahead
    split_ifs with hequal
    · exact holds_ok (.current hfile hequal.1 hequal.2 hvalid)
    · refine publishInventory_holds ?_
      intro j hj
      rw [hfile] at hj
      cases hj
      exact ⟨hahead.1, hahead.2, hequal⟩

theorem readMembershipState_ok (h : readMembershipState S fault file = .ok m) :
    fault = none ∧ file = some m ∧ S.membershipLen m ≤ membershipMaxBytes := by
  cases fault with
  | some => simp [readMembershipState] at h
  | none =>
    cases file with
    | none => simp [readMembershipState] at h
    | some =>
      simp only [readMembershipState, bind_eq_ok, require_eq_ok, ok.injEq] at h
      obtain ⟨_, hlen, rfl⟩ := h
      exact ⟨rfl, rfl, hlen⟩

theorem readForMutation_ok (h : readForMutation S fault allowMissing file = .ok m) :
    fault = none ∧ (file = some m ∨ (file = none ∧ allowMissing ∧ m = emptyMembership)) := by
  unfold readForMutation at h
  split_ifs at h with hmissing
  · cases h
    exact ⟨hmissing.1, .inr ⟨hmissing.2.1, hmissing.2.2, rfl⟩⟩
  · obtain ⟨hfault, hfile, _⟩ := readMembershipState_ok h
    exact ⟨hfault, .inl hfile⟩

theorem read_holds : Holds (read S faults) d (fun w => ∃ m, d.membership = some m ∧
    Reconciled S m d w)
      fun m w => d.membership = some m ∧ Reconciled S m d w := by
  refine holds_guard ?_
  intro _ _
  refine holds_guard ?_
  intro m hread
  have hfile := (readMembershipState_ok hread).2.1
  refine holds_bind (reconcileInventory_holds.weaken ?_ ?_)
  · intro w hw
    exact ⟨m, hfile, hw⟩
  · intro _ w hw
    exact holds_ok ⟨hfile, hw⟩

inductive Persists (S : Store) (clock : CallClock) (request : Request)
    (file : Option MembershipState) :
    MembershipState → Receipt → Prop where
  | intro :
      request.precheck S.oracles = .ok () →
      readForMutation S none request.allowMissing file = .ok before →
      (before.clusterID ≠ "" → before.validate S.oracles clock.validatedAt = .ok ()) →
      request.mutation S.oracles before clock.mutatedAt = .ok change →
      change.next = some after →
      sameState before after change.freshAllocations = false →
      settle S clock before after change.freshAllocations = .ok settled →
      S.membershipLen (sorted settled) ≤ membershipMaxBytes →
      Persists S clock request file (sorted settled) change.receipt

inductive Performed (S : Store) (clock : CallClock) (request : Request) (d : Files) :
    Files → Prop where
  | untouched : Performed S clock request d d
  | repaired : d.membership = some before → Reconciled S before d w → Performed S clock request d w
  | persisted : Persists S clock request d.membership m receipt →
      Performed S clock request d { d with membership := some m }
  | published : Persists S clock request d.membership m receipt →
      Reconciled S m { d with membership := some m } w → Performed S clock request d w

inductive Answered (S : Store) (clock : CallClock) (request : Request) (d : Files) :
    MembershipState × Receipt → Files → Prop where
  | unchanged : d.membership = some before →
      request.mutation S.oracles before clock.mutatedAt = .ok change → change.next = none →
      Reconciled S before d w → Answered S clock request d (before, change.receipt) w
  | same : d.membership = some before →
      request.mutation S.oracles before clock.mutatedAt = .ok change → change.next = some before →
      sameState before before change.freshAllocations →
      Answered S clock request d (before, change.receipt) d
  | persisted : Persists S clock request d.membership m receipt →
      Reconciled S m { d with membership := some m } w → Answered S clock request d (m, receipt) w

theorem sameState_eq (h : sameState before after fresh) : after = before := by
  simp only [sameState, Bool.and_eq_true, decide_eq_true_eq] at h
  exact h.1.symm

theorem mutation_empty {request : Request} (hallow : request.allowMissing)
    (h : request.mutation O emptyMembership now = .ok change) :
    ∃ after, change.next = some after ∧ after ≠ emptyMembership := by
  cases request with
  | initializeFirstNode =>
    simp only [Request.mutation, initializeFirstNode, emptyMembership, ne_eq, not_true, if_false,
      bind_eq_ok, ok.injEq] at h
    obtain ⟨meshIP, _, credentialID, _, rfl⟩ := h
    refine ⟨_, rfl, ?_⟩
    intro he
    have hgen := congrArg MembershipState.generation he
    simp [firstMembership, emptyMembership] at hgen
  | _ => cases hallow

theorem writeMembershipState_holds {I : Files → Prop} {Q : Unit → Files → Prop}
    (h : S.membershipLen (sorted m) ≤ membershipMaxBytes →
      I { d with membership := some (sorted m) } ∧ Q () { d with membership := some (sorted m) }) :
    Holds (writeMembershipState S faults m) d I Q := by
  refine holds_guard ?_
  intro _ hlen
  rw [require_eq_ok] at hlen
  exact holds_write (h hlen).1 (h hlen).2

theorem perform_holds {request : Request} :
    Holds (perform S faults clock request) d (Performed S clock request d)
      (Answered S clock request d) := by
  refine holds_guard ?_
  intro _ hprecheck
  refine holds_guard ?_
  intro _ _
  refine holds_guard ?_
  intro before hread
  obtain ⟨hfault, hfile⟩ := readForMutation_ok hread
  rw [hfault] at hread
  refine holds_guard ?_
  intro _ hvalid
  rw [whenever_eq_ok] at hvalid
  refine holds_guard ?_
  intro change hmut
  cases hnext : change.next with
  | none =>
    have hmemb : d.membership = some before := by
      rcases hfile with hsome | ⟨_, hallow, rfl⟩
      · exact hsome
      · obtain ⟨after, hafter, _⟩ := mutation_empty hallow hmut
        rw [hnext] at hafter
        cases hafter
    refine holds_bind (reconcileInventory_holds.weaken ?_ ?_)
    · intro w
      exact .repaired hmemb
    · intro _ w hw
      exact holds_ok (.unchanged hmemb hmut hnext hw)
  | some after =>
    dsimp only
    split_ifs with hsame
    · have hafter := sameState_eq hsame
      subst hafter
      have hmemb : d.membership = some after := by
        rcases hfile with hsome | ⟨_, hallow, rfl⟩
        · exact hsome
        · obtain ⟨next, hsome, hne⟩ := mutation_empty hallow hmut
          rw [hnext] at hsome
          exact absurd (Option.some.inj hsome).symm hne
      exact holds_ok (.same hmemb hmut hnext hsame)
    · refine holds_guard ?_
      intro settled hsettle
      refine holds_bind (writeMembershipState_holds ?_)
      intro hlen
      have hpersists : Persists S clock request d.membership (sorted settled) change.receipt :=
        .intro hprecheck hread hvalid hmut hnext (Bool.eq_false_iff.mpr hsame) hsettle hlen
      refine ⟨.persisted hpersists, ?_⟩
      refine holds_bind (holds_mapError (reconcileInventory_holds.weaken ?_ ?_))
      · intro w
        exact .published hpersists
      · intro _ w hw
        exact holds_ok (.persisted hpersists hw)

theorem previewAllocations_holds : Holds (previewAllocations S faults project env allocations now) d
      (fun w => ∃ m, d.membership = some m ∧ Reconciled S m d w)
      fun candidate w => ∃ m, d.membership = some m ∧ Reconciled S m d w ∧
        checkScope project env = .ok () ∧
        previewOf S project env allocations m now = .ok candidate := by
  refine holds_guard ?_
  intro _ hscope
  refine holds_seq read_holds ?_
  intro m w hw
  refine holds_check ?_
  intro candidate hcand
  exact ⟨m, hw.1, hw.2, hscope, hcand⟩

/-- A commit replaces the state it was prepared from, as far as the two generations tell. -/
structure Commits (S : Store) (candidate : MembershipState)
    (baseGeneration baseAllocationGeneration : ℕ) (now : Time) (file : Option MembershipState)
    (current : MembershipState) : Prop where
  file_eq : file = some current
  generation_eq : current.generation = baseGeneration
  allocationGeneration_eq : current.allocationGeneration = baseAllocationGeneration
  valid : candidate.validate S.oracles now = .ok ()
  len : S.membershipLen (sorted candidate) ≤ membershipMaxBytes

inductive Committed (S : Store) (candidate : MembershipState) (d : Files) : Files → Prop where
  | persisted : Committed S candidate d { d with membership := some (sorted candidate) }
  | published :
      Reconciled S (sorted candidate) { d with membership := some (sorted candidate) } w →
      Committed S candidate d w

theorem Committed.membership_eq (h : Committed S candidate d w) :
    w.membership = some (sorted candidate) := by
  cases h with
  | persisted => rfl
  | published hw => exact hw.membership_eq

theorem commitPreparedAllocations_holds :
    Holds (commitPreparedAllocations S faults candidate baseGeneration baseAllocationGeneration now)
      d
      (fun w => (∃ current, Commits S candidate baseGeneration baseAllocationGeneration now
        d.membership current) ∧
        Committed S candidate d w)
      fun m w => m = sorted candidate ∧
        (∃ current, Commits S candidate baseGeneration baseAllocationGeneration now d.membership
          current) ∧
        Reconciled S (sorted candidate) { d with membership := some (sorted candidate) } w := by
  refine holds_guard ?_
  intro _ _
  refine holds_guard ?_
  intro current hread
  have hfile := (readMembershipState_ok hread).2.1
  refine holds_guard ?_
  intro _ hbase
  rw [require_eq_ok] at hbase
  refine holds_guard ?_
  intro _ hvalid
  refine holds_bind (writeMembershipState_holds ?_)
  intro hlen
  have hcommits : Commits S candidate baseGeneration baseAllocationGeneration now d.membership
      current :=
    ⟨hfile, hbase.1, hbase.2, hvalid, hlen⟩
  refine ⟨⟨⟨current, hcommits⟩, .persisted⟩, ?_⟩
  refine holds_bind (holds_mapError (reconcileInventory_holds.weaken ?_ ?_))
  · intro w hw
    exact ⟨⟨current, hcommits⟩, .published hw⟩
  · intro _ w hw
    exact holds_ok ⟨rfl, ⟨current, hcommits⟩, hw⟩

theorem reconcileInventory_fails :
    Fails (reconcileInventory S faults m) d fun _ w => w.membership = d.membership := by
  have hkept : Holds (reconcileInventory S faults m) d (fun w => w.membership = d.membership) fun _
      _ => True :=
    reconcileInventory_holds.weaken (fun _ hw => hw.membership_eq) (fun _ _ _ => trivial)
  exact hkept.fails rfl

theorem writeMembershipState_fails : Fails (writeMembershipState S faults m) d fun _ w =>
    w = d := by
  refine fails_bind_check (fun _ _ => rfl) ?_
  intro _ _
  exact fails_write fun _ _ => rfl

/-- A failed request leaves the membership, or says that only the publication failed. -/
theorem perform_fails : Fails (perform S faults clock request) d fun cause w =>
    w.membership = d.membership ∨
      ∃ (n : MembershipState) (reason : String), w.membership = some n ∧ cause =
        s!"membership committed at generation {n.generation} but inventory publication " ++
          s!"failed: {reason}" := by
  refine fails_bind_check (fun _ _ => .inl rfl) ?_
  intro _ _
  refine fails_bind_check (fun _ _ => .inl rfl) ?_
  intro _ _
  refine fails_bind_check (fun _ _ => .inl rfl) ?_
  intro before _
  refine fails_bind_check (fun _ _ => .inl rfl) ?_
  intro _ _
  refine fails_bind_check (fun _ _ => .inl rfl) ?_
  intro change _
  cases change.next with
  | none =>
    refine fails_map ?_
    intro cause hc
    exact .inl (reconcileInventory_fails cause hc)
  | some =>
    dsimp only
    split_ifs with hsame
    · exact fails_ok
    · refine fails_bind_check (fun _ _ => .inl rfl) ?_
      intro settled _
      refine fails_bind (I := fun _ => True) ?_ (writeMembershipState_holds fun _ => ⟨trivial, ?_⟩)
      · intro cause hc
        exact .inl (congrArg Files.membership (writeMembershipState_fails cause hc))
      · refine fails_map (fails_mapError ?_)
        intro cause hc
        exact .inr ⟨sorted settled, cause, reconcileInventory_fails cause hc, rfl⟩

theorem commitPreparedAllocations_fails :
    Fails (commitPreparedAllocations S faults candidate baseGeneration baseAllocationGeneration now)
      d
      fun cause w => w.membership = d.membership ∨ ∃ reason,
        w.membership = some (sorted candidate) ∧
        cause = "prepared allocations committed but inventory publication failed: " ++ reason := by
  refine fails_bind_check (fun _ _ => .inl rfl) ?_
  intro _ _
  refine fails_bind_check (fun _ _ => .inl rfl) ?_
  intro current _
  refine fails_bind_check (fun _ _ => .inl rfl) ?_
  intro _ _
  refine fails_bind_check (fun _ _ => .inl rfl) ?_
  intro _ _
  refine fails_bind (I := fun _ => True) ?_ (writeMembershipState_holds fun _ => ⟨trivial, ?_⟩)
  · intro cause hc
    exact .inl (congrArg Files.membership (writeMembershipState_fails cause hc))
  · refine fails_map (fails_mapError ?_)
    intro cause hc
    exact .inr ⟨cause, reconcileInventory_fails cause hc, rfl⟩

end MembershipStore
