import Tako.MembershipStore

/-! # What a mutation can change

`Effect` says once, for every mutation of an existing membership, what the state after it
looks like and under which guard. Everything that holds along runs of the store is read off
from it.
-/
namespace MembershipEffects

open List GoPrelude NodeIdentity SliceOrder PlatformMembership MembershipStore Except

/-- The moves of a node between two lifecycles. Removal is no move: the node leaves. -/
inductive LifecycleMove : Lifecycle → Lifecycle → Prop where
  | ready : LifecycleMove .joining .ready
  | admitted : LifecycleMove .ready .schedulable
  | readmitted : LifecycleMove .cordoned .schedulable
  | withheld : LifecycleMove .ready .cordoned
  | cordoned : LifecycleMove .schedulable .cordoned
  | drained : LifecycleMove .cordoned .draining

/-- A rewrite of a node that leaves its identity, its mesh key, its roles and its lifecycle. -/
structure Redescribes (f : MembershipNode → MembershipNode) : Prop where
  nodeID : ∀ n, (f n).nodeID = n.nodeID
  meshPublicKey : ∀ n, (f n).meshPublicKey = n.meshPublicKey
  roles : ∀ n, (f n).roles = n.roles
  lifecycle : ∀ n, (f n).lifecycle = n.lifecycle
  schedulable : ∀ n, (f n).schedulable = n.schedulable

def moveNode (target : Lifecycle) (schedulable : Bool) (now : Time) (n : MembershipNode) :
    MembershipNode :=
  { n with lifecycle := target, schedulable := schedulable, updatedAt := now }

def movedState (m : MembershipState) (nodeID : String) (node : MembershipNode)
    (target : Lifecycle) (schedulable : Bool) (now : Time) : MembershipState :=
  if schedulable then m.updateNode nodeID (moveNode target schedulable now)
  else (m.updateNode nodeID (moveNode target schedulable now)).revokeNodeAllocations node.nodeID

def advanceRemoval (now : Time) (o : NodeRemovalOperation) : NodeRemovalOperation :=
  { o with phase := .removeMember, updatedAt := now }

def cleanupRemoval (generation : ℕ) (now : Time) (o : NodeRemovalOperation) :
    NodeRemovalOperation :=
  { o with phase := .cleanupTarget, generation := generation, updatedAt := now }

def enrolledState (m : MembershipState) (request : EnrollWorkerRequest)
    (record : JoinTokenRecord) (credentialID : String) (now : Time) : MembershipState :=
  { m with
    nodes := modifyFirst (fun n => names n.nodeID m.controllerNodeID)
      (request.describeController now) m.nodes ++ [request.worker credentialID now]
    joinTokens := modifyFirst (fun r => r.id == record.id) (fun r => r.consumed now) m.joinTokens }

def buriedState (O : Oracles) (m : MembershipState) (nodeID : String) (node : MembershipNode)
    (now : Time) : MembershipState :=
  { m with
    nodes := m.nodes.eraseP fun n => names n.nodeID nodeID
    tombstones := m.tombstones ++ [NodeTombstone.ofNode O node (uint64Succ m.generation) now]
    activeAllocations := m.activeAllocations.filter fun a => decide (a.nodeID ≠ node.nodeID)
    removalOperations := modifyFirst (fun o => names o.node.nodeID nodeID)
      (cleanupRemoval (uint64Succ m.generation) now) m.removalOperations }

/-- What a request that neither issues nor presents a join token does. `A` is what
was asked for. -/
inductive NodeEffect (O : Oracles) (A : Request → Prop) (m : MembershipState) :
    MembershipState → Prop where
  | redescribed : Redescribes f → NodeEffect O A m (m.updateNode nodeID f)
  | moved : m.node nodeID = some node →
      LifecycleMove node.lifecycle target → (schedulable = true ↔ target = .schedulable) →
      (target = .schedulable → A (.markSchedulable nodeID)) →
        NodeEffect O A m (movedState m nodeID node target schedulable now)
  | removalPrepared : m.removalOperation nodeID = none →
      m.node nodeID = some node → node.lifecycle = .draining →
      NodeEffect O A m { m with
        removalOperations := m.removalOperations ++ [⟨node, .revokePeers, generation, now, now⟩] }
  | peersRevoked : m.removalOperation nodeID = some operation →
      operation.phase = .revokePeers →
        NodeEffect O A m (m.updateRemoval nodeID (advanceRemoval now))
  | removed : m.tombstone nodeID = none → m.node nodeID = some node →
      node.lifecycle = .draining → m.removalOperation nodeID = some operation →
      operation.phase = .removeMember → NodeEffect O A m (buriedState O m nodeID node now)
  | removalCompleted : m.removalOperation nodeID = some operation →
      operation.phase = .cleanupTarget →
      NodeEffect O A m { m with
        removalOperations := m.removalOperations.eraseP fun o => names o.node.nodeID nodeID }
  | authorized {next : MembershipState} :
      applyAllocationAuthorization O m project env allocations now = .ok next →
      NodeEffect O A m next

inductive Effect (O : Oracles) (A : Request → Prop) (m : MembershipState) :
    MembershipState → Prop where
  | tokens : Effect O A m { m with joinTokens := joinTokens }
  | enrolled : A (.enrollWorker asked) → request = asked.normalized →
      m.node request.nodeID = none → m.tombstoned request.nodeID = false →
      Effect O A m (enrolledState m request record credentialID now)
  | node {next : MembershipState} : NodeEffect O A m next → Effect O A m next

variable {A : Request → Prop} {m next : MembershipState} {change : Change}

theorem node_some (h : m.node nodeID = some node) : node ∈ m.nodes ∧ names node.nodeID nodeID := by
  have hnames := find?_some h
  exact ⟨mem_of_find?_eq_some h, hnames⟩

theorem activeNode_ok (h : m.activeNode nodeID = .ok node) : m.node nodeID = some node := by
  unfold MembershipState.activeNode at h
  cases hnode : m.node nodeID with
  | none => simp [hnode] at h
  | some =>
    simp only [hnode, ok.injEq] at h
    rw [h]

section Mutations

variable (hnext : change.next = some next)
include hnext

theorem createJoinToken_effect {id : Except String String}
    (h : createJoinToken O expectedNodeID ttl id secret m now = .ok change) :
    Effect O A m next := by
  simp only [createJoinToken, bind_eq_ok, ok.injEq] at h
  obtain ⟨_, _, _, _, _, _, rfl⟩ := h
  cases hnext
  exact .tokens

theorem reserveJoinToken_effect (h : reserveJoinToken O token nodeID secret m now = .ok change) :
    Effect O A m next := by
  simp only [reserveJoinToken, bind_eq_ok, ok.injEq] at h
  obtain ⟨_, _, _, _, rfl⟩ := h
  cases hnext
  exact .tokens

theorem enrollWorker_effect (hasked : A (.enrollWorker request))
    (h : enrollWorker O request m now = .ok change) : Effect O A m next := by
  simp only [enrollWorker, bind_eq_ok, require_eq_ok, ok.injEq] at h
  obtain ⟨_, _, _, ⟨hfresh, htomb⟩, _, _, _, _, record, _, credentialID, _, rfl⟩ := h
  cases hnext
  have heffect : Effect O A m (enrolledState m request.normalized record credentialID now) :=
    .enrolled hasked rfl (by simpa using hfresh) htomb
  exact heffect

theorem transition_effect (hmove : ∀ l ∈ source, LifecycleMove l target)
    (hflag : schedulable = true ↔ target = .schedulable)
    (hadmits : target = .schedulable → A (.markSchedulable nodeID))
    (h : transition nodeID source target schedulable m now = .ok change) :
    NodeEffect O A m next := by
  simp only [transition, bind_eq_ok] at h
  obtain ⟨node, hactive, h⟩ := h
  have hnode := activeNode_ok hactive
  split_ifs at h with hsame hsched
  · cases h
    cases hnext
  · simp only [bind_eq_ok, require_eq_ok, ok.injEq] at h
    obtain ⟨_, hallowed, rfl⟩ := h
    cases hnext
    have heffect : NodeEffect O A m (movedState m nodeID node target schedulable now) :=
      .moved hnode (hmove _ hallowed) hflag hadmits
    rw [movedState, if_pos hsched] at heffect
    exact heffect
  · simp only [bind_eq_ok, require_eq_ok, ok.injEq] at h
    obtain ⟨_, hallowed, rfl⟩ := h
    cases hnext
    have heffect : NodeEffect O A m (movedState m nodeID node target schedulable now) :=
      .moved hnode (hmove _ hallowed) hflag hadmits
    rw [movedState, if_neg hsched] at heffect
    exact heffect

theorem beginDrain_effect (h : beginDrain nodeID m now = .ok change) : NodeEffect O A m next := by
  simp only [beginDrain, bind_eq_ok] at h
  obtain ⟨node, hactive, h⟩ := h
  have hnode := activeNode_ok hactive
  split_ifs at h with hsame
  · cases h
    cases hnext
  · simp only [bind_eq_ok, require_eq_ok, ok.injEq] at h
    obtain ⟨_, hcordoned, _, _, rfl⟩ := h
    cases hnext
    have hmove : LifecycleMove node.lifecycle .draining := by
      rw [hcordoned]
      exact .drained
    have heffect : NodeEffect O A m (movedState m nodeID node .draining false now) :=
      .moved hnode hmove (by simp) (fun h => by cases h)
    exact heffect

theorem setNodeMeshEndpoint_effect (h : setNodeMeshEndpoint nodeID endpoint m now = .ok change) :
    NodeEffect O A m next := by
  simp only [setNodeMeshEndpoint, bind_eq_ok] at h
  obtain ⟨node, _, h⟩ := h
  split_ifs at h with hsame
  · cases h
    cases hnext
  · cases h
    cases hnext
    exact .redescribed ⟨fun _ => rfl, fun _ => rfl, fun _ => rfl, fun _ => rfl, fun _ => rfl⟩

theorem prepareRemoval_effect (h : prepareRemoval nodeID m now = .ok change) :
    NodeEffect O A m next := by
  unfold prepareRemoval at h
  cases hop : m.removalOperation nodeID with
  | some =>
    simp only [hop, ok.injEq] at h
    subst h
    cases hnext
  | none =>
    simp only [hop, bind_eq_ok, removable, require_eq_ok, ok.injEq] at h
    obtain ⟨node, hactive, _, ⟨_, hdrain, _⟩, rfl⟩ := h
    cases hnext
    exact .removalPrepared hop (activeNode_ok hactive) hdrain

theorem markRemovalPeersRevoked_effect (h : markRemovalPeersRevoked nodeID m now = .ok change) :
    NodeEffect O A m next := by
  unfold markRemovalPeersRevoked at h
  cases hop : m.removalOperation nodeID with
  | none => simp [hop] at h
  | some =>
    simp only [hop] at h
    split_ifs at h with hlater
    · cases h
      cases hnext
    · simp only [bind_eq_ok, require_eq_ok, ok.injEq] at h
      obtain ⟨_, hphase, rfl⟩ := h
      cases hnext
      exact .peersRevoked hop hphase

theorem remove_effect (h : remove O nodeID m now = .ok change) : NodeEffect O A m next := by
  unfold remove at h
  cases htomb : m.tombstone nodeID with
  | some =>
    simp only [htomb, ok.injEq] at h
    subst h
    cases hnext
  | none =>
    simp only [htomb, bind_eq_ok, removable, require_eq_ok, ok.injEq] at h
    obtain ⟨node, hactive, _, ⟨_, hdrain, _⟩, _, hop, rfl⟩ := h
    cases hnext
    obtain ⟨operation, hfound, hphase⟩ := exists_of_any hop
    exact .removed htomb (activeNode_ok hactive) hdrain hfound hphase

theorem completeRemoval_effect (h : completeRemoval nodeID m now = .ok change) :
    NodeEffect O A m next := by
  unfold completeRemoval at h
  cases hop : m.removalOperation nodeID with
  | none =>
    simp only [hop, bind_eq_ok, ok.injEq] at h
    obtain ⟨_, _, rfl⟩ := h
    cases hnext
  | some =>
    simp only [hop, bind_eq_ok, require_eq_ok, ok.injEq] at h
    obtain ⟨_, hphase, rfl⟩ := h
    cases hnext
    exact .removalCompleted hop hphase

end Mutations

def TokenFree : Request → Prop
  | .createJoinToken .. => False
  | .reserveJoinToken .. => False
  | .enrollWorker _ => False
  | _ => True

theorem mutation_nodeEffect (hcluster : m.clusterID ≠ "")
    (h : request.mutation O m now = .ok change) (hnext : change.next = some next)
    (hfree : TokenFree request) : NodeEffect O (· = request) m next := by
  cases request with
  | initializeFirstNode =>
    simp only [Request.mutation, initializeFirstNode, hcluster, ne_eq, not_false_iff, if_true,
      bind_eq_ok, ok.injEq] at h
    obtain ⟨_, _, _, _, rfl⟩ := h
    cases hnext
  | createJoinToken | reserveJoinToken | enrollWorker => exact hfree.elim
  | markReady =>
    refine transition_effect hnext ?_ (by simp) (fun h => by cases h) h
    simp only [mem_singleton, forall_eq]
    exact .ready
  | setNodeMeshEndpoint => exact setNodeMeshEndpoint_effect hnext h
  | prepareRemoval => exact prepareRemoval_effect hnext h
  | markRemovalPeersRevoked => exact markRemovalPeersRevoked_effect hnext h
  | markSchedulable =>
    refine transition_effect hnext ?_ (by simp) (fun _ => rfl) h
    simp only [mem_cons, not_mem_nil, or_false, forall_eq_or_imp, forall_eq]
    exact ⟨.admitted, .readmitted⟩
  | cordon =>
    refine transition_effect hnext ?_ (by simp) (fun h => by cases h) h
    simp only [mem_cons, not_mem_nil, or_false, forall_eq_or_imp, forall_eq]
    exact ⟨.withheld, .cordoned⟩
  | beginDrain => exact beginDrain_effect hnext h
  | remove => exact remove_effect hnext h
  | completeRemoval nodeID =>
    have hcomp : completeRemoval nodeID m now = .ok change := h
    exact completeRemoval_effect hnext hcomp
  | authorizeAllocations =>
    simp only [Request.mutation, authorizeAllocations, bind_eq_ok, ok.injEq] at h
    obtain ⟨authorized, happly, rfl⟩ := h
    cases hnext
    exact .authorized happly

theorem mutation_effect (hcluster : m.clusterID ≠ "") (h : request.mutation O m now = .ok change)
    (hnext : change.next = some next) : Effect O (· = request) m next := by
  cases request with
  | createJoinToken => exact createJoinToken_effect hnext h
  | reserveJoinToken => exact reserveJoinToken_effect hnext h
  | enrollWorker => exact enrollWorker_effect hnext rfl h
  | _ => exact .node (mutation_nodeEffect hcluster h hnext trivial)

structure SameAuthority (m n : MembershipState) : Prop where
  generation : n.generation = m.generation
  allocationGeneration : n.allocationGeneration = m.allocationGeneration
  clusterID : n.clusterID = m.clusterID
  controllerNodeID : n.controllerNodeID = m.controllerNodeID

theorem applyAllocationAuthorization_ok
    (h : applyAllocationAuthorization O m project env allocations now = .ok next) :
    ∃ highs, authorizeEach O m project env []
        (m.allocationHighWater.map (revokeOmitted m project env allocations)) allocations =
          .ok highs ∧
      next = { m with
        activeAllocations := m.activeAllocations.filter (fun a => !inScope project env a) ++
          allocations.map (fun a => { a with authorizedAt := now })
        allocationHighWater := sortBy highWaterOrder highs } := by
  simp only [applyAllocationAuthorization, bind_eq_ok, ok.injEq] at h
  obtain ⟨highs, hhighs, rfl⟩ := h
  exact ⟨highs, hhighs, rfl⟩

theorem NodeEffect.sameAuthority (h : NodeEffect O A m next) : SameAuthority m next := by
  cases h with
  | moved =>
    unfold movedState
    split_ifs <;> exact ⟨rfl, rfl, rfl, rfl⟩
  | authorized happly =>
    obtain ⟨highs, _, rfl⟩ := applyAllocationAuthorization_ok happly
    exact ⟨rfl, rfl, rfl, rfl⟩
  | _ => exact ⟨rfl, rfl, rfl, rfl⟩

theorem Effect.sameAuthority (h : Effect O A m next) : SameAuthority m next := by
  cases h with
  | tokens | enrolled => exact ⟨rfl, rfl, rfl, rfl⟩
  | node hnode => exact hnode.sameAuthority

theorem NodeEffect.joinTokens (h : NodeEffect O A m next) : next.joinTokens = m.joinTokens := by
  cases h with
  | moved =>
    unfold movedState
    split_ifs <;> rfl
  | authorized happly =>
    obtain ⟨highs, _, rfl⟩ := applyAllocationAuthorization_ok happly
    rfl
  | _ => rfl

structure Advances (m n : MembershipState) : Prop where
  generation_le : m.generation ≤ n.generation
  allocationGeneration_le : m.allocationGeneration ≤ n.allocationGeneration
  lt : m.generation < n.generation ∨ m.allocationGeneration < n.allocationGeneration

theorem Advances.trans (h : Advances m n) (g : Advances n k) : Advances m k := by
  obtain ⟨h₁, h₂, h₃⟩ := h
  obtain ⟨g₁, g₂, _⟩ := g
  exact ⟨by omega, by omega, by omega⟩

structure Persistable (m : MembershipState) : Prop where
  clusterID : m.clusterID ≠ ""
  generation_pos : m.generation ≠ 0
  generation_lt : m.generation < 2 ^ 64
  allocationGeneration_lt : m.allocationGeneration < 2 ^ 64

theorem isUUID_ne_empty (h : isUUID value) : value ≠ "" := by
  rintro rfl
  revert h
  decide +kernel

theorem validate_clusterID (h : m.validate O checkedAt = .ok ()) :
    m.clusterID ≠ "" ∧ m.generation ≠ 0 := by
  simp only [MembershipState.validate, bind_eq_ok, require_eq_ok] at h
  obtain ⟨_, _, _, hid, _, hgen, _⟩ := h
  exact ⟨isUUID_ne_empty (by simpa [validateClusterID] using hid), hgen.1⟩

theorem validate_inventory (h : m.validate O checkedAt = .ok ()) : m.inventory.Valid O := by
  simp only [MembershipState.validate, bind_eq_ok, require_eq_ok] at h
  obtain ⟨_, _, _, _, _, _, _, hinv, _⟩ := h
  exact ClusterInventory.validate_valid O hinv

structure Settles (S : Store) (clock : CallClock) (before after : MembershipState) (fresh : Bool)
    (settled : MembershipState) : Prop where
  valid : settled.validate S.oracles clock.checkedAt = .ok ()
  eq : settled = { after with
    generation := settled.generation
    allocationGeneration := settled.allocationGeneration
    updatedAt := settled.updatedAt
    joinTokens := (pruneTokens after clock.prunedAt).joinTokens }
  generation : settled.generation =
    if before.clusterID = "" ∨ withoutAllocations before = withoutAllocations after then
      after.generation
    else uint64Succ after.generation
  allocationGeneration : settled.allocationGeneration =
    if before.clusterID = "" ∨ allocationsChanged before after fresh = false then
      after.allocationGeneration
    else uint64Succ after.allocationGeneration
  exhausted : before.clusterID ≠ "" → allocationsChanged before after fresh →
    uint64Succ after.allocationGeneration ≠ 0

theorem settle_settles {after settled : MembershipState}
    (h : settle S clock before after fresh = .ok settled) :
    Settles S clock before after fresh settled := by
  simp only [settle, bind_eq_ok, ok.injEq] at h
  obtain ⟨_, _, advanced, hadv, _, hvalid, rfl⟩ := h
  unfold advance at hadv
  by_cases hcluster : before.clusterID = ""
  · simp only [hcluster, if_true, ok.injEq] at hadv
    subst hadv
    exact ⟨hvalid, rfl, by simp [hcluster, pruneTokens], by simp [hcluster, pruneTokens],
      fun hne => absurd hcluster hne⟩
  · simp only [hcluster, if_false, bind_eq_ok, ok.injEq] at hadv
    obtain ⟨raised, hraised, rfl⟩ := hadv
    unfold advanceAllocationGeneration at hraised
    have hgen : (advanceGeneration before after).generation =
        if before.clusterID = "" ∨ withoutAllocations before = withoutAllocations after then
          after.generation
        else uint64Succ after.generation := by
      by_cases hsame : withoutAllocations before = withoutAllocations after
      · simp [advanceGeneration, hsame]
      · simp [advanceGeneration, hsame, hcluster]
    by_cases hchanged : allocationsChanged before after fresh
    · simp only [hchanged, if_true, bind_eq_ok, require_eq_ok, ok.injEq] at hraised
      obtain ⟨_, hpos, rfl⟩ := hraised
      exact ⟨hvalid, rfl, hgen, by simp [hcluster, hchanged, pruneTokens], fun _ _ => hpos⟩
    · simp only [hchanged, Bool.false_eq_true, if_false, ok.injEq] at hraised
      subst hraised
      exact ⟨hvalid, rfl, hgen, by simp [hchanged, pruneTokens], fun _ hc => absurd hc hchanged⟩

/-- A difference that no comparison of `mutate` sees would have to be in a field that no
mutation touches. -/
theorem changed_of_not_same {after : MembershipState} (hauth : SameAuthority before after)
    (h : sameState before after fresh = false) :
    withoutAllocations before ≠ withoutAllocations after ∨
      allocationsChanged before after fresh := by
  by_contra hnone
  push Not at hnone
  obtain ⟨hsame, hunchanged⟩ := hnone
  simp only [allocationsChanged, ne_eq, decide_eq_true_eq, not_or, not_not, not_and] at hunchanged
  obtain ⟨hactive, hfresh, hhigh⟩ := hunchanged
  have heq : before = after := by
    cases before
    cases after
    obtain ⟨h₁, h₂, h₃, h₄, _, h₆, h₇, h₈, h₉, h₁₀, _, _, h₁₃, h₁₄⟩ := hsame
    have hgen := hauth.allocationGeneration
    simp_all
  simp only [sameState, Bool.and_eq_false_iff, decide_eq_false_iff_not, Bool.not_eq_false',
    Bool.and_eq_true, decide_eq_true_eq] at h
  rcases h with hne | ⟨hf, hempty⟩
  · exact hne heq
  · exact hfresh hf hempty

theorem Settles.advances {after settled : MembershipState}
    (h : Settles S clock before after fresh settled) (hbefore : Persistable before)
    (hauth : SameAuthority before after) (hchanged : sameState before after fresh = false) :
    Advances before settled ∧ Persistable settled := by
  obtain ⟨hcluster, hpos⟩ := validate_clusterID h.valid
  have hgen := h.generation
  have halloc := h.allocationGeneration
  rw [hauth.generation] at hgen
  rw [hauth.allocationGeneration] at halloc
  have hexhausted := h.exhausted hbefore.clusterID
  rw [hauth.allocationGeneration] at hexhausted
  -- a raised counter is its successor: zero is refused for both of them
  have hraisedG : withoutAllocations before ≠ withoutAllocations after →
      settled.generation = before.generation + 1 := by
    intro hne
    rw [if_neg (by simp [hbefore.clusterID, hne])] at hgen
    rw [hgen] at hpos
    rw [hgen, uint64Succ_eq hpos hbefore.generation_lt]
  have hkeptG : withoutAllocations before = withoutAllocations after →
      settled.generation = before.generation := by
    intro he
    rw [hgen, if_pos (.inr he)]
  have hraisedA : allocationsChanged before after fresh →
      settled.allocationGeneration = before.allocationGeneration + 1 := by
    intro hc
    rw [if_neg (by simp [hbefore.clusterID, hc])] at halloc
    rw [halloc, uint64Succ_eq (hexhausted hc) hbefore.allocationGeneration_lt]
  have hkeptA : allocationsChanged before after fresh = false →
      settled.allocationGeneration = before.allocationGeneration := by
    intro hc
    rw [halloc, if_pos (.inr hc)]
  have hltG : settled.generation < 2 ^ 64 := by
    rw [hgen]
    split_ifs
    · exact hbefore.generation_lt
    · exact uint64Succ_lt _
  have hltA : settled.allocationGeneration < 2 ^ 64 := by
    rw [halloc]
    split_ifs
    · exact hbefore.allocationGeneration_lt
    · exact uint64Succ_lt _
  refine ⟨?_, hcluster, hpos, hltG, hltA⟩
  have hsomething := changed_of_not_same hauth hchanged
  by_cases hg : withoutAllocations before = withoutAllocations after
  · have hG := hkeptG hg
    have hA := hraisedA (hsomething.resolve_left (fun hne => hne hg))
    exact ⟨by omega, by omega, by omega⟩
  · have hG := hraisedG hg
    by_cases hc : allocationsChanged before after fresh
    · have hA := hraisedA hc
      exact ⟨by omega, by omega, by omega⟩
    · have hA := hkeptA (Bool.eq_false_iff.mpr hc)
      exact ⟨by omega, by omega, by omega⟩

theorem Persistable.sorted (h : Persistable m) : Persistable (MembershipStore.sorted m) :=
  ⟨h.clusterID, h.generation_pos, h.generation_lt, h.allocationGeneration_lt⟩

theorem Advances.sorted (h : Advances m n) : Advances m (MembershipStore.sorted n) :=
  ⟨h.generation_le, h.allocationGeneration_le, h.lt⟩

/-- What a request persists over an existing membership comes from an effect on it. -/
theorem persists_effect (h : Persists S clock request (some before) m receipt)
    (hbefore : before.clusterID ≠ "") :
    ∃ after fresh settled, Effect S.oracles (· = request) before after ∧
      sameState before after fresh = false ∧
      Settles S clock before after fresh settled ∧ m = MembershipStore.sorted settled := by
  cases h with
  | intro hprecheck hread hvalid hmut hnext hsame hsettle =>
    obtain ⟨_, hfile | ⟨hnone, _, _⟩⟩ := readForMutation_ok hread
    · cases hfile
      exact ⟨_, _, _, mutation_effect hbefore hmut hnext, hsame, settle_settles hsettle, rfl⟩
    · cases hnone

theorem persists_advances (h : Persists S clock request (some before) m receipt)
    (hbefore : Persistable before) : Advances before m ∧ Persistable m := by
  obtain ⟨after, fresh, settled, heffect, hsame, hsettles, rfl⟩ :=
    persists_effect h hbefore.clusterID
  obtain ⟨hadvances, hpers⟩ := hsettles.advances hbefore heffect.sameAuthority hsame
  exact ⟨hadvances.sorted, hpers.sorted⟩

theorem persists_first (h : Persists S clock request none m receipt) :
    ∃ installation meshCIDR meshPublicKey meshEndpoint meshIP credentialID settled,
      Installation.validate S.oracles installation = .ok () ∧
      roleControlPlane ∈ installation.enrollmentRoles ∧
      Settles S clock emptyMembership
        (firstMembership installation meshCIDR meshPublicKey meshEndpoint
        meshIP credentialID clock.mutatedAt) false settled ∧
          m = MembershipStore.sorted settled := by
  cases h with
  | intro hprecheck hread hvalid hmut hnext hsame hsettle =>
    obtain ⟨_, hfile | ⟨_, hallow, rfl⟩⟩ := readForMutation_ok hread
    · cases hfile
    · cases request with
      | initializeFirstNode installation meshCIDR meshPublicKey meshEndpoint =>
        simp only [Request.precheck, bind_eq_ok, require_eq_ok] at hprecheck
        obtain ⟨_, hinst, hrole⟩ := hprecheck
        simp only [Request.mutation, initializeFirstNode, emptyMembership, ne_eq, not_true,
          if_false, bind_eq_ok, ok.injEq] at hmut
        obtain ⟨meshIP, _, credentialID, _, rfl⟩ := hmut
        cases hnext
        exact ⟨installation, meshCIDR, meshPublicKey, meshEndpoint, meshIP, credentialID, _,
          hinst, hrole, settle_settles hsettle, rfl⟩
      | _ => cases hallow

theorem persists_first_persistable (h : Persists S clock request none m receipt) :
    Persistable m := by
  obtain ⟨installation, meshCIDR, meshPublicKey, meshEndpoint, meshIP, credentialID, settled, _, _,
    hsettles, rfl⟩ := persists_first h
  obtain ⟨hcluster, hpos⟩ := validate_clusterID hsettles.valid
  have hgen : settled.generation = 1 := by
    rw [hsettles.generation]
    rfl
  have halloc : settled.allocationGeneration = 0 := by
    rw [hsettles.allocationGeneration]
    rfl
  refine Persistable.sorted ⟨hcluster, hpos, ?_, ?_⟩
  · rw [hgen]
    decide
  · rw [halloc]
    decide

/-- A preview is the current state itself or takes its next allocation generation. -/
theorem previewOf_ok (hm : Persistable m)
    (h : previewOf S project env allocations m now = .ok candidate) :
    ∃ next, applyAllocationAuthorization S.oracles m (trimSpace project) (trimSpace env)
        allocations now = .ok next ∧ candidate.validate S.oracles now = .ok () ∧
      ((candidate = m ∧ next = m) ∨ (candidate = { next with
          allocationGeneration := m.allocationGeneration + 1
          updatedAt := now } ∧ m.allocationGeneration + 1 < 2 ^ 64)) := by
  simp only [previewOf, bind_eq_ok, ok.injEq] at h
  obtain ⟨next, happly, advanced, hadv, _, hvalid, rfl⟩ := h
  refine ⟨next, happly, hvalid, ?_⟩
  obtain ⟨highs, _, hnext⟩ := applyAllocationAuthorization_ok happly
  have halloc : next.allocationGeneration = m.allocationGeneration := by rw [hnext]
  unfold advanceAllocationGeneration at hadv
  by_cases hchanged : allocationsChanged m next true
  · simp only [hchanged, if_true, bind_eq_ok, require_eq_ok, ok.injEq, halloc] at hadv
    obtain ⟨_, hpos, rfl⟩ := hadv
    have hsucc := uint64Succ_eq hpos hm.allocationGeneration_lt
    rw [if_pos hchanged, hsucc]
    refine .inr ⟨rfl, ?_⟩
    rw [← hsucc]
    exact uint64Succ_lt _
  · simp only [hchanged, Bool.false_eq_true, if_false, ok.injEq] at hadv
    subst hadv
    have hsame : next = m := by
      simp only [allocationsChanged, ne_eq, decide_eq_true_eq, not_or, not_not] at hchanged
      rw [hnext] at hchanged ⊢
      obtain ⟨hactive, _, hhigh⟩ := hchanged
      dsimp only at hactive hhigh
      rw [← hactive, ← hhigh]
    rw [if_neg hchanged, hsame]
    exact .inl ⟨rfl, rfl⟩

/-- `n` is a file that may replace the file `m`: the sorted form of a validated state which
an effect on `m` leaves, up to the generations, the timestamp and pruned tokens. -/
inductive Rewrites (O : Oracles) (A : Request → Prop) (m : MembershipState) :
    MembershipState → Prop where
  | intro {after settled checkedAt} : Effect O A m after →
      settled = { after with
        generation := settled.generation
        allocationGeneration := settled.allocationGeneration
        updatedAt := settled.updatedAt
        joinTokens := settled.joinTokens } →
      settled.joinTokens.Sublist after.joinTokens →
      settled.validate O checkedAt = .ok () → Rewrites O A m (MembershipStore.sorted settled)

theorem Settles.rewrites {after settled : MembershipState}
    (h : Settles S clock before after fresh settled) (heffect : Effect S.oracles A before after) :
    Rewrites S.oracles A before (MembershipStore.sorted settled) := by
  have hkept : settled.joinTokens = (pruneTokens after clock.prunedAt).joinTokens := by rw [h.eq]
  refine .intro heffect ?_ ?_ h.valid
  · rw [hkept]
    exact h.eq
  · rw [hkept]
    exact filter_sublist

theorem persists_rewrites (h : Persists S clock request (some before) m receipt)
    (hbefore : before.clusterID ≠ "") : Rewrites S.oracles (· = request) before m := by
  obtain ⟨after, fresh, settled, heffect, _, hsettles, rfl⟩ := persists_effect h hbefore
  exact hsettles.rewrites heffect

/-- A prepared state that differs from its base in the authorized allocations. -/
theorem preview_rewrites (hm : Persistable m)
    (h : previewOf S project env allocations m now = .ok candidate)
    (hvalid : candidate.validate S.oracles checkedAt = .ok ()) :
    Rewrites S.oracles A m (MembershipStore.sorted candidate) := by
  obtain ⟨next, happly, _, ⟨rfl, rfl⟩ | ⟨rfl, _⟩⟩ := previewOf_ok hm h
  · exact .intro (.node (.authorized happly)) rfl (List.Sublist.refl _) hvalid
  · exact .intro (.node (.authorized happly)) rfl (List.Sublist.refl _) hvalid

end MembershipEffects
