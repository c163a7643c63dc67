import Tako.ControlPlane

/-! # The lifecycle of nodes and of their removal

What every persisted membership satisfies, and what one event can do to nodes, tombstones and
removal operations. No two nodes, and no node and tombstone, have equal folded identifiers, which
validation alone does not check.
-/
namespace MembershipLifecycle

open List GoPrelude NodeIdentity SliceOrder DurablePrograms PlatformMembership MembershipStore
open MembershipEffects AllocationAuthority ControlPlane

variable {C : Controller} {A : Request → Prop} {m n after : MembershipState}

def identities (m : MembershipState) : List String :=
  m.nodes.map (fun node => toLower node.nodeID) ++ m.tombstones.map fun t => toLower t.nodeID

theorem names_iff : names stored nodeID ↔ toLower stored = toLower (trimSpace nodeID) :=
  equalFold_iff_toLower

theorem node_unique (h : (identities m).Nodup) (ha : a ∈ m.nodes) (hb : b ∈ m.nodes)
    (hna : names a.nodeID nodeID) (hnb : names b.nodeID nodeID) : a = b := by
  have hnodes := h.of_append_left
  apply inj_on_of_nodup_map hnodes ha hb
  rw [names_iff.mp hna, names_iff.mp hnb]

theorem tombstoned_inactive (h : (identities m).Nodup) (ht : m.tombstoned nodeID) :
    m.node nodeID = none := by
  obtain ⟨t, hmem, hnames⟩ := any_eq_true.mp ht
  refine find?_eq_none.mpr ?_
  intro node hnode hactive
  have hdisjoint := disjoint_of_nodup_append h
  have hsame : toLower node.nodeID = toLower t.nodeID := by
    rw [names_iff.mp hactive, names_iff.mp hnames]
  apply hdisjoint (mem_map_of_mem hnode)
  rw [hsame]
  exact mem_map_of_mem hmem

section

variable (m : MembershipState)

def credentials : List (String × String) :=
  m.nodes.map (fun node => (node.nodeID, node.meshPublicKey)) ++
    m.tombstones.map fun t => (t.nodeID, t.revokedMeshPublicKey)

theorem identities_eq : identities m = (credentials m).map fun c => toLower c.1 := by
  simp [identities, credentials, Function.comp_def]

theorem sorted_credentials : (credentials (sorted m)).Perm (credentials m) :=
  ((sortBy_perm _ m.nodes).map _).append ((sortBy_perm _ m.tombstones).map _)

theorem sorted_identities : (identities (sorted m)).Perm (identities m) := by
  rw [identities_eq, identities_eq]
  exact (sorted_credentials m).map _

end

theorem sorted_node (h : (identities m).Nodup) : (sorted m).node nodeID = m.node nodeID := by
  apply find?_eq_of_perm (sortBy_perm _ m.nodes)
  intro a ha b hb
  exact node_unique h (mem_sortBy.mp ha) (mem_sortBy.mp hb)

theorem fresh_identity (hnormal : trimSpace nodeID = nodeID) (hnode : m.node nodeID = none)
    (htomb : m.tombstoned nodeID = false) : toLower nodeID ∉ identities m := by
  intro hmem
  rcases mem_append.mp hmem with hactive | hburied
  · obtain ⟨node, hn, hsame⟩ := mem_map.mp hactive
    apply find?_eq_none.mp hnode node hn
    rw [names_iff, hnormal]
    exact hsame
  · obtain ⟨t, ht, hsame⟩ := mem_map.mp hburied
    have hfound : m.tombstoned nodeID := by
      refine any_eq_true.mpr ⟨t, ht, ?_⟩
      rw [names_iff, hnormal]
      exact hsame
    rw [htomb] at hfound
    cases hfound

theorem updateNode_identities (hf : ∀ node, (f node).nodeID = node.nodeID) :
    identities (m.updateNode nodeID f) = identities m := by
  unfold identities MembershipState.updateNode
  rw [map_modifyFirst]
  intro node _
  rw [hf]

theorem updateNode_credentials
    (hf : ∀ node, (f node).nodeID = node.nodeID ∧ (f node).meshPublicKey = node.meshPublicKey) :
    credentials (m.updateNode nodeID f) = credentials m := by
  unfold credentials MembershipState.updateNode
  rw [map_modifyFirst]
  intro node _
  rw [(hf node).1, (hf node).2]

/-- A removal turns the credentials of a node into those of a tombstone; nothing else that leaves
the tokens changes them. -/
theorem nodeEffect_credentials (h : NodeEffect O A m after) :
    (credentials after).Perm (credentials m) := by
  cases h with
  | redescribed hf =>
    rw [updateNode_credentials fun node => ⟨hf.nodeID node, hf.meshPublicKey node⟩]
  | @moved nodeID node target schedulable now _ _ _ _ =>
    have hsame : credentials (m.updateNode nodeID (moveNode target schedulable now)) =
        credentials m :=
      updateNode_credentials fun _ => ⟨rfl, rfl⟩
    rw [← hsame]
    unfold movedState
    split_ifs <;> rfl
  | removalPrepared | peersRevoked | removalCompleted => exact .refl _
  | @removed nodeID node _ now _ hnode _ _ _ =>
    have hleft := (perm_cons_eraseP hnode).map fun node => (node.nodeID, node.meshPublicKey)
    unfold credentials buriedState
    rw [map_append, ← append_assoc]
    exact (perm_append_singleton _ _).trans (hleft.symm.append_right _)
  | authorized happly =>
    obtain ⟨_, _, rfl⟩ := applyAllocationAuthorization_ok happly
    exact .refl _

/-- An enrolment adds the credentials of a node whose identity was not there. -/
theorem effect_credentials (h : Effect O A m after) : (credentials after).Perm (credentials m) ∨
      ∃ asked request, A (.enrollWorker asked) ∧ request = asked.normalized ∧
        toLower request.nodeID ∉ identities m ∧
        (credentials after).Perm ((request.nodeID, request.meshPublicKey) :: credentials m) := by
  cases h with
  | tokens => exact .inl (.refl _)
  | @enrolled asked request _ _ now hasked hreq hnode htomb =>
    have hnormal : trimSpace request.nodeID = request.nodeID := by
      rw [hreq]
      exact trimSpace_normal asked.nodeID
    refine .inr ⟨asked, request, hasked, hreq, fresh_identity hnormal hnode htomb, ?_⟩
    have hdescribed :
        credentials (m.updateNode m.controllerNodeID (request.describeController now)) =
        credentials m := updateNode_credentials fun _ => ⟨rfl, rfl⟩
    rw [← hdescribed]
    unfold credentials enrolledState
    rw [map_append, append_assoc]
    exact perm_middle
  | node hnode => exact .inl (nodeEffect_credentials hnode)

theorem effect_identities_nodup (h : Effect O A m after) (hm : (identities m).Nodup) :
    (identities after).Nodup := by
  rw [identities_eq]
  rcases effect_credentials h with hperm | ⟨_, _, -, -, hfresh, hperm⟩
  · rw [(hperm.map _).nodup_iff, ← identities_eq]
    exact hm
  · rw [(hperm.map _).nodup_iff, map_cons, ← identities_eq]
    exact nodup_cons.mpr ⟨hfresh, hm⟩

/-- Every identifier names itself, which one with outer space does not. -/
def SelfNamed (m : MembershipState) : Prop := ∀ c ∈ credentials m, names c.1 c.1

theorem SelfNamed.of_mem (h : SelfNamed m) (hnode : node ∈ m.nodes) :
    names node.nodeID node.nodeID :=
  h _ (mem_append_left _ (mem_map_of_mem hnode))

theorem effect_selfNamed (h : Effect O A m after) (hm : SelfNamed m) : SelfNamed after := by
  intro c hc
  rcases effect_credentials h with hperm | ⟨asked, request, -, rfl, -, hperm⟩
  · exact hm c (hperm.mem_iff.mp hc)
  · rcases mem_cons.mp (hperm.mem_iff.mp hc) with rfl | hold
    · rw [names_iff]
      exact congrArg toLower (trimSpace_normal asked.nodeID).symm
    · exact hm c hold

structure WellFormed (m : MembershipState) : Prop where
  controllerNodeID : m.controllerNodeID ≠ ""
  nodeIDs : ∀ node ∈ m.nodes, isUUID node.nodeID
  selfNamed : SelfNamed m
  identities : (identities m).Nodup
  controller : ∃ c, m.node m.controllerNodeID = some c ∧ roleControlPlane ∈ c.roles
  schedulable : ∀ node ∈ m.nodes, node.schedulable ↔ node.lifecycle = .schedulable
  allocations : ∀ a ∈ m.activeAllocations, ∃ node, m.node a.nodeID = some node ∧
    node.lifecycle = .schedulable ∧ node.meshCredentialStatus = .active

/-- Validation is about the slices as the mutation left them; sorting them changes no lookup. -/
theorem wellFormed_sorted (hvalid : m.validate O checkedAt = .ok ())
    (hctrl : m.controllerNodeID ≠ "") (hidentities : (identities m).Nodup) (hself : SelfNamed m) :
    WellFormed (sorted m) := by
  have hinv := validate_inventory hvalid
  refine ⟨hctrl, ?_, ?_, ?_, ?_, ?_, ?_⟩
  · intro node hnode
    exact (hinv.authoritative O hctrl (mem_sortBy.mp hnode)).1
  · intro c hc
    exact hself c ((sorted_credentials m).mem_iff.mp hc)
  · exact (sorted_identities m).nodup_iff.mpr hidentities
  · rw [sorted_node hidentities]
    exact hinv.controller hctrl
  · intro node hnode
    exact hinv.schedulable_iff O hctrl (mem_sortBy.mp hnode)
  · intro a ha
    rw [sorted_node hidentities]
    obtain ⟨node, hfound, hlife, hstatus, _⟩ := hinv.allocation_node O ha
    exact ⟨node, hfound, hlife, hstatus⟩

theorem rewrites_wellFormed (h : Rewrites O A m n) (hm : WellFormed m) : WellFormed n := by
  cases h with
  | @intro after settled checkedAt heffect hsettled _ hvalid =>
    have hctrl : settled.controllerNodeID = m.controllerNodeID := by
      rw [hsettled]
      exact heffect.sameAuthority.controllerNodeID
    have hidentities : identities settled = identities after := by rw [hsettled]; rfl
    apply wellFormed_sorted hvalid
    · rw [hctrl]
      exact hm.controllerNodeID
    · rw [hidentities]
      exact effect_identities_nodup heffect hm.identities
    · have hself := effect_selfNamed heffect hm.selfNamed
      rw [hsettled]
      exact hself

theorem isFirst_wellFormed (h : IsFirst C n) : WellFormed n := by
  obtain ⟨clock, request, receipt, hpersists⟩ := h
  obtain ⟨installation, _, _, _, _, _, settled, hinst, _, hsettles, rfl⟩ := persists_first hpersists
  have hnodeID : installation.nodeID ≠ "" := by
    simp only [Installation.validate, bind_eq_ok, require_eq_ok] at hinst
    obtain ⟨_, _, _, _, _, _, _, huuid, _⟩ := hinst
    exact isUUID_ne_empty huuid
  have hctrl : settled.controllerNodeID = installation.nodeID := by rw [hsettles.eq]; rfl
  have hauth : settled.controllerNodeID ≠ "" := by rwa [hctrl]
  have hids : (credentials settled).map Prod.fst = [installation.nodeID] := by rw [hsettles.eq]; rfl
  apply wellFormed_sorted hsettles.valid hauth
  · rw [hsettles.eq]
    exact nodup_singleton _
  · -- validation looks the only node up under its own identifier
    obtain ⟨c, hfound, _⟩ := (validate_inventory hsettles.valid).controller hauth
    have hc := node_some (m := settled) hfound
    have hnamed : ∀ x ∈ credentials settled, x.1 = installation.nodeID := by
      intro x hx
      have hmem := mem_map_of_mem (f := Prod.fst) hx
      rwa [hids, mem_singleton] at hmem
    have hcid : c.nodeID = _ := hnamed _ (mem_append_left _ (mem_map_of_mem hc.1))
    have hnames : names c.nodeID settled.controllerNodeID := hc.2
    intro x hx
    rwa [hcid, hctrl, ← hnamed x hx] at hnames

theorem fileStep_keeps {P : MembershipState → Prop} (h : FileStep C A old new)
    (hfirst : ∀ n, IsFirst C n → P n) (hrewrite : ∀ m n, Rewrites C.store.oracles A m n → P m → P n)
    (hold : ∀ m, old = some m → P m) (n : MembershipState) (hn : new = some n) : P n := by
  cases h with
  | kept => exact hold n hn
  | rewritten hrewrites =>
    cases hn
    exact hrewrite _ n hrewrites (hold _ rfl)
  | created hcreated =>
    cases hn
    exact hfirst n hcreated

/-- What the first membership has and every rewrite keeps, each membership file has. -/
theorem reachable_file {P : MembershipState → Prop} (hfirst : ∀ n, IsFirst C n → P n)
    (hrewrite : ∀ A m n, Rewrites C.store.oracles A m n → P m → P n)
    (hr : (machine C).Reachable Initial s) (m : MembershipState) (hm : s.file = some m) : P m := by
  refine hr.invariant_with (I := fun s => ∀ m, s.file = some m → P m)
    (fun _ => reachable_invariant) ?_ ?_ m hm
  · exact fun s hs m hm => absurd hm (hs.file_ne m)
  · exact fun s e hs hfile he => fileStep_keeps (next_fileStep hs he) hfirst (hrewrite _) hfile

theorem reachable_wellFormed (hr : (machine C).Reachable Initial s) (m : MembershipState)
    (hm : s.file = some m) : WellFormed m :=
  reachable_file (fun _ => isFirst_wellFormed) (fun _ _ _ => rewrites_wellFormed) hr m hm

def Continues (node node' : MembershipNode) : Prop :=
  node'.nodeID = node.nodeID ∧ (node'.lifecycle = node.lifecycle ∨
    LifecycleMove node.lifecycle node'.lifecycle)

theorem Continues.refl (node : MembershipNode) : Continues node node := ⟨rfl, .inl rfl⟩

inductive PhaseMove : RemovalPhase → RemovalPhase → Prop where
  | revoked : PhaseMove .revokePeers .removeMember
  | removed : PhaseMove .removeMember .cleanupTarget

def Progresses (o o' : NodeRemovalOperation) : Prop :=
  o'.node = o.node ∧ (o'.phase = o.phase ∨ PhaseMove o.phase o'.phase)

theorem Progresses.refl (o : NodeRemovalOperation) : Progresses o o := ⟨rfl, .inl rfl⟩

/-- A node leaves when it is draining and its removal has revoked it at its peers. -/
structure Leaves (m n : MembershipState) (node : MembershipNode) : Prop where
  draining : node.lifecycle = .draining
  revoked : ∃ o ∈ m.removalOperations, equalFold o.node.nodeID node.nodeID ∧ o.phase = .removeMember
  buried : ∃ t ∈ n.tombstones, t.nodeID = node.nodeID

structure Joins (m : MembershipState) (node : MembershipNode) : Prop where
  joining : node.lifecycle = .joining
  inactive : m.node node.nodeID = none
  unburied : m.tombstoned node.nodeID = false

structure LifecycleStep (m n : MembershipState) : Prop where
  tombstones : ∀ t ∈ m.tombstones, t ∈ n.tombstones
  nodes : ∀ node ∈ m.nodes, (∃ node' ∈ n.nodes, Continues node node') ∨ Leaves m n node
  joined : ∀ node' ∈ n.nodes, (∃ node ∈ m.nodes, Continues node node') ∨ Joins m node'
  removals : ∀ o ∈ m.removalOperations, (∃ o' ∈ n.removalOperations, Progresses o o') ∨
    o.phase = .cleanupTarget
  prepared : ∀ o' ∈ n.removalOperations, (∃ o ∈ m.removalOperations, Progresses o o') ∨
    (o'.phase = .revokePeers ∧ o'.node ∈ m.nodes ∧ o'.node.lifecycle = .draining)

theorem LifecycleStep.refl (m : MembershipState) : LifecycleStep m m where
  tombstones _ ht := ht
  nodes node hnode := .inl ⟨node, hnode, .refl node⟩
  joined node hnode := .inl ⟨node, hnode, .refl node⟩
  removals o ho := .inl ⟨o, ho, .refl o⟩
  prepared o ho := .inl ⟨o, ho, .refl o⟩

theorem LifecycleStep.of_mem (h : LifecycleStep m n)
    (hnodes : ∀ node, node ∈ k.nodes ↔ node ∈ n.nodes)
    (htombstones : ∀ t, t ∈ k.tombstones ↔ t ∈ n.tombstones)
    (hremovals : ∀ o, o ∈ k.removalOperations ↔ o ∈ n.removalOperations) : LifecycleStep m k where
  tombstones t ht := (htombstones t).mpr (h.tombstones t ht)
  nodes node hnode := by
    rcases h.nodes node hnode with ⟨node', hnode', hc⟩ | hleaves
    · exact .inl ⟨node', (hnodes node').mpr hnode', hc⟩
    · obtain ⟨t, ht, he⟩ := hleaves.buried
      exact .inr ⟨hleaves.draining, hleaves.revoked, t, (htombstones t).mpr ht, he⟩
  joined node' hnode' := h.joined node' ((hnodes node').mp hnode')
  removals o ho := by
    rcases h.removals o ho with ⟨o', ho', hp⟩ | hdone
    · exact .inl ⟨o', (hremovals o').mpr ho', hp⟩
    · exact .inr hdone
  prepared o' ho' := h.prepared o' ((hremovals o').mp ho')

theorem lifecycleStep_updateNode
    (hf : ∀ node, m.node nodeID = some node → Continues node (f node)) :
    LifecycleStep m (m.updateNode nodeID f) := by
  obtain ⟨hkept, hback⟩ := modifyFirst_related (R := Continues) Continues.refl hf
  refine ⟨fun _ ht => ht, ?_, ?_, fun o ho => .inl ⟨o, ho, .refl o⟩,
    fun o ho => .inl ⟨o, ho, .refl o⟩⟩
  · intro node hnode
    exact .inl (hkept node hnode)
  · intro node' hnode'
    exact .inl (hback node' hnode')

theorem lifecycleStep_updateRemoval {f : NodeRemovalOperation → NodeRemovalOperation}
    (hf : ∀ o, m.removalOperation nodeID = some o → Progresses o (f o)) :
    LifecycleStep m (m.updateRemoval nodeID f) := by
  obtain ⟨hkept, hback⟩ := modifyFirst_related (R := Progresses) Progresses.refl hf
  refine ⟨fun _ ht => ht, fun node hn => .inl ⟨node, hn, .refl node⟩,
    fun node hn => .inl ⟨node, hn, .refl node⟩, ?_, ?_⟩
  · intro o ho
    exact .inl (hkept o ho)
  · intro o' ho'
    exact .inl (hback o' ho')

theorem enrolled_step (hnode : m.node request.nodeID = none)
    (htomb : m.tombstoned request.nodeID = false) :
    LifecycleStep m (enrolledState m request record credentialID now) := by
  have hdescribed : LifecycleStep m
      (m.updateNode m.controllerNodeID (request.describeController now)) :=
    lifecycleStep_updateNode fun _ _ => ⟨rfl, .inl rfl⟩
  refine ⟨fun _ ht => ht, ?_, ?_, hdescribed.removals, hdescribed.prepared⟩
  · intro node hn
    rcases hdescribed.nodes node hn with ⟨node', hnode', hc⟩ | hleaves
    · exact .inl ⟨node', mem_append_left _ hnode', hc⟩
    · exact .inr ⟨hleaves.draining, hleaves.revoked, hleaves.buried⟩
  · exact forall_mem_append.mpr ⟨hdescribed.joined,
      forall_mem_singleton.mpr (.inr ⟨rfl, hnode, htomb⟩)⟩

theorem removed_step (hnode : m.node nodeID = some node) (hdrain : node.lifecycle = .draining)
    (hop : m.removalOperation nodeID = some operation) (hphase : operation.phase = .removeMember) :
    LifecycleStep m (buriedState O m nodeID node now) := by
  have hremoval :
      LifecycleStep m (m.updateRemoval nodeID (cleanupRemoval (uint64Succ m.generation) now)) := by
    apply lifecycleStep_updateRemoval
    intro o ho
    rw [hop] at ho
    cases ho
    refine ⟨rfl, .inr ?_⟩
    rw [hphase]
    exact .removed
  refine ⟨fun _ ht => mem_append_left _ ht, ?_, ?_, hremoval.removals, hremoval.prepared⟩
  · intro a ha
    rcases mem_eraseP_or_find? (p := fun k => names k.nodeID nodeID) ha with hkept | hfound
    · exact .inl ⟨a, hkept, .refl a⟩
    · have hsame : node = a := Option.some.inj (hnode.symm.trans hfound)
      subst hsame
      have hmem := mem_of_find?_eq_some hop
      have hoperationNames := find?_some hop
      have hnodeNames := (node_some hnode).2
      refine .inr ⟨hdrain, ⟨operation, hmem, ?_, hphase⟩, ?_⟩
      · rw [equalFold_iff_toLower, names_iff.mp hoperationNames, names_iff.mp hnodeNames]
      · exact ⟨_, mem_append_right _ (mem_singleton_self _), rfl⟩
  · intro node' hnode'
    exact .inl ⟨node', mem_of_mem_eraseP hnode', .refl node'⟩

theorem nodeEffect_step (h : NodeEffect O A m after) : LifecycleStep m after := by
  cases h with
  | redescribed hf =>
    apply lifecycleStep_updateNode
    intro node _
    exact ⟨hf.nodeID node, .inl (hf.lifecycle node)⟩
  | @moved nodeID node target schedulable now hnode hmove _ _ =>
    have hstep : LifecycleStep m (m.updateNode nodeID (moveNode target schedulable now)) := by
      apply lifecycleStep_updateNode
      intro found hfound
      rw [hnode] at hfound
      cases hfound
      exact ⟨rfl, .inr hmove⟩
    unfold movedState
    split_ifs
    · exact hstep
    · exact hstep.of_mem (fun _ => Iff.rfl) (fun _ => Iff.rfl) fun _ => Iff.rfl
  | removalPrepared _ hnode hdrain =>
    refine ⟨fun _ ht => ht, fun node hn => .inl ⟨node, hn, .refl node⟩,
      fun node hn => .inl ⟨node, hn, .refl node⟩, ?_, ?_⟩
    · intro o ho
      exact .inl ⟨o, mem_append_left _ ho, .refl o⟩
    · intro o' ho'
      rcases mem_append.mp ho' with hold | hnew
      · exact .inl ⟨o', hold, .refl o'⟩
      · rw [mem_singleton.mp hnew]
        exact .inr ⟨rfl, (node_some hnode).1, hdrain⟩
  | peersRevoked hop hphase =>
    apply lifecycleStep_updateRemoval
    intro o ho
    rw [hop] at ho
    cases ho
    refine ⟨rfl, .inr ?_⟩
    rw [hphase]
    exact .revoked
  | removed _ hnode hdrain hop hphase => exact removed_step hnode hdrain hop hphase
  | @removalCompleted nodeID operation hop hphase =>
    refine ⟨fun _ ht => ht, fun node hn => .inl ⟨node, hn, .refl node⟩,
      fun node hn => .inl ⟨node, hn, .refl node⟩, ?_, ?_⟩
    · intro o ho
      rcases mem_eraseP_or_find? (p := fun o => names o.node.nodeID nodeID) ho with hkept | hfound
      · exact .inl ⟨o, hkept, .refl o⟩
      · have hsame : operation = o := Option.some.inj (hop.symm.trans hfound)
        rw [← hsame]
        exact .inr hphase
    · intro o' ho'
      exact .inl ⟨o', mem_of_mem_eraseP ho', .refl o'⟩
  | authorized happly =>
    obtain ⟨_, _, rfl⟩ := applyAllocationAuthorization_ok happly
    exact (LifecycleStep.refl m).of_mem (fun _ => Iff.rfl) (fun _ => Iff.rfl) fun _ => Iff.rfl

theorem effect_step (h : Effect O A m after) : LifecycleStep m after := by
  cases h with
  | tokens =>
    exact (LifecycleStep.refl m).of_mem (fun _ => Iff.rfl) (fun _ => Iff.rfl) fun _ => Iff.rfl
  | enrolled _ _ hnode htomb => exact enrolled_step hnode htomb
  | node hnode => exact nodeEffect_step hnode

theorem rewrites_step (h : Rewrites O A m n) : LifecycleStep m n := by
  cases h with
  | @intro after settled _ heffect hsettled _ _ =>
    rw [hsettled]
    exact (effect_step heffect).of_mem (fun _ => mem_sortBy) (fun _ => mem_sortBy) fun _ =>
      mem_sortBy

theorem next_lifecycleStep (hs : Invariant C s) (he : Enabled s e) (hm : s.file = some m) :
    ∃ n, (next C s e).file = some n ∧ LifecycleStep m n := by
  have hstep := next_fileStep hs he
  rw [hm] at hstep
  generalize hnew : (next C s e).file = new at hstep
  cases hstep with
  | kept => exact ⟨m, rfl, .refl m⟩
  | rewritten hrewrites => exact ⟨_, rfl, rewrites_step hrewrites⟩

/-- The lifecycles of a node of `m` up to `n`, or up to its removal. -/
structure LifecycleRun (m n : MembershipState) : Prop where
  tombstones : ∀ t ∈ m.tombstones, t ∈ n.tombstones
  nodes : ∀ node ∈ m.nodes,
    (∃ node' ∈ n.nodes, node'.nodeID = node.nodeID ∧
      Relation.ReflTransGen LifecycleMove node.lifecycle node'.lifecycle) ∨
    ((∃ t ∈ n.tombstones, t.nodeID = node.nodeID) ∧
      Relation.ReflTransGen LifecycleMove node.lifecycle .draining)

theorem LifecycleRun.refl (m : MembershipState) : LifecycleRun m m :=
  ⟨fun _ ht => ht, fun node hnode => .inl ⟨node, hnode, rfl, .refl⟩⟩

theorem LifecycleRun.trans (h : LifecycleRun m n) (g : LifecycleRun n k) : LifecycleRun m k := by
  refine ⟨fun t ht => g.tombstones t (h.tombstones t ht), ?_⟩
  intro node hnode
  rcases h.nodes node hnode with ⟨middle, hmiddle, hid, hpath⟩ | ⟨⟨t, ht, hid⟩, hpath⟩
  · rcases g.nodes middle hmiddle with ⟨last, hlast, hid', hpath'⟩ | ⟨⟨t, ht, hid'⟩, hpath'⟩
    · exact .inl ⟨last, hlast, hid'.trans hid, hpath.trans hpath'⟩
    · exact .inr ⟨⟨t, ht, hid'.trans hid⟩, hpath.trans hpath'⟩
  · exact .inr ⟨⟨t, g.tombstones t ht, hid⟩, hpath⟩

theorem LifecycleStep.run (h : LifecycleStep m n) : LifecycleRun m n := by
  refine ⟨h.tombstones, ?_⟩
  intro node hnode
  rcases h.nodes node hnode with ⟨node', hnode', hid, hsame | hmove⟩ | hleaves
  · refine .inl ⟨node', hnode', hid, ?_⟩
    rw [hsame]
  · exact .inl ⟨node', hnode', hid, .single hmove⟩
  · refine .inr ⟨hleaves.buried, ?_⟩
    rw [hleaves.draining]

def FileRun (s u : State) : Prop := ∀ m, s.file = some m → ∃ n, u.file = some n ∧ LifecycleRun m n

theorem execution_fileRun (h : (machine C).Execution s u) (hs : Invariant C s) : FileRun s u := by
  refine h.relation (I := Invariant C) ?_ ?_ (fun _ _ hs he => step_preserves_invariant hs he) ?_ hs
  · intro s m hm
    exact ⟨m, hm, .refl m⟩
  · intro a b c hab hbc m hm
    obtain ⟨n, hn, hrun⟩ := hab m hm
    obtain ⟨k, hk, hrun'⟩ := hbc n hn
    exact ⟨k, hk, hrun.trans hrun'⟩
  · intro s e hs he m hm
    obtain ⟨n, hn, hstep⟩ := next_lifecycleStep hs he hm
    exact ⟨n, hn, hstep.run⟩

theorem tombstoned_mono (h : ∀ t ∈ m.tombstones, t ∈ n.tombstones) (ht : m.tombstoned nodeID) :
    n.tombstoned nodeID := by
  obtain ⟨t, hmem, hnames⟩ := any_eq_true.mp ht
  exact any_eq_true.mpr ⟨t, h t hmem, hnames⟩

def CommittedError (n : MembershipState) (cause : String) : Prop :=
  ∃ reason : String,
    cause = s!"membership committed at generation {n.generation} but inventory publication " ++
      s!"failed: {reason}" ∨
    cause = "prepared allocations committed but inventory publication failed: " ++ reason

def FailedFile (old : Option MembershipState) (cause : String) (file : Option MembershipState) :
    Prop :=
  file = old ∨ ∃ n, file = some n ∧ CommittedError n cause

theorem perform_failed : Fails (program C handler (.perform request faults clock stop)) d
      fun cause w => FailedFile d.files.membership cause w.files.membership := by
  refine fails_map (fails_zoom rfl ?_)
  intro cause hc
  rcases perform_fails cause hc with hsame | ⟨n, reason, hn, hcause⟩
  · exact .inl hsame
  · exact .inr ⟨n, hn, reason, .inl hcause⟩

theorem commit_failed {f : MembershipState → Progress} :
    Fails (onStore (commitPreparedAllocations C.store faults candidate baseGeneration
        baseAllocationGeneration now) >>= fun state => pure (f state)) d
      fun cause w => FailedFile d.files.membership cause w.files.membership := by
  refine fails_map (fails_zoom rfl ?_)
  intro cause hc
  rcases commitPreparedAllocations_fails cause hc with hsame | ⟨reason, hn, hcause⟩
  · exact .inl hsame
  · exact .inr ⟨_, hn, reason, .inr hcause⟩

theorem section_membership (h : SectionEffect C d frame w)
    (hcommitting : ∀ p, frame ≠ some (.committing p))
    (hrecovering : ∀ p current, frame ≠ some (.recovering p current)) :
    w.files.membership = d.files.membership := by
  cases h with
  | repaired hfiles => exact hfiles.membership_eq
  | committed => exact absurd rfl (hcommitting _)
  | recoveryCommitted => exact absurd rfl (hrecovering _ _)
  | _ => rfl

theorem continuePhase_failed {faults : SectionFaults} : Fails (continuePhase C faults clock frame) d
      fun cause w => FailedFile d.files.membership cause w.files.membership := by
  have hother : (∀ p, some frame ≠ some (.committing p)) →
      (∀ p current, some frame ≠ some (.recovering p current)) →
      Fails (continuePhase C faults clock frame) d
        fun cause w => FailedFile d.files.membership cause w.files.membership := by
    intro hcommitting hrecovering cause hc
    exact .inl (section_membership (continuePhase_holds.disk .refl .returns) hcommitting
      hrecovering)
  cases frame with
  | committing => exact commit_failed
  | recovering =>
    refine fails_bind_check (fun _ _ => .inl rfl) ?_
    intro _ _
    exact commit_failed
  | _ => exact hother (fun _ h => by cases h) (fun _ _ h => by cases h)

theorem next_failed (he : Enabled s e) {cause : String} (h : outcome C s e = some (.error cause)) :
    FailedFile s.file cause (next C s e).file := by
  cases e with
  | perform => exact perform_failed.answer h
  | resume faults clock stop =>
    cases hframe : s.handler with
    | none => exact absurd hframe he
    | some frame =>
      have hfails : Fails (program C (some frame) (.resume faults clock stop)) s.disk
          fun cause w => FailedFile s.disk.files.membership cause w.files.membership :=
        fails_map continuePhase_failed
      unfold outcome at h
      rw [hframe] at h
      change FailedFile _ _ ((program C s.handler _).disk s.disk stop).files.membership
      rw [hframe]
      exact hfails.answer h
  | begin =>
    have hnone : s.handler = none := he
    have heffect := next_sectionEffect (C := C) he fun _ _ _ _ h => by cases h
    rw [hnone] at heffect
    exact .inl (section_membership heffect (fun _ h => by cases h) (fun _ _ h => by cases h))
  | read faults stop =>
    obtain ⟨files, hfiles, hw⟩ := read_disk (C := C) s faults stop
    refine .inl ?_
    change (nextDisk C s _).files.membership = _
    rw [hw]
    exact hfiles.membership_eq
  | serve faults issuedAt stop =>
    obtain ⟨files, hfiles, hw⟩ := serve_disk (C := C) s faults issuedAt stop
    refine .inl ?_
    change (nextDisk C s _).files.membership = _
    rw [hw]
    exact hfiles.membership_eq
  | halt => cases h

/-- In every reachable state of the control plane: the persisted membership is well formed;
every event takes nodes and removals at most one move along their lifecycles; tombstones are
for ever; and a failed operation leaves the membership, unless its error says that it was
written and only its publication failed. -/
theorem membership_lifecycle {s : State} (hr : (machine C).Reachable Initial s) :
    (∀ m, s.file = some m →
      (∀ nodeID, m.tombstoned nodeID → m.node nodeID = none) ∧
      (∃ c, m.node m.controllerNodeID = some c ∧ roleControlPlane ∈ c.roles) ∧
      (∀ node ∈ m.nodes, node.schedulable ↔ node.lifecycle = .schedulable) ∧
      ∀ a ∈ m.activeAllocations, ∃ node, m.node a.nodeID = some node ∧
        node.lifecycle = .schedulable) ∧
    (∀ e m, Enabled s e → s.file = some m → ∃ n, (next C s e).file = some n ∧ LifecycleStep m n) ∧
    (∀ u m, (machine C).Execution s u → s.file = some m → ∃ n, u.file = some n ∧ LifecycleRun m n ∧
      ∀ nodeID, m.tombstoned nodeID → n.tombstoned nodeID ∧ n.node nodeID = none) ∧
    (∀ e cause, Enabled s e → outcome C s e = some (.error cause) →
      FailedFile s.file cause (next C s e).file) := by
  have hs := reachable_invariant hr
  refine ⟨?_, ?_, ?_, ?_⟩
  · intro m hm
    have hwell := reachable_wellFormed hr m hm
    refine ⟨fun _ => tombstoned_inactive hwell.identities, hwell.controller, hwell.schedulable, ?_⟩
    intro a ha
    obtain ⟨node, hnode, hlifecycle, _⟩ := hwell.allocations a ha
    exact ⟨node, hnode, hlifecycle⟩
  · intro e m
    exact next_lifecycleStep hs
  · intro u m hrun hm
    obtain ⟨n, hn, hlaw⟩ := execution_fileRun hrun hs m hm
    have hwell := reachable_wellFormed (hr.after hrun) n hn
    refine ⟨n, hn, hlaw, ?_⟩
    intro nodeID ht
    have hburied := tombstoned_mono hlaw.tombstones ht
    exact ⟨hburied, tombstoned_inactive hwell.identities hburied⟩
  · intro e cause he houtcome
    exact next_failed he houtcome

def demoRemoval : List Event :=
  demoJoin ++ [demoPerform (.cordon demoWorkerID) 7, demoPerform (.beginDrain demoWorkerID) 8,
    demoPerform (.prepareRemoval demoWorkerID) 9,
    demoPerform (.markRemovalPeersRevoked demoWorkerID) 10, demoPerform (.remove demoWorkerID) 11]

def removedWorker : State := (machine demoAuthority).runTrace emptyControlPlane demoRemoval

/-- The removed worker is tombstoned, and the identifier is found among the nodes no more. -/
theorem membership_lifecycle_removed :
    ∃ m, removedWorker.file = some m ∧ m.tombstoned demoWorkerID ∧ m.node demoWorkerID = none ∧
      ∃ c, m.node m.controllerNodeID = some c ∧ roleControlPlane ∈ c.roles := by
  have hreach : (machine demoAuthority).Reachable Initial removedWorker :=
    .of_trace emptyControlPlane_initial demoRemoval (by decide +kernel)
  have hburied : (removedWorker.file.any fun m => m.tombstoned demoWorkerID) := by decide +kernel
  obtain ⟨m, hm, htombstoned⟩ := (Option.any_eq_true _ _).mp hburied
  obtain ⟨hinactive, hcontroller, _⟩ := (membership_lifecycle hreach).1 m hm
  exact ⟨m, hm, htombstoned, hinactive demoWorkerID htombstoned, hcontroller⟩

def initializedController : State :=
  (machine demoAuthority).runTrace emptyControlPlane [demoInitialize]

def unpublishedCordon : Event :=
  .perform (.cordon demoControllerID) { noStoreFaults with
    inventoryWrite := some "no space left on device" } (demoClock 2) .returns

/-- The operation fails and its change is persisted. -/
theorem failed_operation_persists :
    (machine demoAuthority).Reachable Initial initializedController ∧
      Enabled initializedController unpublishedCordon ∧
      outcome demoAuthority initializedController unpublishedCordon = some (.error
        ("membership committed at generation 2 but inventory publication " ++
          "failed: no space left on device")) ∧
      (next demoAuthority initializedController unpublishedCordon).file ≠
        initializedController.file := by
  refine ⟨.of_trace emptyControlPlane_initial [demoInitialize] (by decide +kernel), ?_, ?_, ?_⟩
  · decide +kernel
  · decide +kernel
  · decide +kernel

end MembershipLifecycle
