import Tako.MembershipLifecycle

/-! # Withdrawn allocation proofs

The high-water record of a node and a key refuses every generation below its own, and its own once
it is revoked. Omission from the scope of an authorization revokes it; withholding the node from
scheduling does not.
-/
namespace WithdrawnAllocations

open List GoPrelude NodeIdentity SliceOrder PlatformMembership MembershipStore MembershipEffects
open Option
open AllocationAuthority ControlPlane MembershipLifecycle

variable {A : Request → Prop} {m n after : MembershipState}
variable {highs highs' : List AllocationHighWater} {φ : AllocationHighWater → Prop}

def Recorded (highs : List AllocationHighWater) (a : ActiveAllocation)
    (φ : AllocationHighWater → Prop) : Prop :=
  ∃ high, highs.find? (isHighWaterOf a) = some high ∧ φ high

/-- What no authorization takes from a record: it is revoked or replaced by a higher one. -/
structure Lasting (φ : AllocationHighWater → Prop) : Prop where
  revoked : ∀ high, φ high → φ { high with revoked := true }
  raised : ∀ high higher, φ high → high.generation < higher.generation → φ higher

def Covers (g : ℕ) (high : AllocationHighWater) : Prop := g ≤ high.generation

/-- The record refuses the generation `g`, or would if it were not for `parked`. -/
def Refuses (parked : Prop) (g : ℕ) (high : AllocationHighWater) : Prop :=
  g < high.generation ∨ (g = high.generation ∧ (high.revoked ∨ parked))

theorem lasting_covers : Lasting (Covers g) := ⟨fun _ h => h, fun _ _ h hlt => h.trans hlt.le⟩

theorem lasting_refuses (parked : Prop) : Lasting (Refuses parked g) := by
  constructor
  · rintro high (hlt | ⟨heq, _⟩)
    · exact .inl hlt
    · exact .inr ⟨heq, .inl rfl⟩
  · rintro high higher (hlt | ⟨heq, _⟩) hraised
    · exact .inl (hlt.trans hraised)
    · exact .inl (heq ▸ hraised)

theorem isHighWaterOf_congr (hid : a.nodeID = b.nodeID) (hkey : a.key = b.key) :
    isHighWaterOf a = isHighWaterOf b := by
  unfold isHighWaterOf
  rw [hid, hkey]

theorem isHighWaterOf_other (h : ¬(a.nodeID = b.nodeID ∧ a.key = b.key))
    (high : AllocationHighWater) (hb : isHighWaterOf b high) : isHighWaterOf a high = false := by
  simp only [isHighWaterOf, decide_eq_true_eq] at hb
  simp only [isHighWaterOf, decide_eq_false_iff_not]
  rintro ⟨hid, hkey⟩
  exact h ⟨hid.symm.trans hb.1, hkey.symm.trans hb.2⟩

theorem recorded_congr (hid : a.nodeID = b.nodeID) (hkey : a.key = b.key) :
    Recorded highs a φ ↔ Recorded highs b φ := by
  unfold Recorded
  rw [isHighWaterOf_congr hid hkey]

theorem Recorded.mono {ψ : AllocationHighWater → Prop} (h : Recorded highs a φ)
    (himp : ∀ high, φ high → ψ high) : Recorded highs a ψ := by
  obtain ⟨high, hfound, hφ⟩ := h
  exact ⟨high, hfound, himp high hφ⟩

def Met (a : ActiveAllocation) (φ : AllocationHighWater → Prop) : Prop :=
  ∃ high, φ high ∧ high.generation ≤ a.generation ∧
    (a.generation = high.generation → high.revoked = false)

theorem isHighWaterOf_highWaterOf (fingerprint : String) :
    isHighWaterOf a (highWaterOf fingerprint a) := by
  simp [isHighWaterOf, highWaterOf]

/-- An allocation adds the record of its node and key, or meets it and raises it. -/
theorem raiseHighWater_ok (h : raiseHighWater O highs a = .ok highs') :
    let new := highWaterOf (allocationEvidenceFingerprint O a) a
    (highs.find? (isHighWaterOf a) = none ∧ highs' = highs ++ [new]) ∨
      ∃ high, highs.find? (isHighWaterOf a) = some high ∧ high.generation ≤ a.generation ∧
        (a.generation = high.generation → high.revoked = false) ∧
        highs' = if high.generation < a.generation then
          modifyFirst (isHighWaterOf a) (fun _ => new) highs else highs := by
  unfold raiseHighWater at h
  split at h
  · rename_i hnone
    cases h
    exact .inl ⟨hnone, rfl⟩
  · rename_i high hfound
    simp only [bind_eq_ok, require_eq_ok] at h
    obtain ⟨_, hle, _, hfresh, h⟩ := h
    refine .inr ⟨high, hfound, hle, fun he => (hfresh he).1, ?_⟩
    split_ifs at h ⊢ <;> cases h <;> rfl

theorem raiseHighWater_met (h : raiseHighWater O highs a = .ok highs') (hr : Recorded highs a φ) :
    Met a φ := by
  obtain ⟨high, hfound, hφ⟩ := hr
  obtain ⟨hnone, -⟩ | ⟨other, hother, hle, hfresh, -⟩ := raiseHighWater_ok h
  · cases hnone.symm.trans hfound
  · cases hother.symm.trans hfound
    exact ⟨high, hφ, hle, hfresh⟩

theorem raiseHighWater_recorded (hφ : Lasting φ) (h : raiseHighWater O highs b = .ok highs')
    (hr : Recorded highs a φ) : Recorded highs' a φ := by
  obtain ⟨-, rfl⟩ | ⟨other, hother, -, -, rfl⟩ := raiseHighWater_ok h
  · obtain ⟨high, hfound, hhigh⟩ := hr
    refine ⟨high, ?_, hhigh⟩
    rw [find?_append, hfound]
    rfl
  · split_ifs with hlt
    · by_cases hsame : a.nodeID = b.nodeID ∧ a.key = b.key
      · rw [recorded_congr hsame.1 hsame.2] at hr ⊢
        obtain ⟨high, hfound, hhigh⟩ := hr
        cases hother.symm.trans hfound
        refine ⟨highWaterOf (allocationEvidenceFingerprint O b) b, ?_, hφ.raised other _ hhigh hlt⟩
        rw [find?_modifyFirst fun _ => isHighWaterOf_highWaterOf _, hfound]
        rfl
      · obtain ⟨high, hfound, hhigh⟩ := hr
        refine ⟨high, ?_, hhigh⟩
        rw [find?_modifyFirst_other (isHighWaterOf_other hsame)]
        · exact hfound
        · exact fun _ => isHighWaterOf_other hsame _ (isHighWaterOf_highWaterOf _)
    · exact hr

theorem raiseHighWater_self (h : raiseHighWater O highs a = .ok highs') :
    Recorded highs' a (Covers a.generation) := by
  have hself := isHighWaterOf_highWaterOf (a := a) (allocationEvidenceFingerprint O a)
  obtain ⟨hnone, rfl⟩ | ⟨high, hfound, hle, -, rfl⟩ := raiseHighWater_ok h
  · refine ⟨highWaterOf (allocationEvidenceFingerprint O a) a, ?_, le_refl a.generation⟩
    rw [find?_append, hnone, find?_singleton, hself]
    rfl
  · split_ifs with hlt
    · refine ⟨highWaterOf (allocationEvidenceFingerprint O a) a, ?_, le_refl a.generation⟩
      rw [find?_modifyFirst (fun _ => hself), hfound]
      rfl
    · exact ⟨high, hfound, not_lt.mp hlt⟩

theorem authorizeEach_recorded (hφ : Lasting φ)
    (h : authorizeEach O m project env seen highs allocations = .ok highs')
    (hr : Recorded highs a φ) : Recorded highs' a φ := by
  induction allocations generalizing seen highs with
  | nil =>
    cases h
    exact hr
  | cons b rest ih =>
    simp only [authorizeEach, bind_eq_ok, require_eq_ok] at h
    obtain ⟨_, _, _, _, raised, hraise, hrest⟩ := h
    exact ih hrest (raiseHighWater_recorded hφ hraise hr)

/-- The turn of one allocation: the allocations before it keep what lasts, and those after it
follow. -/
theorem authorizeEach_mem (h : authorizeEach O m project env seen highs allocations = .ok highs')
    (ha : a ∈ allocations) : ∃ before raised seen rest, checkAllocation O m project env a = .ok () ∧
      (∀ φ, Lasting φ → Recorded highs a φ → Recorded before a φ) ∧
        raiseHighWater O before a = .ok raised ∧
      authorizeEach O m project env seen raised rest = .ok highs' := by
  induction allocations generalizing seen highs with
  | nil => cases ha
  | cons b rest ih =>
    simp only [authorizeEach, bind_eq_ok, require_eq_ok] at h
    obtain ⟨_, hcheck, _, _, raised, hraise, hrest⟩ := h
    rcases mem_cons.mp ha with rfl | hmem
    · exact ⟨highs, raised, _, rest, hcheck, fun _ _ hr => hr, hraise, hrest⟩
    · obtain ⟨before, after, seen', rest', hcheck', hkept, hlater⟩ := ih hrest hmem
      exact ⟨before, after, seen', rest', hcheck',
        fun φ hφ hr => hkept φ hφ (raiseHighWater_recorded hφ hraise hr), hlater⟩

theorem checkAllocation_node (h : checkAllocation O m project env a = .ok ()) :
    ∃ node, m.node a.nodeID = some node ∧ node.lifecycle = .schedulable := by
  simp only [checkAllocation, bind_eq_ok, require_eq_ok] at h
  obtain ⟨_, _, _, _, _, _, h⟩ := h
  split at h
  · cases h
  · rename_i node hnode
    simp only [bind_eq_ok, require_eq_ok] at h
    obtain ⟨_, hstate, _⟩ := h
    exact ⟨node, hnode, hstate.2.1⟩

theorem isHighWaterOf_revokeOmitted (high : AllocationHighWater) :
    isHighWaterOf a (revokeOmitted m project env allocations high) = isHighWaterOf a high := by
  unfold revokeOmitted
  split_ifs <;> rfl

theorem find?_revokeOmitted :
    (highs.map (revokeOmitted m project env allocations)).find? (isHighWaterOf a) =
      (highs.find? (isHighWaterOf a)).map (revokeOmitted m project env allocations) := by
  rw [find?_map]
  congr 2
  funext high
  exact isHighWaterOf_revokeOmitted high

theorem revokeOmitted_recorded (hφ : Lasting φ) (hr : Recorded highs a φ) :
    Recorded (highs.map (revokeOmitted m project env allocations)) a φ := by
  obtain ⟨high, hfound, hhigh⟩ := hr
  refine ⟨_, by rw [find?_revokeOmitted, hfound]; rfl, ?_⟩
  unfold revokeOmitted
  split_ifs
  · exact hφ.revoked high hhigh
  · exact hhigh

theorem revokeOmitted_omitted (ha : a ∈ m.activeAllocations) (hscope : inScope project env a)
    (homitted : compoundKey a.nodeID a.key ∉ allocations.map fun b => compoundKey b.nodeID b.key)
    (hr : Recorded highs a φ) :
    Recorded (highs.map (revokeOmitted m project env allocations)) a fun high =>
      ∃ before, φ before ∧ high = { before with revoked := true } := by
  obtain ⟨high, hfound, hhigh⟩ := hr
  have hmatch := find?_some hfound
  have hpair : high.nodeID = a.nodeID ∧ high.key = a.key := by simpa [isHighWaterOf] using hmatch
  refine ⟨_, by rw [find?_revokeOmitted, hfound]; rfl, high, hhigh, ?_⟩
  unfold revokeOmitted
  rw [if_pos]
  refine ⟨any_eq_true.mpr ⟨a, ha, by simp [hmatch, hscope]⟩, ?_⟩
  rw [hpair.1, hpair.2]
  exact homitted

theorem validateHighWater_keys (h : validateHighWater seen highs = .ok ()) :
    (highs.map fun high => compoundKey high.nodeID high.key).Nodup ∧
      ∀ high ∈ highs, compoundKey high.nodeID high.key ∉ seen := by
  induction highs generalizing seen with
  | nil => simp
  | cons high rest ih =>
    simp only [validateHighWater, bind_eq_ok, require_eq_ok] at h
    obtain ⟨_, _, _, hfresh, hrest⟩ := h
    exact nodup_cons_of_seen hfresh (fun _ => mem_cons.mpr) (ih hrest)

theorem sortBy_recorded (h : validateHighWater [] (sortBy highWaterOrder highs) = .ok ())
    (hr : Recorded highs a φ) : Recorded (sortBy highWaterOrder highs) a φ := by
  obtain ⟨high, hfound, hhigh⟩ := hr
  refine ⟨high, ?_, hhigh⟩
  rw [← hfound]
  apply find?_eq_of_perm (sortBy_perm _ _)
  intro x hx y hy hax hay
  apply inj_on_of_nodup_map (validateHighWater_keys h).1 hx hy
  simp only [isHighWaterOf, decide_eq_true_eq] at hax hay
  rw [hax.1, hax.2, hay.1, hay.2]

section Authorization

variable (happly : applyAllocationAuthorization O m project env allocations now = .ok after)
include happly

theorem authorization_active : after.activeAllocations =
    m.activeAllocations.filter (fun a => !inScope project env a) ++
      allocations.map (fun a => { a with authorizedAt := now }) := by
  obtain ⟨highs, _, rfl⟩ := applyAllocationAuthorization_ok happly
  rfl

theorem authorization_recorded (hvalid : validateHighWater [] after.allocationHighWater = .ok ())
    (hφ : Lasting φ) (hr : Recorded m.allocationHighWater a φ) :
    Recorded after.allocationHighWater a φ := by
  obtain ⟨highs, heach, rfl⟩ := applyAllocationAuthorization_ok happly
  exact sortBy_recorded hvalid (authorizeEach_recorded hφ heach (revokeOmitted_recorded hφ hr))

theorem authorization_covers (hvalid : validateHighWater [] after.allocationHighWater = .ok ())
    (ha : a ∈ allocations) : Recorded after.allocationHighWater a (Covers a.generation) := by
  obtain ⟨highs, heach, rfl⟩ := applyAllocationAuthorization_ok happly
  obtain ⟨_, _, _, _, -, -, hraise, hrest⟩ := authorizeEach_mem heach ha
  exact sortBy_recorded hvalid (authorizeEach_recorded lasting_covers hrest
    (raiseHighWater_self hraise))

theorem authorization_met (hφ : Lasting φ) (hr : Recorded m.allocationHighWater a φ)
    (ha : a ∈ allocations) : Met a φ := by
  obtain ⟨highs, heach, _⟩ := applyAllocationAuthorization_ok happly
  obtain ⟨_, _, _, _, -, hkept, hraise, -⟩ := authorizeEach_mem heach ha
  exact raiseHighWater_met hraise (hkept φ hφ (revokeOmitted_recorded hφ hr))

theorem authorization_node (ha : a ∈ allocations) :
    ∃ node, m.node a.nodeID = some node ∧ node.lifecycle = .schedulable := by
  obtain ⟨highs, heach, _⟩ := applyAllocationAuthorization_ok happly
  obtain ⟨_, _, _, _, hcheck, -⟩ := authorizeEach_mem heach ha
  exact checkAllocation_node hcheck

theorem authorization_omitted (hvalid : validateHighWater [] after.allocationHighWater = .ok ())
    (ha : a ∈ m.activeAllocations) (hscope : inScope project env a)
    (homitted : compoundKey a.nodeID a.key ∉ allocations.map fun b => compoundKey b.nodeID b.key)
    (hr : Recorded m.allocationHighWater a (Covers a.generation)) :
    Recorded after.allocationHighWater a (Refuses False a.generation) := by
  obtain ⟨highs, heach, rfl⟩ := applyAllocationAuthorization_ok happly
  have hrevoked := (revokeOmitted_omitted ha hscope homitted hr).mono
    (ψ := Refuses False a.generation) (by
    rintro high ⟨before, hcovers, rfl⟩
    rcases Nat.lt_or_eq_of_le hcovers with hlt | heq
    · exact .inl hlt
    · exact .inr ⟨heq, .inl rfl⟩)
  exact sortBy_recorded hvalid (authorizeEach_recorded (lasting_refuses _) heach hrevoked)

end Authorization

def SameGrant (a b : ActiveAllocation) : Prop :=
  a.nodeID = b.nodeID ∧ a.key = b.key ∧ a.generation = b.generation
  deriving Decidable

section

variable (m : MembershipState)

def Covered : Prop :=
  ∀ a ∈ m.activeAllocations, Recorded m.allocationHighWater a (Covers a.generation)

def Parked (nodeID : String) : Prop :=
  ∀ node ∈ m.nodes, names node.nodeID nodeID → node.lifecycle ≠ .schedulable

/-- The generation of `a` and those below it are refused for its node and key. -/
def Blocked (a : ActiveAllocation) : Prop :=
  Recorded m.allocationHighWater a (Refuses (Parked m a.nodeID) a.generation)

end

theorem Refuses.mono {p q : Prop} (h : Refuses p g high) (himp : p → high.revoked ∨ q) :
    Refuses q g high := by
  rcases h with hlt | ⟨heq, hrevoked | hp⟩
  · exact .inl hlt
  · exact .inr ⟨heq, .inl hrevoked⟩
  · exact .inr ⟨heq, himp hp⟩

theorem blocked_refused (hblocked : Blocked m a)
    (happly : applyAllocationAuthorization O m project env allocations now = .ok after)
    (hb : b ∈ allocations) (hid : b.nodeID = a.nodeID) (hkey : b.key = a.key) :
    a.generation < b.generation := by
  obtain ⟨node, hnode, hlife⟩ := authorization_node happly hb
  have hunparked : ¬Parked m a.nodeID := by
    intro hparked
    rw [hid] at hnode
    have hfound := node_some hnode
    exact hparked node hfound.1 hfound.2 hlife
  have hrec := (recorded_congr hid hkey).mpr hblocked
  obtain ⟨high, hlt | ⟨heq, hrevoked | hparked⟩, hle, hunrevoked⟩ :=
    authorization_met happly (lasting_refuses _) hrec hb
  · omega
  · by_contra hnot
    have hsame : b.generation = high.generation := by omega
    rw [hunrevoked hsame] at hrevoked
    cases hrevoked
  · exact absurd hparked hunparked

theorem names_no_nul (h : names stored nodeID) (hstored : isUUID stored) :
    '\x00' ∉ nodeID.toList := by
  intro hmem
  have hlower : '\x00' ∈ (toLower stored).toList := by
    rw [names_iff.mp h]
    simp only [toLower, trimSpace, chars_eq_toList, String.toList_ofList]
    exact nul_mem_trimLower hmem
  exact isUUID_no_nul hstored (nul_mem_of_mem_toLower hlower)

/-- An authorization that takes an allocation away blocks it: the scope omits it, or holds a
higher generation of its node and key. -/
theorem authorization_blocks (hm : WellFormed m) (hcovered : Covered m)
    (happly : applyAllocationAuthorization O m project env allocations now = .ok after)
    (hvalid : validateHighWater [] after.allocationHighWater = .ok ())
    (ha : a ∈ m.activeAllocations) (hgone : ∀ b ∈ after.activeAllocations, ¬SameGrant b a) :
    Blocked after a := by
  have hactive := authorization_active happly
  have hscope : inScope project env a := by
    by_contra hout
    refine hgone a ?_ ⟨rfl, rfl, rfl⟩
    rw [hactive]
    exact mem_append_left _ (mem_filter.mpr ⟨ha, by simpa using hout⟩)
  by_cases hkept : compoundKey a.nodeID a.key ∈ allocations.map fun b => compoundKey b.nodeID b.key
  · obtain ⟨b, hb, hcompound⟩ := mem_map.mp hkept
    obtain ⟨anode, hanode, _⟩ := hm.allocations a ha
    obtain ⟨bnode, hbnode, _⟩ := authorization_node happly hb
    have hafound := node_some hanode
    have hbfound := node_some hbnode
    -- node identifiers hold no separator, so equal compound keys are equal pairs
    obtain ⟨hid, hkey⟩ := compoundKey_inj (names_no_nul hbfound.2 (hm.nodeIDs _ hbfound.1))
      (names_no_nul hafound.2 (hm.nodeIDs _ hafound.1)) hcompound
    have hne : b.generation ≠ a.generation := by
      intro hgen
      refine hgone { b with authorizedAt := now } ?_ ⟨hid, hkey, hgen⟩
      rw [hactive]
      exact mem_append_right _ (mem_map_of_mem hb)
    have hrec := (recorded_congr hid hkey).mpr (hcovered a ha)
    obtain ⟨high, hcovers, hle, _⟩ := authorization_met happly lasting_covers hrec hb
    refine ((recorded_congr hid hkey).mp (authorization_covers happly hvalid hb)).mono fun final
      hraised => .inl ?_
    unfold Covers at hcovers hraised
    omega
  · exact (authorization_omitted happly hvalid ha hscope hkept (hcovered a ha)).mono fun _ h =>
      h.mono False.elim

theorem authorization_covered (hcovered : Covered m)
    (happly : applyAllocationAuthorization O m project env allocations now = .ok after)
    (hvalid : validateHighWater [] after.allocationHighWater = .ok ()) : Covered after := by
  intro a ha
  rw [authorization_active happly] at ha
  rcases mem_append.mp ha with hold | hnew
  · exact authorization_recorded happly hvalid lasting_covers (hcovered a (mem_filter.mp hold).1)
  · obtain ⟨b, hb, rfl⟩ := mem_map.mp hnew
    exact (recorded_congr (a := b) rfl rfl).mp (authorization_covers happly hvalid hb)

/-- Everything but an authorization leaves the records, and takes allocations away only with
the lifecycle of their node. -/
structure Withholds (A : Request → Prop) (m after : MembershipState) : Prop where
  highWater : after.allocationHighWater = m.allocationHighWater
  kept : ∀ a ∈ after.activeAllocations, a ∈ m.activeAllocations
  parks : ∀ a ∈ m.activeAllocations, a ∈ after.activeAllocations ∨ Parked after a.nodeID
  admits : ∀ nodeID, Parked m nodeID → Parked after nodeID ∨
    ∃ asked node, A (.markSchedulable asked) ∧ m.node asked = some node ∧
      node.lifecycle ≠ .schedulable ∧
      names node.nodeID nodeID

theorem parked_updateNode (hf : ∀ node, m.node asked = some node → (f node).nodeID = node.nodeID ∧
      ((f node).lifecycle = .schedulable → names node.nodeID nodeID →
        node.lifecycle = .schedulable))
    (h : Parked m nodeID) : Parked (m.updateNode asked f) nodeID := by
  intro node hnode hnames hlife
  rcases mem_modifyFirst hnode with hkept | ⟨old, hfound, rfl⟩
  · exact h node hkept hnames hlife
  · obtain ⟨hid, hmove⟩ := hf old hfound
    rw [hid] at hnames
    exact h old (node_some hfound).1 hnames (hmove hlife hnames)

/-- The allocations of a node are those that its own identifier names. -/
theorem allocation_owner (hm : WellFormed m) (ha : a ∈ m.activeAllocations) (hnode : node ∈ m.nodes)
    (hid : a.nodeID = node.nodeID) :
    node.lifecycle = .schedulable ∧ ∀ other ∈ m.nodes, names other.nodeID a.nodeID →
      other = node := by
  have hself : names node.nodeID a.nodeID := by
    rw [hid]
    exact hm.selfNamed.of_mem hnode
  have hunique : ∀ other ∈ m.nodes, names other.nodeID a.nodeID → other = node := by
    intro other hother hnames
    exact node_unique hm.identities hother hnode hnames hself
  obtain ⟨owner, howner, hlife, _⟩ := hm.allocations a ha
  have hfound := node_some howner
  have hsame : owner = node := hunique owner hfound.1 hfound.2
  refine ⟨?_, hunique⟩
  rw [← hsame]
  exact hlife

theorem updateNode_unique (hm : WellFormed m) (hf : ∀ node, (f node).nodeID = node.nodeID)
    (hnode : m.node asked = some node) (hother : other ∈ (m.updateNode asked f).nodes)
    (hnames : names other.nodeID node.nodeID) : other = f node := by
  have hidentities : (identities (m.updateNode asked f)).Nodup := by
    rw [updateNode_identities hf]
    exact hm.identities
  have hmoved : f node ∈ (m.updateNode asked f).nodes := mem_modifyFirst_of_find? hnode
  apply node_unique hidentities hother hmoved hnames
  rw [hf]
  exact hm.selfNamed.of_mem (node_some hnode).1

theorem withholds_of_nodes (hhigh : after.allocationHighWater = m.allocationHighWater)
    (hactive : after.activeAllocations = m.activeAllocations)
    (hparked : ∀ nodeID, Parked m nodeID → Parked after nodeID) : Withholds A m after := by
  refine ⟨hhigh, ?_, ?_, fun nodeID h => .inl (hparked nodeID h)⟩
  · intro a ha
    rwa [hactive] at ha
  · intro a ha
    rw [hactive]
    exact .inl ha

theorem moved_withholds (hm : WellFormed m) (hnode : m.node asked = some node)
    (hmove : LifecycleMove node.lifecycle target)
    (hflag : schedulable = true ↔ target = .schedulable)
    (hadmits : target = .schedulable → A (.markSchedulable asked)) :
    Withholds A m (movedState m asked node target schedulable now) := by
  by_cases hsched : schedulable = true
  · have htarget := hflag.mp hsched
    have hbefore : node.lifecycle ≠ .schedulable := by
      rw [htarget] at hmove
      intro he
      rw [he] at hmove
      cases hmove
    rw [movedState, if_pos hsched]
    refine ⟨rfl, fun _ ha => ha, fun _ ha => .inl ha, ?_⟩
    intro nodeID hparked
    by_cases hnames : names node.nodeID nodeID = true
    · exact .inr ⟨asked, node, hadmits htarget, hnode, hbefore, hnames⟩
    · refine .inl (parked_updateNode ?_ hparked)
      intro found hfound
      rw [hnode] at hfound
      cases hfound
      exact ⟨rfl, fun _ h => absurd h hnames⟩
  · have htarget : target ≠ .schedulable := fun h => hsched (hflag.mpr h)
    rw [movedState, if_neg hsched]
    refine ⟨rfl, fun _ ha => (mem_filter.mp ha).1, ?_, ?_⟩
    · intro a ha
      by_cases hid : a.nodeID = node.nodeID
      · refine .inr ?_
        intro other hother hnames hlife
        rw [hid] at hnames
        have hmoved : other = moveNode target schedulable now node :=
          updateNode_unique hm (fun _ => rfl) hnode hother hnames
        rw [hmoved] at hlife
        exact htarget hlife
      · exact .inl (mem_filter.mpr ⟨ha, by simpa using hid⟩)
    · intro nodeID hparked
      refine .inl (parked_updateNode ?_ hparked)
      intro found _
      exact ⟨rfl, fun h => absurd h htarget⟩

/-- A removed node was draining, so that it held no allocation any more. -/
theorem removed_withholds (hm : WellFormed m) (hnode : m.node asked = some node)
    (hdrain : node.lifecycle = .draining) : Withholds A m (buriedState O m asked node now) := by
  refine ⟨rfl, fun _ ha => (mem_filter.mp ha).1, ?_, ?_⟩
  · intro a ha
    refine .inl (mem_filter.mpr ⟨ha, ?_⟩)
    rw [decide_eq_true_eq]
    intro hid
    have howner := (allocation_owner hm ha (node_some hnode).1 hid).1
    rw [hdrain] at howner
    cases howner
  · intro nodeID hparked
    refine .inl ?_
    intro other hother
    exact hparked other (mem_of_mem_eraseP hother)

theorem effect_withholds (hm : WellFormed m) (h : Effect O A m after) :
    Withholds A m after ∨ ∃ project env allocations now,
      applyAllocationAuthorization O m project env allocations now = .ok after := by
  have hnothing : ∀ {k : MembershipState}, k.allocationHighWater = m.allocationHighWater →
      k.activeAllocations = m.activeAllocations → k.nodes = m.nodes → Withholds A m k := by
    intro k hhigh hactive hnodes
    apply withholds_of_nodes hhigh hactive
    intro nodeID hparked
    unfold Parked
    rw [hnodes]
    exact hparked
  cases h with
  | tokens => exact .inl (hnothing rfl rfl rfl)
  | @enrolled _ request record credentialID now _ _ _ _ =>
    refine .inl (withholds_of_nodes rfl rfl ?_)
    intro nodeID hparked node hnode hnames
    rcases mem_append.mp hnode with hold | hnew
    · have hdescribed : Parked (m.updateNode m.controllerNodeID (request.describeController now))
          nodeID :=
        parked_updateNode (fun _ _ => ⟨rfl, fun h _ => h⟩) hparked
      exact hdescribed node hold hnames
    · rw [mem_singleton.mp hnew]
      intro hlife
      cases hlife
  | node hnode =>
    cases hnode with
    | redescribed hf =>
      refine .inl (withholds_of_nodes rfl rfl ?_)
      intro nodeID hparked
      refine parked_updateNode ?_ hparked
      intro node _
      rw [hf.nodeID, hf.lifecycle]
      exact ⟨rfl, fun h _ => h⟩
    | moved hfound hmove hflag hadmits => exact .inl (moved_withholds hm hfound hmove hflag hadmits)
    | removalPrepared | peersRevoked | removalCompleted => exact .inl (hnothing rfl rfl rfl)
    | removed _ hfound hdrain => exact .inl (removed_withholds hm hfound hdrain)
    | authorized happly => exact .inr ⟨_, _, _, _, happly⟩

/-- An admission finds every record of the node revoked. -/
def RevokedBeforeAdmission (A : Request → Prop) (m : MembershipState) : Prop :=
  ∀ asked node, A (.markSchedulable asked) → m.node asked = some node →
    node.lifecycle ≠ .schedulable →
    ∀ high ∈ m.allocationHighWater, names node.nodeID high.nodeID → high.revoked

structure Carries (A : Request → Prop) (m n : MembershipState) : Prop where
  covered : Covered m → Covered n
  withdrawn : Covered m → ∀ a ∈ m.activeAllocations, (∀ b ∈ n.activeAllocations, ¬SameGrant b a) →
    Blocked n a
  blocked : RevokedBeforeAdmission A m → ∀ a, Blocked m a → Blocked n a

theorem withholds_carries (h : Withholds A m after) : Carries A m after where
  covered hm a ha := by
    rw [h.highWater]
    exact hm a (h.kept a ha)
  withdrawn hm a ha hgone := by
    have hparked : Parked after a.nodeID := by
      rcases h.parks a ha with hkept | hparked
      · exact absurd ⟨rfl, rfl, rfl⟩ (hgone a hkept)
      · exact hparked
    unfold Blocked
    rw [h.highWater]
    refine (hm a ha).mono ?_
    intro high hcovers
    rcases Nat.lt_or_eq_of_le hcovers with hlt | heq
    · exact .inl hlt
    · exact .inr ⟨heq, .inr hparked⟩
  blocked hadmission a hblocked := by
    unfold Blocked
    rw [h.highWater]
    obtain ⟨high, hfound, hrefuses⟩ := hblocked
    refine ⟨high, hfound, hrefuses.mono ?_⟩
    intro hparked
    rcases h.admits a.nodeID hparked with hstill | ⟨asked, node, hasked, hnode, hbefore, hnames⟩
    · exact .inr hstill
    · have hpair : high.nodeID = a.nodeID ∧ high.key = a.key := by
        simpa [isHighWaterOf] using find?_some hfound
      rw [← hpair.1] at hnames
      exact .inl (hadmission asked node hasked hnode hbefore high
        (mem_of_find?_eq_some hfound) hnames)

theorem authorization_carries (hm : WellFormed m)
    (happly : applyAllocationAuthorization O m project env allocations now = .ok after)
    (hvalid : validateHighWater [] after.allocationHighWater = .ok ()) : Carries A m after where
  covered hcovered := authorization_covered hcovered happly hvalid
  withdrawn hcovered _ ha hgone := authorization_blocks hm hcovered happly hvalid ha hgone
  blocked _ a hblocked := by
    have hparked : Parked after a.nodeID ↔ Parked m a.nodeID := by
      obtain ⟨_, _, rfl⟩ := applyAllocationAuthorization_ok happly
      exact Iff.rfl
    unfold Blocked
    rw [propext hparked]
    exact authorization_recorded happly hvalid (lasting_refuses _) hblocked

theorem rewrites_carries (hm : WellFormed m) (h : Rewrites O A m n) : Carries A m n := by
  cases h with
  | @intro after settled checkedAt heffect hsettled _ hvalid =>
    -- the file holds the records and the allocations of the state, and its nodes in order
    have hparked : ∀ nodeID, Parked after nodeID → Parked (sorted settled) nodeID := by
      intro nodeID h node hnode
      rw [hsettled] at hnode
      exact h node (mem_sortBy.mp hnode)
    rw [hsettled] at hparked hvalid ⊢
    have hcarries : Carries A m after := by
      rcases effect_withholds hm heffect with hwithholds | ⟨_, _, _, _, happly⟩
      · exact withholds_carries hwithholds
      · simp only [MembershipState.validate, bind_eq_ok, require_eq_ok] at hvalid
        obtain ⟨_, _, _, _, _, _, _, _, _, hrecords, _⟩ := hvalid
        exact authorization_carries hm happly hrecords
    refine ⟨hcarries.covered, ?_, ?_⟩
    · intro hcovered a ha hgone
      exact (hcarries.withdrawn hcovered a ha hgone).mono fun _ h => h.mono fun hp =>
        .inr (hparked _ hp)
    · intro hadmission a h
      exact (hcarries.blocked hadmission a h).mono fun _ h => h.mono fun hp => .inr (hparked _ hp)

/-- The event `x` found `a` among the active allocations and left no such grant there. -/
def Withdraws (x : Entry) (a : ActiveAllocation) : Prop :=
  ∃ m n, x.file = some m ∧ x.after.files.membership = some n ∧ a ∈ m.activeAllocations ∧
    ∀ b ∈ n.activeAllocations, ¬SameGrant b a

/-- An event that changes the membership admits no node that has a record which is not revoked. -/
def AdmitsRevoked (C : Controller) (s : State) (e : Event) : Prop :=
  match e with
  | .perform (.markSchedulable nodeID) _ _ _ => (next C s e).file ≠ s.file →
    ∀ m ∈ s.file, ∀ node ∈ m.node nodeID, node.lifecycle ≠ .schedulable →
      ∀ high ∈ m.allocationHighWater, names node.nodeID high.nodeID → high.revoked
  | _ => True

instance (s : State) (e : Event) : Decidable (AdmitsRevoked C s e) := by
  unfold AdmitsRevoked
  split <;> infer_instance

theorem revokedBeforeAdmission (h : AdmitsRevoked C s e) (hchanged : (next C s e).file ≠ s.file)
    (hm : s.file = some m) : RevokedBeforeAdmission e.Asks m := by
  intro asked node hasked hnode
  cases e with
  | perform =>
    cases hasked
    exact h hchanged m hm node hnode
  | _ => exact hasked.elim

structure WithdrawalInvariant (s : State) : Prop where
  wellFormed : ∀ m, s.file = some m → WellFormed m
  covered : ∀ m, s.file = some m → Covered m
  withdrawn : ∀ x ∈ s.history, ∀ a, Withdraws x a → ∃ m, s.file = some m ∧ Blocked m a

theorem step_withdrawalInvariant (hs : Invariant C s) (h : WithdrawalInvariant s) (he : Enabled s e)
    (hadmits : AdmitsRevoked C s e) : WithdrawalInvariant (next C s e) := by
  have hstep := next_fileStep hs he
  have hhistory : ∀ x ∈ (next C s e).history, ∀ a, Withdraws x a →
      (∃ m n, s.file = some m ∧ (next C s e).file = some n ∧ a ∈ m.activeAllocations ∧
        ∀ b ∈ n.activeAllocations, ¬SameGrant b a) ∨ ∃ m, s.file = some m ∧ Blocked m a := by
    intro x hx a hw
    rcases mem_cons.mp hx with rfl | hold
    · exact .inl hw
    · exact .inr (h.withdrawn x hold a hw)
  have hrevoked := fun hchanged m (hm : s.file = some m) =>
    revokedBeforeAdmission hadmits hchanged hm
  refine ⟨fileStep_keeps hstep (fun _ => isFirst_wellFormed)
    (fun _ _ => rewrites_wellFormed) h.wellFormed, ?_, ?_⟩
  all_goals
    generalize hfile : s.file = old at hstep hhistory hrevoked
    generalize (next C s e).file = new at hstep hhistory hrevoked ⊢
  · intro n hn
    cases hstep with
    | kept => exact h.covered n (hfile.trans hn)
    | rewritten hrewrites =>
      cases hn
      exact (rewrites_carries (h.wellFormed _ hfile) hrewrites).covered (h.covered _ hfile)
    | created hfirst =>
      cases hn
      obtain ⟨clock, request, receipt, hpersists⟩ := hfirst
      obtain ⟨_, _, _, _, _, _, settled, _, _, hsettles, rfl⟩ := persists_first hpersists
      intro a ha
      rw [hsettles.eq] at ha
      cases ha
  · intro x hx a hw
    cases hstep with
    | kept =>
      rcases hhistory x hx a hw with ⟨m, n, hm, hn, ha, hgone⟩ | hblocked
      · have hsame : m = n := some.inj (hm.symm.trans hn)
        subst hsame
        exact absurd ⟨rfl, rfl, rfl⟩ (hgone a ha)
      · exact hblocked
    | @rewritten m n hrewrites =>
      have hcarries := rewrites_carries (h.wellFormed m hfile) hrewrites
      refine ⟨n, rfl, ?_⟩
      rcases hhistory x hx a hw with ⟨_, _, hm, hn, ha, hgone⟩ | ⟨_, hm, hblocked⟩
      · cases hm
        cases hn
        exact hcarries.withdrawn (h.covered m hfile) a ha hgone
      · cases hm
        by_cases hsame : n = m
        · rwa [hsame]
        · exact hcarries.blocked (hrevoked (fun heq => hsame (some.inj heq)) m rfl) a hblocked
    | created =>
      rcases hhistory x hx a hw with ⟨_, _, hm, _⟩ | ⟨_, hm, _⟩
      · cases hm
      · cases hm

theorem reachable_withdrawalInvariant
    (hr : ((machine C).restrict (AdmitsRevoked C)).Reachable Initial s) :
    WithdrawalInvariant s := by
  refine hr.invariant_with (fun _ h => reachable_invariant h.of_restrict) ?_ ?_
  · intro s hs
    refine ⟨fun m hm => absurd hm (hs.file_ne m), fun m hm => absurd hm (hs.file_ne m), ?_⟩
    intro x hx
    rw [hs.history] at hx
    cases hx
  · rintro s e hs h ⟨he, hadmits⟩
    exact step_withdrawalInvariant hs h he hadmits

/-- An authorization or a preview of `b`, among any others, that succeeds on the file `m`. -/
inductive Accepts (S : Store) (m : MembershipState) (b : ActiveAllocation) : Prop where
  | authorized : b ∈ allocations →
      authorizeAllocations S.oracles project env allocations m now = .ok change → Accepts S m b
  | previewed : b ∈ allocations →
      previewOf S project env allocations m now = .ok candidate → Accepts S m b

theorem Accepts.applied (h : Accepts S m b) : ∃ project env allocations now next,
    b ∈ allocations ∧ applyAllocationAuthorization S.oracles m project env allocations now =
      .ok next := by
  cases h with
  | authorized hb happly =>
    simp only [authorizeAllocations, bind_eq_ok] at happly
    obtain ⟨next, happly, _⟩ := happly
    exact ⟨_, _, _, _, next, hb, happly⟩
  | previewed hb hpreview =>
    simp only [previewOf, bind_eq_ok] at hpreview
    obtain ⟨next, happly, _⟩ := hpreview
    exact ⟨_, _, _, _, next, hb, happly⟩

/-- In a run in which no node is admitted to scheduling while a record of it is not revoked,
nothing accepts a withdrawn allocation, or a lower generation of its node and key. -/
theorem withdrawn_allocation_refused {s : State}
    (hr : ((machine C).restrict (AdmitsRevoked C)).Reachable Initial s) {x : Entry}
    (hx : x ∈ s.history) {a b : ActiveAllocation} (hwithdraws : Withdraws x a) {m : MembershipState}
    (hm : s.file = some m) (hid : b.nodeID = a.nodeID) (hkey : b.key = a.key)
    (hgeneration : b.generation ≤ a.generation) : ¬Accepts C.store m b := by
  obtain ⟨current, hcurrent, hblocked⟩ :=
    (reachable_withdrawalInvariant hr).withdrawn x hx a hwithdraws
  cases hcurrent.symm.trans hm
  intro haccepts
  obtain ⟨_, _, _, _, _, hb, happly⟩ := haccepts.applied
  have hhigher := blocked_refused hblocked happly hb hid hkey
  omega

def demoAuthorize (allocations : List ActiveAllocation) (now : Time) : Event :=
  demoPerform (.authorizeAllocations "shop" "production" allocations) now

def shopAllocation : ActiveAllocation := demoAllocation "shop" 8080 1

def demoEntry (s : State) (e : Event) : Entry :=
  ⟨e, s.handler, s.disk, nextDisk demoAuthority s e, outcome demoAuthority s e⟩

def servingController : State :=
  (machine demoAuthority).runTrace emptyControlPlane
    [demoInitialize, demoAuthorize [shopAllocation] 2]

theorem demoEntry_withdraws (h : (s.file.any fun m => (next demoAuthority s e).file.any fun n =>
      decide (a ∈ m.activeAllocations ∧ ∀ b ∈ n.activeAllocations, ¬SameGrant b a))) :
    Withdraws (demoEntry s e) a := by
  obtain ⟨m, hm, h⟩ := (any_eq_true _ _).mp h
  obtain ⟨n, hn, h⟩ := (any_eq_true _ _).mp h
  exact ⟨m, n, hm, hn, of_decide_eq_true h⟩

/-- The scope omits the allocation; then its node is cordoned and admitted again. -/
def emptiedScope : List Event :=
  [demoAuthorize [] 3, demoPerform (.cordon demoControllerID) 4,
    demoPerform (.markSchedulable demoControllerID) 5]

def emptiedController : State := (machine demoAuthority).runTrace servingController emptiedScope

theorem withdrawn_allocation_refused_omitted :
    Withdraws (demoEntry servingController (demoAuthorize [] 3))
        { shopAllocation with authorizedAt := 2 } ∧
      ∃ m, emptiedController.file = some m ∧ ¬Accepts demoStore m shopAllocation := by
  have hreach : ((machine demoAuthority).restrict (AdmitsRevoked demoAuthority)).Reachable Initial
      emptiedController :=
    .of_trace emptyControlPlane_initial
      ([demoInitialize, demoAuthorize [shopAllocation] 2] ++ emptiedScope) (by decide +kernel)
  have hwithdraws : Withdraws (demoEntry servingController (demoAuthorize [] 3))
      { shopAllocation with authorizedAt := 2 } := demoEntry_withdraws (by decide +kernel)
  have hfile : emptiedController.file.isSome := by decide +kernel
  obtain ⟨m, hm⟩ := isSome_iff_exists.mp hfile
  have hentry : demoEntry servingController (demoAuthorize [] 3) ∈ emptiedController.history :=
    mem_cons_of_mem _ (mem_cons_of_mem _ mem_cons_self)
  exact ⟨hwithdraws, m, hm, withdrawn_allocation_refused hreach hentry hwithdraws hm rfl rfl le_rfl⟩

def performedState : Option (Except String Answer) → Option MembershipState
  | some (.ok (.performed (m, _))) => some m
  | _ => none

theorem performedState_some (h : performedState o = some m) :
    ∃ receipt, o = some (.ok (.performed (m, receipt))) := by
  unfold performedState at h
  split at h
  · rename_i found receipt
    cases h
    exact ⟨receipt, rfl⟩
  · cases h

def readmission : List Event :=
  [demoInitialize, demoAuthorize [shopAllocation] 2, demoPerform (.cordon demoControllerID) 3,
    demoPerform (.markSchedulable demoControllerID) 4]

def readmittedController : State := (machine demoAuthority).runTrace emptyControlPlane readmission

/-- The cordon withdraws the allocation, and the same proof is authorized again. -/
theorem readmitted_node_replays : (machine demoAuthority).Reachable Initial readmittedController ∧
      demoEntry servingController (demoPerform (.cordon demoControllerID) 3) ∈
        readmittedController.history ∧
      Withdraws (demoEntry servingController (demoPerform (.cordon demoControllerID) 3))
        { shopAllocation with authorizedAt := 2 } ∧
      ∃ m receipt, outcome demoAuthority readmittedController (demoAuthorize [shopAllocation] 5) =
          some (.ok (.performed (m, receipt))) ∧
        { shopAllocation with authorizedAt := 5 } ∈ m.activeAllocations := by
  have hreach : (machine demoAuthority).Reachable Initial readmittedController :=
    .of_trace emptyControlPlane_initial readmission (by decide +kernel)
  have hentry : demoEntry servingController (demoPerform (.cordon demoControllerID) 3) ∈
      readmittedController.history := mem_cons_of_mem _ mem_cons_self
  have hwithdraws :
      Withdraws (demoEntry servingController (demoPerform (.cordon demoControllerID) 3))
      { shopAllocation with authorizedAt := 2 } := demoEntry_withdraws (by decide +kernel)
  obtain ⟨m, hm, hactive⟩ := exists_of_any
    (o := performedState (outcome demoAuthority readmittedController
      (demoAuthorize [shopAllocation] 5)))
    (P := ({ shopAllocation with authorizedAt := 5 } ∈ ·.activeAllocations)) (by decide +kernel)
  obtain ⟨receipt, houtcome⟩ := performedState_some hm
  exact ⟨hreach, hentry, hwithdraws, m, receipt, houtcome, hactive⟩

end WithdrawnAllocations
