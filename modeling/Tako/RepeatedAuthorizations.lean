import Tako.WithdrawnAllocations

/-! # Repeated allocation authorizations

A request for what its scope already holds. The preview compares rebuilt slices as a whole, so the
place of the scope in the list, the authorization times and a nil slice all count as changes.
-/
namespace RepeatedAuthorizations

open List GoPrelude NodeIdentity SliceOrder PlatformMembership MembershipStore MembershipEffects
open DurablePrograms AllocationAuthority ControlPlane WithdrawnAllocations

variable {m next candidate : MembershipState} {highs highs' : List AllocationHighWater} {now : Time}

def stamp (now : Time) (a : ActiveAllocation) : ActiveAllocation := { a with authorizedAt := now }

section

variable (m : MembershipState) (scope : ActiveAllocation → Bool)

def heldIn : List ActiveAllocation := m.activeAllocations.filter scope

/-- The time of the authorization is not part of what a request asks for. -/
def AsksForActive (allocations : List ActiveAllocation) : Prop :=
  allocations.map (stamp 0) = (heldIn m scope).map (stamp 0)
  deriving Decidable

end

structure Unaffected (m : MembershipState) (scope : ActiveAllocation → Bool) (now : Time) :
    Prop where
  inhabited : m.activeAllocations ≠ []
  last : m.activeAllocations = heldIn m (fun a => !scope a) ++ heldIn m scope
  stamped : ∀ a ∈ heldIn m scope, a.authorizedAt = now
  recorded : ∀ a ∈ heldIn m scope, Recorded m.allocationHighWater a (Covers a.generation)
  ordered : m.allocationHighWater.Pairwise fun a b => highWaterOrder a ≤ highWaterOrder b

theorem AsksForActive.restamped (h : AsksForActive m scope allocations) (now : Time) :
    allocations.map (stamp now) = (heldIn m scope).map (stamp now) := by
  have htwice : ∀ l : List ActiveAllocation,
      (l.map (stamp 0)).map (stamp now) = l.map (stamp now) :=
    fun l => map_map
  rw [← htwice allocations, h, htwice]

theorem exists_sameGrant {l k : List ActiveAllocation} (h : l.map (stamp 0) = k.map (stamp 0))
    (ha : a ∈ k) : ∃ b ∈ l, SameGrant b a := by
  obtain ⟨b, hb, hab⟩ := mem_map.mp (h ▸ mem_map_of_mem ha : stamp 0 a ∈ l.map (stamp 0))
  simp only [stamp, ActiveAllocation.mk.injEq] at hab
  refine ⟨b, hb, ?_⟩
  simp only [SameGrant, hab, and_self]

theorem Recorded.sameGrant (hsame : SameGrant b a) (h : Recorded highs a (Covers a.generation)) :
    Recorded highs b (Covers b.generation) := by
  rwa [Recorded, isHighWaterOf_congr hsame.1 hsame.2.1, hsame.2.2]

theorem revokeOmitted_asked (h : AsksForActive m (inScope project env) allocations) :
    highs.map (revokeOmitted m project env allocations) = highs := by
  refine (map_congr_left fun high _ => if_neg ?_).trans (map_id highs)
  rintro ⟨hactive, homitted⟩
  obtain ⟨a, ha, hboth⟩ := any_eq_true.mp hactive
  simp only [isHighWaterOf, Bool.and_eq_true, decide_eq_true_eq] at hboth
  obtain ⟨b, hb, hid, hkey, _⟩ := exists_sameGrant h (mem_filter.mpr ⟨ha, hboth.2⟩)
  apply homitted
  rw [hboth.1.1, hboth.1.2, ← hid, ← hkey]
  exact mem_map_of_mem hb

theorem authorizeEach_covered
    (h : authorizeEach O m project env seen highs allocations = .ok highs')
    (hcovers : ∀ a ∈ allocations, Recorded highs a (Covers a.generation)) : highs' = highs := by
  induction allocations generalizing seen with
  | nil =>
    cases h
    rfl
  | cons a rest ih =>
    simp only [authorizeEach, bind_eq_ok, require_eq_ok] at h
    obtain ⟨_, _, _, _, raised, hraise, hrest⟩ := h
    obtain ⟨high, hfound, hhigh⟩ := hcovers a mem_cons_self
    simp only [raiseHighWater, hfound, bind_eq_ok, require_eq_ok,
      if_neg (Nat.not_lt.mpr hhigh)] at hraise
    obtain ⟨_, _, _, _, hsame⟩ := hraise
    cases hsame
    exact ih hrest fun b hb => hcovers b (mem_cons_of_mem a hb)

theorem map_stamp_eq_self {l : List ActiveAllocation} :
    l.map (stamp now) = l ↔ ∀ a ∈ l, a.authorizedAt = now := by
  conv_lhs => rhs; rw [← map_id l]
  rw [map_inj_left]
  refine forall₂_congr fun a _ => ⟨fun h => (congrArg ActiveAllocation.authorizedAt h).symm, ?_⟩
  rintro rfl
  rfl

/-- The rebuilt list is the old one when the scope stands last in it with the new stamps. -/
theorem rebuilt_eq_iff (scope : ActiveAllocation → Bool) (now : Time)
    (hscope : ∀ a, scope (stamp now a) = scope a) :
    m.activeAllocations = heldIn m (fun a => !scope a) ++ (heldIn m scope).map (stamp now) ↔
      m.activeAllocations = heldIn m (fun a => !scope a) ++ heldIn m scope ∧
        ∀ a ∈ heldIn m scope, a.authorizedAt = now := by
  rw [← map_stamp_eq_self]
  refine ⟨fun h => ?_, fun ⟨h, hstamped⟩ => hstamped.symm ▸ h⟩
  have hself : (heldIn m scope).map (stamp now) = heldIn m scope := by
    conv_rhs => rw [heldIn, h]
    simp [heldIn, filter_filter, filter_map, Function.comp_def, hscope]
  exact ⟨hself ▸ h, hself⟩

theorem authorization_unchanged_iff
    (happly : applyAllocationAuthorization O m project env allocations now = .ok next)
    (hvalid : validateHighWater [] next.allocationHighWater = .ok ())
    (hasks : AsksForActive m (inScope project env) allocations) :
    allocationsChanged m next true = false ↔ Unaffected m (inScope project env) now := by
  have hcovers := fun b hb => authorization_covers (a := b) happly hvalid hb
  obtain ⟨highs, heach, rfl⟩ := applyAllocationAuthorization_ok happly
  rw [revokeOmitted_asked hasks] at heach
  have hactive := rebuilt_eq_iff (m := m) (inScope project env) now fun _ => rfl
  rw [← hasks.restamped now] at hactive
  simp only [allocationsChanged, decide_eq_false_iff_not, not_or, not_not, true_and]
  constructor
  · rintro ⟨hrebuilt, hinhabited, hhigh⟩
    obtain ⟨hlast, hstamped⟩ := hactive.mp hrebuilt
    refine ⟨hinhabited, hlast, hstamped, fun a ha => ?_, ?_⟩
    · obtain ⟨b, hb, hid, hkey, hgen⟩ := exists_sameGrant hasks ha
      rw [hhigh]
      exact Recorded.sameGrant ⟨hid.symm, hkey.symm, hgen.symm⟩ (hcovers b hb)
    · rw [hhigh]
      exact sortBy_pairwise _ _
  · rintro ⟨hinhabited, hlast, hstamped, hrec, hordered⟩
    refine ⟨hactive.mpr ⟨hlast, hstamped⟩, hinhabited, ?_⟩
    have hsame : highs = m.allocationHighWater := by
      apply authorizeEach_covered heach
      intro b hb
      obtain ⟨a, ha, hid, hkey, hgen⟩ := exists_sameGrant (Eq.symm hasks) hb
      exact Recorded.sameGrant ⟨hid.symm, hkey.symm, hgen.symm⟩ (hrec a ha)
    rw [hsame]
    exact hordered.insertionSort_eq.symm

theorem prepareStore_unadvanced (h : candidate.allocationGeneration = m.allocationGeneration)
    (stop : Stop) : (prepareStore C faults clock request fence m candidate).disk d stop = d := by
  unfold prepareStore
  rw [if_pos h]
  exact (holds_guard fun _ _ => holds_ok trivial : Holds _ d (· = d) fun _ _ => True).disk rfl stop

theorem advance_unchanged_iff (h : advanceAllocationGeneration m true next = .ok candidate)
    (hkept : next.allocationGeneration = m.allocationGeneration) :
    candidate.allocationHighWater = next.allocationHighWater ∧
      (candidate.allocationGeneration = m.allocationGeneration ↔
        allocationsChanged m next true = false) := by
  have hnext : ∀ n, uint64Succ n ≠ n := by
    intro n
    unfold uint64Succ
    omega
  unfold advanceAllocationGeneration at h
  split_ifs at h with hchanged
  · simp only [bind_eq_ok, require_eq_ok, Except.ok.injEq] at h
    obtain ⟨_, _, rfl⟩ := h
    simp [hchanged, hkept, hnext]
  · cases h
    simp [hchanged, hkept]

/-- A repeated request leaves the generation and writes no proposal just where the rebuilt slices
are the old ones. -/
theorem repeated_request_unaffected_iff (request : AllocationAuthorizationRequest)
    (hpreview : previewOf C.store request.project request.environment request.allocations m now =
      .ok candidate)
    (hasks : AsksForActive m (inScope (trimSpace request.project) (trimSpace request.environment))
      request.allocations) :
    (candidate.allocationGeneration = m.allocationGeneration ∧ ∀ faults clock fence d stop,
      (prepareStore C faults clock request fence m candidate).disk d stop = d) ↔
      Unaffected m (inScope (trimSpace request.project) (trimSpace request.environment)) now := by
  simp only [previewOf, bind_eq_ok, Except.ok.injEq] at hpreview
  obtain ⟨next, happly, advanced, hadvanced, _, hvalid, hcandidate⟩ := hpreview
  have hkept : next.allocationGeneration = m.allocationGeneration := by
    obtain ⟨_, _, rfl⟩ := applyAllocationAuthorization_ok happly
    rfl
  obtain ⟨hhigh, hgeneration⟩ := advance_unchanged_iff hadvanced hkept
  have hsettled : candidate.allocationHighWater = next.allocationHighWater ∧
      candidate.allocationGeneration = advanced.allocationGeneration := by
    subst hcandidate
    split_ifs
    · exact ⟨hhigh, rfl⟩
    · exact ⟨hhigh, rfl⟩
  rw [hcandidate] at hvalid
  simp only [MembershipState.validate, bind_eq_ok, require_eq_ok, hsettled.1] at hvalid
  obtain ⟨_, _, _, _, _, _, _, _, _, hrecords, _⟩ := hvalid
  rw [← authorization_unchanged_iff happly hrecords hasks, ← hgeneration, ← hsettled.2]
  exact ⟨And.left, fun hsame => ⟨hsame, fun _ _ _ _ => prepareStore_unadvanced hsame⟩⟩

def previewOfNothing (m : MembershipState) : Except String MembershipState :=
  previewOf demoStore "blog" "production" [] m 3

theorem other_scope_unaffected : ∃ m candidate, servingController.file = some m ∧
    previewOfNothing m = .ok candidate ∧
      candidate.allocationGeneration = m.allocationGeneration := by
  obtain ⟨m, hm, hheld, hpreview, hinhabited, hlast, hordered⟩ :=
    exists_of_any (o := servingController.file)
    (P := fun m => heldIn m (inScope "blog" "production") = [] ∧
      (previewOfNothing m).toOption.isSome ∧
      m.activeAllocations ≠ [] ∧ m.activeAllocations =
        heldIn m (fun a => !inScope "blog" "production" a) ++ [] ∧
      m.allocationHighWater.Pairwise fun a b => highWaterOrder a ≤ highWaterOrder b)
        (by decide +kernel)
  obtain ⟨candidate, hcandidate⟩ := exists_ok hpreview
  refine ⟨m, candidate, hm, hcandidate, ((repeated_request_unaffected_iff (C := demoAuthority)
    (demoRequest "prepare" "blog" []) hcandidate (congrArg (map (stamp 0)) hheld.symm)).mpr ?_).1⟩
  change Unaffected m (inScope "blog" "production") 3
  rw [← hheld] at hlast
  exact ⟨hinhabited, hlast, by simp [hheld], by simp [hheld], hordered⟩

/-- The rebuilt list of an empty scope is not nil, so on a fresh membership it counts as a change.
-/
theorem empty_request_advances : ∃ m candidate,
    ((machine demoAuthority).runTrace emptyControlPlane [demoInitialize]).file = some m ∧
    AsksForActive m (inScope "blog" "production") [] ∧ previewOfNothing m = .ok candidate ∧
    candidate.allocationGeneration ≠ m.allocationGeneration := by
  obtain ⟨m, hm, hasked, hany⟩ := exists_of_any
    (o := ((machine demoAuthority).runTrace emptyControlPlane [demoInitialize]).file)
    (P := fun m => AsksForActive m (inScope "blog" "production") [] ∧
      (previewOfNothing m).toOption.any fun candidate =>
      decide (candidate.allocationGeneration ≠ m.allocationGeneration)) (by decide +kernel)
  obtain ⟨candidate, hcandidate, hadvanced⟩ := exists_ok_of_any hany
  exact ⟨m, candidate, hm, hasked, hcandidate, hadvanced⟩

end RepeatedAuthorizations
