import Tako.PlacementApply

/-! # Reviewed movement plans

`validateMovementPlan` compares each listed move with the assignment proposed for its slot. What a
plan proposes for a slot without a move is installed unreviewed.
-/
namespace PlacementMovement

open List GoPrelude GoMaps SliceOrder Scheduler

/-- A move rebinds its slot, except one that waits for its volumes to be migrated. -/
def Movement.apply (move : Movement) (assignment : Assignment) : Assignment :=
  if move.requiresVolumeMigration then assignment
  else { assignment with node := move.toNode, nodeID := move.toNodeID }

section

variable (moves : List Movement) (service : String)

def moveFor (slot : ℤ) : Option Movement :=
  moves.find? fun move => move.service == service && move.slot == slot

def moved (assignment : Assignment) : Assignment :=
  match moveFor moves service assignment.slot with
  | some move => move.apply assignment
  | none => assignment

def applyMoves (current : List Assignment) : List Assignment := current.map (moved moves service)

end

@[simp] theorem Movement.apply_slot (move : Movement) : (move.apply a).slot = a.slot := by
  unfold Movement.apply
  split_ifs <;> rfl

section

variable (moves : List Movement) (service : String)

@[simp] theorem moved_slot : (moved moves service a).slot = a.slot := by
  unfold moved
  split <;> simp

theorem applyMoves_slots (current : List Assignment) :
    (applyMoves moves service current).map Assignment.slot = current.map Assignment.slot := by
  simp [applyMoves, Function.comp_def]

end

variable {services : List MovementServiceProposal}

theorem moveFor_eq_none :
    moveFor moves service slot = none ↔ ∀ move ∈ moves, move.service = service →
      move.slot ≠ slot := by
  simp [moveFor, find?_eq_none]

theorem moveFor_some (h : moveFor moves service slot = some move) :
    move ∈ moves ∧ move.service = service ∧ move.slot = slot := by
  have hmatch := find?_some h
  simp only [Bool.and_eq_true, beq_iff_eq] at hmatch
  exact ⟨mem_of_find?_eq_some h, hmatch⟩

theorem applyMoves_of_unlisted (h : ∀ move ∈ moves, move.service ≠ service)
    (current : List Assignment) : applyMoves moves service current = current := by
  have hmoved : moved moves service = id := by
    funext a
    rw [moved, moveFor_eq_none.mpr fun move hmove hsvc => absurd hsvc (h move hmove)]
    rfl
  rw [applyMoves, hmoved, map_id]

theorem assignmentForSlot_applyMoves :
    assignmentForSlot (applyMoves moves service current) slot =
      (assignmentForSlot current slot).map (moved moves service) := by
  rw [applyMoves, assignmentForSlot, find?_map]
  congr 2
  funext a
  simp

theorem stable_applyMoves_congr (h : stable l = stable m) (hm : (m.map Assignment.slot).Nodup) :
    stable (applyMoves moves service l) = stable (applyMoves moves service m) := by
  have hperm : m.Perm l := (stable_perm m).symm.trans (h ▸ stable_perm l)
  refine (sortBy_eq_of_perm (hperm.map _) ?_).symm
  rw [← applyMoves, applyMoves_slots]
  exact hm

/-- The move is one of its service's slots, and the slot is proposed as the move says. -/
structure Listed (plan : MovementPlan) (move : Movement) : Prop where
  shown : ∃ p ∈ plan.services, p.service = move.service ∧
    ∃ current, assignmentForSlot p.current move.slot = some current ∧
      current.node = move.fromNode ∧ current.nodeID = move.fromNodeID ∧
      assignmentForSlot p.proposed move.slot = some (move.apply current)

theorem proposalFor_some (h : proposalFor services name = some p) :
    p ∈ services ∧ p.service = name := by
  have hname := find?_some h
  exact ⟨mem_of_find?_eq_some h, beq_iff_eq.mp hname⟩

theorem checkMove_listed (h : checkMove key move p = .ok ()) :
    ∃ current, assignmentForSlot p.current move.slot = some current ∧
      current.node = move.fromNode ∧ current.nodeID = move.fromNodeID ∧
      assignmentForSlot p.proposed move.slot = some (move.apply current) := by
  unfold checkMove at h
  split at h
  case h_2 => cases h
  case h_1 current proposed hcur hprop =>
    rw [bind_eq_ok] at h
    obtain ⟨_, hfrom, hto⟩ := h
    rw [require_eq_ok] at hfrom
    refine ⟨current, hcur, hfrom.1, hfrom.2, ?_⟩
    rw [hprop]
    by_cases hblocked : move.requiresVolumeMigration
    · rw [if_pos hblocked, require_eq_ok] at hto
      rw [Movement.apply, if_pos hblocked, hto.2.2]
    · rw [if_neg hblocked, require_eq_ok] at hto
      obtain ⟨-, -, -, hnode, hnodeID⟩ := hto
      rw [Movement.apply, if_neg hblocked]
      have hslots := (assignmentForSlot_slot hprop).2.trans (assignmentForSlot_slot hcur).2.symm
      cases proposed
      cases hslots
      cases hnode
      cases hnodeID
      rfl

theorem checkMoves_listed (h : checkMoves plan seen moves = .ok ()) :
    ∀ move ∈ moves, Listed plan move := by
  induction moves generalizing seen with
  | nil => simp
  | cons move rest ih =>
    cases hfound : proposalFor plan.services move.service with
    | none => simp [checkMoves, hfound] at h
    | some p =>
      simp only [checkMoves, hfound, bind_eq_ok, require_eq_ok, exists_and_left, exists_const] at h
      obtain ⟨-, _, hmove, hrest⟩ := h
      obtain ⟨hp, hname⟩ := proposalFor_some hfound
      exact forall_mem_cons.mpr ⟨⟨p, hp, hname, checkMove_listed hmove⟩, ih hrest⟩

theorem checkMoves_congr (h : plan.services = other.services) (seen : List String)
    (moves : List Movement) : checkMoves plan seen moves = checkMoves other seen moves := by
  induction moves generalizing seen with
  | nil => rfl
  | cons move rest ih => simp only [checkMoves, h, ih]

theorem checkProposals_valid (h : checkProposals seen services = .ok ()) :
    ∀ p ∈ services, Valid p.current ∧ Valid p.proposed := by
  induction services generalizing seen with
  | nil => simp
  | cons p rest ih =>
    simp only [checkProposals, bind_eq_ok, require_eq_ok, wrap_eq_ok, exists_and_left,
      exists_const] at h
    obtain ⟨-, -, _, hcur, _, hprop, hrest⟩ := h
    exact forall_mem_cons.mpr
      ⟨⟨validateAssignments_eq_ok.mp hcur, validateAssignments_eq_ok.mp hprop⟩, ih hrest⟩

structure Accepted (plan : MovementPlan) : Prop where
  distinct : (plan.services.map MovementServiceProposal.service).Nodup
  valid : ∀ p ∈ plan.services, Valid p.current ∧ Valid p.proposed
  listed : ∀ move ∈ plan.moves, Listed plan move

theorem validateMovementPlan_accepted {hash : MovementPlan → String}
    (h : validateMovementPlan hash plan = .ok ()) : Accepted plan := by
  have hdist := validateMovementPlan_nodup h
  simp only [validateMovementPlan, bind_eq_ok, require_eq_ok, exists_and_left, exists_const] at h
  obtain ⟨-, -, -, -, -, -, _, hproposals, _, -, -, hmoves⟩ := h
  exact ⟨hdist, checkProposals_valid hproposals, checkMoves_listed hmoves⟩

/-- Each service is proposed as it is, with exactly the plan's moves applied. -/
def MovesOnly (plan : MovementPlan) : Prop :=
  ∀ p ∈ plan.services, stable p.proposed = stable (applyMoves plan.moves p.service p.current)
  deriving Decidable

/-- A slot that no move names is proposed as it is, and a slot that does not exist is not proposed.
-/
def UnlistedKept (plan : MovementPlan) : Prop :=
  ∀ p ∈ plan.services, ∀ slot, (∀ move ∈ plan.moves, move.service = p.service → move.slot ≠ slot) →
    assignmentForSlot p.proposed slot = assignmentForSlot p.current slot

namespace Accepted

variable {plan : MovementPlan}

variable {p : MovementServiceProposal}

theorem proposed_of_listed (h : Accepted plan) (hp : p ∈ plan.services)
    (hmove : moveFor plan.moves p.service slot = some move) :
    assignmentForSlot p.proposed slot =
      assignmentForSlot (applyMoves plan.moves p.service p.current) slot := by
  obtain ⟨hmem, hsvc, hslot⟩ := moveFor_some hmove
  obtain ⟨q, hq, hname, current, hcur, -, -, hprop⟩ := (h.listed move hmem).shown
  have hpq : q = p := inj_on_of_nodup_map h.distinct hq hp (hname.trans hsvc)
  subst hpq
  rw [hslot] at hcur hprop
  rw [hprop, assignmentForSlot_applyMoves, hcur, Option.map_some, moved,
    (assignmentForSlot_slot hcur).2, hmove]

theorem applied_of_unlisted (hnone : moveFor plan.moves p.service slot = none) :
    assignmentForSlot (applyMoves plan.moves p.service p.current) slot =
      assignmentForSlot p.current slot := by
  rw [assignmentForSlot_applyMoves]
  cases hcur : assignmentForSlot p.current slot with
  | none => rfl
  | some => rw [Option.map_some, moved, (assignmentForSlot_slot hcur).2, hnone]

theorem distinct_applied (h : Accepted plan) (hp : p ∈ plan.services) :
    ((applyMoves plan.moves p.service p.current).map Assignment.slot).Nodup := by
  rw [applyMoves_slots]
  exact (h.valid p hp).1.distinct

theorem movesOnly_iff (h : Accepted plan) : MovesOnly plan ↔ UnlistedKept plan := by
  have hslots : ∀ p ∈ plan.services,
      stable p.proposed = stable (applyMoves plan.moves p.service p.current) ↔
      ∀ slot, assignmentForSlot p.proposed slot =
        assignmentForSlot (applyMoves plan.moves p.service p.current) slot :=
    fun p hp => stable_eq_iff (h.valid p hp).2.distinct (h.distinct_applied hp)
  constructor
  · intro honly p hp slot hunlisted
    rw [(hslots p hp).mp (honly p hp), applied_of_unlisted (moveFor_eq_none.mpr hunlisted)]
  · intro hkept p hp
    rw [hslots p hp]
    intro slot
    cases hmove : moveFor plan.moves p.service slot with
    | some => exact h.proposed_of_listed hp hmove
    | none => rw [applied_of_unlisted hmove, hkept p hp slot (moveFor_eq_none.mp hmove)]

end Accepted

open DeployConfig PlacementApply

theorem applyProposals_current (hnodup : (services.map MovementServiceProposal.service).Nodup)
    (h : services.foldlM (applyProposal false) m = .ok result) :
    ∀ p ∈ services, stable (assignmentsOf m p.service) = stable p.current := by
  induction services generalizing m with
  | nil => simp
  | cons p rest ih =>
    rw [foldlM_cons, bind_eq_ok] at h
    obtain ⟨next, hnext, hrest⟩ := h
    simp only [applyProposal, bind_eq_ok, require_eq_ok, exists_and_left, exists_const,
      Bool.false_eq_true, if_false] at hnext
    obtain ⟨hcur, hnext⟩ := hnext
    cases hnext
    obtain ⟨hfresh, hnodup⟩ := nodup_cons.mp hnodup
    refine forall_mem_cons.mpr ⟨hcur, ?_⟩
    intro q hq
    have hother : q.service ≠ p.service := fun heq => hfresh (heq ▸ mem_map_of_mem hq)
    have hunchanged := ih hnodup hrest q hq
    rwa [assignmentsOf, AList.lookup_insert_ne hother] at hunchanged

/-- A plan is written only if the stored revision has the assignments it was made for. -/
theorem applyPlacementMovement_current
    (h : applyPlacementMovement O now cfg requested controller plan planID desired =
      .ok (some written)) :
    (∃ services, cfg.getServices (trimSpace requested) = .ok services) ∧
      ∀ p ∈ plan.services, stable (assignmentsOf (storedAssignments desired) p.service) =
        stable p.current := by
  simp only [applyPlacementMovement, bind_eq_ok, wrap_eq_ok, require_eq_ok, exists_and_left,
    exists_const] at h
  obtain ⟨-, u, hplan, -, -, -, services, hsvcs, -, ⟨assignments, already⟩, hstate, hwritten⟩ := h
  refine ⟨⟨services, hsvcs⟩, ?_⟩
  cases already with
  | true => simp at hwritten
  | false =>
    simp only [validatePlacementApplyState, bind_eq_ok, require_eq_ok, exists_and_left,
      exists_const] at hstate
    obtain ⟨-, result, hres, hok⟩ := hstate
    have halready := (Prod.mk.inj (Except.ok.inj hok)).2
    rw [halready] at hres
    exact applyProposals_current (validateMovementPlan_nodup hplan) hres

theorem stable_carried (hacc : Accepted plan) (honly : MovesOnly plan) (hcur : ∀ p ∈ plan.services,
      stable (assignmentsOf (storedAssignments desired) p.service) = stable p.current)
        (name : String) :
    stable (carried plan desired name) =
      stable (applyMoves plan.moves name (assignmentsOf (storedAssignments desired) name)) := by
  unfold carried
  cases hfound : proposalFor plan.services name with
  | some p =>
    obtain ⟨hp, rfl⟩ := proposalFor_some hfound
    rw [honly p hp]
    exact (stable_applyMoves_congr (hcur p hp) (hacc.valid p hp).1.distinct).symm
  | none =>
    have hunlisted : ∀ move ∈ plan.moves, move.service ≠ name := by
      intro move hmove hsvc
      obtain ⟨p, hp, hname, -⟩ := (hacc.listed move hmove).shown
      have hnone := find?_eq_none.mp hfound p hp
      exact hnone (beq_iff_eq.mpr (hname.trans hsvc))
    rw [applyMoves_of_unlisted hunlisted, assignmentsOf_stored]

theorem installed_eq (hacc : Accepted plan) (honly : MovesOnly plan)
    (h : applyPlacementMovement O now cfg requested controller plan planID desired =
      .ok (some written))
    (name : String) :
    stable (assignmentsOf (storedAssignments written) name) =
      stable (applyMoves plan.moves name (assignmentsOf (storedAssignments desired) name)) := by
  obtain ⟨⟨services, hsvcs⟩, hcur⟩ := applyPlacementMovement_current h
  obtain ⟨-, assignments, imageRefs, hcarried, hbuilt⟩ := applyPlacementMovement_eq_ok hsvcs h
  have hbuild := build_eq_ok hbuilt name
  rw [hcarried] at hbuild
  have hmoved := stable_carried hacc honly hcur name
  rw [assignmentsOf_stored]
  cases hsvc : services.lookup name with
  | some service =>
    obtain ⟨image, hrec, -⟩ := hbuild.1 service hsvc
    rw [hrec, ← hmoved]
    exact stable_stable _
  | none =>
    have hpreserved : (preservedDesiredServices desired services).lookup name =
        desired.services.lookup name :=
      lookup_preserved services hsvc
    cases hrec : desired.services.lookup name with
    | none =>
      rw [hbuild.2.2 hsvc (hpreserved.trans hrec), assignmentsOf_stored, hrec]
      rfl
    | some record =>
      obtain ⟨kept, hwritten, hkept, -⟩ := hbuild.2.1 hsvc record (hpreserved.trans hrec)
      rw [hwritten, Option.map_some, Option.getD_some]
      by_cases hempty : carried plan desired name = []
      · -- Moves neither add nor drop a slot, so there was nothing stored either.
        have hnone : applyMoves plan.moves name (assignmentsOf (storedAssignments desired) name) =
            [] := by
          rw [hempty] at hmoved
          exact stable_eq_nil.mp hmoved.symm
        have hstored : record.assignments = [] := by
          rw [assignmentsOf_stored, hrec] at hnone
          exact map_eq_nil_iff.mp hnone
        rw [hnone, hkept, hempty, hstored]
        rfl
      · rw [hkept, if_pos fun h => hempty (stable_eq_nil.mp h), stable_stable, hmoved]

/-- An accepted plan proposes exactly its moves if the slots that no move names are proposed as
they are. Applied, such a plan changes the stored assignments by its moves and nothing else. -/
theorem approved_movement_complete (O : Oracles) {plan : MovementPlan}
    (h : validateMovementPlan O.planHash plan = .ok ()) :
    (MovesOnly plan ↔ UnlistedKept plan) ∧
      (UnlistedKept plan → ∀ (now : Time) (cfg : Config) (requested controller planID : String)
          (desired written : DesiredRevision),
        applyPlacementMovement O now cfg requested controller plan planID desired =
          .ok (some written) →
          ∀ name, stable (assignmentsOf (storedAssignments written) name) =
            stable (applyMoves plan.moves name
              (assignmentsOf (storedAssignments desired) name))) := by
  have haccepted := validateMovementPlan_accepted h
  refine ⟨haccepted.movesOnly_iff, ?_⟩
  intro hkept now cfg requested controller planID desired written
  exact installed_eq haccepted (haccepted.movesOnly_iff.mpr hkept)

theorem spread_web_moves_one :
    validateMovementPlan sampleOracles.planHash spreadWeb = .ok () ∧ MovesOnly spreadWeb ∧
      ∃ written, applyPlacementMovement sampleOracles 1 (shop [("web", web)]) "production" "a"
        spreadWeb "sha256:r1"
          stored = .ok (some written) ∧
        stable (assignmentsOf (storedAssignments written) "web") =
          stable (applyMoves spreadWeb.moves "web"
            (assignmentsOf (storedAssignments stored) "web")) := by
  have hvalid : validateMovementPlan sampleOracles.planHash spreadWeb = .ok () := by decide +kernel
  have honly : MovesOnly spreadWeb := by decide +kernel
  obtain ⟨hiff, hinstalled⟩ := approved_movement_complete sampleOracles hvalid
  refine ⟨hvalid, honly, ?_⟩
  obtain ⟨written, happly⟩ := spreadWeb_written
  exact ⟨written, happly, hinstalled (hiff.mp honly) _ _ _ _ _ _ _ happly "web"⟩

/-- The plan lists the move of the first replica only. It also proposes to move the second one, and
to start a third. -/
def unlistedChanges : MovementPlan :=
  { spreadWeb with
    services := [{ service := "web", current := [onNode 1 "a", onNode 2 "a"],
                   proposed := [onNode 1 "b", onNode 2 "b", onNode 3 "b"] }] }

def underDigest (hash : MovementPlan → String) (plan : MovementPlan) : MovementPlan :=
  { plan with planID := movementPlanDigest hash plan }

/-- It is accepted under every digest, and the executor installs all of it. -/
theorem unlisted_changes_installed :
    (∀ hash, validateMovementPlan hash (underDigest hash unlistedChanges) = .ok ()) ∧
      (∀ hash, ¬ MovesOnly (underDigest hash unlistedChanges)) ∧
      ((applyPlacementMovement sampleOracles 1 (shop [("web", web)]) "production" "a"
          (underDigest sampleOracles.planHash unlistedChanges) "sha256:r1" stored).toOption.join.map
            fun written =>
        assignmentsOf (storedAssignments written) "web") =
          some [onNode 1 "b", onNode 2 "b", onNode 3 "b"] := by
  refine ⟨?_, ?_, by decide +kernel⟩
  · intro hash
    have hdigest : movementPlanDigest hash (underDigest hash unlistedChanges) =
        (underDigest hash unlistedChanges).planID := rfl
    have hnamed : (underDigest hash unlistedChanges).planID ≠ "" := by
      simp [underDigest, movementPlanDigest]
    have hversion : unlistedChanges.apiVersion = planAPIVersion ∧
        unlistedChanges.kind = planKind := by decide
    have hmode : Mode.ofText? unlistedChanges.mode ≠ none := by decide
    have hinput : ¬ (unlistedChanges.inputRevisionID = "" ∨
        (unlistedChanges.mode ≠ Mode.rebalance.text ∧ unlistedChanges.targetNode = "")) := by decide
    have hcordon : ¬ (unlistedChanges.mode = Mode.cordon.text ∧
        (unlistedChanges.moves ≠ [] ∨ unlistedChanges.blockers ≠ [])) := by decide
    have hproposals : checkProposals [] unlistedChanges.services = .ok () := by decide +kernel
    have hmoves : checkMoves unlistedChanges [] unlistedChanges.moves = .ok () := by decide +kernel
    simp only [validateMovementPlan, bind_eq_ok, require_eq_ok, exists_and_left, exists_const]
    refine ⟨hversion, hmode, hinput, ⟨hnamed, hdigest.symm⟩, rfl, rfl, (), hproposals, (), rfl,
      hcordon, ?_⟩
    exact (checkMoves_congr rfl _ _).trans hmoves
  · intro hash honly
    have hproposed : ¬ MovesOnly unlistedChanges := by decide +kernel
    exact hproposed honly

end PlacementMovement
