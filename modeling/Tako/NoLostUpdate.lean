import Tako.ControlPlane

/-! # No lost update in allocation authorization

The commit of a proposal compares two counters and no content. Every event that changes the
membership file advances one of them and sets back neither.
-/
namespace NoLostUpdate

open List
open GoPrelude NodeIdentity PlatformMembership MembershipStore MembershipEffects AllocationAuthority
open ControlPlane

section

variable (C : Controller) (s : State) (e : Event) (p : PendingAllocationAuthorization)

def CommitsProposal : Prop :=
  s.handler = some (.committing p) ∧ (∃ faults clock stop, e = .resume faults clock stop) ∧
    ((next C s e).file ≠ s.file ∨
      ∃ state, outcome C s e = some (.ok (.progress (.paused (.committed p state)))))

def CommitsRecovery (current : MembershipState) : Prop :=
  s.handler = some (.recovering p current) ∧ (∃ faults clock stop, e = .resume faults clock stop) ∧
    ((next C s e).file ≠ s.file ∨
      ∃ state, outcome C s e = some (.ok (.progress (.paused (.recovered p state)))))

end

def UnchangedSincePreview (C : Controller) (history : List Entry) (candidate m : MembershipState) :
    Prop :=
  ∃ later x earlier request fence base, history = later ++ x :: earlier ∧
    PreviewEntry C request fence base candidate m x ∧ ∀ y ∈ later, y.file = some m

variable {id : String}

/-- A section that stands at `committing p` and writes the membership has passed the comparison. -/
theorem committing_effect (h : SectionEffect C d (some (.committing p)) w)
    (hchanged : w.files.membership ≠ d.files.membership) :
    (∃ now current, Commits C.store p.candidate p.baseGeneration p.baseAllocationGeneration now
      d.files.membership current) ∧ w.files.membership = some (sorted p.candidate) := by
  cases h with
  | repaired hfiles => exact absurd hfiles.membership_eq hchanged
  | committed hcommits hfiles => exact ⟨⟨_, _, hcommits⟩, hfiles.membership_eq⟩

/-- A resumed section has an effect on the disk of the next state, and reports where it pauses. -/
theorem resumed (he : Enabled s e) (hhandler : s.handler = some frame)
    (hresume : ∃ faults clock stop, e = .resume faults clock stop) :
    SectionEffect C s.disk (some frame) (nextDisk C s e) ∧
      ∀ next, outcome C s e = some (.ok (.progress (.paused next))) →
        SectionPause C s.disk (nextDisk C s e) (some frame) next := by
  obtain ⟨faults, clock, stop, rfl⟩ := hresume
  have hholds := phase_program_holds (C := C) he trivial
  rw [← hhandler]
  refine ⟨hholds.disk .refl stop, ?_⟩
  intro next hout
  obtain ⟨progress, hprogress, _, hres⟩ := hholds.answer hout
  cases hprogress
  exact hres.1

theorem commitsProposal_commits (he : Enabled s e) (h : CommitsProposal C s e p) :
    (∃ now current, Commits C.store p.candidate p.baseGeneration p.baseAllocationGeneration now
      s.file current) ∧ (next C s e).file = some (sorted p.candidate) := by
  obtain ⟨hhandler, hresume, hchanged | ⟨state, hout⟩⟩ := h
  · exact committing_effect (resumed he hhandler hresume).1 hchanged
  · have hpause := (resumed he hhandler hresume).2 _ hout
    cases hpause with
    | committed hcommits hfile => exact ⟨⟨_, _, hcommits⟩, hfile⟩

theorem recovering_effect (h : SectionEffect C d (some (.recovering p current)) w)
    (hchanged : w.files.membership ≠ d.files.membership) :
    ∃ now checkedAt stored, Commits C.store (recoveryCandidate p current now) current.generation
        current.allocationGeneration checkedAt d.files.membership stored ∧
      w.files.membership = some (sorted (recoveryCandidate p current now)) := by
  cases h with
  | repaired hfiles => exact absurd hfiles.membership_eq hchanged
  | recoveryCommitted _ hcommits hfiles => exact ⟨_, _, _, hcommits, hfiles.membership_eq⟩

theorem commitsRecovery_commits (he : Enabled s e) (h : CommitsRecovery C s e p current) :
    ∃ now checkedAt stored, Commits C.store (recoveryCandidate p current now) current.generation
        current.allocationGeneration checkedAt s.file stored ∧
      (next C s e).file = some (sorted (recoveryCandidate p current now)) := by
  obtain ⟨hhandler, hresume, hchanged | ⟨state, hout⟩⟩ := h
  · exact recovering_effect (resumed he hhandler hresume).1 hchanged
  · have hpause := (resumed he hhandler hresume).2 _ hout
    cases hpause with
    | recovered _ hcommits hfile => exact ⟨_, _, _, hcommits, hfile⟩

/-- The file of every event between a preview and a state with the previewed file is that file. -/
theorem unchanged_since (hs : Invariant C s) (hx : x ∈ s.history)
    (hpreview : PreviewEntry C request fence base candidate m x) (hfile : s.file = some m) :
    UnchangedSincePreview C s.history candidate m := by
  obtain ⟨later, earlier, hsplit⟩ := append_of_mem hx
  refine ⟨later, x, earlier, request, fence, base, hsplit, hpreview, ?_⟩
  intro y hy
  have horder := hs.order
  rw [hsplit] at horder
  have hxy := (pairwise_append.mp horder).2.2 y hy x mem_cons_self
  have hys : Grows y.file s.file := by
    apply hs.past
    rw [hsplit]
    exact mem_append_left _ hy
  rw [hpreview.file] at hxy
  rw [hfile] at hys
  exact (hxy.antisymm hys).symm

theorem sameNodeIDSet_cons (h : sameNodeIDSet (a :: l) (b :: r)) :
    equalFold (trimSpace a) (trimSpace b) ∧ sameNodeIDSet l r := by
  simp only [sameNodeIDSet, length_cons, Nat.add_right_cancel_iff, zip_cons_cons, all_cons,
    Bool.and_eq_true, decide_eq_true_eq] at h ⊢
  exact ⟨h.2.1, h.1, h.2.2⟩

/-- On node IDs in normal form the comparison by position is equality. -/
theorem sameNodeIDSet_normal (hl : NormalIDs left) (hr : NormalIDs right)
    (h : sameNodeIDSet left right) : left = right := by
  induction left generalizing right with
  | nil =>
    cases right with
    | nil => rfl
    | cons => simp [sameNodeIDSet] at h
  | cons a l ih =>
    cases right with
    | nil => simp [sameNodeIDSet] at h
    | cons b =>
      obtain ⟨hhead, htail⟩ := sameNodeIDSet_cons h
      obtain ⟨rawA, rfl⟩ := hl a mem_cons_self
      obtain ⟨rawB, rfl⟩ := hr b mem_cons_self
      have hrest := ih (fun id hid => hl id (mem_cons_of_mem _ hid))
        (fun id hid => hr id (mem_cons_of_mem _ hid)) htail
      have hcontains : containsNodeID [toLower (trimSpace rawA)] (toLower (trimSpace rawB)) := by
        rw [trimSpace_normal rawB] at hhead
        simpa [containsNodeID] using hhead
      have hequal := containsNodeID_normal (fun id hid => ⟨rawA, mem_singleton.mp hid⟩) hcontains
      rw [mem_singleton.mp hequal, hrest]

theorem all_acknowledged (hs : Invariant C s) (hhandler : s.handler = some (.committing p)) :
    ∀ id ∈ p.publicationTargetNodeIDs, id ∈ p.acknowledgedNodeIDs := by
  obtain ⟨hpend, hsame⟩ := hs.handler _ hhandler
  have hprop := hs.pending p hpend
  have hnormal : NormalIDs p.acknowledgedNodeIDs := by
    intro id hid
    exact hprop.tracked id (hprop.acknowledged id hid)
  have hequal := sameNodeIDSet_normal hprop.tracked hnormal hsame
  intro id hid
  rwa [← hequal]

/-- The event recorded that the node acknowledged the proposal: it found the proposal pending
with the same snapshot and without the acknowledgement, and left it with the acknowledgement. -/
structure RecordsAcknowledgement (p : PendingAllocationAuthorization) (id : String) (x : Entry) :
    Prop where
  found : ∃ q, x.before.pending = some q ∧ q.proposalID = p.proposalID ∧ q.snapshot = p.snapshot ∧
    id ∉ q.acknowledgedNodeIDs
  left : ∃ q, x.after.pending = some q ∧ q.proposalID = p.proposalID ∧ q.snapshot = p.snapshot ∧
    id ∈ q.acknowledgedNodeIDs

def AcknowledgementsRecorded (s : State) : Prop :=
  ∀ p, s.disk.pending = some p → ∀ id ∈ p.acknowledgedNodeIDs, ∃ x ∈ s.history,
    RecordsAcknowledgement p id x

theorem phase_acknowledged (h : SectionEffect C d frame w)
    (hrecovered : ∀ p candidate, frame = some (.recovered p candidate) → d.pending = some p)
    (hp : w.pending = some p) (hid : id ∈ p.acknowledgedNodeIDs) :
    ∃ q, d.pending = some q ∧ q.proposalID = p.proposalID ∧ q.snapshot = p.snapshot := by
  cases h with
  | repaired | committed | recoveryCommitted => exact ⟨p, hp, rfl, rfl⟩
  | tracked hpend | acknowledged hpend | recoveryAcknowledged hpend =>
    cases hp; exact ⟨_, hpend, rfl, rfl⟩
  | finalized | finished => cases hp
  | proposed hprop =>
    cases hp
    obtain ⟨snapshot, _, rfl⟩ := hprop.signed
    cases hid
  | recovered => cases hp; exact ⟨_, hrecovered _ _ rfl, rfl, rfl⟩

theorem effect_acknowledged (hs : Invariant C s) (h : DiskEffect C s.handler s.disk w)
    (hp : w.pending = some p) (hid : id ∈ p.acknowledgedNodeIDs) :
    ∃ q, s.disk.pending = some q ∧ q.proposalID = p.proposalID ∧ q.snapshot = p.snapshot := by
  cases h with
  | performed => exact ⟨p, hp, rfl, rfl⟩
  | phase hphase =>
    refine phase_acknowledged hphase ?_ hp hid
    intro q candidate hframe
    exact (hs.handler _ hframe).1

theorem step_acknowledgementsRecorded (he : Enabled s e) (hs : Invariant C s)
    (h : AcknowledgementsRecorded s) : AcknowledgementsRecorded (next C s e) := by
  intro p hp id hid
  obtain ⟨q, hq, hprop, hsnap⟩ := effect_acknowledged hs (next_diskEffect he) hp hid
  by_cases hknown : id ∈ q.acknowledgedNodeIDs
  · obtain ⟨x, hx, hrecords⟩ := h q hq id hknown
    refine ⟨x, mem_cons_of_mem _ hx, ?_⟩
    constructor
    · rw [← hprop, ← hsnap]
      exact hrecords.found
    · rw [← hprop, ← hsnap]
      exact hrecords.left
  · exact ⟨_, mem_cons_self, ⟨q, hq, hprop, hsnap, hknown⟩, ⟨p, hp, rfl, rfl, hid⟩⟩

theorem reachable_acknowledgementsRecorded (hr : (machine C).Reachable Initial s) :
    AcknowledgementsRecorded s := by
  refine hr.invariant_with (fun _ => reachable_invariant) ?_ ?_
  · intro s hs p hp
    rw [hs.pending] at hp
    cases hp
  · exact fun s e hs hacks he => step_acknowledgementsRecorded he hs hacks

/-- In every reachable state: an event that changes the membership file advances it; a commit
replaces the very state its proposal was previewed from, by the allocations of the snapshot
that every tracked target has acknowledged; a recovery replaces the very state it read; and
only tracked targets have acknowledged. -/
theorem no_lost_update {s : State} (hr : (machine C).Reachable Initial s) :
    (∀ e, Enabled s e → (next C s e).file ≠ s.file →
      ∃ n, (next C s e).file = some n ∧ ∀ m, s.file = some m → Advances m n) ∧
    (∀ e p, Enabled s e → CommitsProposal C s e p → ∃ m, s.file = some m ∧
      UnchangedSincePreview C s.history p.candidate m ∧
      s.disk.pending = some p ∧
      (∀ id ∈ p.publicationTargetNodeIDs, ∃ x ∈ s.history, RecordsAcknowledgement p id x) ∧
      ∃ n, (next C s e).file = some n ∧
        n.activeAllocations = p.snapshot.inventory.activeAllocations) ∧
    (∀ e p current, Enabled s e → CommitsRecovery C s e p current → s.file = some current ∧
      ∃ n, (next C s e).file = some n ∧ n.activeAllocations = current.activeAllocations) ∧
    (∀ p, s.disk.pending = some p → ∀ id ∈ p.acknowledgedNodeIDs,
      id ∈ p.publicationTargetNodeIDs) := by
  have hs := reachable_invariant hr
  refine ⟨?_, ?_, ?_, ?_⟩
  · intro e he hchanged
    rcases (effect_grows hs (next_diskEffect he)).1 with hsame | hadvances
    · exact absurd hsame hchanged
    · exact hadvances
  · intro e p he hcommit
    obtain ⟨⟨now, current, hcommits⟩, hfile⟩ := commitsProposal_commits he hcommit
    have hpending := (hs.handler _ hcommit.1).1
    obtain ⟨request, fence, base, x, hx, hpreview, _⟩ :=
      commit_base hs hpending hcommits.file_eq hcommits.generation_eq
        hcommits.allocationGeneration_eq
    refine ⟨current, hcommits.file_eq, unchanged_since hs hx hpreview hcommits.file_eq, hpending,
      ?_, _, hfile, ?_⟩
    · intro id hid
      exact reachable_acknowledgementsRecorded hr p hpending id
        (all_acknowledged hs hcommit.1 id hid)
    · have hsnapshot := (hs.pending p hpending).snapshot
      rw [hsnapshot]
      rfl
  · intro e p current he hcommit
    obtain ⟨now, checkedAt, stored, hcommits, hfile⟩ := commitsRecovery_commits he hcommit
    have hseen := (hs.handler _ hcommit.1).2.2
    have hstored := recovery_base hs hseen hcommits.file_eq hcommits.generation_eq
      hcommits.allocationGeneration_eq
    rw [← hstored]
    rw [← hstored] at hfile
    exact ⟨hcommits.file_eq, _, hfile, rfl⟩
  · intro p hp
    exact (hs.pending p hp).acknowledged

def acknowledgedTrace : List Event :=
  demoInitialize :: demoPrepare "demo" [demoAllocation "demo" 8080 1] 2 ++
    [demoBegin (demoRequest "track" "demo" []), demoBegin (demoRequest "ack" "demo" []),
      demoBegin (demoRequest "commit" "demo" [])]

def acknowledgedProposal : State :=
  (machine demoAuthority).runTrace emptyControlPlane acknowledgedTrace

/-- The commit puts the proposed allocation where the state of the preview was. -/
theorem no_lost_update_committed : ∃ p,
    CommitsProposal demoAuthority acknowledgedProposal (demoResume 3) p ∧
      p.publicationTargetNodeIDs = [demoControllerID] ∧
      p.snapshot.inventory.activeAllocations.map (·.hostPort) = [8080] ∧
      ∃ m, acknowledgedProposal.file = some m ∧
        UnchangedSincePreview demoAuthority acknowledgedProposal.history p.candidate m ∧
        ∃ x ∈ acknowledgedProposal.history, RecordsAcknowledgement p demoControllerID x := by
  have hreach : (machine demoAuthority).Reachable Initial acknowledgedProposal :=
    .of_trace emptyControlPlane_initial acknowledgedTrace (by decide +kernel)
  have hframe : acknowledgedProposal.handler =
      acknowledgedProposal.disk.pending.map Frame.committing := by
    decide +kernel
  obtain ⟨p, hp, htargets, hports⟩ := exists_of_any (o := acknowledgedProposal.disk.pending)
    (P := fun p => p.publicationTargetNodeIDs = [demoControllerID] ∧
      p.snapshot.inventory.activeAllocations.map (·.hostPort) = [8080]) (by decide +kernel)
  rw [hp] at hframe
  have hchanged : (next demoAuthority acknowledgedProposal (demoResume 3)).file ≠
      acknowledgedProposal.file := by
    decide +kernel
  have hcommits : CommitsProposal demoAuthority acknowledgedProposal (demoResume 3) p :=
    ⟨hframe, ⟨_, _, _, rfl⟩, .inl hchanged⟩
  obtain ⟨m, hm, hunchanged, _, hacks, _⟩ :=
    (no_lost_update hreach).2.1 (demoResume 3) p (by decide +kernel) hcommits
  refine ⟨p, hcommits, htargets, hports, m, hm, hunchanged, hacks demoControllerID ?_⟩
  rw [htargets]
  exact mem_singleton_self _

/-- No membership comes back: its counters tell the file from every earlier one of the run. -/
theorem membership_never_returns (hr : (machine C).Reachable Initial s) :
    ∀ x ∈ s.history, ∀ m ∈ x.file, ∀ n ∈ s.file, n = m ∨ Advances m n := by
  intro x hx m hm n hn
  have hgrows := (reachable_invariant hr).past x hx
  rw [hm, hn] at hgrows
  rcases hgrows with hsame | ⟨_, hsome, hadvances⟩
  · exact .inl (Option.some.inj hsame)
  · cases hsome
    exact .inr (hadvances m rfl)

theorem membership_never_returns_acknowledged :
    (∃ x ∈ acknowledgedProposal.history, x.file.isSome ∧ acknowledgedProposal.file.isSome) ∧
      ∀ x ∈ acknowledgedProposal.history, ∀ m ∈ x.file, ∀ n ∈ acknowledgedProposal.file, n = m ∨
        Advances m n :=
  ⟨by decide +kernel,
    membership_never_returns (.of_trace emptyControlPlane_initial acknowledgedTrace
      (by decide +kernel))⟩

end NoLostUpdate
