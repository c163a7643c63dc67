import Tako.AllocationAuthority
import Tako.MembershipEffects
import Tako.Runs

/-! # The control plane of the controller

One machine for the membership, the published inventory and the pending proposal. Every program may
stop between two durable writes, and the server between two sections of a phase. The history
records what each event found, left and answered; it is read by statements only.
-/
namespace ControlPlane

open List
open GoPrelude NodeIdentity DurablePrograms PlatformMembership MembershipStore MembershipEffects
open AllocationAuthority

inductive Event where
  | perform (request : Request) (faults : StoreFaults) (clock : CallClock) (stop : Stop)
  | read (faults : StoreFaults) (stop : Stop)
  | serve (faults : SectionFaults) (issuedAt : Time) (stop : Stop)
  | begin (request : AllocationAuthorizationRequest) (fence : Option OperationFence)
      (faults : SectionFaults) (stop : Stop)
  | resume (faults : SectionFaults) (clock : SectionClock) (stop : Stop)
  | halt

inductive Answer where
  | performed (result : MembershipState × Receipt)
  | state (state : MembershipState)
  | snapshot (snapshot : SignedInventorySnapshot)
  | progress (progress : Progress)
  deriving DecidableEq

/-- No outcome is an event whose process stopped before it answered. -/
structure Entry where
  event : Event
  handler : Option Frame
  (before after : Disk)
  outcome : Option (Except String Answer)

structure State where
  disk : Disk
  handler : Option Frame
  history : List Entry

def State.file (s : State) : Option MembershipState := s.disk.files.membership
def Entry.file (x : Entry) : Option MembershipState := x.before.files.membership

variable (C : Controller)

def program (handler : Option Frame) : Event → Durable Disk Answer
  | .perform request faults clock _ => do
    let result ← onStore (perform C.store faults clock request)
    pure (.performed result)
  | .read faults _ => do
    let m ← onStore (read C.store faults)
    pure (.state m)
  | .serve faults issuedAt _ => do
    let snapshot ← serveInventory C faults issuedAt
    pure (.snapshot snapshot)
  | .begin request fence faults _ => do
    let progress ← beginPhase C faults fence request
    pure (.progress progress)
  | .resume faults clock _ =>
    match handler with
    | some frame => do
      let progress ← continuePhase C faults clock frame
      pure (.progress progress)
    | none => .fail ""
  | .halt => .fail ""

def Event.stop : Event → Stop
  | .perform _ _ _ stop => stop
  | .read _ stop => stop
  | .serve _ _ stop => stop
  | .begin _ _ _ stop => stop
  | .resume _ _ stop => stop
  | .halt => .crashes 0

/-- Phases exclude each other by `proxyAuthorityMu`; nothing else waits for them. -/
def Enabled (s : State) : Event → Prop
  | .begin .. => s.handler = none
  | .resume .. => s.handler ≠ none
  | .halt => s.handler ≠ none
  | _ => True

instance (s : State) (e : Event) : Decidable (Enabled s e) := by
  cases e <;> simp only [Enabled] <;> infer_instance

section

variable (s : State) (e : Event)

def outcome : Option (Except String Answer) := (program C s.handler e).answer s.disk e.stop

/-- Where the phase stands after an event. Operations of the store leave it alone, unless the
server that runs it stops. -/
def nextHandler : Option Frame :=
  match e with
  | .perform .. => s.handler
  | .read .. => s.handler
  | .serve _ _ .returns => s.handler
  | .serve _ _ (.crashes _) => none
  | _ =>
    match outcome C s e with
    | some (.ok (.progress (.paused frame))) => some frame
    | _ => none

def nextDisk : Disk := (program C s.handler e).disk s.disk e.stop

def next : State where
  disk := nextDisk C s e
  handler := nextHandler C s e
  history := ⟨e, s.handler, s.disk, nextDisk C s e, outcome C s e⟩ :: s.history

end

def machine : Runs.Machine State Event := ⟨Enabled, next C⟩

instance (s : State) (e : Event) : Decidable ((machine C).Enabled s e) :=
  inferInstanceAs (Decidable (Enabled s e))

/-- A node before its first membership. Enrolment may have left an inventory without
authority. -/
structure Initial (s : State) : Prop where
  membership : s.file = none
  inventory : ∀ i, s.disk.files.inventory = some i → i.generation = 0 ∧ i.allocationGeneration = 0
  pending : s.disk.pending = none
  handler : s.handler = none
  history : s.history = []

theorem Initial.file_ne (h : Initial s) (m : MembershipState) : s.file ≠ some m := by
    simp [h.membership]

variable {C}

inductive DiskEffect (C : Controller) (handler : Option Frame) (d : Disk) : Disk → Prop where
  | performed : Performed C.store clock request d.files files →
      DiskEffect C handler d { d with files := files }
  | phase : SectionEffect C d handler w → DiskEffect C handler d w

theorem perform_program_holds : Holds (program C handler (.perform request faults clock stop)) d
      (fun w => ∃ files, Performed C.store clock request d.files files ∧
        w = { d with files := files })
      fun a w => ∃ result files, a = .performed result ∧
        Answered C.store clock request d.files result files ∧ w = { d with files := files } := by
  refine holds_bind (holds_onStore (perform_holds.weaken ?_ ?_))
  · intro w hw
    exact ⟨w, hw, rfl⟩
  · intro result w hw
    exact holds_ok ⟨result, w, rfl, hw, rfl⟩

theorem read_program_holds : Holds (program C handler (.read faults stop)) d
      (fun w => ∃ files, Repaired C.store d.files files ∧ w = { d with files := files })
      fun a w => ∃ m files, a = .state m ∧ d.files.membership = some m ∧
        Reconciled C.store m d.files files ∧ w = { d with files := files } := by
  refine holds_bind (holds_onStore (read_holds.weaken ?_ ?_))
  · rintro w ⟨m, hm, hw⟩
    exact ⟨w, .inr ⟨m, hm, hw⟩, rfl⟩
  · rintro m w ⟨hm, hw⟩
    exact holds_ok ⟨m, w, rfl, hm, hw, rfl⟩

theorem serve_program_holds {faults : SectionFaults} :
    Holds (program C handler (.serve faults issuedAt stop)) d
      (fun w => ∃ files, Repaired C.store d.files files ∧ w = { d with files := files })
      fun a w => ∃ m files snapshot, a = .snapshot snapshot ∧ d.files.membership = some m ∧
        Reconciled C.store m d.files files ∧ w = { d with files := files } ∧
        signed C m.inventory issuedAt = .ok snapshot := by
  refine holds_seq serveInventory_holds ?_
  rintro snapshot w ⟨m, files, hm, hfiles, hw, hsigned⟩
  exact holds_ok ⟨m, files, snapshot, rfl, hm, hfiles, hw, hsigned⟩

def Event.IsPhase : Event → Prop
  | .begin .. | .resume .. => True
  | _ => False

theorem phase_program_holds (he : Enabled s e) (hphase : e.IsPhase) :
    Holds (program C s.handler e) s.disk (SectionEffect C s.disk s.handler)
      fun a w => ∃ progress, a = .progress progress ∧
        SectionResult C s.disk s.handler progress w := by
  cases e with
  | begin =>
    have hnone : s.handler = none := he
    rw [hnone]
    refine holds_seq beginPhase_holds ?_
    intro progress w hw
    exact holds_ok ⟨progress, rfl, hw⟩
  | resume =>
    cases hframe : s.handler with
    | none => exact absurd hframe he
    | some =>
      refine holds_seq continuePhase_holds ?_
      intro progress w hw
      exact holds_ok ⟨progress, rfl, hw⟩
  | _ => exact hphase.elim

theorem perform_disk :
    ∃ files, Performed C.store clock request s.disk.files files ∧
      nextDisk C s (.perform request faults clock stop) = { s.disk with files := files } :=
  perform_program_holds.disk ⟨s.disk.files, .untouched, rfl⟩ stop

theorem read_disk (s : State) (faults : StoreFaults) (stop : Stop) :
    ∃ files, Repaired C.store s.disk.files files ∧
      nextDisk C s (.read faults stop) = { s.disk with files := files } :=
  read_program_holds.disk ⟨s.disk.files, .inl rfl, rfl⟩ stop

theorem serve_disk (s : State) (faults : SectionFaults) (issuedAt : Time) (stop : Stop) :
    ∃ files, Repaired C.store s.disk.files files ∧
      nextDisk C s (.serve faults issuedAt stop) = { s.disk with files := files } :=
  serve_program_holds.disk ⟨s.disk.files, .inl rfl, rfl⟩ stop

/-- Every event but an operation of the store is a section of a phase, or does to the disk
what one can do. -/
theorem next_sectionEffect (he : Enabled s e)
    (hother : ∀ request faults clock stop, e ≠ .perform request faults clock stop) :
    SectionEffect C s.disk s.handler (nextDisk C s e) := by
  cases e with
  | perform request faults clock stop => exact absurd rfl (hother request faults clock stop)
  | read faults stop =>
    obtain ⟨files, hfiles, hw⟩ := read_disk s faults stop
    rw [hw]
    exact .repaired hfiles
  | serve faults issuedAt stop =>
    obtain ⟨files, hfiles, hw⟩ := serve_disk s faults issuedAt stop
    rw [hw]
    exact .repaired hfiles
  | begin _ _ _ stop | resume _ _ stop =>
    have h := phase_program_holds (C := C) he trivial
    exact h.disk .refl stop
  | halt => exact .refl

theorem next_diskEffect (he : Enabled s e) : DiskEffect C s.handler s.disk (nextDisk C s e) := by
  cases e with
  | perform =>
    obtain ⟨files, hfiles, hw⟩ := perform_disk
    rw [hw]
    exact .performed hfiles
  | _ => exact .phase (next_sectionEffect he fun _ _ _ _ h => by cases h)

/-- An operation of the store that changes the membership file has persisted its result. -/
theorem perform_persists
    (hchanged : (next C s (.perform request faults clock stop)).file ≠ s.file) :
    ∃ n receipt, (next C s (.perform request faults clock stop)).file = some n ∧
      Persists C.store clock request s.file n receipt := by
  obtain ⟨files, hfiles, hw⟩ := perform_disk
  have hfile : (next C s (.perform request faults clock stop)).file = files.membership := by
    change (nextDisk C s _).files.membership = _
    rw [hw]
  rw [hfile] at hchanged ⊢
  cases hfiles with
  | untouched => exact absurd rfl hchanged
  | repaired _ hrepaired => exact absurd hrepaired.membership_eq hchanged
  | persisted hpersists => exact ⟨_, _, rfl, hpersists⟩
  | published hpersists hpub => exact ⟨_, _, hpub.membership_eq, hpersists⟩

def Grows (old new : Option MembershipState) : Prop :=
  new = old ∨ ∃ n, new = some n ∧ ∀ o, old = some o → Advances o n

theorem Grows.refl (file : Option MembershipState) : Grows file file := .inl rfl

theorem Grows.trans (h : Grows a b) (g : Grows b c) : Grows a c := by
  rcases g with rfl | ⟨n, rfl, hn⟩
  · exact h
  · rcases h with rfl | ⟨k, rfl, hk⟩
    · exact .inr ⟨n, rfl, hn⟩
    · refine .inr ⟨n, rfl, ?_⟩
      intro o ho
      exact (hk o ho).trans (hn k rfl)

theorem Grows.le (h : Grows (some m) (some n)) :
    m.generation ≤ n.generation ∧ m.allocationGeneration ≤ n.allocationGeneration := by
  rcases h with he | ⟨k, hk, hadvances⟩
  · cases he
    exact ⟨le_rfl, le_rfl⟩
  · cases hk
    have h := hadvances m rfl
    exact ⟨h.generation_le, h.allocationGeneration_le⟩

/-- The generations determine the file along a run. -/
theorem Grows.eq_of_le (h : Grows (some m) (some n)) (hg : n.generation ≤ m.generation)
    (ha : n.allocationGeneration ≤ m.allocationGeneration) : n = m := by
  rcases h with he | ⟨k, hk, hadvances⟩
  · exact Option.some.inj he
  · cases hk
    have hlt := (hadvances m rfl).lt
    omega

theorem Grows.antisymm (h : Grows a b) (g : Grows b a) : a = b := by
  rcases h with rfl | ⟨n, rfl, hn⟩
  · rfl
  · cases a with
    | none =>
      rcases g with hc | ⟨_, hc, _⟩
      · exact hc
      · cases hc
    | some =>
      have hle := g.le
      rw [Grows.eq_of_le (.inr ⟨n, rfl, hn⟩) hle.1 hle.2]

def Seen (history : List Entry) (m : MembershipState) : Prop := ∃ x ∈ history, x.file = some m

structure PreviewEntry (C : Controller) (request : AllocationAuthorizationRequest)
    (fence : OperationFence) (current candidate m : MembershipState) (x : Entry) : Prop where
  file : x.file = some m
  base : Grows (some current) (some m)
  scope : checkScope request.project request.environment = .ok ()
  preview : ∃ now, previewOf C.store request.project request.environment request.allocations m now =
    .ok candidate
  outcome :
    x.outcome = some (.ok (.progress (.paused (.previewed request fence current candidate))))

def NormalIDs (ids : List String) : Prop := ∀ id ∈ ids, ∃ raw, id = toLower (trimSpace raw)

structure Proposal (C : Controller) (history : List Entry) (p : PendingAllocationAuthorization) :
    Prop where
  preview : ∃ request fence current candidate m now, (∃ x ∈ history,
      PreviewEntry C request fence current candidate m x) ∧
    candidate.allocationGeneration ≠ current.allocationGeneration ∧
    p.baseGeneration = current.generation ∧
      p.baseAllocationGeneration = current.allocationGeneration ∧
    p.candidate = raiseCandidate current candidate now
  snapshot : p.snapshot.inventory = p.candidate.inventory
  tracked : NormalIDs p.publicationTargetNodeIDs
  acknowledged : ∀ id ∈ p.acknowledgedNodeIDs, id ∈ p.publicationTargetNodeIDs

def FrameFacts (C : Controller) (pending : Option PendingAllocationAuthorization)
    (history : List Entry) :
    Frame → Prop
  | .prepareRead _ _ current => pending = none ∧ Seen history current
  | .previewed request fence current candidate => pending = none ∧
      ∃ m, ∃ x ∈ history, PreviewEntry C request fence current candidate m x
  | .committing p =>
    pending = some p ∧ sameNodeIDSet p.publicationTargetNodeIDs p.acknowledgedNodeIDs
  | .committed p state => pending = some p ∧ state = sorted p.candidate
  | .recovering p current => pending = some p ∧ p.recoverySnapshot = none ∧ Seen history current
  | .recovered p _ => pending = some p ∧ p.recoverySnapshot = none

structure Invariant (C : Controller) (s : State) : Prop where
  persistable : ∀ m, s.file = some m → Persistable m
  seen_persistable : ∀ x ∈ s.history, ∀ m, x.file = some m → Persistable m
  past : ∀ x ∈ s.history, Grows x.file s.file
  order : s.history.Pairwise fun later earlier => Grows earlier.file later.file
  handler : ∀ frame, s.handler = some frame → FrameFacts C s.disk.pending s.history frame
  pending : ∀ p, s.disk.pending = some p → Proposal C s.history p

theorem initial_invariant (h : Initial s) : Invariant C s where
  persistable := by
    intro m hm
    rw [h.membership] at hm
    cases hm
  seen_persistable := by simp [h.history]
  past := by simp [h.history]
  order := by simp [h.history]
  handler := by
    intro frame hf
    rw [h.handler] at hf
    cases hf
  pending := by
    intro p hp
    rw [h.pending] at hp
    cases hp

theorem Seen.mono (h : Seen history m) (x : Entry) : Seen (x :: history) m := by
  obtain ⟨y, hy, he⟩ := h
  exact ⟨y, mem_cons_of_mem _ hy, he⟩

theorem Proposal.mono (h : Proposal C history p) (x : Entry) : Proposal C (x :: history) p := by
  obtain ⟨request, fence, current, candidate, m, now, ⟨y, hy, hpreview⟩, hrest⟩ := h.preview
  exact ⟨⟨request, fence, current, candidate, m, now, ⟨y, mem_cons_of_mem _ hy, hpreview⟩, hrest⟩,
    h.snapshot, h.tracked, h.acknowledged⟩

theorem FrameFacts.mono (h : FrameFacts C pending history frame) (x : Entry) :
    FrameFacts C pending (x :: history) frame := by
  cases frame with
  | prepareRead => exact ⟨h.1, h.2.mono x⟩
  | previewed =>
    obtain ⟨hpend, m, y, hy, hpreview⟩ := h
    exact ⟨hpend, m, y, mem_cons_of_mem _ hy, hpreview⟩
  | committing | committed | recovered => exact h
  | recovering => exact ⟨h.1, h.2.1, h.2.2.mono x⟩

/-- A commit whose base is still current replaces exactly the state that was previewed, by one
with the next allocation generation. -/
theorem commit_base (hs : Invariant C s) (hp : s.disk.pending = some p)
    (hfile : s.file = some current) (hgen : current.generation = p.baseGeneration)
    (halloc : current.allocationGeneration = p.baseAllocationGeneration) :
    ∃ request fence base, ∃ x ∈ s.history, PreviewEntry C request fence base p.candidate current x ∧
      p.candidate.generation = current.generation ∧
      p.candidate.allocationGeneration = current.allocationGeneration + 1 ∧
      p.candidate.clusterID = current.clusterID ∧ current.allocationGeneration + 1 < 2 ^ 64 := by
  obtain ⟨request, fence, base, candidate, m, now, ⟨x, hx, hpreview⟩, hadv, hbg, hba, hcand⟩ :=
    (hs.pending p hp).preview
  have hpast : Grows (some m) (some current) := by
    have h := hs.past x hx
    rwa [hpreview.file, hfile] at h
  have hle := hpreview.base.le
  have hsame : current = m := hpast.eq_of_le (by omega) (by omega)
  subst hsame
  have hpers := hs.persistable current hfile
  obtain ⟨previewedAt, hpreviewOf⟩ := hpreview.preview
  obtain ⟨next, happly, _, ⟨rfl, _⟩ | ⟨hnext, hlt⟩⟩ := previewOf_ok hpers hpreviewOf
  · exact absurd (halloc.trans hba) hadv
  · have hauth := (NodeEffect.authorized (A := fun _ => False) happly).sameAuthority
    have hraise : p.candidate = candidate := by
      rw [hcand, raiseCandidate, if_neg]
      have hsucc : uint64Succ base.allocationGeneration = base.allocationGeneration + 1 := by
        refine Nat.mod_eq_of_lt ?_
        omega
      rw [hnext]
      simp only
      omega
    rw [hraise]
    refine ⟨request, fence, base, x, hx, hpreview, ?_, ?_, ?_, hlt⟩
    · rw [hnext]
      exact hauth.generation
    · rw [hnext]
    · rw [hnext]
      exact hauth.clusterID

theorem recoveryGeneration_lt (hcur : Persistable current)
    (hpos : recoveryGeneration p current ≠ 0) :
    current.allocationGeneration < recoveryGeneration p current ∧
      recoveryGeneration p current < 2 ^ 64 := by
  unfold recoveryGeneration at hpos ⊢
  dsimp only at hpos ⊢
  split_ifs at hpos ⊢ with hlow
  · have hsucc := uint64Succ_eq hpos hcur.allocationGeneration_lt
    exact ⟨by omega, uint64Succ_lt _⟩
  · push Not at hlow
    exact ⟨hlow.1, uint64Succ_lt _⟩

/-- A recovery that gets through replaces the state it read. -/
theorem recovery_base (hs : Invariant C s) (hseen : Seen s.history current)
    (hfile : s.file = some stored) (hgen : stored.generation = current.generation)
    (halloc : stored.allocationGeneration = current.allocationGeneration) : stored = current := by
  obtain ⟨x, hx, hxfile⟩ := hseen
  have hpast := hs.past x hx
  rw [hxfile, hfile] at hpast
  exact hpast.eq_of_le hgen.le halloc.le

def Grown (old new : Option MembershipState) : Prop :=
  Grows old new ∧ ∀ m, new = some m → Persistable m

theorem Grown.write (hn : Persistable n) (hold : ∀ o, old = some o → Advances o n) :
    Grown old (some n) :=
  ⟨.inr ⟨n, rfl, hold⟩, fun _ h => by cases h; exact hn⟩

theorem performed_grows {d files : Files} (hd : ∀ m, d.membership = some m → Persistable m)
    (h : Performed C.store clock request d files) : Grown d.membership files.membership := by
  have hpersists : ∀ m receipt, Persists C.store clock request d.membership m receipt →
      Grown d.membership (some m) := by
    intro m receipt hm
    cases hmemb : d.membership with
    | none =>
      rw [hmemb] at hm
      exact .write (persists_first_persistable hm) fun _ hnone => by cases hnone
    | some before =>
      rw [hmemb] at hm
      obtain ⟨hadvances, hpers⟩ := persists_advances hm (hd before hmemb)
      refine .write hpers ?_
      intro o ho
      cases ho
      exact hadvances
  cases h with
  | untouched => exact ⟨.refl _, hd⟩
  | repaired _ hfiles =>
    rw [hfiles.membership_eq]
    exact ⟨.refl _, hd⟩
  | persisted hm => exact hpersists _ _ hm
  | published hm hfiles =>
    rw [hfiles.membership_eq]
    exact hpersists _ _ hm

theorem committed_grows (hs : Invariant C s) (hp : s.disk.pending = some p)
    (hcommits : Commits C.store p.candidate p.baseGeneration p.baseAllocationGeneration now
      s.disk.files.membership current) : Grown s.file (some (sorted p.candidate)) := by
  have hpers := hs.persistable current hcommits.file_eq
  obtain ⟨_, _, _, x, _, _, hgen, halloc, hcluster, hlt⟩ :=
    commit_base hs hp hcommits.file_eq hcommits.generation_eq hcommits.allocationGeneration_eq
  refine .write (.sorted ⟨?_, ?_, ?_, ?_⟩) ?_
  · rw [hcluster]
    exact hpers.clusterID
  · rw [hgen]
    exact hpers.generation_pos
  · rw [hgen]
    exact hpers.generation_lt
  · rw [halloc]
    exact hlt
  · intro o ho
    cases ho.symm.trans hcommits.file_eq
    exact .sorted ⟨by omega, by omega, by omega⟩

theorem recoveryCommitted_grows (hs : Invariant C s) (hseen : Seen s.history current)
    (hpos : recoveryGeneration p current ≠ 0)
    (hcommits : Commits C.store (recoveryCandidate p current now) current.generation
      current.allocationGeneration checkedAt s.disk.files.membership stored) :
    Grown s.file (some (sorted (recoveryCandidate p current now))) := by
  have hstored := recovery_base hs hseen hcommits.file_eq hcommits.generation_eq
    hcommits.allocationGeneration_eq
  subst hstored
  have hpers := hs.persistable stored hcommits.file_eq
  obtain ⟨hlt, hbound⟩ := recoveryGeneration_lt hpers hpos
  refine .write (.sorted ⟨hpers.clusterID, hpers.generation_pos, hpers.generation_lt, hbound⟩) ?_
  intro o ho
  cases ho.symm.trans hcommits.file_eq
  exact .sorted ⟨le_rfl, hlt.le, .inr hlt⟩

/-- The membership file grows with every event. -/
theorem effect_grows (hs : Invariant C s) (h : DiskEffect C s.handler s.disk w) :
    Grown s.file w.files.membership := by
  cases h with
  | performed hfiles => exact performed_grows hs.persistable hfiles
  | phase hsection =>
    generalize hhandler : s.handler = handler at hsection
    cases hsection with
    | repaired hfiles =>
      rw [hfiles.membership_eq]
      exact ⟨.refl _, hs.persistable⟩
    | tracked | acknowledged | recoveryAcknowledged | finalized | proposed | finished | recovered =>
      exact ⟨.refl _, hs.persistable⟩
    | committed hcommits hfiles =>
      rw [hfiles.membership_eq]
      exact committed_grows hs (hs.handler _ hhandler).1 hcommits
    | recoveryCommitted hpos hcommits hfiles =>
      rw [hfiles.membership_eq]
      exact recoveryCommitted_grows hs (hs.handler _ hhandler).2.2 hpos hcommits

theorem mem_sortStrings_append {id target : String} :
    id ∈ sortStrings (ids ++ [target]) ↔ id ∈ ids ∨ id = target := by
  simp [sortStrings]

theorem containsNodeID_normal (h : NormalIDs ids)
    (hc : containsNodeID ids (toLower (trimSpace raw))) : toLower (trimSpace raw) ∈ ids := by
  obtain ⟨id, hid, hfold⟩ := any_eq_true.mp hc
  obtain ⟨source, rfl⟩ := h id hid
  rw [trimSpace_normal, equalFold_iff_toLower, toLower_toLower, toLower_toLower] at hfold
  rwa [hfold] at hid

theorem section_proposal (hs : Invariant C s) (h : SectionEffect C s.disk s.handler w)
    (hp : w.pending = some p) : Proposal C s.history p := by
  generalize hhandler : s.handler = handler at h
  cases h with
  | repaired | committed | recoveryCommitted => exact hs.pending p hp
  | finalized | finished => cases hp
  | tracked hpend =>
    cases hp
    obtain ⟨hpreview, hsnap, htracked, hacknowledged⟩ := hs.pending _ hpend
    refine ⟨hpreview, hsnap, ?_, ?_⟩
    · intro id hid
      rcases mem_sortStrings_append.mp hid with hid | rfl
      · exact htracked id hid
      · exact ⟨_, rfl⟩
    · intro id hid
      exact mem_sortStrings_append.mpr (.inl (hacknowledged id hid))
  | acknowledged hpend htarget =>
    cases hp
    obtain ⟨hpreview, hsnap, htracked, hacknowledged⟩ := hs.pending _ hpend
    refine ⟨hpreview, hsnap, htracked, ?_⟩
    intro id hid
    rcases mem_sortStrings_append.mp hid with hid | rfl
    · exact hacknowledged id hid
    · exact containsNodeID_normal htracked htarget
  | recoveryAcknowledged hpend =>
    cases hp
    obtain ⟨hpreview, hsnap, htracked, hacknowledged⟩ := hs.pending _ hpend
    exact ⟨hpreview, hsnap, htracked, hacknowledged⟩
  | recovered =>
    cases hp
    obtain ⟨hpreview, hsnap, htracked, hacknowledged⟩ := hs.pending _ (hs.handler _ hhandler).1
    exact ⟨hpreview, hsnap, htracked, hacknowledged⟩
  | proposed hprop =>
    cases hp
    obtain ⟨_, m, x, hx, hentry⟩ := hs.handler _ hhandler
    obtain ⟨hadv, snapshot, hsigned, rfl⟩ := hprop
    refine ⟨⟨_, _, _, _, m, _, ⟨x, hx, hentry⟩, hadv, rfl, rfl, rfl⟩, ?_, ?_, ?_⟩
    · exact signInventorySnapshot_inventory C.store.oracles hsigned
    · simp [NormalIDs, newPending]
    · simp [newPending]

/-- The facts of the frame at which a section pauses; `x` is the entry of that section. -/
theorem pause_facts (hs : Invariant C s) (h : SectionPause C s.disk w s.handler frame)
    (hx : x.file = s.file) (hout : x.outcome = some (.ok (.progress (.paused frame)))) :
    FrameFacts C s.disk.pending (x :: s.history) frame := by
  generalize hhandler : s.handler = handler at h
  cases h with
  | read hm hnone => exact ⟨hnone, x, mem_cons_self, hx.trans hm⟩
  | previewed hm hscope hpreview =>
    obtain ⟨hnone, y, hy, hyfile⟩ := hs.handler _ hhandler
    have hbase := hs.past y hy
    rw [hyfile, State.file, hm] at hbase
    exact ⟨hnone, _, x, mem_cons_self, hx.trans hm, hbase, hscope, ⟨_, hpreview⟩, hout⟩
  | committing hp _ _ _ hsame => exact ⟨hp, hsame⟩
  | committed hcommits _ => exact ⟨(hs.handler _ hhandler).1, rfl⟩
  | recovering hp hrec hm => exact ⟨hp, hrec, x, mem_cons_self, hx.trans hm⟩
  | recovered hpos hcommits _ =>
    obtain ⟨hp, hrec, _⟩ := hs.handler _ hhandler
    exact ⟨hp, hrec⟩

theorem phase_pause (he : Enabled s e) (hphase : e.IsPhase) (h : nextHandler C s e = some frame) :
    outcome C s e = some (.ok (.progress (.paused frame))) ∧
      SectionPause C s.disk (nextDisk C s e) s.handler frame ∧
      (nextDisk C s e).pending = s.disk.pending := by
  have hans : outcome C s e = some (.ok (.progress (.paused frame))) := by
    have hmatch : (match outcome C s e with
        | some (.ok (.progress (.paused frame))) => some frame
        | _ => none) = some frame := by
      cases e with
      | begin | resume => exact h
      | _ => exact hphase.elim
    split at hmatch
    · rename_i found hfound
      cases hmatch
      exact hfound
    · cases hmatch
  obtain ⟨progress, hprogress, _, hres⟩ := (phase_program_holds he hphase).answer hans
  cases hprogress
  exact ⟨hans, hres⟩

section

variable (hs : Invariant C s) (he : Enabled s e)

include hs he

theorem next_frame (h : nextHandler C s e = some frame) :
    FrameFacts C (nextDisk C s e).pending (next C s e).history frame := by
  have hkept : s.handler = some frame → (nextDisk C s e).pending = s.disk.pending →
      FrameFacts C (nextDisk C s e).pending (next C s e).history frame := by
    intro hframe hpend
    rw [hpend]
    exact (hs.handler frame hframe).mono _
  have hpaused : e.IsPhase → FrameFacts C (nextDisk C s e).pending (next C s e).history frame := by
    intro hphase
    obtain ⟨hout, hpause, hpend⟩ := phase_pause he hphase h
    rw [hpend]
    exact pause_facts hs hpause rfl hout
  cases e with
  | perform =>
    obtain ⟨files, _, hdisk⟩ := perform_disk
    exact hkept h (by rw [hdisk])
  | read faults stop =>
    obtain ⟨files, _, hdisk⟩ := read_disk s faults stop
    exact hkept h (by rw [hdisk])
  | serve faults issuedAt stop =>
    obtain ⟨files, _, hdisk⟩ := serve_disk s faults issuedAt stop
    cases stop with
    | returns => exact hkept h (by rw [hdisk])
    | crashes => cases h
  | begin | resume => exact hpaused trivial
  | halt => cases h

theorem next_proposal (hp : (nextDisk C s e).pending = some p) : Proposal C s.history p := by
  have heffect := next_diskEffect (C := C) he
  generalize nextDisk C s e = w at heffect hp
  cases heffect with
  | performed => exact hs.pending p hp
  | phase hsection => exact section_proposal hs hsection hp

theorem step_preserves_invariant : Invariant C (next C s e) := by
  obtain ⟨hgrows, hpers⟩ := effect_grows hs (next_diskEffect he)
  refine ⟨hpers, ?_, ?_, ?_, ?_, ?_⟩
  · exact forall_mem_cons.mpr ⟨hs.persistable, hs.seen_persistable⟩
  · intro x hx
    rcases mem_cons.mp hx with rfl | hx
    · exact hgrows
    · exact (hs.past x hx).trans hgrows
  · exact pairwise_cons.mpr ⟨hs.past, hs.order⟩
  · intro frame
    exact next_frame hs he
  · intro p hp
    exact (next_proposal hs he hp).mono _

end

theorem reachable_invariant (hr : (machine C).Reachable Initial s) : Invariant C s :=
  hr.invariant (fun _ h => initial_invariant h) fun _ _ hs he => step_preserves_invariant hs he

variable {A : Request → Prop}

def IsFirst (C : Controller) (n : MembershipState) : Prop :=
  ∃ clock request receipt, Persists C.store clock request none n receipt

def Event.Asks : Event → Request → Prop
  | .perform request _ _ _ => (· = request)
  | _ => fun _ => False

inductive FileStep (C : Controller) (A : Request → Prop) :
    Option MembershipState → Option MembershipState → Prop where
  | kept : FileStep C A file file
  | rewritten : Rewrites C.store.oracles A m n → FileStep C A (some m) (some n)
  | created : IsFirst C n → FileStep C A none (some n)

theorem persists_fileStep (hfile : ∀ m, file = some m → Persistable m)
    (h : Persists C.store clock request file n receipt) :
    FileStep C (· = request) file (some n) := by
  cases file with
  | none => exact .created ⟨clock, request, receipt, h⟩
  | some m => exact .rewritten (persists_rewrites h (hfile m rfl).clusterID)

theorem performed_fileStep {d files : Files} (hd : ∀ m, d.membership = some m → Persistable m)
    (h : Performed C.store clock request d files) :
    FileStep C (· = request) d.membership files.membership := by
  cases h with
  | untouched => exact .kept
  | repaired _ hfiles =>
    rw [hfiles.membership_eq]
    exact .kept
  | persisted hm => exact persists_fileStep hd hm
  | published hm hfiles =>
    rw [hfiles.membership_eq]
    exact persists_fileStep hd hm

theorem committed_fileStep (hs : Invariant C s) (hp : s.disk.pending = some p)
    (hcommits : Commits C.store p.candidate p.baseGeneration p.baseAllocationGeneration now
      s.disk.files.membership current) : FileStep C A s.file (some (sorted p.candidate)) := by
  have hfile : s.file = some current := hcommits.file_eq
  obtain ⟨_, _, _, x, _, hpreview, _⟩ :=
    commit_base hs hp hfile hcommits.generation_eq hcommits.allocationGeneration_eq
  obtain ⟨previewedAt, hcand⟩ := hpreview.preview
  rw [hfile]
  exact .rewritten (preview_rewrites (hs.persistable current hfile) hcand hcommits.valid)

theorem recoveryCommitted_fileStep (hs : Invariant C s) (hseen : Seen s.history current)
    (hcommits : Commits C.store (recoveryCandidate p current now) current.generation
      current.allocationGeneration checkedAt s.disk.files.membership stored) :
    FileStep C A s.file (some (sorted (recoveryCandidate p current now))) := by
  have hfile : s.file = some stored := hcommits.file_eq
  have hstored := recovery_base hs hseen hfile hcommits.generation_eq
    hcommits.allocationGeneration_eq
  subst hstored
  rw [hfile]
  -- the recovery changes no token: it is the effect that leaves every one of them
  have heffect : Effect C.store.oracles A stored { stored with joinTokens := stored.joinTokens } :=
    .tokens
  exact .rewritten (.intro heffect rfl (List.Sublist.refl _) hcommits.valid)

theorem section_fileStep (hs : Invariant C s) (h : SectionEffect C s.disk s.handler w) :
    FileStep C A s.file w.files.membership := by
  generalize hhandler : s.handler = handler at h
  cases h with
  | repaired hfiles =>
    rw [hfiles.membership_eq]
    exact .kept
  | committed hcommits hfiles =>
    rw [hfiles.membership_eq]
    exact committed_fileStep hs (hs.handler _ hhandler).1 hcommits
  | recoveryCommitted _ hcommits hfiles =>
    rw [hfiles.membership_eq]
    exact recoveryCommitted_fileStep hs (hs.handler _ hhandler).2.2 hcommits
  | _ => exact .kept

theorem next_fileStep (hs : Invariant C s) (he : Enabled s e) :
    FileStep C e.Asks s.file (next C s e).file := by
  cases e with
  | perform =>
    obtain ⟨files, hfiles, hw⟩ := perform_disk
    change FileStep C _ _ (nextDisk C s _).files.membership
    rw [hw]
    exact performed_fileStep hs.persistable hfiles
  | _ => exact section_fileStep hs (next_sectionEffect he fun _ _ _ _ h => by cases h)

def demoStore : Store := ⟨openOracles, "/var/lib/tako/control/membership.json", fun _ => 0⟩

def demoAuthority : AllocationAuthority.Controller :=
  ⟨demoStore, demoInstallation, fun request => request.project, fun _ => "proposal"⟩

def emptyControlPlane : State := ⟨⟨⟨none, none⟩, none⟩, none, []⟩

theorem emptyControlPlane_initial : Initial emptyControlPlane :=
  ⟨rfl, (fun _ h => by cases h), rfl, rfl, rfl⟩

def demoClock (now : Time) : CallClock := ⟨now, now, now, now, now⟩

def demoPerform (request : Request) (now : Time) : Event :=
  .perform request noStoreFaults (demoClock now) .returns

def demoInitialize : Event :=
  demoPerform (.initializeFirstNode demoInstallation "10.0.0.0/24" demoControllerKey
    "10.0.0.1:51820") 1

def demoWorkerID : String := "00000000-0000-4000-8000-000000000002"

def demoEnrollment (reservation : String) : EnrollWorkerRequest where
  reservation := reservation
  nodeID := demoWorkerID
  nodeName := "worker"
  meshIP := "10.0.0.2"
  meshEndpoint := "10.0.0.2:51820"
  sshHost := "10.0.0.2"
  sshPort := 22
  sshUser := "root"
  sshHostKeyType := "ssh-ed25519"
  sshHostKey := "worker-host-key"
  sshHostKeyFingerprint := "worker-fingerprint"
  allocationPublicKey := "worker-key"
  meshPublicKey := "AgICAgICAgICAgICAgICAgICAgICAgICAgICAgICAgI="
  controllerMeshEndpoint := "10.0.0.1:51820"
  controllerSSHHost := "10.0.0.1"
  controllerSSHPort := 22
  controllerSSHUser := "root"
  controllerSSHHostKeyType := "ssh-ed25519"
  controllerSSHHostKey := "controller-host-key"
  controllerSSHHostKeyFingerprint := "controller-fingerprint"

def demoJoin : List Event :=
  [demoInitialize, demoPerform (.createJoinToken demoWorkerID 0 (.ok "token") (.ok "secret")) 2,
    demoPerform (.reserveJoinToken "tako_join_v1.token.secret" demoWorkerID (.ok "reservation")) 3,
    demoPerform (.enrollWorker (demoEnrollment "tako_reserve_v1.token.reservation")) 4,
    demoPerform (.markReady demoWorkerID) 5, demoPerform (.markSchedulable demoWorkerID) 6]

def demoAllocation (project : String) (hostPort : ℤ) (generation : ℕ) : ActiveAllocation where
  kind := "mesh-upstream"
  project := project
  environment := "production"
  service := "web"
  revision := ""
  slot := 1
  hostIP := "10.0.0.1"
  hostPort := hostPort
  containerPort := 80
  key := "mesh-upstream/" ++ project ++ "/production/web/1"
  clusterID := demoClusterID
  nodeID := demoControllerID
  generation := generation
  issuedAt := 1
  operationID := "op-1"
  fenceToken := 1
  signature := "signature"
  authorizedAt := 0

def demoRequest (phase project : String) (allocations : List ActiveAllocation) :
    AllocationAuthorizationRequest :=
  ⟨project, "production", allocations, phase, "allocation-proposal", demoControllerID⟩

def demoOperation : OperationFence :=
  { zeroFence with operationID := "op-1", token := 1, targetNodeIDs := [demoControllerID] }

def demoBegin (request : AllocationAuthorizationRequest) : Event :=
  .begin request (some demoOperation) noSectionFaults .returns

def demoResume (now : Time) : Event := .resume noSectionFaults ⟨now, now, now, now⟩ .returns

def demoPrepare (project : String) (allocations : List ActiveAllocation) (now : Time) :
    List Event :=
  [demoBegin (demoRequest "prepare" project allocations), demoResume now, demoResume now]

end ControlPlane
