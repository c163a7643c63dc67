import Tako.OperationEngine

/-! # The invariant of the operation engine

What an event does is said once, as the durable writes it may make and what it leaves of the
goroutines.
-/
namespace OperationEngine

open List GoPrelude GoMaps DurablePrograms OperationStore Runs World Option

/-- A record that may not be replayed is in the log at most once, and is then not queued. -/
def Once (P : Platform) (log : List ℕ) (d : Disk) : Prop :=
  ∀ t spec, d.accepted[t]? = some spec → NotReplaySafe P spec →
    log.count t ≤ 1 ∧ (t ∈ log → ∀ file, d.Live t file → file.status ≠ .queued)

def Permitted (P : Platform) (s : World) : Record → Record → Prop := fun before after =>
  (after.status = .queued → NotReplaySafe P before.spec → before.ticket ∉ s.dispatches) ∧
    (s.process = none → before.status = .running → NotReplaySafe P before.spec →
      after.status = .ambiguous)

def Linked (s : World) : Event → OperationSpec → Prop
  | .enqueue _ request _ | .openStream _ _ request _ => Links s.disk request
  | _ => NoLinks

variable {task : Task} {p : Process}

theorem NotReplaySafe.congr (h : NotReplaySafe P spec) (hkind : spec'.kind = spec.kind)
    (hpayload : spec'.payload = spec.payload) : NotReplaySafe P spec' := by
  unfold NotReplaySafe at *
  rw [hkind, hpayload]
  exact h

variable {L : OperationSpec → Prop} {A : Record → Record → Prop} {d w : Disk}

section

variable (h : Once P log d) (hd : WellFormed d) (hlog : ∀ t ∈ log, t < d.accepted.length)
  (hA : ∀ before after, A before after → after.status = .queued → NotReplaySafe P before.spec →
  before.ticket ∉ log)

include h hd hlog hA

theorem Once.write (hw : Write L A d w) : Once P log w := by
  intro t spec hspec hsingle
  by_cases ht : t ∈ log
  · obtain ⟨more, hmore⟩ := hw.accepted
    rw [hmore, getElem?_append_left (hlog t ht)] at hspec
    obtain ⟨hcount, hqueued⟩ := h t spec hspec hsingle
    refine ⟨hcount, ?_⟩
    rintro - file ⟨name, hfound, hticket⟩ hstatus
    rcases hw.origin hfound with hbefore | ⟨hnew, -⟩ | ⟨before, hbefore, hcont, hallowed⟩
    · exact hqueued ht file ⟨name, hbefore, hticket⟩ hstatus
    · have hlt := hlog t ht
      omega
    · have hsame := hcont.ticket.symm.trans hticket
      obtain ⟨spec', hspec', -, -, hkind, hpayload⟩ := hd.queue hbefore
      rw [hsame, hspec] at hspec'
      cases hspec'
      exact hA _ _ hallowed hstatus (hsingle.congr hkind hpayload) (hsame ▸ ht)
  · exact ⟨by rw [count_eq_zero_of_not_mem ht]; omega, fun hlogged => absurd hlogged ht⟩

theorem Once.writes (hw : Writes L A d w) : Once P log w := by
  induction hw with
  | refl => exact h
  | tail hpre hstep ih =>
    refine ih.write (hd.writes hpre) ?_ hA hstep
    intro t ht
    obtain ⟨more, hmore⟩ := Writes.accepted_grows hpre
    rw [hmore, length_append]
    exact Nat.lt_add_right _ (hlog t ht)

end

def Stage.status : Stage → Status
  | .opened => .queued
  | .claimed | .dispatched | .settled => .running

theorem Stage.status_alive (stage : Stage) : stage.status.terminal = false := by cases stage <;> rfl

structure Tracks (P : Platform) (s : World) (task : Task) : Prop where
  known : ∃ spec, s.disk.accepted[task.ticket]? = some spec ∧ spec.id = task.spec.id ∧
    spec.kind = task.spec.kind ∧ spec.payload = task.spec.payload
  role : task.role = .worker ↔ task.spec.kind ≠ streamKind
  held : task.stage ≠ .settled → ∃ file, s.disk.queue.lookup task.spec.id = some file ∧
    file.ticket = task.ticket ∧ file.status = task.stage.status
  waiting : task.stage = .opened ∨ task.stage = .claimed → NotReplaySafe P task.spec →
    task.ticket ∉ s.dispatches

structure Invariant (P : Platform) (s : World) : Prop where
  wellFormed : WellFormed s.disk
  logged : ∀ t ∈ s.dispatches, t < s.disk.accepted.length
  once : Once P s.dispatches s.disk
  tracks : ∀ p, s.process = some p → ∀ task ∈ p.tasks, Tracks P s task
  distinct : ∀ p, s.process = some p → (p.tasks.map fun task => task.ticket).Nodup

theorem invariant_fresh (h : Fresh s) : Invariant P s := by
  cases h
  constructor
  case wellFormed => exact wellFormed_empty
  case logged => exact fun t ht => by cases ht
  case once => exact fun t spec hspec => by simp at hspec
  case tracks => exact fun p hp => by cases hp
  case distinct => exact fun p hp => by cases hp

variable {s : World}

theorem Tracks.alive (h : Tracks P s task) (hstage : task.stage ≠ .settled) :
    ∃ file, s.disk.queue.lookup task.spec.id = some file ∧ file.ticket = task.ticket ∧
      file.status.terminal = false := by
  obtain ⟨file, hfound, hticket, hstatus⟩ := h.held hstage
  exact ⟨file, hfound, hticket, hstatus ▸ task.stage.status_alive⟩

theorem Tracks.keep (h : Tracks P s task) (hlog : u.dispatches = s.dispatches)
    (hw : Writes L A s.disk u.disk)
    (hA : task.stage ≠ .settled → ∀ file, s.disk.queue.lookup task.spec.id = some file →
      file.ticket = task.ticket →
      file.status = task.stage.status → ∀ after, ¬ A file.toRecord after) : Tracks P u task := by
  constructor
  case known =>
    obtain ⟨spec, hspec, hrest⟩ := h.known
    exact ⟨spec, hw.getElem?_accepted hspec, hrest⟩
  case role => exact h.role
  case held =>
    intro hstage
    obtain ⟨file, hfound, hticket, hstatus⟩ := h.held hstage
    refine ⟨file, hw.keeps hfound ?_ (hA hstage file hfound hticket hstatus), hticket, hstatus⟩
    rw [hstatus]
    exact task.stage.status_alive
  case waiting =>
    rw [hlog]
    exact h.waiting

theorem taskAt_eq_some :
    s.taskAt index = some task ↔ ∃ p, s.process = some p ∧ p.tasks[index]? = some task := by
  simp [taskAt, bind_eq_some_iff]

theorem taskAt_any {f : Task → Bool} (h : (s.taskAt index).any f) :
    ∃ p task, s.process = some p ∧ p.tasks[index]? = some task ∧ s.taskAt index = some task ∧
      f task := by
  obtain ⟨task, hat, hf⟩ := (any_eq_true _ _).mp h
  obtain ⟨p, hp, htask⟩ := taskAt_eq_some.mp hat
  exact ⟨p, task, hp, htask, hat, hf⟩

theorem Tracks.file_spec (h : Tracks P s task) (hs : Invariant P s) {id : String}
    (found : s.disk.queue.lookup id = some file) (hticket : file.ticket = task.ticket) :
    file.spec.id = task.spec.id ∧ file.spec.kind = task.spec.kind ∧
      file.spec.payload = task.spec.payload := by
  obtain ⟨spec, hspec, hid, hkind, hpayload⟩ := h.known
  obtain ⟨spec', hspec', hid', hfile, hkind', hpayload'⟩ := hs.wellFormed.queue found
  rw [hticket, hspec] at hspec'
  cases hspec'
  exact ⟨hfile.trans (hid'.symm.trans hid), hkind'.trans hkind, hpayload'.trans hpayload⟩

/-- A goroutine puts its record back into the queue only if it did not dispatch it or may replay it.
-/
def MayPersist (P : Platform) (task : Task) (status : Status) : Prop :=
  status = .queued → task.stage ≠ .dispatched ∨ planReplaySafe P task.spec

theorem mayPersist_of_terminal (status : Status) (h : status.terminal) :
    MayPersist P task status := by
  rintro rfl
  cases h

section Persist

variable (found : d.queue.lookup task.spec.id = some file) (alive : file.status.terminal = false)
include found alive

theorem holds_persistWorker :
    Holds (persistWorker P c cancelled task outcome) d
      (Writes L (Replaces file (MayPersist P task)) d)
      fun _ _ => True := by
  unfold persistWorker
  cases outcome.error with
  | none => exact holds_complete found alive mayPersist_of_terminal
  | some =>
    dsimp only
    by_cases hstage : task.stage ≠ .dispatched
    · rw [if_pos hstage]
      split
      · exact holds_requeue found alive fun _ => .inl hstage
      · exact holds_complete found alive mayPersist_of_terminal
    · rw [if_neg hstage]
      by_cases hsafe : planReplaySafe P task.spec
      · split
        · exact holds_requeue found alive fun _ => .inr hsafe
        · exact holds_complete found alive mayPersist_of_terminal
      · split
        · exact holds_markAmbiguous found alive (mayPersist_of_terminal _ rfl)
        · exact holds_markAmbiguous found alive (mayPersist_of_terminal _ rfl)

theorem holds_persistStream :
    Holds (persistStream P c noun task outcome) d (Writes L (Replaces file (MayPersist P task)) d)
      fun _ _ => True := by
  unfold persistStream
  cases outcome.error with
  | none => exact holds_complete found alive mayPersist_of_terminal
  | some =>
    dsimp only
    split
    · exact holds_complete found alive mayPersist_of_terminal
    · exact holds_markAmbiguous found alive (mayPersist_of_terminal _ rfl)

theorem holds_persist :
    Holds (persist P c cancelled task outcome) d (Writes L (Replaces file (MayPersist P task)) d)
      fun _ _ => True := by
  unfold persist
  cases task.role with
  | worker => exact holds_persistWorker found alive
  | stream | upgrade => exact holds_persistStream found alive

end Persist

theorem planReplaySafe_false (h : NotReplaySafe P spec) : planReplaySafe P spec = false := by
  obtain ⟨plan, hplan, hsafe⟩ := h
  simp [planReplaySafe, hplan, hsafe]

theorem recoveredStatus_ambiguous (hplan : P.plan kind payload = .ok plan)
    (hsafe : plan.replaySafe = false) : recoveredStatus P kind payload = .ambiguous := by
  rw [recoveredStatus, hplan]
  simp [hsafe]

theorem permitted_of_recovers {after : Record} (h : Recovers P before after) :
    Permitted P s before after := by
  rcases h with ⟨hqueued, hfailed⟩ | ⟨hrunning, hstatus⟩
  · constructor
    · intro hafter
      rw [hfailed] at hafter
      cases hafter
    · intro _ hrunning
      rw [hqueued] at hrunning
      cases hrunning
  · constructor
    · rintro hafter ⟨plan, hplan, hsafe⟩
      rw [hstatus, recoveredStatus_ambiguous hplan hsafe] at hafter
      cases hafter
    · rintro - - ⟨plan, hplan, hsafe⟩
      rw [hstatus, recoveredStatus_ambiguous hplan hsafe]

theorem permitted_of_running {after : Record} (hp : s.process = some p)
    (hstatus : after.status = .running) : Permitted P s before after := by
  constructor
  · intro hafter
    rw [hstatus] at hafter
    cases hafter
  · intro hnone
    rw [hp] at hnone
    cases hnone

theorem permitted_of_persist (hs : Invariant P s) {outcome : Outcome} (hp : s.process = some p)
    (htracks : Tracks P s task) (hyields : yields P task outcome)
    (found : s.disk.queue.lookup task.spec.id = some file) (hticket : file.ticket = task.ticket)
    {after : Record} (h : Replaces file (MayPersist P task) before after) :
    Permitted P s before after := by
  obtain ⟨rfl, hmay⟩ := h
  obtain ⟨-, hkind, hpayload⟩ := htracks.file_spec hs found hticket
  constructor
  · intro hqueued hsingle
    have hsingle' := hsingle.congr hkind.symm hpayload.symm
    rcases hmay hqueued with hstage | hsafe
    · have hclaimed : task.stage = .claimed := by
        cases hs : task.stage with
        | claimed => rfl
        | dispatched => exact absurd hs hstage
        | opened | settled => simp [yields, hs] at hyields
      have hnot := htracks.waiting (.inr hclaimed) hsingle'
      rw [← hticket] at hnot
      exact hnot
    · rw [planReplaySafe_false hsingle'] at hsafe
      cases hsafe
  · intro hnone
    rw [hp] at hnone
    cases hnone

theorem stage_ne_settled (h : yields P task outcome) : task.stage ≠ .settled := by
  intro hstage
  simp [yields, hstage] at h

structure Tracked (P : Platform) (u : World) (p : Process) : Prop where
  tracks : ∀ task ∈ p.tasks, Tracks P u task
  distinct : (p.tasks.map fun task => task.ticket).Nodup

structure Effect (P : Platform) (s : World) (e : Event) (u : World) : Prop where
  writes : Writes (Linked s e) (Permitted P s) s.disk u.disk
  tracked : ∀ p, u.process = some p → Tracked P u p

theorem Invariant.of_effect (h : Invariant P s) (heffect : Effect P s e u)
    (hlog : u.dispatches = s.dispatches) : Invariant P u := by
  constructor
  case wellFormed => exact h.wellFormed.writes heffect.writes
  case logged =>
    intro t ht
    rw [hlog] at ht
    obtain ⟨more, hmore⟩ := heffect.writes.accepted_grows
    rw [hmore, length_append]
    exact Nat.lt_add_right _ (h.logged t ht)
  case once =>
    rw [hlog]
    exact h.once.writes h.wellFormed h.logged (fun before after hA => hA.1) heffect.writes
  case tracks => exact fun p hp => (heffect.tracked p hp).tracks
  case distinct => exact fun p hp => (heffect.tracked p hp).distinct

theorem Invariant.tracked (hs : Invariant P s) (hp : s.process = some p) : Tracked P s p :=
  ⟨hs.tracks p hp, hs.distinct p hp⟩

theorem Tracked.keep (h : Tracked P s p) (hlog : u.dispatches = s.dispatches)
    (hw : Writes L NoReplacements s.disk u.disk) : Tracked P u p :=
  ⟨fun task htask => (h.tracks task htask).keep hlog hw fun _ _ _ _ _ _ hA => hA, h.distinct⟩

theorem Tracked.ticket_ne (h : Tracked P s p) {i j : ℕ} (hi : p.tasks[i]? = some task)
    (hj : p.tasks[j]? = some other) (hij : i ≠ j) : other.ticket ≠ task.ticket := by
  intro heq
  have hlt := (List.getElem?_eq_some_iff.mp hi).1
  refine hij ((List.getElem?_inj (by simpa using hlt) h.distinct).mp ?_)
  simp [hi, hj, heq]

theorem setStage_tickets (htask : p.tasks[index]? = some task) :
    ((p.setStage index task stage).tasks.map fun task => task.ticket) = p.tasks.map fun task =>
      task.ticket := by
  apply ext_getElem?
  intro j
  by_cases hj : index = j
  · subst hj
    obtain ⟨hlt, rfl⟩ := List.getElem?_eq_some_iff.mp htask
    simp [Process.setStage, hlt]
  · simp [Process.setStage, getElem?_set_ne hj]

/-- One goroutine has its turn; the others keep what they rely on. -/
theorem Tracked.setStage (h : Tracked P s p) (stage : Stage) (htask : p.tasks[index]? = some task)
    (hnew : Tracks P u { task with stage := stage })
    (hothers : ∀ other ∈ p.tasks, other.ticket ≠ task.ticket → Tracks P u other) :
    Tracked P u (p.setStage index task stage) := by
  refine ⟨?_, by rw [setStage_tickets htask]; exact h.distinct⟩
  intro other hother
  obtain ⟨j, hj⟩ := mem_iff_getElem?.mp hother
  rw [Process.setStage] at hj
  by_cases hindex : index = j
  · subst hindex
    have hlt := (List.getElem?_eq_some_iff.mp htask).1
    rw [getElem?_set_self hlt] at hj
    cases hj
    exact hnew
  · rw [getElem?_set_ne hindex] at hj
    exact hothers other (mem_of_getElem? hj) (h.ticket_ne htask hj hindex)

theorem Tracked.others (h : Tracked P s p) (hlog : u.dispatches = s.dispatches) {S : Status → Prop}
    (hticket : file.ticket = task.ticket) (hw : Writes L (Replaces file S) s.disk u.disk) :
    ∀ other ∈ p.tasks, other.ticket ≠ task.ticket → Tracks P u other := by
  intro other hother hne
  refine (h.tracks other hother).keep hlog hw ?_
  rintro - found - hfound - after ⟨heq, -⟩
  apply hne
  rw [← hfound, ← hticket]
  exact congrArg Record.ticket heq

theorem Tracks.settle (h : Tracks P s task) (hw : Writes L A s.disk u.disk) :
    Tracks P u { task with stage := .settled } := by
  constructor
  case known =>
    obtain ⟨spec, hspec, hrest⟩ := h.known
    exact ⟨spec, hw.getElem?_accepted hspec, hrest⟩
  case role => exact h.role
  case held => exact fun hstage => absurd rfl hstage
  case waiting => rintro (hstage | hstage) <;> cases hstage

theorem effect_start : Effect P s (.start sweep stop) (s.next P (.start sweep stop)) := by
  constructor
  case writes =>
    refine (Holds.disk holds_recoverIncomplete .refl stop :
      Writes NoLinks (Recovers P) s.disk _).mono ?_ ?_
    · exact fun _ hl => hl
    · exact fun _ _ hA => permitted_of_recovers hA
  case tracked =>
    intro p hp
    have hnone : p.tasks = [] := by
      simp only [World.next] at hp
      split at hp
      · cases hp
        rfl
      · cases hp
    exact ⟨by simp [hnone], by simp [hnone]⟩

theorem effect_enqueue (hs : Invariant P s) :
    Effect P s (.enqueue c request stop) (s.next P (.enqueue c request stop)) := by
  have hw : Writes (Links s.disk request) NoReplacements s.disk
      (s.next P (.enqueue c request stop)).disk :=
    (holds_enqueue request).disk .refl stop
  constructor
  case writes => exact hw.mono (fun _ hl => hl) fun _ _ hA => hA.elim
  case tracked =>
    intro p hp
    simp only [World.next, bind_eq_some_iff] at hp
    obtain ⟨-, -, hp⟩ := hp
    exact (hs.tracked hp).keep rfl hw

theorem tracks_claimed (hs : Invariant P s) (hlog : u.dispatches = s.dispatches)
    (hw : Writes L A s.disk u.disk) (h : Claimed inFlight record s.disk u.disk) :
    Tracks P u (.ofRecord record) := by
  obtain ⟨file, hfound, hcont, hqueued⟩ := h.before
  obtain ⟨spec, hspec, hid, hfile, hkind, hpayload⟩ := hs.wellFormed.queue hfound
  have hkind' := hcont.kind.trans hkind
  have hpayload' := hcont.payload.trans hpayload
  constructor
  case known =>
    refine ⟨spec, hw.getElem?_accepted ?_, hid, hkind'.symm, hpayload'.symm⟩
    rw [← hspec]
    exact congrArg (fun t => s.disk.accepted[t]?) hcont.ticket
  case role => exact iff_of_true rfl h.kind
  case held =>
    intro _
    obtain ⟨after, hafter, rfl⟩ := h.after
    exact ⟨after, hafter, rfl, h.running⟩
  case waiting =>
    rintro - hsingle hlogged
    rw [hlog] at hlogged
    have hsame : (Task.ofRecord record).ticket = file.ticket := hcont.ticket
    rw [hsame] at hlogged
    exact (hs.once _ spec hspec (hsingle.congr hkind'.symm hpayload'.symm)).2 hlogged file
      ⟨_, hfound, rfl⟩ hqueued

theorem claimed_ticket (hs : Invariant P s) (hp : s.process = some p) {record : Record}
    (h : Claimed p.inFlight record s.disk w) : ∀ task ∈ p.tasks, task.ticket ≠ record.ticket := by
  intro task htask heq
  obtain ⟨file, hfound, hcont, -⟩ := h.before
  have htracks := hs.tracks p hp task htask
  obtain ⟨hid, hkind, -⟩ := htracks.file_spec hs hfound (hcont.ticket.symm.trans heq.symm)
  have hworker : task.role = .worker := by
    rw [htracks.role, ← hkind, ← hcont.kind]
    exact h.kind
  apply h.free
  rw [hcont.id, hid]
  exact mem_map.mpr ⟨task, mem_filter.mpr ⟨htask, by simp [hworker]⟩, rfl⟩

theorem Tracked.append (h : ∀ other ∈ p.tasks, Tracks P u other)
    (hdist : (p.tasks.map fun task => task.ticket).Nodup) (hnew : Tracks P u task)
    (hticket : ∀ other ∈ p.tasks, other.ticket ≠ task.ticket) :
    Tracked P u { p with tasks := p.tasks ++ [task] } := by
  constructor
  · exact forall_mem_append.mpr ⟨h, forall_mem_singleton.mpr hnew⟩
  · rw [map_append, nodup_append]
    refine ⟨hdist, nodup_singleton _, ?_⟩
    intro a ha b hb heq
    obtain ⟨other, hother, rfl⟩ := mem_map.mp ha
    rw [map_singleton, mem_singleton] at hb
    exact hticket other hother (heq.trans hb)

/-- The process runs a program; `f` is what the answer makes of its goroutines. -/
theorem effect_program (prog : Durable Disk α) (stop : Stop) {Q : α → Disk → Prop}
    {f : Except String α → Process} (hholds : Holds prog s.disk (Writes (Linked s e) A s.disk) Q)
    (hA : ∀ before after, A before after → Permitted P s before after)
      (hdisk : u.disk = prog.disk s.disk stop)
    (hprocess : u.process = (prog.answer s.disk stop).map f)
    (htracked : Writes (Linked s e) A s.disk u.disk → ∀ answer, (∀ a, answer = .ok a → Q a u.disk) →
      Tracked P u (f answer)) : Effect P s e u := by
  have hw : Writes (Linked s e) A s.disk u.disk := by
    rw [hdisk]
    exact hholds.disk .refl stop
  refine ⟨hw.mono (fun _ hl => hl) hA, ?_⟩
  intro p hp
  rw [hprocess] at hp
  obtain ⟨answer, hans, rfl⟩ := map_eq_some_iff.mp hp
  refine htracked hw answer ?_
  rintro a rfl
  rw [hdisk]
  exact hholds.answer hans

theorem next_dispatches (h : ∀ index, e ≠ .dispatch index) :
    (s.next P e).dispatches = s.dispatches := by
  cases e with
  | dispatch index => exact absurd rfl (h index)
  | start | crash | cancel | finish | enqueue | release => rfl
  | claim | openStream | beginStream | settle =>
    simp only [World.next]
    split <;> rfl

section

variable (hs : Invariant P s) (hp : s.process = some p)

include hs hp

theorem effect_claim : Effect P s (.claim sweep stop) (s.next P (.claim sweep stop)) := by
  have htracked := hs.tracked hp
  have hlog := next_dispatches (P := P) (s := s) (e := .claim sweep stop) (by simp)
  refine effect_program (claimNext sweep p.inFlight) stop holds_claimNext
    (fun _ _ hA => permitted_of_running hp hA.2.2.2) (by simp only [World.next, hp])
      (by simp only [World.next, hp]; rfl) ?_
  intro hw answer hclaimed
  have hkeep : ∀ task ∈ p.tasks, Tracks P (s.next P (.claim sweep stop)) task := by
    intro task htask
    have htracks := htracked.tracks task htask
    refine htracks.keep hlog hw ?_
    rintro - file hfound hticket - after ⟨-, hkind, hfree, -⟩
    obtain ⟨hid, hfilekind, -⟩ := htracks.file_spec hs hfound hticket
    apply hfree
    have hworker := htracks.role.mpr (by rw [← hfilekind]; exact hkind)
    exact mem_map.mpr ⟨task, mem_filter.mpr ⟨htask, by simp [hworker]⟩, hid.symm⟩
  cases answer with
  | error => exact ⟨hkeep, htracked.distinct⟩
  | ok found =>
    cases found with
    | none => exact ⟨hkeep, htracked.distinct⟩
    | some record =>
      have hclaimed := hclaimed _ rfl record rfl
      exact Tracked.append hkeep htracked.distinct (tracks_claimed hs hlog hw hclaimed)
        (claimed_ticket hs hp hclaimed)

theorem effect_openStream (hrole : role ≠ .worker) :
    Effect P s (.openStream c role request stop) (s.next P (.openStream c role request stop)) := by
  have htracked := hs.tracked hp
  have hlog := next_dispatches (P := P) (s := s) (e := .openStream c role request stop) (by simp)
  refine effect_program (openExternal P c request) stop (holds_openExternal request)
    (fun _ _ => False.elim) (by simp only [World.next, hp]) (by simp only [World.next, hp]; rfl) ?_
  intro hw answer hopened
  have hkeep := htracked.keep hlog hw
  cases answer with
  | error => exact hkeep
  | ok _ =>
    obtain ⟨haccepts, hkind⟩ := hopened _ rfl
    have hbelow : ∀ other ∈ p.tasks, other.ticket < s.disk.accepted.length := by
      intro other hother
      obtain ⟨spec, hspec, -⟩ := (htracked.tracks other hother).known
      exact (List.getElem?_eq_some_iff.mp hspec).1
    refine Tracked.append hkeep.tracks htracked.distinct ?_ fun other hother =>
      (hbelow other hother).ne
    constructor
    case known =>
      obtain ⟨spec, hacc, hid, hkind', hpayload⟩ := haccepts.accepted
      refine ⟨spec, ?_, hid, hkind', hpayload⟩
      rw [hacc]
      simp
    case role => exact iff_of_false hrole (not_not.mpr hkind)
    case held =>
      intro _
      obtain ⟨file, hfound, hticket, hqueued, -⟩ := haccepts.newest
      exact ⟨file, hfound, hticket, hqueued⟩
    case waiting =>
      rintro - - hlogged
      rw [hlog] at hlogged
      exact absurd (hs.logged _ hlogged) (Nat.lt_irrefl _)

variable {index : ℕ} (htask : p.tasks[index]? = some task)

include htask

theorem effect_beginStream (hstage : task.stage = .opened) :
    Effect P s (.beginStream c index stop) (s.next P (.beginStream c index stop)) := by
  have htracked := hs.tracked hp
  have htracks := htracked.tracks task (mem_of_getElem? htask)
  have hat := taskAt_eq_some.mpr ⟨p, hp, htask⟩
  have hlog := next_dispatches (P := P) (s := s) (e := .beginStream c index stop) (by simp)
  obtain ⟨file, hfound, hticket, halive⟩ := htracks.alive (by rw [hstage]; decide)
  refine effect_program (A := Replaces file (· = .running)) (beginExternal c task.spec.id) stop
    (holds_beginExternal hfound halive rfl)
    (fun _ _ hA => permitted_of_running hp hA.2) (by simp only [World.next, hp, hat])
    (by simp only [World.next, hp, hat]; rfl) ?_
  intro hw answer hbegun
  have hothers := htracked.others hlog hticket hw
  cases answer with
  | error => exact htracked.setStage .settled htask (htracks.settle hw) hothers
  | ok _ =>
    obtain ⟨after, hafter, hcont, hrunning⟩ := hbegun _ rfl
    refine htracked.setStage .claimed htask ?_ hothers
    constructor
    case known => exact (htracks.settle hw).known
    case role => exact htracks.role
    case held => exact fun _ => ⟨after, hafter, hcont.ticket.trans hticket, hrunning⟩
    case waiting =>
      rw [hlog]
      exact fun _ => htracks.waiting (.inl hstage)

theorem effect_settle (hyields : yields P task outcome) :
    Effect P s (.settle c index outcome stop) (s.next P (.settle c index outcome stop)) := by
  have htracked := hs.tracked hp
  have htracks := htracked.tracks task (mem_of_getElem? htask)
  have hat := taskAt_eq_some.mpr ⟨p, hp, htask⟩
  have hlog := next_dispatches (P := P) (s := s) (e := .settle c index outcome stop) (by simp)
  obtain ⟨file, hfound, hticket, halive⟩ := htracks.alive (stage_ne_settled hyields)
  refine effect_program (persist P c p.cancelled task outcome) stop (holds_persist hfound halive)
    (fun _ _ hA => permitted_of_persist hs hp htracks hyields hfound hticket hA)
    (by simp only [World.next, hp, hat]) (by simp only [World.next, hp, hat]; rfl) ?_
  intro hw _ _
  exact htracked.setStage .settled htask (htracks.settle hw) (htracked.others hlog hticket hw)

end

theorem Tracks.unchanged (h : Tracks P s task) (hdisk : u.disk = s.disk)
    (hlog : u.dispatches = s.dispatches) : Tracks P u task := by
  have hw : Writes NoLinks NoReplacements s.disk u.disk := by rw [hdisk]
  exact h.keep hlog hw fun _ _ _ _ _ _ hA => hA

section

variable (hs : Invariant P s)

include hs

theorem effect_of_tasks (hdisk : u.disk = s.disk) (hlog : u.dispatches = s.dispatches)
    (htasks : ∀ q, u.process = some q → ∃ p, s.process = some p ∧ q.tasks.Sublist p.tasks) :
    Effect P s e u := by
  constructor
  case writes => rw [hdisk]
  case tracked =>
    intro q hq
    obtain ⟨p, hp, hsub⟩ := htasks q hq
    have htracked := hs.tracked hp
    refine ⟨fun task htask => (htracked.tracks task (hsub.subset htask)).unchanged hdisk hlog, ?_⟩
    exact htracked.distinct.sublist (hsub.map _)

theorem effect_dispatch (hp : s.process = some p) (htask : p.tasks[index]? = some task)
    (hstage : task.stage = .claimed) :
    Effect P s (.dispatch index) (s.next P (.dispatch index)) := by
  have htracked := hs.tracked hp
  have htracks := htracked.tracks task (mem_of_getElem? htask)
  have hat := taskAt_eq_some.mpr ⟨p, hp, htask⟩
  have hnext : s.next P (.dispatch index) =
      ⟨s.disk, some (p.setStage index task .dispatched), task.ticket :: s.dispatches⟩ := by
    simp only [World.next, hp, hat]
  rw [hnext]
  constructor
  case writes => exact .refl
  case tracked =>
    rintro q ⟨rfl⟩
    refine htracked.setStage .dispatched htask ?_ ?_
    · constructor
      case known => exact htracks.known
      case role => exact htracks.role
      case held =>
        intro _
        obtain ⟨file, hfound, hticket, hstatus⟩ := htracks.held (by rw [hstage]; decide)
        rw [hstage] at hstatus
        exact ⟨file, hfound, hticket, hstatus⟩
      case waiting => rintro (h | h) <;> cases h
    · intro other hother hne
      have hother := htracked.tracks other hother
      refine ⟨hother.known, hother.role, hother.held, ?_⟩
      intro hwaiting hsingle hlogged
      rcases mem_cons.mp hlogged with heq | hlogged
      · exact hne heq
      · exact hother.waiting hwaiting hsingle hlogged

theorem effect (he : Enabled P s e) : Effect P s e (s.next P e) := by
  cases e with
  | start => exact effect_start
  | crash => exact effect_of_tasks hs rfl rfl fun q hq => by cases hq
  | cancel | finish =>
    refine effect_of_tasks hs rfl rfl ?_
    intro q hq
    obtain ⟨p, hp, rfl⟩ := map_eq_some_iff.mp hq
    exact ⟨p, hp, List.Sublist.refl _⟩
  | enqueue => exact effect_enqueue hs
  | claim =>
    obtain ⟨p, hp, -⟩ := (any_eq_true _ _).mp he
    exact effect_claim hs hp
  | openStream =>
    obtain ⟨p, hp⟩ := ne_none_iff_exists'.mp he.1
    exact effect_openStream hs hp he.2
  | beginStream =>
    obtain ⟨p, task, hp, htask, -, hstage⟩ := taskAt_any he
    exact effect_beginStream hs hp htask (of_decide_eq_true hstage)
  | dispatch =>
    obtain ⟨p, task, hp, htask, -, hready⟩ := taskAt_any he
    exact effect_dispatch hs hp htask (of_decide_eq_true (Bool.and_eq_true_iff.mp hready).1)
  | settle =>
    obtain ⟨p, task, hp, htask, -, hyields⟩ := taskAt_any he
    exact effect_settle hs hp htask hyields
  | release =>
    refine effect_of_tasks hs rfl rfl ?_
    intro q hq
    obtain ⟨p, hp, rfl⟩ := map_eq_some_iff.mp hq
    exact ⟨p, hp, eraseIdx_sublist _ _⟩

theorem invariant_dispatch (he : Enabled P s (.dispatch index)) :
    Invariant P (s.next P (.dispatch index)) := by
  have heffect := effect hs he
  obtain ⟨p, task, hp, htask, hat, hready⟩ := taskAt_any he
  have hstage := of_decide_eq_true (Bool.and_eq_true_iff.mp hready).1
  have htracks := hs.tracks p hp task (mem_of_getElem? htask)
  obtain ⟨known, hknown, -, hkind, hpayload⟩ := htracks.known
  have hdisk : (s.next P (.dispatch index)).disk = s.disk := by simp only [World.next, hp, hat]
  have hlog : (s.next P (.dispatch index)).dispatches = task.ticket :: s.dispatches := by
    simp only [World.next, hp, hat]
  constructor
  case wellFormed =>
    rw [hdisk]
    exact hs.wellFormed
  case logged =>
    intro t ht
    rw [hdisk]
    rw [hlog] at ht
    rcases mem_cons.mp ht with rfl | ht
    · exact (List.getElem?_eq_some_iff.mp hknown).1
    · exact hs.logged t ht
  case once =>
    rw [hdisk, hlog]
    intro t spec hspec hsingle
    obtain ⟨hcount, hqueued⟩ := hs.once t spec hspec hsingle
    by_cases ht : task.ticket = t
    · subst ht
      cases hspec.symm.trans hknown
      have hfirst := htracks.waiting (.inr hstage) (hsingle.congr hkind.symm hpayload.symm)
      refine ⟨by rw [count_cons_self, count_eq_zero_of_not_mem hfirst], ?_⟩
      rintro - file hlive hstatus
      obtain ⟨held, hfound, hticket, hrunning⟩ := htracks.held (by rw [hstage]; decide)
      rw [hs.wellFormed.live_unique hlive ⟨_, hfound, hticket⟩, hrunning, hstage] at hstatus
      cases hstatus
    · refine ⟨by rw [count_cons_of_ne ht]; exact hcount, ?_⟩
      intro hmem
      rcases mem_cons.mp hmem with heq | hmem
      · exact absurd heq.symm ht
      · exact hqueued hmem
  case tracks => exact fun q hq => (heffect.tracked q hq).tracks
  case distinct => exact fun q hq => (heffect.tracked q hq).distinct

theorem invariant_step (he : Enabled P s e) : Invariant P (s.next P e) := by
  by_cases hdispatch : ∃ index, e = .dispatch index
  · obtain ⟨index, rfl⟩ := hdispatch
    exact invariant_dispatch hs he
  · exact hs.of_effect (effect hs he) (next_dispatches fun index heq => hdispatch ⟨index, heq⟩)

end

theorem reachable_invariant (hs : (machine P).Reachable Fresh s) : Invariant P s :=
  hs.invariant (fun _ => invariant_fresh) fun _ _ h he => invariant_step h he

end OperationEngine
