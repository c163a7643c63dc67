import Tako.OperationWrites

/-! # What the functions of the operation queue write

Each function of the store is described by its durable writes. A function that is stopped or that
fails has made the first of these writes.
-/
namespace OperationStore

open List GoPrelude GoMaps DurablePrograms SliceOrder

variable {L : OperationSpec → Prop} {A : Record → Record → Prop} {d d₀ w : Disk} {id : String}
  {record : Record}

theorem holds_attempt {I : Disk → Prop} {Q : Unit → Disk → Prop} (h : Q () d) :
    Holds (attempt fault) d I Q := holds_check fun _ _ => h

theorem holds_skip {f : Unit → Durable Disk β} {I : Disk → Prop} {Q : β → Disk → Prop}
    (h : Holds (f ()) d I Q) : Holds (attempt fault >>= f) d I Q := holds_bind (holds_attempt h)

structure Tidied (d w : Disk) : Prop where
  writes : Writes NoLinks NoReplacements d w
  queue : w.queue = d.queue

theorem Tidied.refl (d : Disk) : Tidied d d := ⟨.refl, rfl⟩

theorem Tidied.remove (h : Tidied d₀ d) (name : String) : Tidied d₀ (d.remove name) :=
  ⟨h.writes.tail (.remove name), h.queue⟩

theorem holds_removeFile (h : Tidied d₀ d) :
    Holds (removeFile faults name) d (Tidied d₀) fun _ w => Tidied d₀ w :=
  holds_write (h.remove name) (h.remove name)

theorem holds_removeExpired (faults : PruneFaults) (now : Time)
    (entries : List (Sigma fun _ : String => RecordFile)) (h : Tidied d₀ d) :
    Holds (removeExpired faults now entries) d (Tidied d₀) fun _ w => Tidied d₀ w := by
  induction entries generalizing d with
  | nil => exact holds_ok h
  | cons entry rest ih =>
    apply holds_skip
    apply holds_bind
    by_cases hexp : expired now entry.2
    · rw [if_pos hexp]
      exact (holds_removeFile h).post fun _ _ hw => ih hw
    · rw [if_neg hexp]
      exact holds_ok (ih h)

theorem holds_removeAll (faults : PruneFaults) (names : List String) (h : Tidied d₀ d) :
    Holds (removeAll faults names) d (Tidied d₀) fun _ w => Tidied d₀ w := by
  induction names generalizing d with
  | nil => exact holds_ok h
  | cons name rest ih =>
    apply holds_bind
    exact (holds_removeFile h).post fun _ _ hw => ih hw

theorem holds_pruneHistory (h : Tidied d₀ d) :
    Holds (pruneHistoryLocked P c) d (Tidied d₀) fun _ w => Tidied d₀ w := by
  apply holds_skip
  apply holds_guard
  rintro entries -
  refine holds_seq (holds_removeExpired _ _ _ h) ?_
  intro _ w hw
  refine holds_seq (holds_removeAll _ _ hw) ?_
  intro _ w hw
  exact holds_attempt hw

structure Moved (id : String) (d w : Disk) : Prop where
  writes : Writes NoLinks NoReplacements d w
  queue : w.queue = d.queue.erase id

theorem Moved.lookup (h : Moved id d w) (name : String) :
    w.queue.lookup name = if name = id then none else d.queue.lookup name := by
  rw [h.queue]
  by_cases hname : name = id
  · subst hname
    rw [if_pos rfl, AList.lookup_erase]
  · rw [if_neg hname, AList.lookup_erase_ne hname]

theorem holds_moveToHistory (found : d.queue.lookup id = some file) (ended : file.status.terminal) :
    Holds (moveToHistoryLocked P c id) d (Moved id d) fun _ w => Moved id d w := by
  have hrenamed : Moved id d (d.archive id) :=
    ⟨.single (.archive found ended), by rw [archive_eq found]⟩
  apply holds_guard
  rintro u -
  apply holds_bind
  refine holds_write hrenamed ?_
  apply holds_skip
  have htidied : ∀ w, Tidied (d.archive id) w → Moved id d w := by
    intro w hw
    exact ⟨hrenamed.writes.trans hw.writes, hw.queue.trans hrenamed.queue⟩
  exact (holds_pruneHistory (Tidied.refl _)).weaken htidied fun _ => htidied

theorem validateOperationSpec_eq_ok (h : validateOperationSpec now request = .ok spec) :
    spec.id = request.id ∧ spec.kind = request.kind ∧ spec.payload = request.payload := by
  simp only [validateOperationSpec, bind_eq_ok, require_eq_ok] at h
  obtain ⟨_, -, _, -, _, -, h⟩ := h
  cases h
  exact ⟨rfl, rfl, rfl⟩

structure Reads (record : Record) (file : RecordFile) : Prop where
  continues : file.toRecord.Continues record
  status : record.status = file.status

theorem readLocked_eq_ok (found : d.queue.lookup id = some file)
    (h : readLocked c id d = .ok record) : record.spec.id = id ∧ Reads record file := by
  simp only [readLocked, findRecord, found, bind_eq_ok, require_eq_ok] at h
  obtain ⟨_, -, _, -, read, hread, spec, hspec, _, hid, h⟩ := h
  cases hread
  cases h
  obtain ⟨hspecid, hkind, hpayload⟩ := validateOperationSpec_eq_ok hspec
  exact ⟨hid, ⟨rfl, hspecid, hkind, hpayload⟩, rfl⟩

/-- A record with the ticket and the spec of one that was read. -/
theorem Reads.same (h : Reads record file) (hticket : r.ticket = record.ticket)
    (hspec : r.spec = record.spec) : file.toRecord.Continues r := by
  obtain ⟨ht, hid, hkind, hpayload⟩ := h.continues
  exact ⟨hticket.trans ht, by rw [hspec, hid], by rw [hspec, hkind], by rw [hspec, hpayload]⟩

theorem holds_read {f : Record → Durable Disk β} {I : Disk → Prop} {Q : β → Disk → Prop}
    (found : d.queue.lookup id = some file)
    (h : ∀ record, record.spec.id = id → Reads record file → Holds (f record) d I Q) :
    Holds (Durable.check (readLocked c id) >>= f) d I Q := by
  apply holds_guard
  intro record hread
  obtain ⟨hid, hreads⟩ := readLocked_eq_ok found hread
  exact h record hid hreads

section

variable (found : d.queue.lookup r.spec.id = some file) (alive : file.status.terminal = false)
  (continues : file.toRecord.Continues r) (allowed : A file.toRecord r)

include found alive continues allowed

theorem holds_writeLocked : Holds (writeLocked c r) d (Writes L A d) fun _ w =>
    w = d.put r c.fileTime := by
  apply holds_skip
  exact holds_write (.single (.put r c.fileTime found alive continues allowed)) rfl

theorem holds_end (ended : r.status.terminal) :
    Holds (writeLocked c r >>= fun _ => moveToHistoryLocked P c r.spec.id >>=
      fun _ => appendRecord c) d
      (Writes L A d) fun _ w => Writes L A d w ∧ Moved r.spec.id (d.put r c.fileTime) w := by
  have hput : Writes L A d (d.put r c.fileTime) :=
    .single (.put r c.fileTime found alive continues allowed)
  refine holds_seq (holds_writeLocked found alive continues allowed) ?_
  rintro _ _ rfl
  apply holds_bind
  have hlookup : (d.put r c.fileTime).queue.lookup r.spec.id = some ⟨r, c.fileTime⟩ := by
    rw [put_lookup, if_pos rfl]
  refine (holds_moveToHistory hlookup ended).weaken (fun w hw => hput.trans hw.writes.of_archiving)
    ?_
  intro _ w hw
  exact holds_attempt ⟨hput.trans hw.writes.of_archiving, hw⟩

end

/-- The one replacement that a function makes which works on one record. -/
def Replaces (file : RecordFile) (S : Status → Prop) : Record → Record → Prop :=
  fun before after => before = file.toRecord ∧ S after.status

section OneRecord

variable {S : Status → Prop} (found : d.queue.lookup id = some file)
  (alive : file.status.terminal = false)
include found alive

theorem holds_complete (hS : ∀ status : Status, status.terminal → S status) :
    Holds (complete P c id result executionErr) d (Writes L (Replaces file S) d) fun _ _ =>
      True := by
  refine holds_read found ?_
  rintro record rfl hreads
  have hended : (completed c.now record result executionErr).status.terminal := by
    unfold completed
    cases failure result executionErr <;> rfl
  exact (holds_end (r := completed c.now record result executionErr) found alive
    (hreads.same rfl rfl) ⟨rfl, hS _ hended⟩ hended).post fun _ _ _ => trivial

theorem holds_markAmbiguous (hS : S .ambiguous) :
    Holds (markAmbiguous P c id message) d (Writes L (Replaces file S) d) fun _ _ => True := by
  refine holds_read found ?_
  rintro record rfl hreads
  exact (holds_end (r := uncertain c.now message record) found alive (hreads.same rfl rfl)
    ⟨rfl, hS⟩ rfl).post
    fun _ _ _ => trivial

theorem holds_requeue (hS : S .queued) :
    Holds (requeue c id message) d (Writes L (Replaces file S) d) fun _ _ => True := by
  refine holds_read found ?_
  rintro record rfl hreads
  exact holds_seq (holds_writeLocked (r := interrupted c.now message record) found alive
    (hreads.same rfl rfl) ⟨rfl, hS⟩)
    fun _ _ _ => holds_attempt trivial

theorem holds_beginExternal (hS : S .running) :
    Holds (beginExternal c id) d (Writes L (Replaces file S) d) fun _ w =>
      ∃ after, w.queue.lookup id = some after ∧ file.toRecord.Continues after.toRecord ∧
        after.status = .running := by
  refine holds_read found ?_
  rintro record rfl hreads
  have hcont : file.toRecord.Continues (started c.now record) := hreads.same rfl rfl
  refine holds_seq (holds_writeLocked (r := started c.now record) found alive hcont ⟨rfl, hS⟩) ?_
  rintro _ _ rfl
  refine holds_attempt ⟨⟨started c.now record, c.fileTime⟩, ?_, hcont, rfl⟩
  rw [put_lookup]
  exact if_pos rfl

end OneRecord

def Links (d : Disk) (request : OperationSpec) : OperationSpec → Prop := fun spec =>
  spec.id = request.id ∧ d.queue.lookup request.id = none

structure Accepts (request : OperationSpec) (d w : Disk) : Prop where
  accepted : ∃ spec, w.accepted = d.accepted ++ [spec] ∧ spec.id = request.id ∧
    spec.kind = request.kind ∧
    spec.payload = request.payload
  newest : ∃ file, w.queue.lookup request.id = some file ∧ file.ticket = d.accepted.length ∧
    file.status = .queued ∧ file.spec.kind = request.kind

theorem holds_enqueue (request : OperationSpec) :
    Holds (enqueue P c request) d (Writes (Links d request) A d) fun _ w =>
      Accepts request d w := by
  apply holds_guard
  intro spec hspec
  obtain ⟨hid, hkind, hpayload⟩ := validateOperationSpec_eq_ok hspec
  apply holds_skip
  apply holds_bind
  refine (holds_pruneHistory (Tidied.refl d)).weaken (fun _ hw => hw.writes.of_archiving) ?_
  intro _ w hw
  apply holds_skip
  apply holds_guard
  rintro _ -
  apply holds_guard
  rintro _ -
  apply holds_skip
  apply holds_guard
  intro _ hfresh
  rw [require_eq_ok] at hfresh
  apply holds_bind
  have hlinks : Links d request (queuedState spec c.now).spec :=
    ⟨hid, by rw [← hid, ← hw.queue]; exact hfresh⟩
  have hacc := hw.writes.accepted_eq
  refine holds_write (hw.writes.of_archiving.tail (.link _ _ hfresh rfl hlinks)) ?_
  apply holds_skip
  refine holds_attempt ⟨⟨spec, ?_, hid, hkind, hpayload⟩, ?_⟩
  · rw [link_accepted, hacc]
    rfl
  · refine ⟨⟨⟨queuedState spec c.now, w.accepted.length⟩, c.fileTime⟩, ?_, by rw [hacc], rfl, hkind⟩
    rw [link_lookup]
    exact if_pos hid.symm

/-- One call links at most one record, for the ID of the request. -/
theorem Links.accepted (hw : Writes (Links d request) NoReplacements d w) :
    w.accepted = d.accepted ∨ ∃ spec, w.accepted = d.accepted ++ [spec] ∧ Links d request spec ∧
      ∃ file, w.queue.lookup request.id = some file ∧ file.status = .queued := by
  induction hw with
  | refl => exact .inl rfl
  | @tail mid last _ hstep ih =>
    cases hstep with
    | link state fileTime fresh queued allowed =>
      rcases ih with hsame | ⟨spec, -, -, file, hfound, -⟩
      · refine .inr ⟨state.spec, by rw [link_accepted, hsame], allowed,
          ⟨⟨state, mid.accepted.length⟩, fileTime⟩, ?_, queued⟩
        rw [link_lookup, if_pos allowed.1.symm]
      · rw [allowed.1, hfound] at fresh
        cases fresh
    | put record fileTime found alive continues allowed => exact allowed.elim
    | @archive other moved found ended =>
      rw [archive_accepted]
      refine ih.imp_right ?_
      rintro ⟨spec, hacc, hlinks, file, hfound, hqueued⟩
      refine ⟨spec, hacc, hlinks, file, ?_, hqueued⟩
      have hid : request.id ≠ other := by
        rintro rfl
        rw [Option.some.inj (found.symm.trans hfound), hqueued] at ended
        cases ended
      rw [archive_queue found, if_neg hid, hfound]
    | remove => exact ih

theorem holds_openExternal (request : OperationSpec) :
    Holds (openExternal P c request) d (Writes (Links d request) A d) fun _ w =>
      Accepts request d w ∧ request.kind = streamKind := by
  apply holds_guard
  intro _ hkind
  rw [require_eq_ok] at hkind
  exact (holds_enqueue request).post fun _ _ hw => ⟨hw, hkind⟩

theorem readAll_eq_ok (hentries : ∀ entry ∈ entries, d.queue.lookup entry.1 = some entry.2)
    (h : readAll on d entries = .ok records) :
    (records.map fun record => record.spec.id) = entries.map Sigma.fst ∧
      ∀ record ∈ records, ∃ file, d.queue.lookup record.spec.id = some file ∧
        Reads record file := by
  induction entries generalizing records with
  | nil =>
    cases h
    exact ⟨rfl, by simp⟩
  | cons entry rest ih =>
    simp only [readAll, bind_eq_ok] at h
    obtain ⟨record, hrec, others, hothers, h⟩ := h
    cases h
    obtain ⟨hfound, hrest⟩ := forall_mem_cons.mp hentries
    obtain ⟨hid, hreads⟩ := readLocked_eq_ok hfound hrec
    obtain ⟨hids, hall⟩ := ih hrest hothers
    refine ⟨by rw [map_cons, map_cons, hids, hid], ?_⟩
    refine forall_mem_cons.mpr ⟨⟨entry.2, ?_, hreads⟩, hall⟩
    rw [hid, hfound]

structure Lists (d : Disk) (records : List Record) : Prop where
  once : (records.map fun record => record.spec.id).Nodup
  read : ∀ record ∈ records, ∃ file, d.queue.lookup record.spec.id = some file ∧ Reads record file
  all : ∀ {id file}, d.queue.lookup id = some file → id ∈ records.map fun record => record.spec.id

theorem listLocked_eq_ok (h : listLocked sweep d = .ok records) : Lists d records := by
  simp only [listLocked, bind_eq_ok] at h
  obtain ⟨_, -, unsorted, hread, h⟩ := h
  cases h
  have hdir : (readDir d.queue).Perm d.queue.entries := sortBy_perm _ _
  obtain ⟨hids, hall⟩ := readAll_eq_ok (fun entry hentry =>
    AList.mem_lookup_iff.mpr (hdir.mem_iff.mp hentry)) hread
  have hperm := (sortBy_perm (fun record : Record => toLex (record.spec.createdAt, record.spec.id))
    unsorted).map
    fun record => record.spec.id
  have hkeys : (unsorted.map fun record => record.spec.id).Perm d.queue.keys := by
    rw [hids]
    exact hdir.map _
  constructor
  case once => exact hperm.nodup_iff.mpr (hkeys.nodup_iff.mpr d.queue.nodupKeys)
  case read => exact fun record hrec => hall record (mem_sortBy.mp hrec)
  case all =>
    intro id file hfound
    refine hperm.mem_iff.mpr (hkeys.mem_iff.mpr ?_)
    exact AList.mem_keys.mp (AList.lookup_isSome.mp (by rw [hfound]; rfl))

def Claims (inFlight : List String) : Record → Record → Prop := fun before after =>
  before.status = .queued ∧ before.spec.kind ≠ streamKind ∧ before.spec.id ∉ inFlight ∧
      after.status = .running

structure Claimed (inFlight : List String) (record : Record) (d w : Disk) : Prop where
  before : ∃ file, d.queue.lookup record.spec.id = some file ∧ file.toRecord.Continues record ∧
    file.status = .queued
  after : ∃ file, w.queue.lookup record.spec.id = some file ∧ file.toRecord = record
  running : record.status = .running
  kind : record.spec.kind ≠ streamKind
  free : record.spec.id ∉ inFlight

theorem claimable_iff : claimable inFlight record ↔
      record.spec.kind ≠ streamKind ∧ record.status = .queued ∧ record.spec.id ∉ inFlight := by
  simp [claimable, and_assoc]

theorem holds_claimNext : Holds (claimNext sweep inFlight) d
    (Writes L (Claims inFlight) d) fun found w =>
      ∀ record, found = some record → Claimed inFlight record d w := by
  apply holds_guard
  intro records hlist
  cases hfind : records.find? (claimable inFlight) with
  | none => exact holds_ok fun record hrec => by cases hrec
  | some record =>
    have hmem := mem_of_find?_eq_some hfind
    have hclaimable := find?_some hfind
    obtain ⟨hkind, hqueued, hfree⟩ := claimable_iff.mp hclaimable
    obtain ⟨file, hfound, hreads⟩ := (listLocked_eq_ok hlist).read record hmem
    have hstatus := hreads.status.symm.trans hqueued
    have hcont : file.toRecord.Continues (claimed (sweep.on record.spec.id).now record) :=
      hreads.same rfl rfl
    have hallowed : Claims inFlight file.toRecord
        (claimed (sweep.on record.spec.id).now record) := by
      refine ⟨hstatus, ?_, ?_, rfl⟩
      · rw [← hreads.continues.kind]
        exact hkind
      · rw [← hreads.continues.id]
        exact hfree
    refine holds_seq (holds_writeLocked (r := claimed (sweep.on record.spec.id).now record) hfound
      (by rw [hstatus]; rfl) hcont hallowed) ?_
    rintro _ _ rfl
    apply holds_skip
    apply holds_ok
    rintro _ ⟨rfl⟩
    refine ⟨⟨file, hfound, hcont, hstatus⟩, ⟨⟨_, (sweep.on record.spec.id).fileTime⟩, ?_, rfl⟩, rfl,
      hkind, hfree⟩
    rw [put_lookup]
    exact if_pos rfl

section

variable (P : Platform)

def recoveredStatus (kind payload : String) : Status :=
  match P.plan kind payload with
  | .error _ => .failed
  | .ok plan => if plan.replaySafe then .queued else .ambiguous

theorem recovered_status (record : Record) (now : Time) :
    (recovered P now record).status = recoveredStatus P record.spec.kind record.spec.payload := by
  unfold recovered recoveredStatus
  cases P.plan record.spec.kind record.spec.payload with
  | error => rfl
  | ok plan => by_cases hsafe : plan.replaySafe <;> simp [hsafe]

theorem recovered_continues (record : Record) (now : Time) :
    record.Continues (recovered P now record) := by
  unfold recovered
  cases P.plan record.spec.kind record.spec.payload with
  | error => exact ⟨rfl, rfl, rfl, rfl⟩
  | ok plan => by_cases hsafe : plan.replaySafe <;> simp [hsafe] <;> exact ⟨rfl, rfl, rfl, rfl⟩

theorem recoveredStatus_cases :
    recoveredStatus P kind payload = .queued ∨ (recoveredStatus P kind payload).terminal := by
  unfold recoveredStatus
  cases P.plan kind payload with
  | error => exact .inr rfl
  | ok plan => by_cases hsafe : plan.replaySafe <;> simp [hsafe, Status.terminal]

def Recovers : Record → Record → Prop := fun before after =>
  (before.status = .queued ∧ after.status = .failed) ∨
    (before.status = .running ∧ after.status =
      recoveredStatus P before.spec.kind before.spec.payload)

end

/-- After its turn a record is not in the queue or waits there to be claimed. -/
structure Turned (P : Platform) (d₀ : Disk) (id : String) (d w : Disk) : Prop where
  writes : Writes NoLinks (Recovers P) d₀ w
  others : ∀ name ≠ id, w.queue.lookup name = d.queue.lookup name
  waits : ∀ file, w.queue.lookup id = some file → file.status = .queued

theorem Record.Continues.trans {a b e : Record} (h : a.Continues b) (k : b.Continues e) :
    a.Continues e :=
  ⟨k.ticket.trans h.ticket, k.id.trans h.id, k.kind.trans h.kind, k.payload.trans h.payload⟩

theorem Status.queued_of {status : Status} (hterminal : ¬ status.terminal)
    (hrunning : status ≠ .running) : status = .queued := by
  cases status with
  | queued => rfl
  | running => exact absurd rfl hrunning
  | succeeded | failed | ambiguous => exact absurd rfl hterminal

section Turn

variable (before : Writes NoLinks (Recovers P) d₀ d)
  (found : d.queue.lookup record.spec.id = some file)
include before

theorem Turned.of_end (hwrites : Writes NoLinks (Recovers P) d w)
    (hmoved : Moved r.spec.id (d.put r fileTime) w) : Turned P d₀ r.spec.id d w := by
  refine ⟨before.trans hwrites, ?_, ?_⟩
  · intro name hname
    rw [hmoved.lookup, if_neg hname, put_lookup, if_neg hname]
  · intro file hfile
    rw [hmoved.lookup, if_pos rfl] at hfile
    cases hfile

theorem Turned.of_moved (hmoved : Moved id d w) : Turned P d₀ id d w := by
  refine ⟨before.trans hmoved.writes.of_archiving, ?_, ?_⟩
  · intro name hname
    rw [hmoved.lookup, if_neg hname]
  · intro file hfile
    rw [hmoved.lookup, if_pos rfl] at hfile
    cases hfile

include found

theorem holds_recoverRunning (reads : Reads record file) (hrunning : record.status = .running) :
    Holds (writeLocked c (recovered P c.now record) >>= fun _ =>
        moveIfTerminal P c (recovered P c.now record) >>= fun _ => appendRecord c) d
      (Writes NoLinks (Recovers P) d₀) fun _ w => Turned P d₀ record.spec.id d w := by
  have hrecovered := recovered_continues P record c.now
  have hcont := reads.continues.trans hrecovered
  have halive : file.status.terminal = false := by rw [← reads.status, hrunning]; rfl
  have hstatus := recovered_status P record c.now
  have hallowed : Recovers P file.toRecord (recovered P c.now record) := by
    refine .inr ⟨reads.status.symm.trans hrunning, ?_⟩
    rw [hstatus, reads.continues.kind, reads.continues.payload]
  rw [← hrecovered.id] at found ⊢
  rcases recoveredStatus_cases P with hqueued | hended
  · have hmove : moveIfTerminal P c (recovered P c.now record) = pure () := by
      rw [moveIfTerminal, hstatus, hqueued]
      rfl
    rw [hmove]
    apply holds_bind
    refine (holds_writeLocked found halive hcont hallowed).weaken (fun _ hw => before.trans hw) ?_
    rintro _ _ rfl
    apply holds_bind
    apply holds_ok
    refine holds_attempt ⟨before.tail (.put _ _ found halive hcont hallowed), ?_, ?_⟩
    · intro name hname
      rw [put_lookup, if_neg hname]
    · intro after hafter
      rw [put_lookup, if_pos rfl] at hafter
      cases hafter
      exact hstatus.trans hqueued
  · rw [← hstatus] at hended
    have hmove : moveIfTerminal P c (recovered P c.now record) =
        moveToHistoryLocked P c (recovered P c.now record).spec.id := if_pos hended
    rw [hmove]
    refine (holds_end found halive hcont hallowed hended).weaken (fun _ hw => before.trans hw) ?_
    rintro _ w ⟨hwrites, hmoved⟩
    exact Turned.of_end before hwrites hmoved

theorem holds_recoverRecord (reads : Reads record file) :
    Holds (recoverRecord P c record) d (Writes NoLinks (Recovers P) d₀) fun _ w =>
      Turned P d₀ record.spec.id d w := by
  unfold recoverRecord
  by_cases hended : record.status.terminal
  · rw [if_pos hended]
    apply holds_bind
    refine (holds_moveToHistory found (by rw [← reads.status]; exact hended)).weaken
      (fun _ hw => before.trans hw.writes.of_archiving) ?_
    intro _ w hw
    exact holds_attempt (Turned.of_moved before hw)
  · rw [if_neg hended]
    by_cases hstream : record.spec.kind = streamKind ∧ record.status = .queued
    · rw [if_pos hstream]
      have hqueued := reads.status.symm.trans hstream.2
      refine (holds_end (r := retired c.now record) found (by rw [hqueued]; rfl)
        (reads.same rfl rfl) (.inl ⟨hqueued, rfl⟩) rfl).weaken (fun _ hw => before.trans hw) ?_
      rintro _ w ⟨hwrites, hmoved⟩
      exact Turned.of_end (r := retired c.now record) before hwrites hmoved
    · rw [if_neg hstream]
      by_cases hrunning : record.status = .running
      · rw [if_neg (not_not.mpr hrunning)]
        exact holds_recoverRunning before found reads hrunning
      · rw [if_pos hrunning]
        refine holds_ok ⟨before, fun _ _ => rfl, ?_⟩
        intro after hafter
        rw [Option.some.inj (hafter.symm.trans found), ← reads.status]
        exact Status.queued_of hended hrunning

end Turn

/-- After recovery every record of the queue waits to be claimed. -/
theorem holds_recoverEach
    (once : (records.map fun record => record.spec.id).Nodup)
      (before : Writes NoLinks (Recovers P) d₀ d)
    (read : ∀ record ∈ records, ∃ file, d.queue.lookup record.spec.id = some file ∧
      Reads record file)
    (rest : ∀ {id file}, d.queue.lookup id = some file →
      (id ∉ records.map fun record => record.spec.id) →
      file.status = .queued) :
    Holds (recoverEach P on records) d (Writes NoLinks (Recovers P) d₀) fun _ w =>
      ∀ {id file}, w.queue.lookup id = some file → file.status = .queued := by
  induction records generalizing d with
  | nil => exact holds_ok fun hfound => rest hfound (by simp)
  | cons record records ih =>
    apply holds_bind
    obtain ⟨⟨file, hfound, hreads⟩, hread⟩ := forall_mem_cons.mp read
    rw [map_cons, nodup_cons] at once
    refine (holds_recoverRecord before hfound hreads).post ?_
    intro _ w hturned
    refine ih once.2 hturned.writes ?_ ?_
    · intro other hother
      have hne : other.spec.id ≠ record.spec.id := by
        intro heq
        exact once.1 (heq ▸ mem_map_of_mem hother)
      rw [hturned.others _ hne]
      exact hread other hother
    · intro name other hother hnot
      by_cases hname : name = record.spec.id
      · subst hname
        exact hturned.waits other hother
      · rw [hturned.others name hname] at hother
        exact rest hother (by simp [hname, hnot])

theorem holds_recoverIncomplete : Holds (recoverIncomplete P sweep) d
    (Writes NoLinks (Recovers P) d) fun _ w =>
      ∀ {id file}, w.queue.lookup id = some file → file.status = .queued := by
  apply holds_guard
  intro records hlist
  have hlists := listLocked_eq_ok hlist
  refine holds_recoverEach hlists.once .refl hlists.read ?_
  intro id file hfound
  exact absurd (hlists.all hfound)

end OperationStore
