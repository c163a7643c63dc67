import Tako.OperationStore

/-! # The durable writes of the operation queue

A function of the store links a new record into the queue, replaces the file of a live record, moves
an ended one to the history, or removes a file from the history. What the writes of every function
keep is proved once, for one write.
-/
namespace OperationStore

open List GoPrelude GoMaps DurablePrograms SliceOrder

structure Record.Continues (before after : Record) : Prop where
  ticket : after.ticket = before.ticket
  id : after.spec.id = before.spec.id
  kind : after.spec.kind = before.spec.kind
  payload : after.spec.payload = before.spec.payload

/-- One durable write. `L` says which operations may be linked from the old disk, `A` which
replacements may be made. -/
inductive Write (L : OperationSpec → Prop) (A : Record → Record → Prop) (d : Disk) :
    Disk → Prop where
  | link (state : OperationState) (fileTime : Time) (fresh : d.queue.lookup state.spec.id = none)
      (queued : state.status = .queued) (allowed : L state.spec) :
        Write L A d (d.link state fileTime)
  | put (record : Record) (fileTime : Time)
      (found : d.queue.lookup record.spec.id = some file) (alive : file.status.terminal = false)
      (continues : file.toRecord.Continues record) (allowed : A file.toRecord record) :
      Write L A d (d.put record fileTime)
  | archive {id : String} {file : RecordFile} (found : d.queue.lookup id = some file)
      (ended : file.status.terminal) : Write L A d (d.archive id)
  | remove (name : String) : Write L A d (d.remove name)

abbrev Writes (L : OperationSpec → Prop) (A : Record → Record → Prop) : Disk → Disk → Prop :=
  Relation.ReflTransGen (Write L A)

def NoLinks : OperationSpec → Prop := fun _ => False

def NoReplacements : Record → Record → Prop := fun _ _ => False

variable {L L' : OperationSpec → Prop} {A A' : Record → Record → Prop} {d w : Disk}

theorem Writes.mono (hL : ∀ spec, L spec → L' spec)
    (hA : ∀ before after, A before after → A' before after) (h : Writes L A d w) :
    Writes L' A' d w := by
  refine Relation.ReflTransGen.mono ?_ _ _ h
  intro d w h
  cases h with
  | link state fileTime fresh queued allowed =>
    exact .link state fileTime fresh queued (hL _ allowed)
  | put record fileTime found alive continues allowed =>
    exact .put record fileTime found alive continues (hA _ _ allowed)
  | archive found ended => exact .archive found ended
  | remove name => exact .remove name

theorem Writes.of_archiving (h : Writes NoLinks NoReplacements d w) : Writes L A d w :=
  h.mono (fun _ hl => hl.elim) fun _ _ ha => ha.elim

section Lookups

variable {id name : String}

section

variable (state : OperationState) (fileTime : Time)

@[simp] theorem link_accepted : (d.link state fileTime).accepted = d.accepted ++ [state.spec] := rfl

theorem link_lookup (name : String) : (d.link state fileTime).queue.lookup name =
      if name = state.spec.id then some ⟨⟨state, d.accepted.length⟩, fileTime⟩
        else d.queue.lookup name :=
  lookup_insert_eq ..

end

@[simp] theorem put_accepted : (d.put record fileTime).accepted = d.accepted := rfl

theorem put_lookup (record : Record) (fileTime : Time) (name : String) :
    (d.put record fileTime).queue.lookup name =
      if name = record.spec.id then some ⟨record, fileTime⟩ else d.queue.lookup name :=
  lookup_insert_eq ..

theorem archive_eq (h : d.queue.lookup id = some file) : d.archive id = { d with
      queue := d.queue.erase id
      history := d.history.insert id file
      dropped := d.dropped ++ ticketAt d.history id } := by
  rw [Disk.archive, h]

@[simp] theorem archive_accepted : (d.archive id).accepted = d.accepted := by
  cases h : d.queue.lookup id with
  | none => rw [Disk.archive, h]
  | some => rw [archive_eq h]

theorem archive_queue (h : d.queue.lookup id = some file) (name : String) :
    (d.archive id).queue.lookup name = if name = id then none else d.queue.lookup name := by
  rw [archive_eq h]
  exact lookup_erase_eq ..

theorem archive_history (h : d.queue.lookup id = some file) :
    (d.archive id).history.lookup name = if name = id then some file
      else d.history.lookup name := by
  rw [archive_eq h]
  exact lookup_insert_eq ..

@[simp] theorem remove_accepted : (d.remove name).accepted = d.accepted := rfl

theorem remove_history :
    (d.remove name).history.lookup other = if other = name then none else d.history.lookup other :=
  lookup_erase_eq ..

theorem mem_ticketAt :
    t ∈ ticketAt directory name ↔ ∃ file, directory.lookup name = some file ∧ file.ticket = t := by
  simp [ticketAt, Option.mem_toList, Option.map_eq_some_iff]

theorem mem_archive_dropped (h : d.queue.lookup id = some file) :
    t ∈ (d.archive id).dropped ↔ t ∈ d.dropped ∨ ∃ old, d.history.lookup id = some old ∧
      old.ticket = t := by
  rw [archive_eq h, mem_append, mem_ticketAt]

theorem mem_remove_dropped :
    t ∈ (d.remove name).dropped ↔ t ∈ d.dropped ∨ ∃ old, d.history.lookup name = some old ∧
      old.ticket = t := by
  rw [Disk.remove, mem_append, mem_ticketAt]

end Lookups

/-- The file belongs to the operation that was accepted under its ticket. -/
def Disk.Knows (d : Disk) (id : String) (file : RecordFile) : Prop :=
  ∃ spec, d.accepted[file.ticket]? = some spec ∧ spec.id = id ∧ file.spec.id = id ∧
    file.spec.kind = spec.kind ∧ file.spec.payload = spec.payload

def Disk.Live (d : Disk) (t : ℕ) (file : RecordFile) : Prop :=
  ∃ id, d.queue.lookup id = some file ∧ file.ticket = t

def Disk.Archived (d : Disk) (t : ℕ) (file : RecordFile) : Prop :=
  ∃ id, d.history.lookup id = some file ∧ file.ticket = t

structure WellFormed (d : Disk) : Prop where
  queue : ∀ {id file}, d.queue.lookup id = some file → d.Knows id file
  history : ∀ {id file}, d.history.lookup id = some file → d.Knows id file
  ended : ∀ {id file}, d.history.lookup id = some file → file.status.terminal
  apart : ∀ {id live old}, d.queue.lookup id = some live → d.history.lookup id = some old →
    live.ticket ≠ old.ticket
  dropped_lt : ∀ t ∈ d.dropped, t < d.accepted.length
  dropped_queue : ∀ t ∈ d.dropped, ∀ file, ¬ d.Live t file
  dropped_history : ∀ t ∈ d.dropped, ∀ file, ¬ d.Archived t file
  present : ∀ t < d.accepted.length, (∃ file, d.Live t file) ∨ (∃ file, d.Archived t file) ∨
    t ∈ d.dropped

variable {id : String} {t : ℕ}

theorem Disk.Knows.lt (h : d.Knows id file) : file.ticket < d.accepted.length := by
  obtain ⟨spec, hspec, -⟩ := h
  exact (List.getElem?_eq_some_iff.mp hspec).1

theorem Disk.Knows.same_id (h : d.Knows id file) (k : d.Knows other file')
    (ht : file.ticket = file'.ticket) : id = other := by
  obtain ⟨spec, hspec, rfl, -⟩ := h
  obtain ⟨spec', hspec', rfl, -⟩ := k
  rw [ht] at hspec
  rw [Option.some.inj (hspec.symm.trans hspec')]

theorem Disk.Knows.continues {file after : RecordFile} (h : d.Knows id file)
    (hcont : file.toRecord.Continues after.toRecord) : d.Knows id after := by
  obtain ⟨spec, hspec, hid, hfile, hkind, hpayload⟩ := h
  exact ⟨spec, by rw [← hspec, ← hcont.ticket], hid, hcont.id.trans hfile, hcont.kind.trans hkind,
    hcont.payload.trans hpayload⟩

theorem Disk.Knows.mono (h : d.Knows id file) (hw : ∃ more, w.accepted = d.accepted ++ more) :
    w.Knows id file := by
  obtain ⟨more, hmore⟩ := hw
  have hlt := h.lt
  obtain ⟨spec, hspec, hrest⟩ := h
  refine ⟨spec, ?_, hrest⟩
  rw [hmore, getElem?_append_left hlt, hspec]

theorem Write.accepted (h : Write L A d w) : ∃ more, w.accepted = d.accepted ++ more := by
  cases h with
  | link state => exact ⟨[state.spec], rfl⟩
  | put | archive | remove => exact ⟨[], by simp⟩

section

variable (hw : Write L A d w)

include hw

/-- What a write does to the file of a live record: nothing, a replacement, or the move to the
history. -/
theorem Write.lookup (hfound : d.queue.lookup id = some file) :
    w.queue.lookup id = some file ∨
      (∃ after, w.queue.lookup id = some after ∧ file.status.terminal = false ∧
        file.toRecord.Continues after.toRecord ∧ A file.toRecord after.toRecord) ∨
      (file.status.terminal ∧ w.history.lookup id = some file) := by
  cases hw with
  | link state fileTime fresh =>
    have hid : id ≠ state.spec.id := by
      rintro rfl
      rw [fresh] at hfound
      cases hfound
    exact .inl (by rw [link_lookup, if_neg hid, hfound])
  | put record fileTime found alive continues allowed =>
    by_cases hid : id = record.spec.id
    · subst hid
      cases found.symm.trans hfound
      exact .inr (.inl ⟨⟨record, fileTime⟩, by rw [put_lookup, if_pos rfl], alive, continues,
        allowed⟩)
    · exact .inl (by rw [put_lookup, if_neg hid, hfound])
  | @archive other moved found ended =>
    by_cases hid : id = other
    · subst hid
      cases found.symm.trans hfound
      exact .inr (.inr ⟨ended, by rw [archive_history found, if_pos rfl]⟩)
    · exact .inl (by rw [archive_queue found, if_neg hid, hfound])
  | remove => exact .inl hfound

/-- Where the file of a live record comes from. -/
theorem Write.origin (hfound : w.queue.lookup id = some file) :
    d.queue.lookup id = some file ∨ (file.ticket = d.accepted.length ∧ w.Knows id file) ∨
      ∃ before, d.queue.lookup id = some before ∧ before.toRecord.Continues file.toRecord ∧
        A before.toRecord file.toRecord := by
  cases hw with
  | link state =>
    rw [link_lookup] at hfound
    split_ifs at hfound with hid
    · cases hfound
      exact .inr (.inl ⟨rfl, state.spec, by simp, hid.symm, hid.symm, rfl, rfl⟩)
    · exact .inl hfound
  | put record fileTime found alive continues allowed =>
    rw [put_lookup] at hfound
    split_ifs at hfound with hid
    · cases hfound
      exact .inr (.inr ⟨_, hid ▸ found, continues, allowed⟩)
    · exact .inl hfound
  | archive found =>
    rw [archive_queue found] at hfound
    split_ifs at hfound
    exact .inl hfound
  | remove => exact .inl hfound

theorem Write.history (h : d.history.lookup id = some file) :
    w.history.lookup id = some file ∨ file.ticket ∈ w.dropped := by
  cases hw with
  | link | put => exact .inl h
  | @archive other moved found =>
    by_cases hid : id = other
    · exact .inr ((mem_archive_dropped found).mpr (.inr ⟨file, hid ▸ h, rfl⟩))
    · exact .inl (by rw [archive_history found, if_neg hid, h])
  | remove name =>
    by_cases hid : id = name
    · exact .inr (mem_remove_dropped.mpr (.inr ⟨file, hid ▸ h, rfl⟩))
    · exact .inl (by rw [remove_history, if_neg hid, h])

theorem Write.history_origin (h : w.history.lookup id = some file) :
    d.history.lookup id = some file ∨
      (d.queue.lookup id = some file ∧ file.status.terminal ∧ w.queue.lookup id = none) := by
  cases hw with
  | link | put => exact .inl h
  | archive found ended =>
    rw [archive_history found] at h
    split_ifs at h with hid
    · subst hid
      cases h
      exact .inr ⟨found, ended, by rw [archive_queue found, if_pos rfl]⟩
    · exact .inl h
  | remove =>
    rw [remove_history] at h
    split_ifs at h
    exact .inl h

theorem Write.dropped (h : t ∈ d.dropped) : t ∈ w.dropped := by
  cases hw with
  | link | put => exact h
  | archive found => exact (mem_archive_dropped found).mpr (.inl h)
  | remove => exact mem_remove_dropped.mpr (.inl h)

/-- A ticket is dropped when its file in the history is overwritten or removed. -/
theorem Write.dropped_origin (hd : WellFormed d) (h : t ∈ w.dropped) :
    t ∈ d.dropped ∨ ∃ id old, d.history.lookup id = some old ∧ old.ticket = t ∧
      w.history.lookup id ≠ some old := by
  cases hw with
  | link | put => exact .inl h
  | archive found =>
    refine ((mem_archive_dropped found).mp h).imp_right ?_
    rintro ⟨old, hold, hticket⟩
    refine ⟨_, old, hold, hticket, ?_⟩
    rw [archive_history found, if_pos rfl]
    rintro ⟨rfl⟩
    exact hd.apart found hold rfl
  | remove name =>
    refine (mem_remove_dropped.mp h).imp_right ?_
    rintro ⟨old, hold, hticket⟩
    exact ⟨name, old, hold, hticket, by rw [remove_history, if_pos rfl]; nofun⟩

theorem Write.new (h : t < w.accepted.length) : t < d.accepted.length ∨ ∃ file, w.Live t file := by
  cases hw with
  | link state fileTime =>
    rw [link_accepted, length_append, length_singleton] at h
    by_cases hlast : t = d.accepted.length
    · refine .inr ⟨⟨⟨state, d.accepted.length⟩, fileTime⟩, state.spec.id, ?_, hlast.symm⟩
      rw [link_lookup, if_pos rfl]
    · exact .inl (by omega)
  | put | remove => exact .inl h
  | archive => exact .inl (archive_accepted ▸ h)

/-- A live record was live before the write, or it has just been linked. -/
theorem Write.live_origin (h : w.Live t file) :
    t = d.accepted.length ∨ ∃ before, d.Live t before := by
  obtain ⟨id, hfound, rfl⟩ := h
  rcases hw.origin hfound with hold | ⟨hnew, -⟩ | ⟨before, hbefore, hcont, -⟩
  · exact .inr ⟨file, id, hold, rfl⟩
  · exact .inl hnew
  · exact .inr ⟨before, id, hbefore, hcont.ticket.symm⟩

end

namespace WellFormed

section

variable (h : WellFormed d)

include h

theorem live_unique (hf : d.Live t file) (hf' : d.Live t file') : file = file' := by
  obtain ⟨id, hfound, rfl⟩ := hf
  obtain ⟨id', hfound', hticket⟩ := hf'
  have hid := (h.queue hfound).same_id (h.queue hfound') hticket.symm
  subst hid
  exact Option.some.inj (hfound.symm.trans hfound')

theorem archived_unique (hf : d.Archived t file) (hf' : d.Archived t file') : file = file' := by
  obtain ⟨id, hfound, rfl⟩ := hf
  obtain ⟨id', hfound', hticket⟩ := hf'
  have hid := (h.history hfound).same_id (h.history hfound') hticket.symm
  subst hid
  exact Option.some.inj (hfound.symm.trans hfound')

theorem live_not_archived (hf : d.Live t file) : ¬ d.Archived t file' := by
  rintro ⟨id', hfound', hticket⟩
  obtain ⟨id, hfound, rfl⟩ := hf
  have hid := (h.queue hfound).same_id (h.history hfound') hticket.symm
  subst hid
  exact h.apart hfound hfound' hticket.symm

theorem write (hw : Write L A d w) : WellFormed w := by
  have hdropped : ∀ t ∈ w.dropped, t < d.accepted.length ∧ ∀ file, ¬ d.Live t file := by
    intro t ht
    rcases hw.dropped_origin h ht with hold | ⟨id, old, hold, rfl, -⟩
    · exact ⟨h.dropped_lt t hold, h.dropped_queue t hold⟩
    · exact ⟨(h.history hold).lt, fun file hlive => h.live_not_archived hlive ⟨id, hold, rfl⟩⟩
  constructor
  case queue =>
    intro id file hfound
    rcases hw.origin hfound with hold | ⟨-, hnew⟩ | ⟨before, hbefore, hcont, -⟩
    · exact (h.queue hold).mono hw.accepted
    · exact hnew
    · exact ((h.queue hbefore).continues hcont).mono hw.accepted
  case history =>
    intro id file hfound
    rcases hw.history_origin hfound with hold | ⟨hmoved, -⟩
    · exact (h.history hold).mono hw.accepted
    · exact (h.queue hmoved).mono hw.accepted
  case ended =>
    intro id file hfound
    rcases hw.history_origin hfound with hold | ⟨-, hended, -⟩
    · exact h.ended hold
    · exact hended
  case apart =>
    intro id live old hlive hold
    rcases hw.history_origin hold with hold | ⟨-, -, hnone⟩
    · rcases hw.origin hlive with hlive | ⟨hnew, -⟩ | ⟨before, hbefore, hcont, -⟩
      · exact h.apart hlive hold
      · have hlt := (h.history hold).lt
        omega
      · have hapart := h.apart hbefore hold
        rwa [← hcont.ticket] at hapart
    · rw [hnone] at hlive
      cases hlive
  case dropped_lt =>
    intro t ht
    obtain ⟨more, hmore⟩ := hw.accepted
    rw [hmore, length_append]
    exact Nat.lt_add_right _ (hdropped t ht).1
  case dropped_queue =>
    intro t ht file hlive
    rcases hw.live_origin hlive with rfl | ⟨before, hbefore⟩
    · exact Nat.lt_irrefl _ (hdropped _ ht).1
    · exact (hdropped t ht).2 before hbefore
  case dropped_history =>
    rintro t ht file ⟨id, hfound, rfl⟩
    rcases hw.history_origin hfound with hold | ⟨hlive, -⟩
    · rcases hw.dropped_origin h ht with hold' | ⟨other, old, hother, hticket, hgone⟩
      · exact h.dropped_history _ hold' file ⟨id, hold, rfl⟩
      · obtain rfl := (h.history hold).same_id (h.history hother) hticket.symm
        cases hold.symm.trans hother
        exact hgone hfound
    · exact (hdropped _ ht).2 file ⟨id, hlive, rfl⟩
  case present =>
    intro t ht
    rcases hw.new ht with hold | hnew
    · rcases h.present t hold with ⟨file, id, hfound, rfl⟩ | ⟨file, id, hfound, rfl⟩ | hold
      · rcases hw.lookup hfound with hkept | ⟨after, hafter, -, hcont, -⟩ | ⟨-, hmoved⟩
        · exact .inl ⟨file, id, hkept, rfl⟩
        · exact .inl ⟨after, id, hafter, hcont.ticket⟩
        · exact .inr (.inl ⟨file, id, hmoved, rfl⟩)
      · rcases hw.history hfound with hkept | hgone
        · exact .inr (.inl ⟨file, id, hkept, rfl⟩)
        · exact .inr (.inr hgone)
      · exact .inr (.inr (hw.dropped hold))
    · exact .inl hnew

theorem writes (hw : Writes L A d w) : WellFormed w := by
  induction hw with
  | refl => exact h
  | tail _ hstep ih => exact ih.write hstep

end

end WellFormed

theorem wellFormed_empty : WellFormed {} where
  queue h := by cases h
  history h := by cases h
  ended h := by cases h
  apart h := by cases h
  dropped_lt t h := by cases h
  dropped_queue t h := by cases h
  dropped_history t h := by cases h
  present t h := by cases h

/-- A record that has not ended stays as it is unless a replacement of it is allowed. -/
theorem Writes.keeps (hw : Writes L A d w) (found : d.queue.lookup id = some file)
    (alive : file.status.terminal = false) (h : ∀ after, ¬ A file.toRecord after) :
    w.queue.lookup id = some file := by
  induction hw with
  | refl => exact found
  | tail _ hstep ih =>
    rcases hstep.lookup ih with hkept | ⟨after, -, -, -, hallowed⟩ | ⟨hended, -⟩
    · exact hkept
    · exact absurd hallowed (h _)
    · rw [alive] at hended
      cases hended

theorem Writes.accepted_grows (hw : Writes L A d w) : ∃ more, w.accepted = d.accepted ++ more := by
  induction hw with
  | refl => exact ⟨[], by simp⟩
  | tail _ hstep ih =>
    obtain ⟨more, hmore⟩ := ih
    obtain ⟨last, hlast⟩ := hstep.accepted
    exact ⟨more ++ last, by rw [hlast, hmore, append_assoc]⟩

theorem Writes.accepted_eq (hw : Writes NoLinks A d w) : w.accepted = d.accepted := by
  induction hw with
  | refl => rfl
  | tail _ hstep ih =>
    rw [← ih]
    cases hstep with
    | link state fileTime fresh queued allowed => exact allowed.elim
    | put | remove => rfl
    | archive => exact archive_accepted

theorem Writes.getElem?_accepted (hw : Writes L A d w) (h : d.accepted[t]? = some spec) :
    w.accepted[t]? = some spec := by
  obtain ⟨more, hmore⟩ := hw.accepted_grows
  rw [hmore, List.getElem?_append_left (List.getElem?_eq_some_iff.mp h).1, h]

/-- Where no record has the ID and none is linked for it, the queue gets none and the history no
other. -/
theorem Writes.absent (hw : Writes L A d w) (hL : ∀ spec, L spec → spec.id ≠ id)
    (hnone : d.queue.lookup id = none) :
    w.queue.lookup id = none ∧ (w.history.lookup id = d.history.lookup id ∨
      w.history.lookup id = none) := by
  induction hw with
  | refl => exact ⟨hnone, .inl rfl⟩
  | tail _ hstep ih =>
    obtain ⟨hqueue, hhistory⟩ := ih
    cases hstep with
    | link state fileTime fresh queued allowed =>
      refine ⟨?_, hhistory⟩
      rw [link_lookup, if_neg (hL _ allowed).symm, hqueue]
    | put record fileTime found =>
      refine ⟨?_, hhistory⟩
      have hid : id ≠ record.spec.id := by
        rintro rfl
        rw [hqueue] at found
        cases found
      rw [put_lookup, if_neg hid, hqueue]
    | @archive other moved found =>
      have hid : id ≠ other := by
        rintro rfl
        rw [hqueue] at found
        cases found
      rw [archive_queue found, if_neg hid, archive_history found, if_neg hid]
      exact ⟨hqueue, hhistory⟩
    | remove name =>
      refine ⟨hqueue, ?_⟩
      rw [remove_history]
      by_cases hid : id = name
      · exact .inr (if_pos hid)
      · rw [if_neg hid]
        exact hhistory

def Disk.Past (d : Disk) (t : ℕ) (status : Status) : Prop :=
  (∃ file, d.Archived t file ∧ file.status = status) ∨ t ∈ d.dropped

/-- The record has the status, in the queue or in the history, or it has left the history. -/
def Disk.Ended (d : Disk) (t : ℕ) (status : Status) : Prop :=
  (∃ file, d.Live t file ∧ file.status = status) ∨ d.Past t status

section Ended

theorem Disk.Past.write (h : d.Past t status) (hw : Write L A d w) : w.Past t status := by
  rcases h with ⟨file, ⟨id, hfound, rfl⟩, hstatus⟩ | hdropped
  · rcases hw.history hfound with hkept | hgone
    · exact .inl ⟨file, ⟨id, hkept, rfl⟩, hstatus⟩
    · exact .inr hgone
  · exact .inr (hw.dropped hdropped)

theorem Disk.Past.writes (h : d.Past t status) (hw : Writes L A d w) : w.Past t status := by
  induction hw with
  | refl => exact h
  | tail _ hstep ih => exact ih.write hstep

theorem Disk.Ended.write (h : d.Ended t status) (hterminal : status.terminal) (hw : Write L A d w) :
    w.Ended t status := by
  rcases h with ⟨file, ⟨id, hfound, hticket⟩, hstatus⟩ | hpast
  · rcases hw.lookup hfound with hkept | ⟨after, -, halive, -⟩ | ⟨-, hmoved⟩
    · exact .inl ⟨file, ⟨id, hkept, hticket⟩, hstatus⟩
    · rw [hstatus, hterminal] at halive
      cases halive
    · exact .inr (.inl ⟨file, ⟨id, hmoved, hticket⟩, hstatus⟩)
  · exact .inr (hpast.write hw)

/-- A record that has ended keeps its status for as long as it is there. -/
theorem Disk.Ended.writes (h : d.Ended t status) (hterminal : status.terminal)
    (hw : Writes L A d w) : w.Ended t status := by
  induction hw with
  | refl => exact h
  | tail _ hstep ih => exact ih.write hterminal hstep

theorem Disk.Past.not_live (h : d.Past t status) (hd : WellFormed d) : ¬ d.Live t file := by
  intro hlive
  rcases h with ⟨other, hother, -⟩ | hdropped
  · exact hd.live_not_archived hlive hother
  · exact hd.dropped_queue t hdropped file hlive

theorem Disk.Ended.status_eq (h : d.Ended t status) (hd : WellFormed d)
    (hfile : d.Live t file ∨ d.Archived t file) : file.status = status := by
  rcases h with ⟨other, hother, hstatus⟩ | hpast
  · rcases hfile with hlive | harch
    · rw [hd.live_unique hlive hother, hstatus]
    · exact absurd harch (hd.live_not_archived hother)
  · rcases hfile with hlive | harch
    · exact absurd hlive (hpast.not_live hd)
    · rcases hpast with ⟨other, hother, hstatus⟩ | hdropped
      · rw [hd.archived_unique harch hother, hstatus]
      · exact absurd harch (hd.dropped_history t hdropped file)

end Ended

/-- A running record whose only replacement is its ambiguous end is running or has that end. -/
theorem Writes.interrupted (hw : Writes L A d w)
    (h : ∃ file, d.Live t file ∧ file.status = .running)
    (hA : ∀ w file after, Writes L A d w → w.Live t file → file.status = .running →
      A file.toRecord after →
      after.status = .ambiguous) :
    (∃ file, w.Live t file ∧ file.status = .running) ∨ w.Ended t .ambiguous := by
  induction hw with
  | refl => exact .inl h
  | tail hpre hstep ih =>
    rcases ih with ⟨file, hlive, hrunning⟩ | hended
    · have hcopy := hlive
      obtain ⟨id, hfound, hticket⟩ := hcopy
      rcases hstep.lookup hfound with hkept | ⟨after, hafter, -, hcont, hallowed⟩ | ⟨hended, -⟩
      · exact .inl ⟨file, ⟨id, hkept, hticket⟩, hrunning⟩
      · exact .inr (.inl ⟨after, ⟨id, hafter, hcont.ticket.trans hticket⟩,
          hA _ file _ hpre hlive hrunning hallowed⟩)
      · rw [hrunning] at hended
        cases hended
    · exact .inr (hended.write rfl hstep)

end OperationStore
