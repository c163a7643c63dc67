import Mathlib.Algebra.Ring.Nat
import Mathlib.Data.Prod.Lex
import Tako.DurablePrograms
import Tako.GoMaps
import Tako.SliceOrder

/-! # The durable operation queue

A live operation is a file of the queue directory, moved to the history directory when the operation
has ended. The journal is written and never read here, so only its failures are modelled. A record's
ticket, the number of the `Enqueue` that made it, is not in the code.
-/
namespace OperationStore

open GoPrelude GoMaps DurablePrograms SliceOrder

def apiVersion : String := "tako.io/v1"

def streamKind : String := "agent.stream"

def maxPendingOperations : ℕ := 256
def maxRetainedOperations : ℕ := 1024
def maxOperationQueueBytes : ℕ := 256 * 2 ^ 20
def maxOperationHistoryBytes : ℕ := 256 * 2 ^ 20
def operationRetention : ℤ := 7 * 24 * hour
def takodMaxQueuedResponseBytes : ℕ := 256 * 2 ^ 10
def maxPayloadBytes : ℕ := 16 * 2 ^ 20

def errOperationExists : String := "platform operation already exists"

inductive Status where
  | queued
  | running
  | succeeded
  | failed
  | ambiguous
  deriving DecidableEq

def Status.terminal : Status → Bool
  | .succeeded | .failed | .ambiguous => true
  | .queued | .running => false

structure OperationSpec where
  apiVersion : String := apiVersion
  (id kind : String)
  payload : String := ""
  createdAt : Time := 0
  deriving DecidableEq

structure OperationState where
  spec : OperationSpec
  status : Status
  phase : String
  attempts : ℤ := 0
  (lastError response : String := "")
  responseStatus : ℤ := 0
  responseContentType : String := ""
  updatedAt : Time
  deriving DecidableEq

structure Record extends OperationState where
  ticket : ℕ
  deriving DecidableEq

structure RecordFile extends Record where
  modTime : Time
  deriving DecidableEq

abbrev Directory : Type := GoMap RecordFile

/-- The two directories, by operation ID. `accepted` are the operations that were ever linked into
the queue, in order, so that a ticket is a position in it; `dropped` are the tickets whose file has
left the history directory. -/
structure Disk where
  (queue history : Directory := ∅)
  accepted : List OperationSpec := []
  dropped : List ℕ := []

structure OperationPlan where
  (diskGrowth build replaySafe : Bool := false)
  deriving DecidableEq

structure OperationResult where
  body : String := ""
  status : ℤ := 0
  contentType : String := ""
  knownFailure : Bool := false
  deriving DecidableEq

/-- `encodedSize` is the length of a record's file. `plan` is the trusted executor's, which derives
it from the kind and the payload alone. -/
structure Platform where
  encodedSize : OperationState → ℕ
  plan : String → String → Except String OperationPlan
  maxOps : ℕ

structure PruneFaults where
  list : Option String := none
  (info remove : String → Option String := fun _ => none)
  sync : Option String := none

/-- What the work on one record meets: the clocks of the process and of the file system, and the
failing system calls. -/
structure Conditions where
  (now fileTime : Time := 0)
  (encode list temporary link read write rename sync : Option String := none)
  prune : PruneFaults := {}
  journal : Option String := none

/-- What a call meets that goes through the queue: every record is worked on at most once. -/
structure Sweep where
  list : Option String := none
  on : String → Conditions := fun _ => {}

section

variable (d : Disk) (c : Conditions) (id : String) (fault : Option String)

def surviving : Except String Unit :=
  match fault with
  | some cause => .error cause
  | none => .ok ()

def attempt : Durable Disk Unit := .check fun _ => surviving fault

def ticketAt (directory : Directory) (name : String) : List ℕ :=
  ((directory.lookup name).map fun file => file.ticket).toList

def Disk.link (state : OperationState) (fileTime : Time) : Disk :=
  { d with
    queue := d.queue.insert state.spec.id ⟨⟨state, d.accepted.length⟩, fileTime⟩
    accepted := d.accepted ++ [state.spec] }

def Disk.put (record : Record) (fileTime : Time) : Disk :=
  { d with queue := d.queue.insert record.spec.id ⟨record, fileTime⟩ }

def Disk.archive : Disk :=
  match d.queue.lookup id with
  | none => d
  | some file =>
    { d with
      queue := d.queue.erase id
      history := d.history.insert id file
      dropped := d.dropped ++ ticketAt d.history id }

def Disk.remove (name : String) : Disk :=
  { d with history := d.history.erase name, dropped := d.dropped ++ ticketAt d.history name }

def readDir (directory : Directory) : List (Sigma fun _ : String => RecordFile) :=
  sortBy (fun entry => entry.1) directory.entries

def isAlphanumeric (c : Char) : Bool := isLowerLetter c || isUpperLetter c || isDigit c

/-- `operationIDPattern`. -/
def isOperationID : Bool :=
  match chars id with
  | [] => false
  | first :: rest =>
    isAlphanumeric first && decide (rest.length ≤ 127) &&
      rest.all fun c => isAlphanumeric c || c == '.' || c == '_' || c == '-'

def validateOperationSpec (now : Time) (spec : OperationSpec) : Except String OperationSpec := do
  require (isOperationID spec.id) "operation ID is invalid"
  let version := if spec.apiVersion = "" then apiVersion else spec.apiVersion
  require (version = apiVersion ∧ trimSpace spec.kind ≠ "")
    "operation apiVersion or kind is invalid"
  require (spec.payload.utf8ByteSize ≤ maxPayloadBytes) "operation payload exceeds 16 MiB"
  .ok { spec with
    apiVersion := version, createdAt := if spec.createdAt = 0 then now else spec.createdAt }

def findRecord : Except String RecordFile :=
  match d.queue.lookup id with
  | some file => .ok file
  | none =>
    match d.history.lookup id with
    | some file => .ok file
    | none => .error s!"open {id}.json: no such file or directory"

/-- `c.read` stands for a failing read and for a file that does not decode. -/
def readLocked (d : Disk) : Except String Record := do
  require (isOperationID id) "invalid operation ID"
  surviving c.read
  let file ← findRecord d id
  let spec ← validateOperationSpec c.now file.spec
  require (spec.id = id) "operation state ID does not match its durable filename"
  .ok { file.toRecord with spec := spec }

def readAll (on : String → Conditions) (d : Disk) :
    List (Sigma fun _ : String => RecordFile) → Except String (List Record)
  | [] => .ok []
  | entry :: rest => do
    let record ← readLocked (on entry.1) entry.1 d
    let records ← readAll on d rest
    .ok (record :: records)

def listLocked (sweep : Sweep) (d : Disk) : Except String (List Record) := do
  surviving sweep.list
  let records ← readAll sweep.on d (readDir d.queue)
  .ok (sortBy (fun record => toLex (record.spec.createdAt, record.spec.id)) records)

def writeLocked (record : Record) : Durable Disk Unit := do
  attempt c.encode
  .write c.write fun d => d.put record c.fileTime

def appendRecord : Durable Disk Unit := attempt c.journal

end

def expired (now : Time) (file : RecordFile) : Bool :=
  decide (file.modTime < now - operationRetention)

def removeFile (faults : PruneFaults) (name : String) : Durable Disk Unit :=
  .write (faults.remove name) fun d => d.remove name

def removeExpired (faults : PruneFaults) (now : Time) :
    List (Sigma fun _ : String => RecordFile) → Durable Disk Unit
  | [] => pure ()
  | entry :: rest => do
    attempt (faults.info entry.1)
    (if expired now entry.2 then removeFile faults entry.1 else pure ())
    removeExpired faults now rest

def removeAll (faults : PruneFaults) : List String → Durable Disk Unit
  | [] => pure ()
  | name :: rest => do
    removeFile faults name
    removeAll faults rest

section Store

variable (P : Platform)

def totalBytes (entries : List (Sigma fun _ : String => RecordFile)) : ℕ :=
  (entries.map fun entry => P.encodedSize entry.2.toOperationState).sum

def overflow : List (Sigma fun _ : String => RecordFile) → List String
  | [] => []
  | entry :: rest =>
    if maxRetainedOperations ≤ (entry :: rest).length ∨
      maxOperationHistoryBytes < totalBytes P (entry :: rest) then
      entry.1 :: overflow rest
    else []

section

variable (c : Conditions) (sweep : Sweep) (inFlight : List String) (record : Record)

def pruneHistoryLocked : Durable Disk Unit := do
  attempt c.prune.list
  let entries ← .check fun d => .ok (readDir d.history)
  removeExpired c.prune c.now entries
  removeAll c.prune
    (overflow P (sortBy (fun entry => entry.2.modTime)
      (entries.filter fun entry => !expired c.now entry.2)))
  attempt c.prune.sync

def moveToHistoryLocked (id : String) : Durable Disk Unit := do
  .check fun d => require ((d.queue.lookup id).isSome)
    s!"rename {id}.json: no such file or directory"
  .write c.rename fun d => d.archive id
  attempt c.sync
  pruneHistoryLocked P c

def queuedState (spec : OperationSpec) (now : Time) : OperationState :=
  { spec := spec, status := .queued, phase := "queued", updatedAt := now }

/-- Only the queue directory is looked at for a record with the same ID. -/
def enqueue (request : OperationSpec) : Durable Disk Unit := do
  let spec ← .check fun _ => validateOperationSpec c.now request
  attempt c.encode
  pruneHistoryLocked P c
  attempt c.list
  .check fun d => require (d.queue.entries.length < maxPendingOperations)
    s!"platform operation queue is full ({maxPendingOperations} pending operations)"
  .check fun d => require
    (totalBytes P d.queue.entries + P.encodedSize (queuedState spec c.now) ≤ maxOperationQueueBytes)
    s!"platform operation queue exceeds its {maxOperationQueueBytes}-byte budget"
  attempt c.temporary
  .check fun d => require (d.queue.lookup spec.id = none) errOperationExists
  .write c.link fun d => d.link (queuedState spec c.now) c.fileTime
  attempt c.sync
  appendRecord c

section

variable (now : Time)

def retired (record : Record) : Record :=
  { record with
    status := .failed
    phase := "not-dispatched"
    lastError := "worker restarted before the streamed operation was dispatched; retry is safe"
    updatedAt := now }

def recovered (record : Record) : Record :=
  match P.plan record.spec.kind record.spec.payload with
  | .error cause =>
    { record with
      status := .failed, phase := "recovery-failed", lastError := cause, updatedAt := now }
  | .ok plan =>
    if plan.replaySafe then
      { record with status := .queued, phase := "recovered", lastError := "", updatedAt := now }
    else
      { record with
        status := .ambiguous
        phase := "outcome-unknown"
        lastError := "worker restarted after dispatching a non-replay-safe operation; operator " ++
          "reconciliation is required"
        updatedAt := now }

def moveIfTerminal : Durable Disk Unit :=
  if record.status.terminal then moveToHistoryLocked P c record.spec.id else pure ()

def recoverRecord : Durable Disk Unit :=
  if record.status.terminal then do
    moveToHistoryLocked P c record.spec.id
    appendRecord c
  else if record.spec.kind = streamKind ∧ record.status = .queued then do
    writeLocked c (retired c.now record)
    moveToHistoryLocked P c record.spec.id
    appendRecord c
  else if record.status ≠ .running then pure ()
  else do
    writeLocked c (recovered P c.now record)
    moveIfTerminal P c (recovered P c.now record)
    appendRecord c

def recoverEach (on : String → Conditions) : List Record → Durable Disk Unit
  | [] => pure ()
  | record :: rest => do
    recoverRecord P (on record.spec.id) record
    recoverEach on rest

def recoverIncomplete : Durable Disk Unit := do
  let records ← .check (listLocked sweep)
  recoverEach P sweep.on records

def claimable : Bool :=
  decide (record.spec.kind ≠ streamKind) && decide (record.status = .queued) &&
    !inFlight.contains record.spec.id

def claimed (record : Record) : Record :=
  { record with
    status := .running, phase := "executing", attempts := record.attempts + 1, updatedAt := now }

def claimNext : Durable Disk (Option Record) := do
  let records ← .check (listLocked sweep)
  match records.find? (claimable inFlight) with
  | none => pure none
  | some record => do
    writeLocked (sweep.on record.spec.id) (claimed (sweep.on record.spec.id).now record)
    appendRecord (sweep.on record.spec.id)
    pure (some (claimed (sweep.on record.spec.id).now record))

def failure (result : OperationResult) (executionErr : Option String) : Option String :=
  if takodMaxQueuedResponseBytes < result.body.utf8ByteSize then
    some s!"operation response exceeds {takodMaxQueuedResponseBytes} bytes"
  else
    match executionErr with
    | some cause => some cause
    | none =>
      if result.knownFailure then some s!"upstream rejected operation with HTTP {result.status}"
        else none

def completed (record : Record) (result : OperationResult) (executionErr : Option String) :
    Record :=
  { record with
    status := if (failure result executionErr).isSome then .failed else .succeeded
    phase := if (failure result executionErr).isSome then "failed" else "completed"
    lastError := (failure result executionErr).getD record.lastError
    response := if takodMaxQueuedResponseBytes < result.body.utf8ByteSize then "" else result.body
    responseStatus := result.status
    responseContentType := trimSpace result.contentType
    updatedAt := now }

def complete (id : String) (result : OperationResult) (executionErr : Option String) :
    Durable Disk Unit := do
  let record ← .check (readLocked c id)
  writeLocked c (completed c.now record result executionErr)
  moveToHistoryLocked P c id
  appendRecord c

def interrupted (message : String) (record : Record) : Record :=
  { record with status := .queued, phase := "interrupted", lastError := message, updatedAt := now }

def requeue (id message : String) : Durable Disk Unit := do
  let record ← .check (readLocked c id)
  writeLocked c (interrupted c.now message record)
  appendRecord c

def uncertain (message : String) (record : Record) : Record :=
  { record with
    status := .ambiguous, phase := "outcome-unknown", lastError := message, updatedAt := now }

def markAmbiguous (id message : String) : Durable Disk Unit := do
  let record ← .check (readLocked c id)
  writeLocked c (uncertain c.now message record)
  moveToHistoryLocked P c id
  appendRecord c

/-- `startExternal` up to where it gives the lock back. -/
def openExternal (spec : OperationSpec) : Durable Disk Unit := do
  .check fun _ => require (spec.kind = streamKind) "external operation must use agent.stream kind"
  enqueue P c spec

def started (record : Record) : Record :=
  { record with status := .running, phase := "executing", attempts := 1, updatedAt := now }

end

/-- `startExternal` from where it takes the lock again. -/
def beginExternal (id : String) : Durable Disk Unit := do
  let record ← .check (readLocked c id)
  writeLocked c (started c.now record)
  appendRecord c

end

end Store

end OperationStore
