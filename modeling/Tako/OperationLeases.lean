import Tako.NodeIdentity

/-! # Operation leases

One lease file per project and environment. Every call below is the body of one critical section:
the clock reading it works with is an argument, taken before the mutex. A fault record chooses the
system calls that fail; the operating system's text is left off the wrapped errors.
-/
namespace OperationLeases

open GoPrelude NodeIdentity

def defaultLeaseTTL : ℤ := 30 * minute
def maxLeaseTTL : ℤ := 24 * hour

structure LeaseInfo where
  (id projectName environment operation who : String)
  pid : ℤ
  (createdAt expiresAt : Time)
  fence : Option OperationFence
  deriving DecidableEq

structure LeaseRequest where
  (project environment id operation who : String)
  (pid ttlSeconds : ℤ)
  renew : Bool
  (requestID holderToken : String)
  targetNodeIDs : List String
  fence : Option OperationFence
  deriving DecidableEq

structure LeaseResponse where
  (acquired found : Bool)
  lease : Option LeaseInfo
  (message holderToken : String)
  deriving DecidableEq

/-- `torn` is a file whose creator stopped before its content could be decoded. -/
inductive LeaseFile where
  | absent
  | torn
  | held (lease : LeaseInfo)
  deriving DecidableEq

abbrev Scope := String × String

abbrev LeaseDir := Scope → LeaseFile

def LeaseRequest.scope (req : LeaseRequest) : Scope := (req.project, req.environment)

/-- Faults of one pass of the acquire loop, each with the system's error text. After a
failed write the file may still hold the whole encoded lease, which is what `whole` says. -/
structure AttemptFaults where
  (create write : Option String)
  whole : Bool
  (close remove read rename : Option String)
  deriving DecidableEq

/-- `context` is the error of a context that is already done. -/
structure LeaseFaults where
  (context mkdir : Option String)
  (first second : AttemptFaults)
  deriving DecidableEq

def noAttemptFaults : AttemptFaults := ⟨none, none, false, none, none, none, none⟩
def noFaults : LeaseFaults := ⟨none, none, noAttemptFaults, noAttemptFaults⟩

def isNameByte (c : Char) : Bool :=
  isLowerLetter c || isUpperLetter c || isDigit c || c == '-' || c == '_'

def isSafeProjectName (name : String) : Bool :=
  match chars name, (chars name).getLast? with
  | first :: _, some last =>
    decide (name.utf8ByteSize ≤ 63) && isLowerLetter first &&
      (isLowerLetter last || isDigit last) &&
      (chars name).all fun c => isLowerLetter c || isDigit c || c == '-'
  | _, _ => false

def isSafeRuntimeName (name : String) : Bool :=
  decide (name.utf8ByteSize ≠ 0) && decide (name.utf8ByteSize ≤ 63) && (chars name).all isNameByte

def isSafeStateRevisionID (value : String) : Bool :=
  decide (value.utf8ByteSize ≠ 0) && decide (value.utf8ByteSize ≤ 128) &&
    (chars value).all isNameByte

def hasControlChars (value : String) : Bool :=
  (chars value).any fun c => c == '\x00' || c == '\r' || c == '\n'

def validateLeaseRequest (req : LeaseRequest) (requireAcquireFields : Bool) :
    Except String Unit := do
  require (isSafeProjectName req.project) "invalid project name"
  require (isSafeRuntimeName req.environment) "invalid environment name"
  whenever (requireAcquireFields) do
    require (req.id ≠ "" ∧ isSafeStateRevisionID req.id) "invalid lease ID"
    require (req.operation ≠ "" ∧ isSafeStateRevisionID req.operation) "invalid lease operation"
    require (req.who ≠ "" ∧ req.who.utf8ByteSize ≤ 256) "invalid lease owner"
    require (hasControlChars req.who = false) "invalid lease owner"
    require (0 ≤ req.pid) "invalid lease PID"
    require (0 ≤ req.ttlSeconds ∧ req.ttlSeconds ≤ maxLeaseTTL / second) "invalid lease TTL"

section

variable (dataDir : String) (faults : LeaseFaults)

def leaseOpen : Except String Unit :=
  match faults.context with
  | some cause => .error cause
  | none => require (dataDir ≠ "") "data directory is required"

def leasePreflight (req : LeaseRequest) (full : Bool) : Except String Unit := do
  validateLeaseRequest req full
  leaseOpen dataDir faults

end

def readLeaseFile (fault : Option String) (file : LeaseFile) : Except String (Option LeaseInfo) :=
  match fault, file with
  | some cause, _ => .error cause
  | none, .absent => .ok none
  | none, .torn => .error "unexpected end of JSON input"
  | none, .held lease => .ok (some lease)

def LeaseRequest.ttl (req : LeaseRequest) : ℤ :=
  if req.ttlSeconds * second ≤ 0 then defaultLeaseTTL else req.ttlSeconds * second

def newLease (req : LeaseRequest) (now : Time) : LeaseInfo where
  id := req.id
  projectName := req.project
  environment := req.environment
  operation := req.operation
  who := req.who
  pid := req.pid
  createdAt := now
  expiresAt := now + req.ttl
  fence := none

def LeaseInfo.renewed (lease : LeaseInfo) (candidateExpiry : Time) : LeaseInfo :=
  { lease with
    expiresAt := if lease.expiresAt < candidateExpiry then candidateExpiry else lease.expiresAt }

def refused (found : Bool) (lease : Option LeaseInfo) (message : String) : LeaseResponse :=
  ⟨false, found, lease, message, ""⟩

def granted (lease : LeaseInfo) (message : String) : LeaseResponse :=
  ⟨true, true, some lease, message, ""⟩

/-- The exclusive create, the write and the close of a fresh lease file. -/
def createLeaseFile (faults : AttemptFaults) (lease : LeaseInfo) :
    Except String LeaseResponse × LeaseFile :=
  match faults.write, faults.close with
  | some cause, _ =>
    (.error ("failed to write lease: " ++ cause),
      if faults.remove.isSome then (if faults.whole then .held lease else .torn) else .absent)
  | none, some cause =>
    (.error ("failed to close lease: " ++ cause), if faults.remove.isSome then .held lease
      else .absent)
  | none, none => (.ok (granted lease ""), .held lease)

/-- The atomic rewrite of a lease file by its holder. -/
def rewriteLeaseFile (fault : Option String) (renewed : LeaseInfo) (file : LeaseFile)
    (failure : String) : Except String LeaseResponse × LeaseFile :=
  match fault with
  | some cause => (.error (failure ++ cause), file)
  | none => (.ok (granted renewed "lease renewed"), .held renewed)

def acquireAttempts (req : LeaseRequest) (now : Time) :
    List AttemptFaults → LeaseFile → Except String LeaseResponse × LeaseFile
  | [], file => (.error "failed to acquire lease after removing expired lease", file)
  | faults :: rest, file =>
    match faults.create with
    | some cause => (.error ("failed to create lease: " ++ cause), file)
    | none =>
      if file = .absent then createLeaseFile faults (newLease req now)
      else match readLeaseFile faults.read file with
      | .error cause =>
        (.error ("lease is held but metadata could not be read: " ++ cause), file)
      | .ok none => acquireAttempts req now rest file
      | .ok (some current) =>
        if current.expiresAt ≤ now then
          match faults.remove with
          | some cause => (.error ("failed to remove expired lease: " ++ cause), file)
          | none => acquireAttempts req now rest .absent
        else if current.id = req.id then
          rewriteLeaseFile faults.rename (current.renewed (now + req.ttl)) file
            "failed to renew lease: "
        else (.ok (refused true (some current) "lease is held"), file)

def renewLease (req : LeaseRequest) (now : Time) (faults : AttemptFaults) (file : LeaseFile) :
    Except String LeaseResponse × LeaseFile :=
  match readLeaseFile faults.read file with
  | .error cause => (.error ("failed to read lease for renewal: " ++ cause), file)
  | .ok none => (.ok (refused false none "lease not found"), file)
  | .ok (some current) =>
    if current.expiresAt ≤ now then (.ok (refused true (some current) "lease expired"), file)
    else if current.id ≠ req.id then (.ok (refused true (some current) "lease is held"), file)
    else rewriteLeaseFile faults.rename (current.renewed (now + req.ttl)) file
      "failed to renew lease: "

section

variable (dataDir : String) (faults : LeaseFaults) (req : LeaseRequest)

def acquireLease (now : Time) (file : LeaseFile) : Except String LeaseResponse × LeaseFile :=
  match leasePreflight dataDir faults req true with
  | .error cause => (.error cause, file)
  | .ok _ =>
    match faults.mkdir with
    | some cause => (.error ("failed to create lease directory: " ++ cause), file)
    | none =>
      if req.renew then renewLease req now faults.first file
      else acquireAttempts req now [faults.first, faults.second] file

def renewLeaseTo (expiresAt : Time) (file : LeaseFile) : Except String LeaseResponse × LeaseFile :=
  match leasePreflight dataDir faults req false with
  | .error cause => (.error cause, file)
  | .ok _ =>
    match readLeaseFile faults.first.read file with
    | .error cause =>
      (.error ("failed to read controller backing lease for renewal: " ++ cause), file)
    | .ok none => (.ok (refused false none "controller backing lease was lost"), file)
    | .ok (some current) =>
      if current.id ≠ req.id then
        (.ok (refused true (some current) "controller backing lease was lost"), file)
      else rewriteLeaseFile faults.first.rename { current with expiresAt := expiresAt } file
        "failed to renew controller backing lease: "

def readLease (now : Time) (file : LeaseFile) : Except String LeaseResponse × LeaseFile :=
  match leasePreflight dataDir faults req false with
  | .error cause => (.error cause, file)
  | .ok _ =>
    match readLeaseFile faults.first.read file with
    | .error cause => (.error cause, file)
    | .ok none => (.ok (refused false none ""), file)
    | .ok (some lease) =>
      if lease.expiresAt ≤ now then
        (.ok (refused false none ""), if faults.first.remove.isSome then file else .absent)
      else (.ok (refused true (some lease) ""), file)

def releasePreflight : Except String Unit := do
  validateLeaseRequest req false
  require (req.id ≠ "") "lease ID is required"
  leaseOpen dataDir faults

def releaseLease (file : LeaseFile) : Except String LeaseResponse × LeaseFile :=
  match releasePreflight dataDir faults req with
  | .error cause => (.error cause, file)
  | .ok _ =>
    match readLeaseFile faults.first.read file with
    | .error cause => (.error cause, file)
    | .ok none => (.ok (refused false none ""), file)
    | .ok (some current) =>
      if current.id ≠ req.id then
        (.error
          s!"cannot release lease: held by {current.who} (operation: {current.operation})", file)
      else match faults.first.remove with
        | some cause => (.error ("failed to remove lease: " ++ cause), file)
        | none => (.ok (refused false (some current) ""), .absent)

end

def Free (file : LeaseFile) (now : Time) : Prop :=
  file = .absent ∨ ∃ current, file = .held current ∧ current.expiresAt ≤ now

inductive AcquireOutcome (req : LeaseRequest) (now : Time) (file : LeaseFile) :
    Except String LeaseResponse × LeaseFile → Prop where
  | refused : (∀ response, r = .ok response → response.acquired = false) →
      AcquireOutcome req now file (r, file)
  | failed : req.renew = false → Free file now →
      (file' = .absent ∨ file' = .torn ∨ file' = .held (newLease req now)) →
      AcquireOutcome req now file (.error cause, file')
  | created : req.renew = false → Free file now →
      AcquireOutcome req now file (.ok (granted (newLease req now) ""), .held (newLease req now))
  | renewed : file = .held current → now < current.expiresAt → current.id = req.id →
      AcquireOutcome req now file (.ok (granted (current.renewed e) "lease renewed"),
        .held (current.renewed e))

theorem readLeaseFile_some (h : readLeaseFile fault file = .ok (some lease)) :
    file = .held lease := by
  cases fault with
  | some => simp [readLeaseFile] at h
  | none =>
    cases file with
    | absent | torn => simp [readLeaseFile] at h
    | held => simpa [readLeaseFile] using h

theorem rewrite_outcome (failure : String) (hlive : now < current.expiresAt)
    (hid : current.id = req.id) :
    AcquireOutcome req now (.held current)
      (rewriteLeaseFile fault (current.renewed e) (.held current) failure) := by
  cases fault with
  | some => exact .refused (by simp)
  | none => exact .renewed rfl hlive hid

theorem create_outcome (hr : req.renew = false) (hfree : Free file now) :
    AcquireOutcome req now file (createLeaseFile faults (newLease req now)) := by
  unfold createLeaseFile
  split
  · refine .failed hr hfree ?_
    split_ifs <;> simp
  · refine .failed hr hfree ?_
    split_ifs <;> simp
  · exact .created hr hfree

theorem attempts_absent (hr : req.renew = false) (hfree : Free file now)
    (faults : List AttemptFaults) :
    AcquireOutcome req now file (acquireAttempts req now faults .absent) := by
  cases faults with
  | nil => exact .failed hr hfree (.inl rfl)
  | cons =>
    simp only [acquireAttempts, if_true]
    split
    · exact .failed hr hfree (.inl rfl)
    · exact create_outcome hr hfree

theorem attempts_outcome (hr : req.renew = false) :
    AcquireOutcome req now file (acquireAttempts req now faults file) := by
  induction faults with
  | nil => exact .refused (by simp)
  | cons f rest ih =>
    unfold acquireAttempts
    split
    · exact .refused (by simp)
    split
    · rename_i ha
      exact create_outcome hr (.inl ha)
    split
    · exact .refused (by simp)
    · exact ih
    · rename_i current hread
      have hf := readLeaseFile_some hread
      subst file
      split_ifs with hexp hid
      · split
        · exact .refused (by simp)
        · exact attempts_absent hr (.inr ⟨current, rfl, hexp⟩) rest
      · exact rewrite_outcome _ (not_le.mp hexp) hid
      · exact .refused (by simp [OperationLeases.refused])

theorem renew_outcome : AcquireOutcome req now file (renewLease req now faults file) := by
  unfold renewLease
  split
  · exact .refused (by simp)
  · exact .refused (by simp [OperationLeases.refused])
  · rename_i current hread
    have hf := readLeaseFile_some hread
    subst file
    split_ifs with hexp hid
    · exact .refused (by simp [OperationLeases.refused])
    · exact .refused (by simp [OperationLeases.refused])
    · exact rewrite_outcome _ (not_le.mp hexp) (not_not.mp hid)

section

variable (dataDir : String) (faults : LeaseFaults) (req : LeaseRequest)

include dataDir faults req

theorem acquire_outcome (now : Time) (file : LeaseFile) :
    AcquireOutcome req now file (acquireLease dataDir faults req now file) := by
  unfold acquireLease
  split
  · exact .refused (by simp)
  · split
    · exact .refused (by simp)
    split_ifs with hr
    · exact renew_outcome
    · exact attempts_outcome (by simpa using hr)

theorem read_outcome (now : Time) (file : LeaseFile) :
    (readLease dataDir faults req now file).2 = file ∨
      (Free file now ∧ (readLease dataDir faults req now file).2 = .absent) := by
  unfold readLease
  split
  · exact .inl rfl
  · split
    · exact .inl rfl
    · exact .inl rfl
    · rename_i lease hread
      have hf := readLeaseFile_some hread
      split_ifs with hexp hrem
      · exact .inl rfl
      · exact .inr ⟨.inr ⟨lease, hf, hexp⟩, rfl⟩
      · exact .inl rfl

theorem release_outcome (file : LeaseFile) : ((releaseLease dataDir faults req file).2 = file ∧
      ∀ response, (releaseLease dataDir faults req file).1 = .ok response → response.lease = none) ∨
    ∃ current, file = .held current ∧ current.id = req.id ∧
      releaseLease dataDir faults req file = (.ok (refused false (some current) ""), .absent) := by
  unfold releaseLease
  split
  · exact .inl ⟨rfl, by simp⟩
  · split
    · exact .inl ⟨rfl, by simp⟩
    · exact .inl ⟨rfl, by simp [refused]⟩
    · rename_i current hread
      have hf := readLeaseFile_some hread
      split_ifs with hid
      · exact .inl ⟨rfl, by simp⟩
      cases faults.first.remove with
      | some => exact .inl ⟨rfl, by simp⟩
      | none => exact .inr ⟨current, hf, not_not.mp hid, rfl⟩

end

end OperationLeases
