import Mathlib.Data.Fintype.Pi
import Tako.GoPrelude
import Tako.LockFiles
import Tako.Runs

/-! # The local state lock

A lock that is refused but whose file says that it is older than `LockTimeout` is taken over: the
file is removed and `Acquire` starts again. Every system call is a step of its own. A party is one
use of a `StateLock`.
-/
namespace StateLock

open GoPrelude LockFiles Runs Function Coherent

def lockTimeout : ℤ := 30 * minute

structure LockInfo where
  (id operation who : String)
  created : Time
  deriving DecidableEq

/-- Where a party is, with the file it has open. -/
inductive Phase where
  | idle
  /-- The file is open; `flock` is next. -/
  | opened (file : ℕ)
  /-- `flock` was refused; the file is closed next. -/
  | denied (file : ℕ)
  /-- The file is closed; `readLock` is next. -/
  | refused
  /-- In `forceAcquire`, before the stale file is removed. -/
  | stale
  | locked (file : ℕ)
  | truncated (file : ℕ)
  /-- `writeLockInfo` has failed; the lock is given back next. -/
  | failed (file : ℕ)
  | abandoned (file : ℕ)
  /-- `Acquire` has returned the lock. -/
  | held (file : ℕ) (info : LockInfo)
  /-- `Release` has been called; `readLock` is next. -/
  | releasing (file : ℕ) (info : LockInfo)
  /-- `Release` has returned "lock ID mismatch"; the file stays open. -/
  | mismatched (file : ℕ) (info : LockInfo)
  | verified (file : ℕ)
  | unlocked (file : ℕ)
  /-- The file is closed; `os.Remove` is next. -/
  | closed
  deriving DecidableEq

structure State (ι : Type) where
  files : Files ι
  /-- The lock info in each inode, if there is one to read. -/
  content : ℕ → Option LockInfo
  phase : ι → Phase

inductive Action where
  | openFile
  | flock
  | closeFile
  | readLock (now : Time)
  | unlink
  | unlinkFails
  | truncate
  | write (info : LockInfo)
  | writeFails
  | unlock
  | release
  | verify
  | crash
  deriving DecidableEq

variable {ι : Type} [DecidableEq ι]

namespace State

variable (s : State ι)

/-- `readLock`: no file gives no info and no error, and a file without lock info an error. -/
def readLock : Except String (Option LockInfo) :=
  match s.files.path with
  | none => .ok none
  | some file =>
    match s.content file with
    | none => .error "unexpected end of JSON input"
    | some info => .ok (some info)

def isStale (now : Time) : Bool :=
  match s.readLock with
  | .ok (some info) => decide (lockTimeout < now - info.created)
  | _ => false

def isOther (info : LockInfo) : Bool :=
  match s.readLock with
  | .ok (some current) => decide (current.id ≠ info.id)
  | _ => false

def goto (p : ι) (phase : Phase) : State ι := { s with phase := update s.phase p phase }

def withContent (file : ℕ) (info : Option LockInfo) : State ι :=
  { s with content := update s.content file info }

def withFiles (files : Files ι) : State ι := { s with files := files }

end State

def create (s : State ι) : State ι :=
  { s with
    content :=
      match s.files.path with
      | some _ => s.content
      | none => update s.content s.files.inodes none }

/-- One system call of the party `p`. -/
def step (s : State ι) (p : ι) (action : Action) : Option (State ι) :=
  match s.phase p, action with
  | .idle, .openFile =>
    some (((create s).withFiles s.files.opened.1).goto p (.opened s.files.opened.2))
  | .opened file, .flock =>
    match s.files.owner file with
    | none => some ((s.withFiles (s.files.withOwner file (some p))).goto p (.locked file))
    | some _ => some (s.goto p (.denied file))
  | .denied _, .closeFile => some (s.goto p .refused)
  | .refused, .readLock now => some (s.goto p (if s.isStale now then .stale else .idle))
  | .stale, .unlink => some ((s.withFiles s.files.unlinked).goto p .idle)
  | .stale, .unlinkFails => some (s.goto p .idle)
  | .locked file, .truncate => some ((s.withContent file none).goto p (.truncated file))
  | .locked file, .writeFails => some (s.goto p (.failed file))
  | .truncated file, .write info => some ((s.withContent file (some info)).goto p (.held file info))
  | .truncated file, .writeFails => some (s.goto p (.failed file))
  | .failed file, .unlock =>
    some ((s.withFiles (s.files.withOwner file none)).goto p (.abandoned file))
  | .abandoned _, .closeFile => some (s.goto p .idle)
  | .held file info, .release => some (s.goto p (.releasing file info))
  | .mismatched file info, .release => some (s.goto p (.releasing file info))
  | .releasing file info, .verify =>
    some (s.goto p (if s.isOther info then .mismatched file info else .verified file))
  | .verified file, .unlock =>
    some ((s.withFiles (s.files.withOwner file none)).goto p (.unlocked file))
  | .unlocked _, .closeFile => some (s.goto p .closed)
  -- a `Release` without an open file, as a second one is, goes straight to the removal
  | .idle, .release => some (s.goto p .closed)
  | .closed, .unlink => some ((s.withFiles s.files.unlinked).goto p .idle)
  | .closed, .unlinkFails => some (s.goto p .idle)
  | _, .crash => some ((s.withFiles (s.files.released p)).goto p .idle)
  | _, _ => none

def machine (ι : Type) [DecidableEq ι] : Machine (State ι) (ι × Action) where
  Enabled s e := (step s e.1 e.2).isSome
  next s e := (step s e.1 e.2).getD s

instance (s : State ι) (e : ι × Action) : Decidable ((machine ι).Enabled s e) :=
  inferInstanceAs (Decidable ((step s e.1 e.2).isSome))

/-- Any file may be left from earlier, but nobody is running and nobody has the lock. -/
def Initial (s : State ι) : Prop := (∀ p, s.phase p = .idle) ∧ ∀ file, s.files.owner file = none

def Holding (s : State ι) (p : ι) : Prop := ∃ file info, s.phase p = .held file info

/-- From `open` to the return of `Acquire` and on to `Release` a party relies on its inode being
the lock file. -/
def Phase.stake : Phase → Stake
  | .opened file => ⟨some file, none⟩
  | .locked file | .truncated file | .held file _ => ⟨some file, some file⟩
  | .failed file | .releasing file _ | .mismatched file _ | .verified file => ⟨none, some file⟩
  | .idle | .denied _ | .refused | .stale | .abandoned _ | .unlocked _ | .closed => noStake

def Unused (s : State ι) : Prop :=
  ∀ q, (s.phase q).stake.relies = none ∨ (s.phase q).stake.relies ≠ s.files.path

instance [Fintype ι] (s : State ι) : Decidable (Unused s) := Fintype.decidableForallFintype

def UnlinksUnused (s : State ι) (e : ι × Action) : Prop := e.2 = .unlink → Unused s

instance [Fintype ι] (s : State ι) (e : ι × Action) : Decidable (UnlinksUnused s e) :=
  inferInstanceAs (Decidable (e.2 = .unlink → Unused s))

def Sound (s : State ι) : Prop := Coherent s.files fun p => (s.phase p).stake

variable {s : State ι}

theorem Sound.goto {files : Files ι} {content : ℕ → Option LockInfo} {phase : Phase}
    (h : Coherent files (update (fun q => (s.phase q).stake) p phase.stake)) :
    Sound (⟨files, content, update s.phase p phase⟩ : State ι) := by
  have hstake : (fun q => (update s.phase p phase q).stake) =
      update (fun q => (s.phase q).stake) p phase.stake := by
    funext q
    by_cases hq : q = p
    · subst hq
      rw [update_self, update_self]
    · rw [update_of_ne hq, update_of_ne hq]
  change Coherent files fun q => (update s.phase p phase q).stake
  rw [hstake]
  exact h

theorem Sound.keep {content : ℕ → Option LockInfo} (hs : Sound s) (hold : s.phase p = old)
    (hrelies : new.stake.relies = none ∨ new.stake.relies = old.stake.relies := by
      first | exact .inl rfl | exact .inr rfl)
    (hlocks : new.stake.locks = none ∨ new.stake.locks = old.stake.locks := by
      first | exact .inl rfl | exact .inr rfl) :
    Sound (⟨s.files, content, update s.phase p new⟩ : State ι) := by
  subst hold
  refine Sound.goto (hs.update ?_ ?_)
  · intro i hi
    rcases hrelies with hnone | hsame
    · rw [hnone] at hi
      cases hi
    · exact hs.current p i (hsame ▸ hi)
  · intro i hi
    rcases hlocks with hnone | hsame
    · rw [hnone] at hi
      cases hi
    · exact hs.owned p i (hsame ▸ hi)

theorem Sound.unlink (hs : Sound s) (hold : s.phase p = old) (hunused : Unused s) :
    Sound ((s.withFiles s.files.unlinked).goto p .idle) := by
  have hfree : Sound (s.withFiles s.files.unlinked) := Coherent.unlink hs hunused
  exact hfree.keep hold

theorem Sound.unlock {file : ℕ} (hs : Sound s) (hold : (s.phase p).stake.locks = some file)
    (hnew : new.stake = noStake) :
    Sound ((s.withFiles (s.files.withOwner file none)).goto p new) := by
  refine Sound.goto ?_
  rw [hnew]
  exact Coherent.unlock hs hold

/-- Every system call keeps the parties' reliance right, as long as no file in use is removed. -/
theorem step_sound {u : State ι} {action : Action} (hs : Sound s) (h : step s p action = some u)
    (hunused : action = .unlink → Unused s) : Sound u := by
  unfold step at h
  split at h
  -- most calls only move the party on
  any_goals
    rename_i hphase
    cases h
    try split_ifs
    all_goals exact hs.keep hphase
  · cases h
    exact Sound.goto (openFile hs)
  · rename_i file hphase
    split at h
    · rename_i hfree
      cases h
      exact Sound.goto (s := s) (lock hs (by rw [hphase]; rfl) hfree)
    · cases h
      exact hs.keep hphase
  · rename_i hphase
    cases h
    exact hs.unlink hphase (hunused rfl)
  · rename_i hphase
    cases h
    exact hs.unlock (by rw [hphase]; rfl) rfl
  · rename_i hphase
    cases h
    exact hs.unlock (by rw [hphase]; rfl) rfl
  · rename_i hphase
    cases h
    exact hs.unlink hphase (hunused rfl)
  · cases h
    exact Sound.goto (die hs)

theorem initial_sound {κ : Type} {s : State κ} (h : Initial s) : Sound s := by
  constructor
  · intro p file hp
    rw [h.1 p] at hp
    cases hp
  · intro p file hp
    rw [h.1 p] at hp
    cases hp

theorem reachable_sound (h : ((machine ι).restrict UnlinksUnused).Reachable Initial s) :
    Sound s := by
  refine h.invariant (fun _ => initial_sound) ?_
  rintro u ⟨p, action⟩ hu ⟨henabled, hunused⟩
  obtain ⟨v, hv⟩ := Option.isSome_iff_exists.mp henabled
  change Sound ((step u p action).getD u)
  rw [hv]
  exact step_sound hu hv hunused

/-- In every run that removes the lock file only while no party has it open as the lock, at most
one party is between a successful `Acquire` and its `Release`. -/
theorem state_lock_exclusive {s : State ι}
    (h : ((machine ι).restrict UnlinksUnused).Reachable Initial s) {p q : ι} (hp : Holding s p)
    (hq : Holding s q) : p = q := by
  obtain ⟨i, a, hp⟩ := hp
  obtain ⟨j, b, hq⟩ := hq
  refine exclusive (reachable_sound h) (i := i) (j := j) ?_ ?_
  · rw [hp]
    rfl
  · rw [hq]
    rfl

def noFile (ι : Type) : State ι := ⟨⟨none, 0, fun _ => none⟩, fun _ => none, fun _ => .idle⟩

theorem noFile_initial (κ : Type) : Initial (noFile κ) := ⟨fun _ => rfl, fun _ => rfl⟩

def infoOf (id : String) (created : Time) : LockInfo := ⟨id, "deploy", "ops@host", created⟩

def acquires (p : ι) (info : LockInfo) : List (ι × Action) :=
  [(p, .openFile), (p, .flock), (p, .truncate), (p, .write info)]

def releases (p : ι) : List (ι × Action) :=
  [(p, .release), (p, .verify), (p, .unlock), (p, .closeFile), (p, .unlink)]

inductive Party where
  | first
  | second
  | third
  deriving DecidableEq

instance : Fintype Party := ⟨{.first, .second, .third}, fun p => by cases p <;> decide⟩

/-- The second party comes too early, and gets the lock once the first has released it. -/
def handover : List (Party × Action) :=
  acquires .first (infoOf "a" 0) ++
    [(.second, .openFile), (.second, .flock), (.second, .closeFile), (.second, .readLock second)] ++
    releases .first ++ acquires .second (infoOf "b" second)

def afterHandover : State Party := (machine Party).runTrace (noFile Party) handover

theorem handover_exclusive : Holding afterHandover .second ∧ ¬ Holding afterHandover .first := by
  have hsecond : Holding afterHandover .second := ⟨1, infoOf "b" second, by decide +kernel⟩
  refine ⟨hsecond, fun hfirst => ?_⟩
  have hsame := state_lock_exclusive (.of_trace (noFile_initial _) handover (by decide +kernel))
    hfirst hsecond
  exact absurd hsame (by decide)

/-- The first party removes, on its way out, the file that the second has just locked; the third
creates and locks a new one. -/
def removedInUse : List (Party × Action) :=
  acquires .first (infoOf "a" 0) ++
    [(.second, .openFile), (.first, .release), (.first, .verify), (.first, .unlock),
      (.first, .closeFile),
      (.second, .flock), (.second, .truncate), (.second, .write (infoOf "b" second)),
      (.first, .unlink)] ++
    acquires .third (infoOf "c" (2 * second))

/-- The second party takes the lock of the first, which has been working for 31 minutes. -/
def takenOver : List (Party × Action) :=
  acquires .first (infoOf "a" 0) ++
    [(.second, .openFile), (.second, .flock), (.second, .closeFile),
      (.second, .readLock (31 * minute)), (.second, .unlink)] ++
    acquires .second (infoOf "b" (31 * minute))

def afterRemoval : State Party := (machine Party).runTrace (noFile Party) removedInUse

def afterTakeover : State Party := (machine Party).runTrace (noFile Party) takenOver

theorem two_parties_hold :
    ((machine Party).Reachable Initial afterRemoval ∧ Holding afterRemoval .second ∧
      Holding afterRemoval .third) ∧
    (machine Party).Reachable Initial afterTakeover ∧ Holding afterTakeover .first ∧
      Holding afterTakeover .second := by
  refine ⟨⟨.of_trace (noFile_initial _) removedInUse (by decide +kernel), ?_, ?_⟩,
    .of_trace (noFile_initial _) takenOver (by decide +kernel), ?_, ?_⟩
  · exact ⟨0, infoOf "b" second, by decide +kernel⟩
  · exact ⟨1, infoOf "c" (2 * second), by decide +kernel⟩
  · exact ⟨0, infoOf "a" 0, by decide +kernel⟩
  · exact ⟨1, infoOf "b" (31 * minute), by decide +kernel⟩

end StateLock
