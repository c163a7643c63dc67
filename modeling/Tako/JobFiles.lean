import Mathlib.Data.Fintype.Pi
import Mathlib.Data.List.AList
import Tako.Runs

/-! # The files of scheduled jobs

The files of a job are in version directories, one for each published file set. Requests and runs go
on side by side: the mutation lock they hold is a shared one. What is done under the scheduler's
mutex or under the lock of a job's files is one step.
-/
namespace JobFiles

open List Runs Function

structure JobKey where
  (project environment name : String)
  deriving DecidableEq

/-- A job, with the file set it names; the empty text is no file set. -/
structure JobSpec where
  key : JobKey
  fileSetID : String
  deriving DecidableEq

inductive Thread where
  | idle
  /-- `Apply` before `ensureServiceFileSet` of the first job of `todo`. -/
  | checking (checked todo : List JobSpec) (absent : List JobKey)
  /-- `Apply` before `persistSpec` of the first job of `todo`. -/
  | storing (todo : List JobSpec) (absent : List JobKey)
  /-- The spec file is written; `scheduleLocked` is next. -/
  | persisted (spec : JobSpec) (rest : List JobSpec) (absent : List JobKey)
  /-- The spec is stored; whether the job is running is read next. -/
  | scheduled (spec : JobSpec) (rest : List JobSpec) (absent : List JobKey)
  /-- `cleanupServiceFileVersions` is next. -/
  | cleaning (spec : JobSpec) (rest : List JobSpec) (absent : List JobKey)
  /-- `removeJob` of the first of the keys is next. -/
  | removing (keys : List JobKey)
  | unscheduled (key : JobKey) (running : Bool) (rest : List JobKey)
  /-- `removeServiceFiles` is next. -/
  | dropping (key : JobKey) (rest : List JobKey)
  | returned (ok : Bool)
  /-- A run of the job as it was stored when the run started. -/
  | executing (spec : JobSpec)
  /-- The run has ended and has read what to keep; the cleanup is next. -/
  | finishing (key : JobKey) (keep : String)
  deriving DecidableEq

structure State (ι : Type) where
  /-- The version directories of each job. -/
  files : JobKey → List String
  specs : AList fun _ : JobKey => JobSpec
  /-- The spec files. -/
  saved : AList fun _ : JobKey => JobSpec
  running : JobKey → Bool
  thread : ι → Thread

inductive Event (ι : Type) where
  | publish (key : JobKey) (version : String)
  /-- `Apply` with the jobs that its validation has left. -/
  | apply (p : ι) (project env : String) (desired : List JobSpec)
  | removeProject (p : ι) (project env : String)
  /-- `Trigger`, or the job's cron entry. -/
  | trigger (p : ι) (key : JobKey)
  /-- The next step of a request or a run, other than removing files. -/
  | step (p : ι)
  /-- The next removal of files; versions may be left when it fails. -/
  | sweep (p : ι) (spared : List String)
  /-- The next step fails and has no effect. -/
  | fail (p : ι)
  deriving DecidableEq

variable {ι : Type}

namespace State

variable (s : State ι)

def goto [DecidableEq ι] (p : ι) (thread : Thread) : State ι :=
  { s with thread := update s.thread p thread }

def inScope (project env : String) (key : JobKey) : Bool :=
  key.project == project && (env == "" || key.environment == env)

/-- `ensureServiceFileSet`, for a spec that names a file set. -/
def available (spec : JobSpec) : Bool :=
  spec.fileSetID == "" || (s.files spec.key).contains spec.fileSetID

def keep (key : JobKey) : String :=
  match s.specs.lookup key with
  | some current => current.fileSetID
  | none => ""

/-- `cleanupServiceFileVersions` and, keeping nothing, `removeServiceFiles`. -/
def swept (key : JobKey) (keep : String) (spared : List String) : State ι :=
  { s with
    files := update s.files key
      ((s.files key).filter fun version => version == keep || spared.contains version) }

end State

/-- The removal that the thread makes next: the job and the version it keeps. -/
def Thread.sweeps : Thread → Option (JobKey × String)
  | .cleaning spec _ _ => some (spec.key, spec.fileSetID)
  | .dropping key _ => some (key, "")
  | .finishing key keep => some (key, keep)
  | _ => none

/-- A removal that fails ends a request; a run ignores it. -/
def Thread.afterSweep (ok : Bool) : Thread → Thread
  | .cleaning _ rest absent => if ok then .storing rest absent else .returned false
  | .dropping _ rest => if ok then .removing rest else .returned false
  | _ => .idle

section Machine

variable [DecidableEq ι]

def stepThread (s : State ι) (p : ι) : Option (State ι) :=
  match s.thread p with
  | .checking checked (spec :: todo) absent =>
    if s.available spec then some (s.goto p (.checking (checked ++ [spec]) todo absent))
    else some (s.goto p (.returned false))
  | .checking checked [] absent => some (s.goto p (.storing checked absent))
  | .storing (spec :: rest) absent =>
    some ({ s with saved := s.saved.insert spec.key spec }.goto p (.persisted spec rest absent))
  | .storing [] absent => some (s.goto p (.removing absent))
  | .persisted spec rest absent =>
    some ({ s with specs := s.specs.insert spec.key spec }.goto p (.scheduled spec rest absent))
  | .scheduled spec rest absent =>
    some (s.goto p (if s.running spec.key then .storing rest absent
      else .cleaning spec rest absent))
  | .removing (key :: rest) =>
    some ({ s with specs := s.specs.erase key }.goto p (.unscheduled key (s.running key) rest))
  | .removing [] => some (s.goto p (.returned true))
  | .unscheduled key running rest =>
    some ({ s with saved := s.saved.erase key }.goto p
      (if running then .removing rest else .dropping key rest))
  | .executing spec =>
    some ({ s with running := update s.running spec.key false }.goto p
      (.finishing spec.key (s.keep spec.key)))
  | _ => none

def Thread.isRequest : Thread → Bool
  | .idle | .returned _ | .executing _ | .finishing _ _ => false
  | _ => true

def Thread.isFree : Thread → Bool
  | .idle | .returned _ => true
  | _ => false

def step (s : State ι) : Event ι → Option (State ι)
  | .publish key version =>
    if version = "" then none
    else some { s with files := update s.files key (version :: s.files key) }
  | .apply p project env desired =>
    if (s.thread p).isFree ∧ (desired.map JobSpec.key).Nodup ∧
        ∀ spec ∈ desired, spec.key.project = project ∧ spec.key.environment = env then
      some (s.goto p (.checking [] desired
        ((s.saved.keys.filter fun key => key.project == project && key.environment == env).filter
          fun key => !(desired.map JobSpec.key).contains key)))
    else none
  | .removeProject p project env =>
    if (s.thread p).isFree then
      some (s.goto p (.removing (s.specs.keys.filter (State.inScope project env))))
    else none
  | .trigger p key =>
    match s.specs.lookup key with
    | none => none
    | some spec =>
      if (s.thread p).isFree ∧ s.running key = false then
        some ({ s with running := update s.running key true }.goto p (.executing spec))
      else none
  | .step p => stepThread s p
  | .sweep p spared =>
    match (s.thread p).sweeps with
    | none => none
    | some (key, keep) =>
      some ((s.swept key keep spared).goto p ((s.thread p).afterSweep spared.isEmpty))
  | .fail p => if (s.thread p).isRequest then some (s.goto p (.returned false)) else none

def machine (ι : Type) [DecidableEq ι] : Machine (State ι) (Event ι) where
  Enabled s e := (step s e).isSome
  next s e := (step s e).getD s

instance (s : State ι) (e : Event ι) : Decidable ((machine ι).Enabled s e) :=
  inferInstanceAs (Decidable ((step s e).isSome))

end Machine

def Thread.pending : Thread → List JobSpec
  | .checking checked _ _ => checked
  | .storing todo _ => todo
  | .persisted spec rest _ => spec :: rest
  | .scheduled _ rest _ => rest
  | .cleaning _ rest _ => rest
  | _ => []

def Has (s : State ι) (key : JobKey) (spec : JobSpec) : Prop :=
  spec.fileSetID = "" ∨ spec.fileSetID ∈ s.files key

structure Provided (s : State ι) : Prop where
  stored : ∀ key spec, s.specs.lookup key = some spec → Has s key spec
  pending : ∀ p, ∀ spec ∈ (s.thread p).pending, Has s spec.key spec

structure Initial (s : State ι) : Prop where
  quiet : ∀ p, s.thread p = .idle
  stored : ∀ key spec, s.specs.lookup key = some spec → Has s key spec

/-- A removal keeps the version of the stored spec and those of the specs about to be stored. -/
def KeepsLive (s : State ι) (e : Event ι) : Prop :=
  match e with
  | .sweep p _ =>
    match (s.thread p).sweeps with
    | none => True
    | some (key, keep) =>
      (∀ spec ∈ (s.specs.lookup key).toList, spec.fileSetID = "" ∨ spec.fileSetID = keep) ∧
      ∀ q, ∀ spec ∈ (s.thread q).pending, spec.key = key → spec.fileSetID = "" ∨
        spec.fileSetID = keep
  | _ => True

instance [Fintype ι] (s : State ι) (e : Event ι) : Decidable (KeepsLive s e) :=
  match e with
  | .publish _ _ | .apply _ _ _ _ | .removeProject _ _ _ | .trigger _ _ | .step _ | .fail _ =>
    inferInstanceAs (Decidable True)
  | .sweep p _ =>
    match h : (s.thread p).sweeps with
    | none => isTrue (by simp only [KeepsLive, h])
    | some (key, keep) => decidable_of_iff
        ((∀ spec ∈ (s.specs.lookup key).toList, spec.fileSetID = "" ∨ spec.fileSetID = keep) ∧
          ∀ q, ∀ spec ∈ (s.thread q).pending, spec.key = key → spec.fileSetID = "" ∨
            spec.fileSetID = keep)
        (by simp only [KeepsLive, h])

section Steps

variable {s : State ι}

theorem Provided.store (h : Provided s) (hspec : Has s spec.key spec) :
    Provided { s with specs := s.specs.insert spec.key spec } := by
  refine ⟨?_, h.pending⟩
  intro key other hother
  by_cases hkey : key = spec.key
  · subst hkey
    rw [AList.lookup_insert] at hother
    cases hother
    exact hspec
  · rw [AList.lookup_insert_ne hkey] at hother
    exact h.stored key other hother

theorem Provided.unschedule (h : Provided s) (key : JobKey) :
    Provided { s with specs := s.specs.erase key } := by
  refine ⟨?_, h.pending⟩
  intro other spec hspec
  by_cases hkey : other = key
  · subst hkey
    rw [AList.lookup_erase] at hspec
    cases hspec
  · rw [AList.lookup_erase_ne hkey] at hspec
    exact h.stored other spec hspec

theorem Provided.publish (h : Provided s) (key : JobKey) (version : String) :
    Provided { s with files := update s.files key (version :: s.files key) } := by
  have hmore : ∀ other spec, Has s other spec →
      Has { s with files := update s.files key (version :: s.files key) } other spec := by
    intro other spec hhas
    refine hhas.imp_right fun hmem => ?_
    change spec.fileSetID ∈ update s.files key (version :: s.files key) other
    by_cases hkey : other = key
    · subst hkey
      rw [update_self]
      exact mem_cons_of_mem _ hmem
    · rwa [update_of_ne hkey]
  exact ⟨fun other spec hspec => hmore other spec (h.stored other spec hspec),
    fun q spec hspec => hmore spec.key spec (h.pending q spec hspec)⟩

theorem Provided.sweep (h : Provided s)
    (hstored : ∀ spec ∈ (s.specs.lookup key).toList, spec.fileSetID = "" ∨ spec.fileSetID = keep)
    (hpend : ∀ q, ∀ spec ∈ (s.thread q).pending, spec.key = key → spec.fileSetID = "" ∨
      spec.fileSetID = keep) :
    Provided (s.swept key keep spared) := by
  have hkept : ∀ other spec, (other = key → spec.fileSetID = "" ∨ spec.fileSetID = keep) →
      Has s other spec →
      Has (s.swept key keep spared) other spec := by
    intro other spec hkeep hhas
    by_cases hnone : spec.fileSetID = ""
    · exact .inl hnone
    · have hmem := hhas.resolve_left hnone
      refine .inr ?_
      change spec.fileSetID ∈ update s.files key _ other
      by_cases hkey : other = key
      · subst hkey
        rw [update_self]
        refine mem_filter.mpr ⟨hmem, ?_⟩
        rw [(hkeep rfl).resolve_left hnone, BEq.rfl, Bool.true_or]
      · rwa [update_of_ne hkey]
  constructor
  · intro other spec hspec
    refine hkept other spec (fun hkey => ?_) (h.stored other spec hspec)
    subst hkey
    exact hstored spec (Option.mem_toList.mpr hspec)
  · intro q spec hspec
    exact hkept spec.key spec (hpend q spec hspec) (h.pending q spec hspec)

theorem pending_afterSweep (t : Thread) : ∀ spec ∈ (t.afterSweep ok).pending, spec ∈ t.pending := by
  intro spec hspec
  cases t with
  | cleaning =>
    cases ok with
    | true => exact hspec
    | false => cases hspec
  | dropping =>
    cases ok with
    | true | false => cases hspec
  | _ => cases hspec

theorem available_has (h : s.available spec) : Has s spec.key spec := by
  rcases (Bool.or_eq_true _ _).mp h with hnone | hmem
  · exact .inl (beq_iff_eq.mp hnone)
  · exact .inr (contains_iff_mem.mp hmem)

variable [DecidableEq ι]

theorem State.goto_thread_self : (s.goto p t).thread p = t := update_self ..

theorem State.goto_thread_ne (h : q ≠ p) : (s.goto p t).thread q = s.thread q := update_of_ne h ..

section

variable (h : Provided s)

include h

theorem Provided.goto (ht : ∀ spec ∈ t.pending, Has s spec.key spec) : Provided (s.goto p t) := by
  refine ⟨h.stored, ?_⟩
  intro q spec hspec
  by_cases hq : q = p
  · subst hq
    rw [State.goto_thread_self] at hspec
    exact ht spec hspec
  · rw [State.goto_thread_ne hq] at hspec
    exact h.pending q spec hspec

theorem Provided.goto_free (ht : t.pending = []) : Provided (s.goto p t) := by
  refine h.goto fun spec hspec => ?_
  rw [ht] at hspec
  cases hspec

theorem Provided.goto_sub (ht : ∀ spec ∈ t.pending, spec ∈ (s.thread p).pending) :
    Provided (s.goto p t) :=
  h.goto fun spec hspec => h.pending p spec (ht spec hspec)

/-- The steps that remove no files keep every live spec provided. -/
theorem stepThread_provided (hstep : stepThread s p = some u) : Provided u := by
  unfold stepThread at hstep
  split at hstep
  · rename_i checked spec todo absent hthread
    split_ifs at hstep with havailable
    · cases hstep
      refine h.goto fun other hother => ?_
      rcases mem_append.mp hother with hother | hother
      · exact h.pending p other (by rw [hthread]; exact hother)
      · rw [mem_singleton.mp hother]
        exact available_has havailable
    · cases hstep
      exact h.goto_free rfl
  · rename_i checked absent hthread
    cases hstep
    exact h.goto_sub fun other hother => by rw [hthread]; exact hother
  · rename_i spec rest absent hthread
    cases hstep
    have hsaved : Provided { s with saved := s.saved.insert spec.key spec } := ⟨h.stored, h.pending⟩
    refine hsaved.goto_sub fun other hother => ?_
    rw [hthread]
    exact hother
  · cases hstep
    exact h.goto_free rfl
  · rename_i spec rest absent hthread
    cases hstep
    have hchecked : ∀ other ∈ spec :: rest, Has s other.key other := by
      intro other hother
      exact h.pending p other (by rw [hthread]; exact hother)
    refine (h.store (hchecked spec mem_cons_self)).goto fun other hother => ?_
    exact hchecked other (mem_cons_of_mem _ hother)
  · rename_i spec rest absent hthread
    cases hstep
    refine h.goto_sub fun other hother => ?_
    rw [hthread]
    split_ifs at hother
    · exact hother
    · exact hother
  · rename_i key rest hthread
    cases hstep
    exact (h.unschedule key).goto_free rfl
  · cases hstep
    exact h.goto_free rfl
  · rename_i key running rest hthread
    cases hstep
    have hsaved : Provided { s with saved := s.saved.erase key } := ⟨h.stored, h.pending⟩
    exact hsaved.goto_free (by split_ifs <;> rfl)
  · rename_i spec hthread
    cases hstep
    have hended : Provided { s with running := update s.running spec.key false } :=
      ⟨h.stored, h.pending⟩
    exact hended.goto_free rfl
  · cases hstep

theorem step_provided (hstep : step s e = some u) (hkeeps : KeepsLive s e) : Provided u := by
  cases e with
  | publish key version =>
    simp only [step] at hstep
    split_ifs at hstep
    cases hstep
    exact h.publish key version
  | apply | removeProject | fail =>
    simp only [step] at hstep
    split_ifs at hstep
    cases hstep
    exact h.goto_free rfl
  | trigger p key =>
    simp only [step] at hstep
    split at hstep
    · cases hstep
    · split_ifs at hstep
      cases hstep
      have hstarted : Provided { s with running := update s.running key true } :=
        ⟨h.stored, h.pending⟩
      exact hstarted.goto_free rfl
  | step => exact stepThread_provided h hstep
  | sweep p spared =>
    simp only [step] at hstep
    simp only [KeepsLive] at hkeeps
    split at hstep
    · cases hstep
    · rename_i key keep hsweeps
      cases hstep
      rw [hsweeps] at hkeeps
      exact (h.sweep hkeeps.1 hkeeps.2).goto_sub (pending_afterSweep _)

end

end Steps

theorem initial_provided (h : Initial s) : Provided s := by
  refine ⟨h.stored, ?_⟩
  intro p spec hspec
  rw [h.quiet p] at hspec
  cases hspec

def nightly : JobKey := ⟨"shop", "production", "nightly"⟩

def nightlyWith (version : String) : JobSpec := ⟨nightly, version⟩

inductive Caller where
  | deployer
  | timer
  deriving DecidableEq

instance : Fintype Caller := ⟨{.deployer, .timer}, fun c => by cases c <;> decide⟩

def bare : State Caller := ⟨fun _ => [], ∅, ∅, fun _ => false, fun _ => .idle⟩

theorem bare_initial : Initial bare := ⟨fun _ => rfl, fun _ _ h => by cases h⟩

def applyNightly (p : Caller) (version : String) : List (Event Caller) :=
  [.publish nightly version, .apply p "shop" "production" [nightlyWith version], .step p, .step p,
    .step p, .step p, .step p, .sweep p [], .step p, .step p]

def sequential : List (Event Caller) :=
  applyNightly .deployer "v1" ++ [.trigger .timer nightly, .step .timer, .sweep .timer []] ++
    applyNightly .deployer "v2"

/-- The run has read that it keeps `v1`; `v2` is applied before it prunes. -/
def overtaken : List (Event Caller) :=
  applyNightly .deployer "v1" ++ [.trigger .timer nightly, .step .timer] ++
    applyNightly .deployer "v2" ++ [.sweep .timer []]

end JobFiles
