import Tako.OperationEffects
import Tako.Runs

/-! # The operation engine and the streams beside it

One worker process at a time recovers the records of the process before it and serves the queue;
streamed operations are recorded by the handler that dispatches them. The process may stop at any
moment. The log of dispatches is not part of the program.
-/
namespace OperationEngine

open GoPrelude DurablePrograms OperationStore Runs

inductive Role where
  | worker
  | stream
  | upgrade
  deriving DecidableEq

inductive Stage where
  | opened
  | claimed
  | dispatched
  | settled
  deriving DecidableEq

structure Task where
  ticket : ℕ
  spec : OperationSpec
  role : Role
  stage : Stage
  deriving DecidableEq

/-- `cancelled`: the context of `Run` is done. `returned`: `Run` claims no more records. -/
structure Process where
  tasks : List Task := []
  (cancelled returned : Bool := false)
  deriving DecidableEq

structure World where
  disk : Disk := {}
  process : Option Process := none
  dispatches : List ℕ := []

structure ExecutionError where
  text : String
  canceled : Bool := false
  deriving DecidableEq

structure Outcome where
  result : OperationResult := {}
  error : Option ExecutionError := none
  deriving DecidableEq

inductive Event where
  | start (sweep : Sweep) (stop : Stop)
  | crash
  | cancel
  | finish
  | enqueue (c : Conditions) (request : OperationSpec) (stop : Stop)
  | claim (sweep : Sweep) (stop : Stop)
  | openStream (c : Conditions) (role : Role) (request : OperationSpec) (stop : Stop)
  | beginStream (c : Conditions) (index : ℕ) (stop : Stop)
  | dispatch (index : ℕ)
  | settle (c : Conditions) (index : ℕ) (outcome : Outcome) (stop : Stop)
  | release (index : ℕ)

/-- The keys of `inFlight`; streams are not in it. -/
def Process.inFlight (p : Process) : List String :=
  (p.tasks.filter fun task => task.role = .worker).map fun task => task.spec.id

def World.taskAt (s : World) (index : ℕ) : Option Task := s.process.bind fun p => p.tasks[index]?

def Process.setStage (p : Process) (index : ℕ) (task : Task) (stage : Stage) : Process :=
  { p with tasks := p.tasks.set index { task with stage := stage } }

section Engine

variable (P : Platform)

/-- A plan that failed is the zero plan. -/
def planReplaySafe (spec : OperationSpec) : Bool :=
  match P.plan spec.kind spec.payload with
  | .ok plan => plan.replaySafe
  | .error _ => false

section

variable (c : Conditions) (cancelled : Bool) (task : Task) (outcome : Outcome)

def persistWorker : Durable Disk Unit :=
  match outcome.error with
  | none => complete P c task.spec.id outcome.result none
  | some cause =>
    if task.stage ≠ .dispatched then
      if cause.canceled && cancelled then
        requeue c task.spec.id "operation interrupted before dispatch by worker shutdown"
      else complete P c task.spec.id outcome.result (some cause.text)
    else if cause.canceled && cancelled then
      if planReplaySafe P task.spec then
        requeue c task.spec.id "operation interrupted by worker shutdown"
      else markAmbiguous P c task.spec.id
        ("worker stopped while a non-replay-safe operation was in flight; operator " ++
          "reconciliation is required")
    else if planReplaySafe P task.spec then
      complete P c task.spec.id outcome.result (some cause.text)
    else markAmbiguous P c task.spec.id
      ("non-replay-safe operation returned an uncertain post-dispatch result; operator " ++
        "reconciliation is required: " ++
        cause.text)

/-- How the handler of a stream persists what came of it; `noun` begins the message. An HTTP
rejection is a result. -/
def persistStream (noun : String) (task : Task) (outcome : Outcome) : Durable Disk Unit :=
  match outcome.error with
  | none => complete P c task.spec.id outcome.result none
  | some cause =>
    if task.stage ≠ .dispatched then complete P c task.spec.id {} (some cause.text)
    else markAmbiguous P c task.spec.id
      (noun ++ " operation ended after dispatch with uncertain outcome: " ++ cause.text)

def persist : Durable Disk Unit :=
  match task.role with
  | .worker => persistWorker P c cancelled task outcome
  | .stream => persistStream P c "streamed" task outcome
  | .upgrade => persistStream P c "interactive" task outcome

/-- A record that was not dispatched has an error for an outcome, that of its plan or of its
admission. -/
def yields : Bool :=
  match task.stage with
  | .claimed =>
    match outcome.error, P.plan task.spec.kind task.spec.payload with
    | none, _ => false
    | some cause, .error text => decide (task.role ≠ .worker) || cause.text == text
    | some _, .ok _ => true
  | .dispatched => true
  | .opened | .settled => false

def dispatches : Bool :=
  decide (task.stage = .claimed) &&
    (decide (task.role ≠ .worker) || (P.plan task.spec.kind task.spec.payload).isOk)

end

def Enabled (s : World) : Event → Prop
  | .start _ _ => s.process = none
  | .crash | .cancel | .finish => s.process ≠ none
  | .enqueue _ _ _ => True
  | .claim _ _ => (s.process.any fun p => !p.returned && decide (p.inFlight.length < P.maxOps))
  | .openStream _ role _ _ => s.process ≠ none ∧ role ≠ .worker
  | .beginStream _ index _ => ((s.taskAt index).any fun task => decide (task.stage = .opened))
  | .dispatch index => ((s.taskAt index).any (dispatches P))
  | .settle _ index outcome _ => ((s.taskAt index).any fun task => yields P task outcome)
  | .release index => ((s.taskAt index).any fun task => decide (task.stage = .settled))

instance (s : World) (e : Event) : Decidable (Enabled P s e) := by
  cases e <;> unfold Enabled <;> infer_instance

def Task.ofRecord (record : Record) : Task := ⟨record.ticket, record.spec, .worker, .claimed⟩

def World.next (s : World) : Event → World
  | .start sweep stop =>
    { s with
      disk := (recoverIncomplete P sweep).disk s.disk stop
      process :=
        match (recoverIncomplete P sweep).answer s.disk stop with
        | some (.ok _) => some {}
        | _ => none }
  | .crash => { s with process := none }
  | .cancel => { s with process := s.process.map fun p => { p with cancelled := true } }
  | .finish =>
    { s with process := s.process.map fun p => { p with cancelled := true, returned := true } }
  | .enqueue c request stop =>
    { s with
      disk := (enqueue P c request).disk s.disk stop
      process := ((enqueue P c request).answer s.disk stop).bind fun _ => s.process }
  | .claim sweep stop =>
    match s.process with
    | none => s
    | some p =>
      { s with
        disk := (claimNext sweep p.inFlight).disk s.disk stop
        process := ((claimNext sweep p.inFlight).answer s.disk stop).map fun answer =>
          match answer with
          | .error _ => { p with cancelled := true, returned := true }
          | .ok none => p
          | .ok (some record) => { p with tasks := p.tasks ++ [.ofRecord record] } }
  | .openStream c role request stop =>
    match s.process with
    | none => s
    | some p =>
      { s with
        disk := (openExternal P c request).disk s.disk stop
        process := ((openExternal P c request).answer s.disk stop).map fun answer =>
          match answer with
          | .error _ => p
          | .ok _ =>
            { p with tasks := p.tasks ++ [⟨s.disk.accepted.length, request, role, .opened⟩] } }
  | .beginStream c index stop =>
    match s.process, s.taskAt index with
    | some p, some task =>
      { s with
        disk := (beginExternal c task.spec.id).disk s.disk stop
        process := ((beginExternal c task.spec.id).answer s.disk stop).map fun answer =>
          match answer with
          | .error _ => p.setStage index task .settled
          | .ok _ => p.setStage index task .claimed }
    | _, _ => s
  | .dispatch index =>
    match s.process, s.taskAt index with
    | some p, some task =>
      { s with
        process := some (p.setStage index task .dispatched)
        dispatches := task.ticket :: s.dispatches }
    | _, _ => s
  | .settle c index outcome stop =>
    match s.process, s.taskAt index with
    | some p, some task =>
      { s with
        disk := (persist P c p.cancelled task outcome).disk s.disk stop
        process := ((persist P c p.cancelled task outcome).answer s.disk stop).map fun _ =>
          p.setStage index task .settled }
    | _, _ => s
  | .release index =>
    { s with process := s.process.map fun p => { p with tasks := p.tasks.eraseIdx index } }

def machine : Machine World Event where
  Enabled := Enabled P
  next := World.next P

instance (s : World) (e : Event) : Decidable ((machine P).Enabled s e) :=
  inferInstanceAs (Decidable (Enabled P s e))

def Fresh (s : World) : Prop := s = {}

def NotReplaySafe (spec : OperationSpec) : Prop :=
  ∃ plan, P.plan spec.kind spec.payload = .ok plan ∧ plan.replaySafe = false

end Engine

end OperationEngine
