import Tako.Runs
import Tako.WorkerFences

/-! # Safety of worker fencing over whole runs

Activations, revocations and inventory changes arrive in any order at non-decreasing clock times;
the daemon may restart and barrier timers fire at any point.
-/
namespace WorkerFenceSafety

open GoPrelude NodeIdentity WorkerFences Runs

structure State where
  clock : Time
  worker : Worker
  deriving DecidableEq

/-- An activation verifies the grant at `verifyAt` and decides at `now`. -/
inductive Event where
  | tick (t : Time)
  | activate (fence : OperationFence) (holderToken : String) (verifyAt now : Time)
      (faults : FenceFaults)
  | revoke (fence : OperationFence) (holderToken : String) (now : Time) (faults : FenceFaults)
  | inventory (file : Option ClusterInventory)
  | timer (operationID : String)
  | restart
  deriving DecidableEq

def Enabled (s : State) : Event → Prop
  | .tick t => s.clock ≤ t
  | .activate _ _ verifyAt now _ => s.clock ≤ verifyAt ∧ verifyAt ≤ now
  | .revoke _ _ now _ => s.clock ≤ now
  | _ => True

instance (s : State) (e : Event) : Decidable (Enabled s e) := by
  cases e <;> simp only [Enabled] <;> infer_instance

def next (S : Server) (s : State) : Event → State
  | .tick t => { s with clock := t }
  | .activate fence holderToken verifyAt now faults =>
    ⟨now, (activateWorkerFence S faults verifyAt now fence holderToken s.worker).2⟩
  | .revoke fence holderToken now faults =>
    ⟨now, (revokeWorkerFenceWithFence S faults now fence holderToken s.worker).2⟩
  | .inventory file => { s with worker.inventoryFile := file }
  | .timer operationID => { s with worker := barrierTimer operationID s.clock s.worker }
  | .restart => { s with worker.barrier := none }

def machine (S : Server) : Machine State Event := ⟨Enabled, next S⟩

instance (S : Server) (s : State) (e : Event) : Decidable ((machine S).Enabled s e) :=
  inferInstanceAs (Decidable (Enabled s e))

def Initial (s : State) : Prop := s.worker.fenceFile = none ∧ 0 < s.clock

def highWater (s : State) : ℕ := s.worker.stored.highWater
def active (s : State) : Option OperationFence := s.worker.stored.active
def previous (s : State) : Option OperationFence := s.worker.stored.previous

/-- `p` and `a` differ in the validity window and the signature at most, and the window of
`a` starts and ends later. -/
def Renews (p a : OperationFence) : Prop :=
  a = { p with issuedAt := a.issuedAt, expiresAt := a.expiresAt, signature := a.signature } ∧
    p.issuedAt < a.issuedAt ∧ p.expiresAt < a.expiresAt

theorem renews_of_valid (h : validFenceRenewal p a) : Renews p a := by
  simp only [validFenceRenewal, Bool.and_eq_true, decide_eq_true_eq] at h
  obtain ⟨⟨h₁, h₂, h₃, h₄, h₅, h₆, h₇, h₈, h₉, h₁₀, h₁₁⟩, hi, he⟩ := h
  refine ⟨?_, hi, he⟩
  cases a
  subst_vars
  rfl

theorem Renews.token (h : Renews p a) : p.token = a.token := by rw [h.1]

theorem Renews.operationID (h : Renews p a) : p.operationID = a.operationID := by rw [h.1]

structure Invariant (s : State) : Prop where
  active_token : ∀ a, active s = some a → a.token = highWater s
  previous_renewed : ∀ p, previous s = some p → ∃ a, active s = some a ∧ Renews p a

inductive Effect (s u : State) : Prop where
  | same : u.worker.stored = s.worker.stored → Effect s u
  | renewed : active s = some a → f.token = highWater s → Renews a f →
      highWater u = highWater s → active u = some f → previous u = some a → Effect s u
  | advanced : highWater s < f.token → highWater u = f.token → active u = some f →
      previous u = none → Effect s u
  | cleared : highWater u = highWater s → active u = none → previous u = none → Effect s u

section

variable (s : State) (fence : OperationFence) (holderToken : String)

theorem activate_stores
    : ∃ r file, (activateWorkerFence S faults verifyAt now fence holderToken s.worker).1 = r ∧
      (next S s (.activate fence holderToken verifyAt now faults)).worker.stored =
        file.getD emptyWorkerFenceState ∧
      ActivateOutcome fence now s.worker.fenceFile s.worker.stored r file :=
  ⟨_, _, rfl, rfl, activate_outcome S faults verifyAt now fence holderToken s.worker⟩

theorem activate_effect :
    Effect s (next S s (.activate fence holderToken verifyAt now faults)) := by
  obtain ⟨r, file, -, hstored, hout⟩ := activate_stores s fence holderToken
  cases hout with
  | refused | replayed => exact .same hstored
  | renewed hactive htoken hrenewal =>
    refine .renewed hactive htoken (renews_of_valid hrenewal) ?_ ?_ ?_
    · simp [highWater, hstored, htoken]
    · simp [active, hstored]
    · simp [previous, hstored]
  | accepted habove _ =>
    refine .advanced habove ?_ ?_ ?_
    · simp [highWater, hstored]
    · simp [active, hstored]
    · simp [previous, hstored]

theorem revoke_stores :
    ∃ r file, (revokeWorkerFenceWithFence S faults now fence holderToken s.worker).1 = r ∧
      (next S s (.revoke fence holderToken now faults)).worker.stored =
        file.getD emptyWorkerFenceState ∧
      RevokeOutcome fence now s.worker.fenceFile s.worker.stored r file :=
  ⟨_, _, rfl, rfl, revoke_outcome S faults now fence holderToken s.worker⟩

theorem revoke_effect : Effect s (next S s (.revoke fence holderToken now faults)) := by
  obtain ⟨r, file, -, hstored, hout⟩ := revoke_stores s fence holderToken
  cases hout with
  | refused | idle | kept => exact .same hstored
  | cleared =>
    refine .cleared ?_ ?_ ?_
    · simp [highWater, hstored]
    · simp [active, hstored]
    · simp [previous, hstored]

end

theorem step_effect (s : State) (e : Event) : Effect s (next S s e) := by
  cases e with
  | tick | inventory | restart => exact .same rfl
  | activate fence holderToken =>
    exact activate_effect s fence holderToken
  | revoke fence holderToken => exact revoke_effect s fence holderToken
  | timer =>
    refine .same ?_
    simp only [next, Worker.stored, barrierTimer_fenceFile]

theorem initial_invariant (h : Initial s) : Invariant s := by
  have hstored : s.worker.stored = emptyWorkerFenceState := by simp [Worker.stored, h.1]
  constructor <;> simp [active, previous, hstored, emptyWorkerFenceState]

theorem step_preserves_invariant (h : Invariant s) (e : Event) : Invariant (next S s e) := by
  cases step_effect (S := S) s e with
  | same heq =>
    constructor
    · simpa only [active, highWater, heq] using h.active_token
    · simpa only [active, previous, heq] using h.previous_renewed
  | renewed hactive htoken hrenews hw ha hp =>
    constructor
    · intro a hau
      rw [ha] at hau
      cases hau
      rw [htoken, hw]
    · intro p hpu
      rw [hp] at hpu
      cases hpu
      exact ⟨_, ha, hrenews⟩
  | advanced habove hw ha hp =>
    constructor
    · intro a hau
      rw [ha] at hau
      cases hau
      exact hw.symm
    · simp [hp]
  | cleared hw ha hp => constructor <;> simp [ha, hp]

theorem reachable_invariant (h : (machine S).Reachable Initial s) : Invariant s :=
  h.invariant (fun _ => initial_invariant) (fun _ e hs _ => step_preserves_invariant hs e)

theorem step_highWater (s : State) (e : Event) : highWater s ≤ highWater (next S s e) := by
  cases step_effect (S := S) s e with
  | same heq => simp [highWater, heq]
  | renewed _ _ _ hw | cleared hw => exact hw.ge
  | advanced habove hw => exact hw ▸ habove.le

theorem execution_highWater (h : (machine S).Execution s u) : highWater s ≤ highWater u :=
  h.invariant (I := fun v => highWater s ≤ highWater v)
    (fun v e hv _ => hv.trans (step_highWater v e)) le_rfl

/-- The token is behind the high-water mark, or at it with no active grant. -/
def Retired (s : State) (token : ℕ) : Prop :=
  token < highWater s ∨ (token = highWater s ∧ active s = none)

theorem step_retired (h : Retired s token) : Retired (next S s e) token := by
  have hmono := step_highWater (S := S) s e
  rcases h with hlt | ⟨heq, hnone⟩
  · exact .inl (hlt.trans_le hmono)
  · cases step_effect s e with
    | same hs => exact .inr ⟨by rw [heq, highWater, highWater, hs], by rw [active, hs]; exact hnone⟩
    | renewed hactive => rw [hnone] at hactive; cases hactive
    | advanced habove hw => exact .inl (by rw [hw, heq]; exact habove)
    | cleared hw ha => exact .inr ⟨heq.trans hw.symm, ha⟩

theorem execution_retired (h : (machine S).Execution s u) (hs : Retired s token) :
    Retired u token :=
  h.invariant (I := fun v => Retired v token) (fun _ _ hv _ => step_retired hv) hs

def Admitted (S : Server) (w : Worker) (fence : OperationFence) : Prop :=
  ∃ fault activeAt previousAt r accepted,
    S.decodeFenceHeader (trimSpace r.fenceHeader) = some fence ∧
      validateMutationFence S fault activeAt previousAt r w = .ok accepted

theorem admitted_stored (h : Admitted S s.worker fence) :
    active s = some fence ∨ previous s = some fence := by
  obtain ⟨fault, activeAt, previousAt, r, accepted, hdecode, hok⟩ := h
  obtain ⟨heq, hor⟩ := validateMutationFence_eq hok
  rw [hdecode] at heq
  cases heq
  exact hor

theorem admitted_active (hs : Invariant s) (h : Admitted S s.worker fence) :
    ∃ a, active s = some a ∧ fence.token = a.token ∧ fence.operationID = a.operationID := by
  rcases admitted_stored h with ha | hp
  · exact ⟨fence, ha, rfl, rfl⟩
  · obtain ⟨a, ha, hr⟩ := hs.previous_renewed fence hp
    exact ⟨a, ha, hr.token, hr.operationID⟩

theorem retired_not_admitted (hs : Invariant s) (h : Retired s token) (ht : fence.token = token) :
    ¬ Admitted S s.worker fence := by
  intro had
  obtain ⟨a, ha, htoken, _⟩ := admitted_active hs had
  have hw := hs.active_token a ha
  rcases h with hlt | ⟨_, hnone⟩
  · omega
  · rw [hnone] at ha
    cases ha

theorem activated_token
    (hok : (activateWorkerFence S faults verifyAt now fence holderToken s.worker).1 =
      .ok response) :
    (fence.token = highWater s ∧ active s ≠ none) ∨ highWater s < fence.token := by
  obtain ⟨r, file, hr, -, hout⟩ := activate_stores s fence holderToken
  obtain rfl := hr.symm.trans hok
  cases hout with
  | replayed ha heq | renewed ha heq => exact .inl ⟨heq, by simp [active, ha]⟩
  | accepted habove => exact .inr habove

theorem retired_not_activated (h : Retired s token) (ht : fence.token = token)
    (holderToken : String) (verifyAt now : Time) (faults : FenceFaults) (response : FenceResponse) :
    (activateWorkerFence S faults verifyAt now fence holderToken s.worker).1 ≠ .ok response := by
  intro hok
  rcases activated_token hok with ⟨heq, hactive⟩ | habove
  · rcases h with hlt | ⟨_, hnone⟩
    · omega
    · exact hactive hnone
  · rcases h with hlt | ⟨heq, _⟩ <;> omega

section

variable (hs : Invariant s)
  (hok : (revokeWorkerFenceWithFence S faults now fence holderToken s.worker).1 = .ok response)

include hs hok

theorem revoked_inactive : active (next S s (.revoke fence holderToken now faults)) = none := by
  obtain ⟨r, file, hr, hstored, hout⟩ := revoke_stores s fence holderToken
  obtain rfl := hr.symm.trans hok
  rw [active, hstored]
  cases hout with
  | idle hnone => exact hnone
  | cleared => rfl
  | kept hactive hother hprev =>
    obtain ⟨a, ha, hr⟩ := hs.previous_renewed fence hprev
    change active s = _ at hactive
    rw [hactive] at ha
    cases ha
    exact absurd ⟨hr.operationID.symm, hr.token.symm⟩ hother

theorem revoked_retired (hle : fence.token ≤ highWater s) :
    Retired (next S s (.revoke fence holderToken now faults)) fence.token := by
  have hmono := step_highWater (S := S) s (.revoke fence holderToken now faults)
  rcases (hle.trans hmono).lt_or_eq with hlt | heq
  · exact .inl hlt
  · exact .inr ⟨heq, revoked_inactive hs hok⟩

end

/-- From `s` on, the token is neither activated nor admitted. -/
def Withdrawn (S : Server) (s : State) (token : ℕ) : Prop :=
  ∀ u, (machine S).Execution s u → ∀ fence : OperationFence, fence.token = token →
    (∀ holderToken verifyAt now faults response,
      (activateWorkerFence S faults verifyAt now fence holderToken u.worker).1 ≠ .ok response) ∧
    ¬ Admitted S u.worker fence

theorem withdrawn_of_retired (hs : Invariant s) (h : Retired s token) : Withdrawn S s token := by
  intro u hu fence ht
  have hret := execution_retired hu h
  have hinv : Invariant u := hu.invariant (fun _ e hv _ => step_preserves_invariant hv e) hs
  exact ⟨retired_not_activated hret ht, retired_not_admitted hinv hret ht⟩

def Stored (s : State) (f : OperationFence) : Prop := active s = some f ∨ previous s = some f
  deriving Decidable

/-- The token was passed, or the active grant is a later renewal than the one after `f`. -/
def Replaced (s : State) (f : OperationFence) : Prop :=
  f.token < highWater s ∨
    (f.token = highWater s ∧ previous s ≠ some f ∧ ∀ a, active s = some a → f.issuedAt < a.issuedAt)

theorem Stored.token (hs : Invariant s) (h : Stored s f) : f.token = highWater s := by
  rcases h with ha | hp
  · exact hs.active_token f ha
  · obtain ⟨a, ha, hr⟩ := hs.previous_renewed f hp
    exact hr.token.trans (hs.active_token a ha)

theorem not_stored_of_inactive (hs : Invariant s) (h : active s = none) (f : OperationFence) :
    ¬ Stored s f := by
  rintro (ha | hp)
  · rw [h] at ha
    cases ha
  · obtain ⟨a, ha, _⟩ := hs.previous_renewed f hp
    rw [h] at ha
    cases ha

theorem Replaced.not_stored (hs : Invariant s) (h : Replaced s f) : ¬ Stored s f := by
  intro hstored
  have htoken := hstored.token hs
  rcases h with hlt | ⟨_, hprevious, hlater⟩
  · omega
  · rcases hstored with ha | hp
    · exact lt_irrefl _ (hlater f ha)
    · exact hprevious hp

theorem step_replaced (h : Replaced s f) : Replaced (next S s e) f := by
  have hmono := step_highWater (S := S) s e
  rcases h with hlt | ⟨heq, hprevious, hlater⟩
  · exact .inl (hlt.trans_le hmono)
  · cases step_effect (S := S) s e with
    | same hstored =>
      simp only [Replaced, highWater, previous, active, hstored]
      exact .inr ⟨heq, hprevious, hlater⟩
    | renewed hactive _ hrenews hw ha hp =>
      have hbefore := hlater _ hactive
      refine .inr ⟨heq.trans hw.symm, ?_, ?_⟩
      · rw [hp]
        rintro ⟨⟩
        exact lt_irrefl _ hbefore
      · intro b hb
        rw [ha] at hb
        cases hb
        exact hbefore.trans hrenews.2.1
    | advanced habove hw => exact .inl (by rw [hw, heq]; exact habove)
    | cleared hw ha hp => exact .inr ⟨heq.trans hw.symm, by simp [hp], by simp [ha]⟩

section

variable (hs : Invariant s) (h : Stored s f)

include hs h

theorem step_stored : Stored (next S s e) f ∨ Replaced (next S s e) f := by
  have htoken := h.token hs
  cases step_effect (S := S) s e with
  | same hstored =>
    simp only [Stored, active, previous, hstored]
    exact .inl h
  | renewed hactive _ hrenews hw ha hp =>
    rcases h with hf | hf
    · rw [hactive] at hf
      cases hf
      exact .inl (.inr hp)
    · -- the predecessor of the grant that was renewed drops out
      obtain ⟨b, hb, hfb⟩ := hs.previous_renewed f hf
      rw [hactive] at hb
      cases hb
      refine .inr (.inr ⟨htoken.trans hw.symm, ?_, ?_⟩)
      · rw [hp]
        rintro ⟨⟩
        exact lt_irrefl _ hfb.2.1
      · intro g hg
        rw [ha] at hg
        cases hg
        exact hfb.2.1.trans hrenews.2.1
  | advanced habove hw => exact .inr (.inl (by rw [hw, htoken]; exact habove))
  | cleared hw ha hp =>
    exact .inr (.inr ⟨htoken.trans hw.symm, by simp [hp], by simp [ha]⟩)

theorem execution_stored (hu : (machine S).Execution s u) : Stored u f ∨ Replaced u f := by
  have hboth : Invariant u ∧ (Stored u f ∨ Replaced u f) := by
    refine hu.invariant (I := fun v => Invariant v ∧ (Stored v f ∨ Replaced v f)) ?_ ⟨hs, .inl h⟩
    rintro v e ⟨hv, hor⟩ _
    refine ⟨step_preserves_invariant hv e, ?_⟩
    rcases hor with hstored | hreplaced
    · exact step_stored hv hstored
    · exact .inr (step_replaced hreplaced)
  exact hboth.2

theorem dropped_not_stored (hu : (machine S).Execution s u) (hdropped : ¬ Stored u f)
    (hv : (machine S).Execution u v) : ¬ Stored v f := by
  have hreplaced : Replaced u f := (execution_stored hs h hu).resolve_left hdropped
  have hlater : Replaced v f :=
    hv.invariant (I := fun w => Replaced w f) (fun _ e hw _ => step_replaced hw) hreplaced
  have hinv : Invariant v :=
    (hu.trans hv).invariant (fun _ e hw _ => step_preserves_invariant hw e) hs
  exact hlater.not_stored hinv

end

theorem activated_active
    (hok : (activateWorkerFence S faults verifyAt now fence holderToken s.worker).1 =
      .ok response) :
    active (next S s (.activate fence holderToken verifyAt now faults)) = some fence := by
  obtain ⟨r, file, hr, hstored, hout⟩ := activate_stores s fence holderToken
  obtain rfl := hr.symm.trans hok
  rw [active, hstored]
  cases hout with
  | replayed ha => exact ha
  | renewed | accepted => rfl

/-- The five laws of worker fencing, in every reachable state. A revocation that finds no
active grant revokes nothing, so the revoked token is one the node has reached. -/
theorem worker_fencing_safety {s : State} (h : (machine S).Reachable Initial s) :
    (∀ u, (machine S).Execution s u → highWater s ≤ highWater u) ∧
    (∀ a, active s = some a → a.token = highWater s) ∧
    (∀ p, previous s = some p → ∃ a, active s = some a ∧ Renews p a) ∧
    ((∀ token, token < highWater s → Withdrawn S s token) ∧ ∀ fence holderToken now faults response,
        (revokeWorkerFenceWithFence S faults now fence holderToken s.worker).1 = .ok response →
        fence.token ≤ highWater s →
        Withdrawn S (next S s (.revoke fence holderToken now faults)) fence.token) ∧
    ∀ f g, Admitted S s.worker f → Admitted S s.worker g → f.operationID = g.operationID := by
  have hinv := reachable_invariant h
  refine ⟨fun u hu => execution_highWater hu, hinv.active_token, hinv.previous_renewed, ⟨?_, ?_⟩,
    ?_⟩
  · intro token hlt
    exact withdrawn_of_retired hinv (.inl hlt)
  · intro fence holderToken now faults response hok hle
    exact withdrawn_of_retired (step_preserves_invariant hinv _) (revoked_retired hinv hok hle)
  · intro f g hf hg
    obtain ⟨a, ha, _, hfa⟩ := admitted_active hinv hf
    obtain ⟨b, hb, _, hgb⟩ := admitted_active hinv hg
    rw [ha] at hb
    cases hb
    exact hfa.trans hgb.symm

/-! A grant, its renewal and a later operation, on the controller's own node. -/

def demoFence (operationID : String) (token : ℕ) (issuedAt : Time) : OperationFence where
  kind := operationFenceKind
  clusterID := demoClusterID
  controllerNodeID := demoControllerID
  membershipGeneration := 1
  project := "demo"
  environment := "production"
  operationID := operationID
  operation := "deploy"
  token := token
  holderTokenHash := String.ofList (List.replicate 64 'a')
  targetNodeIDs := [demoControllerID]
  issuedAt := issuedAt
  expiresAt := issuedAt + minute
  signature := "signature"

def demoServer : Server :=
  ⟨openOracles, some demoInstallation, "/var/lib/tako", fun _ => 1,
    fun _ => some (demoFence "op-1" 1 2)⟩

def noFenceFaults : FenceFaults := ⟨none, none, none⟩

def freshWorker : State := ⟨1, none, some demoInventory, none⟩

def renewedGrant : List Event :=
  [.activate (demoFence "op-1" 1 1) "holder" 1 1 noFenceFaults,
    .activate (demoFence "op-1" 1 2) "holder" 2 2 noFenceFaults]

def renewedState : State := (machine demoServer).runTrace freshWorker renewedGrant

/-- After a renewal the revocation by the first copy of the grant ends the operation. -/
theorem worker_fencing_safety_renewed : previous renewedState = some (demoFence "op-1" 1 1) ∧
      active renewedState = some (demoFence "op-1" 1 2) ∧
      Withdrawn demoServer (next demoServer renewedState
        (.revoke (demoFence "op-1" 1 1) "holder" 3 noFenceFaults)) 1 := by
  have hreach : (machine demoServer).Reachable Initial renewedState :=
    .of_trace ⟨rfl, by decide⟩ renewedGrant (by decide +kernel)
  have hrevoked :
      (revokeWorkerFenceWithFence demoServer noFenceFaults 3 (demoFence "op-1" 1 1) "holder"
      renewedState.worker).1 = .ok ⟨false, 1, none, ""⟩ := by decide +kernel
  refine ⟨by decide +kernel, by decide +kernel, ?_⟩
  exact (worker_fencing_safety hreach).2.2.2.1.2 (demoFence "op-1" 1 1) "holder" 3 noFenceFaults _
    hrevoked (by decide +kernel)

def unheldRevocation : Event := .revoke (demoFence "op-1" 1 2) "holder" 1 noFenceFaults

/-- A revocation that finds no grant succeeds and writes nothing, so the token it named is
activated after it. -/
theorem unheld_token_not_withdrawn : Initial freshWorker ∧ Enabled freshWorker unheldRevocation ∧
      (revokeWorkerFenceWithFence demoServer noFenceFaults 1 (demoFence "op-1" 1 2) "holder"
        freshWorker.worker).1 = .ok ⟨false, 0, none, ""⟩ ∧
      ¬ Withdrawn demoServer (next demoServer freshWorker unheldRevocation) 1 := by
  refine ⟨⟨rfl, by decide⟩, by decide, by decide +kernel, ?_⟩
  intro hwithdrawn
  have hlater := hwithdrawn _ (.refl _) (demoFence "op-1" 1 2) rfl
  refine hlater.1 "holder" 2 2 noFenceFaults ⟨true, 1, some (demoFence "op-1" 1 2), ""⟩ ?_
  decide +kernel

end WorkerFenceSafety
