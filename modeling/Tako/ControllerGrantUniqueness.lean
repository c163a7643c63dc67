import Tako.Runs
import Tako.ControllerOperations

/-! # Uniqueness of controller grants

Calls run in any order at non-decreasing clock times; any write may fail, the process may stop
between any two writes, and lease files are also changed by others. The history beside the disk
records fences given to callers, requests granted and operations completed.
-/
namespace ControllerGrantUniqueness

open List GoPrelude NodeIdentity OperationLeases ControllerOperations DurablePrograms Runs Function

structure History where
  returned : List OperationFence
  granted : List (String × String)
  completed : List OperationFence
  deriving DecidableEq

structure State where
  clock : Time
  disk : Disk
  history : History

inductive Event where
  | tick (t : Time)
  | leases (dir : LeaseDir)
  | acquire (req : LeaseRequest) (draw : Draw) (inventoryFile checkedFile : Option ClusterInventory)
      (faults : CallFaults) (now leaseAt returnAt : Time) (stop : Stop)
  | release (req : LeaseRequest) (inventoryFile : Option ClusterInventory) (faults : CallFaults)
      (now : Time) (stop : Stop)
  | status (faults : CallFaults) (checkedAt retiredAt : Time) (stop : Stop)
  | phase (fence : OperationFence) (holderToken phase : String)
      (inventoryFile : Option ClusterInventory) (faults : CallFaults) (verifyAt now : Time)
        (stop : Stop)

def Enabled (s : State) : Event → Prop
  | .tick t => s.clock ≤ t
  | .leases _ => True
  | .acquire _ _ _ _ _ now leaseAt returnAt _ => s.clock ≤ now ∧ now ≤ leaseAt ∧ leaseAt ≤ returnAt
  | .release _ _ _ now _ => s.clock ≤ now
  | .status _ checkedAt retiredAt _ => s.clock ≤ checkedAt ∧ checkedAt ≤ retiredAt
  | .phase _ _ _ _ _ verifyAt now _ => s.clock ≤ verifyAt ∧ verifyAt ≤ now

instance (s : State) (e : Event) : Decidable (Enabled s e) := by
  cases e <;> simp only [Enabled] <;> infer_instance

/-- The fence a caller is given: the one of an acquired lease. -/
def returnedFence : Option (Except String LeaseResponse) → Option OperationFence
  | some (.ok response) =>
    if response.acquired then response.lease.bind (·.fence) else none
  | _ => none

def requestOf (S : ControlServer) (inventoryFile : Option ClusterInventory) (req : LeaseRequest) :
    List (String × String) :=
  match inventoryFile with
  | none => []
  | some inventory =>
    match validateFenceTargets inventory req.targetNodeIDs req.operation with
    | .error _ => []
    | .ok targets =>
      if req.renew then []
      else [(req.requestID, controllerOperationRequestFingerprint S req targets)]

def History.record (h : History) (fence : Option OperationFence)
    (request : List (String × String)) : History :=
  match fence with
  | none => h
  | some fence => { h with returned := fence :: h.returned, granted := request ++ h.granted }

/-- The operation that was active in the journal before and is not any more. -/
def completedBy (before after : Disk) : List OperationFence :=
  match before.stored.active, after.stored.active with
  | some active, none => [active.fence]
  | _, _ => []

def acquireCall (S : ControlServer) (req : LeaseRequest) (draw : Draw)
    (inventoryFile checkedFile : Option ClusterInventory) (faults : CallFaults)
    (now leaseAt : Time) : Durable Disk LeaseResponse :=
  acquireControllerOperationLease S faults draw inventoryFile checkedFile req now leaseAt

def next (S : ControlServer) (s : State) : Event → State
  | .tick t => { s with clock := t }
  | .leases dir => { s with disk := { s.disk with leases := dir } }
  | .acquire req draw inventoryFile checkedFile faults now leaseAt returnAt stop =>
    let call := acquireCall S req draw inventoryFile checkedFile faults now leaseAt
    { clock := returnAt
      disk := call.disk s.disk stop
      history := s.history.record (returnedFence (call.answer s.disk stop))
        (requestOf S inventoryFile req) }
  | .release req inventoryFile faults now stop =>
    let disk := (releaseControllerOperationLease S faults inventoryFile req now).disk s.disk stop
    { clock := now
      disk := disk
      history := { s.history with completed := completedBy s.disk disk ++ s.history.completed } }
  | .status faults checkedAt retiredAt stop =>
    { s with
      clock := retiredAt
      disk := (reconcileExpired S faults checkedAt retiredAt).disk s.disk stop }
  | .phase fence holderToken phase inventoryFile faults verifyAt now stop =>
    { s with
      clock := now
      disk := (updateControllerFencePhase S faults inventoryFile fence holderToken phase verifyAt
        now).disk s.disk stop }

def machine (S : ControlServer) : Machine State Event := ⟨Enabled, next S⟩

instance (S : ControlServer) (s : State) (e : Event) : Decidable ((machine S).Enabled s e) :=
  inferInstanceAs (Decidable (Enabled s e))

def Initial (s : State) : Prop :=
  s.disk.journal = none ∧ (∀ path, s.disk.bindings path = none) ∧ s.history = ⟨[], [], []⟩

/-- Two fences of one operation, whatever their validity windows. -/
structure SameGrant (f g : OperationFence) : Prop where
  operationID : f.operationID = g.operationID
  project : f.project = g.project
  environment : f.environment = g.environment
  operation : f.operation = g.operation
  targetNodeIDs : f.targetNodeIDs = g.targetNodeIDs
  holderTokenHash : f.holderTokenHash = g.holderTokenHash

theorem SameGrant.refl (f : OperationFence) : SameGrant f f := ⟨rfl, rfl, rfl, rfl, rfl, rfl⟩

theorem SameGrant.trans (h : SameGrant f g) (h' : SameGrant g k) : SameGrant f k :=
  ⟨h.1.trans h'.1, h.2.trans h'.2, h.3.trans h'.3, h.4.trans h'.4, h.5.trans h'.5, h.6.trans h'.6⟩

/-- The journal records that the operation of `f` was completed by a release. -/
def Completed (h : History) (f : OperationFence) : Prop :=
  ∃ r ∈ h.completed, r.token = f.token ∧ r.operationID = f.operationID

def Covers (active : Option ControlOperationRecord) (f : OperationFence) : Prop :=
  ∃ a, active = some a ∧ a.fence.token = f.token ∧ f.expiresAt ≤ a.fence.expiresAt

structure Consistent (S : ControlServer) (clock : Time) (nextToken : ℕ)
    (active : Option ControlOperationRecord) (bindings : String → Option ControlRequestBinding)
    (h : History) : Prop where
  token_bound : nextToken < 2 ^ 64
  active_token : ∀ a, active = some a → a.fence.token = nextToken
  returned_token : ∀ f ∈ h.returned, f.token ≤ nextToken
  active_same : ∀ a, active = some a → ∀ f ∈ h.returned, f.token = a.fence.token →
    SameGrant f a.fence
  over_or_covered : ∀ f ∈ h.returned, Completed h f ∨ f.expiresAt ≤ clock ∨ Covers active f
  ordered : h.returned.Pairwise fun later earlier =>
    earlier.token ≤ later.token ∧ (earlier.token = later.token → SameGrant earlier later)
  active_bound : ∀ a, active = some a → Bound S bindings a.requestID a.requestFingerprint
  granted_bound : ∀ g ∈ h.granted, Bound S bindings g.1 g.2

def Invariant (S : ControlServer) (s : State) : Prop :=
  Consistent S s.clock s.disk.stored.nextToken s.disk.stored.active s.disk.bindings s.history

variable {S : ControlServer}

namespace Consistent

theorem later (hc : Consistent S clock nextToken active bindings h) (hle : clock ≤ clock') :
    Consistent S clock' nextToken active bindings h := by
  refine { hc with over_or_covered := ?_ }
  intro f hf
  rcases hc.over_or_covered f hf with hcomp | hexp | hcov
  · exact .inl hcomp
  · exact .inr (.inl (hexp.trans hle))
  · exact .inr (.inr hcov)

theorem bind (hc : Consistent S clock nextToken active bindings h) (hfree : bindings path = none) :
    Consistent S clock nextToken active (update bindings path (some binding)) h := by
  have hkeep : ∀ requestID fingerprint, Bound S bindings requestID fingerprint →
      Bound S (update bindings path (some binding)) requestID fingerprint := by
    rintro requestID fingerprint ⟨b, hb, hid, hfp⟩
    have hne : controllerRequestBindingPath S requestID ≠ path := by
      intro heq
      rw [heq, hfree] at hb
      cases hb
    exact ⟨b, by rw [update_of_ne hne]; exact hb, hid, hfp⟩
  exact { hc with
    active_bound := fun a ha => hkeep _ _ (hc.active_bound a ha)
    granted_bound := fun g hg => hkeep _ _ (hc.granted_bound g hg) }

section

variable (hc : Consistent S clock nextToken active bindings h)

include hc

/-- The active record is rewritten without changing its operation or shortening it. -/
theorem rewrite (ha : active = some a) (hreq : a'.requestID = a.requestID)
    (hfp : a'.requestFingerprint = a.requestFingerprint) (htoken : a'.fence.token = a.fence.token)
    (hsame : SameGrant a.fence a'.fence) (hexp : a.fence.expiresAt ≤ a'.fence.expiresAt) :
    Consistent S clock nextToken (some a') bindings h := by
  refine { hc with
    active_token := ?_, active_same := ?_, over_or_covered := ?_, active_bound := ?_ }
  · intro b hb
    cases hb
    rw [htoken, hc.active_token a ha]
  · intro b hb f hf ht
    cases hb
    exact (hc.active_same a ha f hf (ht.trans htoken)).trans hsame
  · intro f hf
    rcases hc.over_or_covered f hf with hcomp | hold | ⟨b, hb, ht, hle⟩
    · exact .inl hcomp
    · exact .inr (.inl hold)
    · rw [ha] at hb
      cases hb
      exact .inr (.inr ⟨a', rfl, htoken.trans ht, hle.trans hexp⟩)
  · intro b hb
    cases hb
    rw [hreq, hfp]
    exact hc.active_bound a ha

/-- An expired operation leaves the journal: every fence of it has expired. -/
theorem expire (hexp : ∀ a, active = some a → a.fence.expiresAt ≤ clock) :
    Consistent S clock nextToken none bindings h := by
  refine { hc with
    active_token := by simp, active_same := by simp, active_bound := by simp,
    over_or_covered := ?_ }
  intro f hf
  rcases hc.over_or_covered f hf with hcomp | hold | ⟨a, ha, _, hle⟩
  · exact .inl hcomp
  · exact .inr (.inl hold)
  · exact .inr (.inl (hle.trans (hexp a ha)))

/-- A released operation leaves the journal and its completion is on record. -/
theorem complete (ha : active = some a) :
    Consistent S clock nextToken none bindings { h with completed := a.fence :: h.completed } := by
  refine { hc with
    active_token := by simp, active_same := by simp, active_bound := by simp,
    over_or_covered := ?_ }
  intro f hf
  rcases hc.over_or_covered f hf with ⟨r, hr, hrest⟩ | hold | ⟨b, hb, ht, _⟩
  · exact .inl ⟨r, mem_cons_of_mem _ hr, hrest⟩
  · exact .inr (.inl hold)
  · rw [ha] at hb
    cases hb
    exact .inl ⟨a.fence, mem_cons_self, ht, (hc.active_same a ha f hf ht.symm).operationID.symm⟩

end

/-- A new operation enters an idle journal under the next token. -/
theorem grant (hc : Consistent S clock nextToken none bindings h) (hne : uint64Succ nextToken ≠ 0)
    (htoken : a.fence.token = uint64Succ nextToken)
    (hbound : Bound S bindings a.requestID a.requestFingerprint) :
    Consistent S clock (uint64Succ nextToken) (some a) bindings h := by
  have hsucc := uint64Succ_eq hne hc.token_bound
  refine { hc with
    token_bound := uint64Succ_lt nextToken, active_token := ?_, returned_token := ?_,
    active_same := ?_,
    over_or_covered := ?_, active_bound := ?_ }
  · intro b hb
    cases hb
    exact htoken
  · intro f hf
    have := hc.returned_token f hf
    omega
  · intro b hb f hf ht
    cases hb
    have := hc.returned_token f hf
    omega
  · intro f hf
    rcases hc.over_or_covered f hf with hcomp | hold | ⟨b, hb, _⟩
    · exact .inl hcomp
    · exact .inr (.inl hold)
    · cases hb
  · intro b hb
    cases hb
    exact hbound

theorem record (hc : Consistent S clock nextToken active bindings h) (ha : active = some a)
    (hreq : ∀ g ∈ request, Bound S bindings g.1 g.2) :
    Consistent S clock nextToken active bindings (h.record (some a.fence) request) := by
  refine { hc with
    returned_token := ?_, active_same := ?_, over_or_covered := ?_, ordered := ?_,
    granted_bound := ?_ }
  · exact forall_mem_cons.mpr ⟨(hc.active_token a ha).le, hc.returned_token⟩
  · intro b hb f hf ht
    rcases mem_cons.mp hf with rfl | hf
    · rw [ha] at hb
      cases hb
      exact SameGrant.refl _
    · exact hc.active_same b hb f hf ht
  · exact forall_mem_cons.mpr ⟨.inr (.inr ⟨a, ha, rfl, le_rfl⟩), hc.over_or_covered⟩
  · refine pairwise_cons.mpr ⟨?_, hc.ordered⟩
    intro f hf
    refine ⟨?_, hc.active_same a ha f hf⟩
    rw [hc.active_token a ha]
    exact hc.returned_token f hf
  · exact forall_mem_append.mpr ⟨hreq, hc.granted_bound⟩

end Consistent

def Sound (S : ControlServer) (clock : Time) (h : History) (d : Disk) : Prop :=
  Consistent S clock d.stored.nextToken d.stored.active d.bindings h

/-- One write of a call that starts with the active record `before`, draws its operation ID from
`draw` and reads the clock at `clock` or earlier. -/
inductive Write (S : ControlServer) (draw : Draw) (before : Option ControlOperationRecord)
    (clock : Time) (d : Disk) : Disk → Prop where
  | lease (hfile : file = d.leases scope ∨ ∀ lease, file = .held lease →
      (draw.operationID = .ok lease.id ∧ d.stored.active = before) ∨
        ∃ a, d.stored.active = some a ∧ lease.expiresAt = a.fence.expiresAt) :
      Write S draw before clock d { d with leases := update d.leases scope file }
  | bind (hfree : d.bindings path = none) : Write S draw before clock d (d.setBinding path binding)
  | grant (hover : ∀ a, d.stored.active = some a → a.fence.expiresAt ≤ clock)
      (hne : uint64Succ d.stored.nextToken ≠ 0)
        (htoken : a.fence.token = uint64Succ d.stored.nextToken)
      (hbound : Bound S d.bindings a.requestID a.requestFingerprint)
      (hlease : d.leases (a.fence.project, a.fence.environment) = .held l)
      (hexpires : l.expiresAt = a.fence.expiresAt) (hactive : state.active = some a)
      (hnext : state.nextToken = uint64Succ d.stored.nextToken) :
      Write S draw before clock d { d with journal := some state }
  | rewrite (ha : d.stored.active = some a)
      (hreq : b.requestID = a.requestID ∧ b.requestFingerprint = a.requestFingerprint)
      (htoken : b.fence.token = a.fence.token) (hsame : SameGrant a.fence b.fence)
      (hexpires : a.fence.expiresAt ≤ b.fence.expiresAt) (hactive : state.active = some b)
      (hnext : state.nextToken = d.stored.nextToken) :
      Write S draw before clock d { d with journal := some state }
  | expire (hover : ∀ a, d.stored.active = some a → a.fence.expiresAt ≤ clock)
      (hactive : state.active = none) (hnext : state.nextToken = d.stored.nextToken) :
      Write S draw before clock d { d with journal := some state }

open Consistent

theorem Sound.write (draw : Draw) (before : Option ControlOperationRecord) (d w : Disk)
    (hs : Sound S clock h d) (hw : Write S draw before clock d w) : Sound S clock h w := by
  cases hw with
  | lease => exact hs
  | bind hfree => exact bind hs hfree
  | @grant _ _ state hover hne htoken hbound _ _ hactive hnext =>
    change Consistent S clock state.nextToken state.active d.bindings h
    rw [hactive, hnext]
    exact (expire hs hover).grant hne htoken hbound
  | @rewrite _ _ state ha hreq htoken hsame hexp hactive hnext =>
    change Consistent S clock state.nextToken state.active d.bindings h
    rw [hactive, hnext]
    exact rewrite hs ha hreq.1 hreq.2 htoken hsame hexp
  | @expire state hover hactive hnext =>
    change Consistent S clock state.nextToken state.active d.bindings h
    rw [hactive, hnext]
    exact expire hs hover

section

variable {faults : LeaseFaults}

theorem Write.read : Write S draw before clock d { d with
    leases := update d.leases scope (readLease dataDir faults req now (d.leases scope)).2 } := by
  refine .lease ?_
  rcases read_outcome dataDir faults req now (d.leases scope) with hsame | ⟨_, habsent⟩
  · exact .inl hsame
  · rw [habsent]
    exact .inr nofun

theorem Write.release : Write S draw before clock d { d with
    leases := update d.leases scope (releaseLease dataDir faults req (d.leases scope)).2 } := by
  refine .lease ?_
  rcases release_outcome dataDir faults req (d.leases scope) with
    ⟨hsame, _⟩ | ⟨current, _, _, hgone⟩
  · exact .inl hsame
  · rw [hgone]
    exact .inr nofun

theorem acquired_id : (acquireLease dataDir faults req now file).2 = file ∨
      ∀ lease, (acquireLease dataDir faults req now file).2 = .held lease → lease.id = req.id := by
  generalize hres : acquireLease dataDir faults req now file = result
  have hout := acquire_outcome dataDir faults req now file
  rw [hres] at hout
  cases hout with
  | refused => exact .inl rfl
  | failed _ _ hfile =>
    right
    intro lease hheld
    rcases hfile with rfl | rfl | rfl
    · cases hheld
    · cases hheld
    · cases hheld
      rfl
  | created =>
    right
    intro lease hheld
    cases hheld
    rfl
  | renewed _ _ hid =>
    right
    intro lease hheld
    cases hheld
    exact hid

theorem acquired_file (h : (acquireLease dataDir faults req now file).1 = .ok response)
    (hacquired : response.acquired) (hlease : response.lease = some lease) :
    (acquireLease dataDir faults req now file).2 = .held lease := by
  generalize hres : acquireLease dataDir faults req now file = result at h ⊢
  have hout := acquire_outcome dataDir faults req now file
  rw [hres] at hout
  cases hout with
  | refused hr => exact absurd hacquired (by rw [hr response h]; decide)
  | failed => cases h
  | created | renewed =>
    cases h
    cases hlease
    rfl

theorem Write.acquire (hdraw : draw.operationID = .ok req.id)
    (hbefore : d.stored.active = before) :
    Write S draw before clock d { d with
      leases :=
        update d.leases scope (acquireLease dataDir faults req now (d.leases scope)).2 } := by
  refine .lease ?_
  rcases acquired_id with hsame | hid
  · exact .inl hsame
  · right
    intro lease hheld
    rw [hid lease hheld]
    exact .inl ⟨hdraw, hbefore⟩

theorem Write.renew (ha : d.stored.active = some a) : Write S draw before clock d { d with
    leases := update d.leases scope
      (renewLeaseTo dataDir faults req a.fence.expiresAt (d.leases scope)).2 } := by
  refine .lease ?_
  unfold renewLeaseTo
  split
  · exact .inl rfl
  split
  · exact .inl rfl
  · exact .inl rfl
  split_ifs
  · exact .inl rfl
  cases faults.first.rename with
  | some => exact .inl rfl
  | none =>
    right
    intro lease hheld
    cases hheld
    exact .inr ⟨a, ha, rfl⟩

end

/-- A fence is handed out only as that of the active operation, which carries the request. -/
def Given (request : List (String × String)) (response : LeaseResponse) (d : Disk) : Prop :=
  ∀ f, returnedFence (some (.ok response)) = some f → ∃ a, d.stored.active = some a ∧ a.fence = f ∧
    ∀ g ∈ request, g = (a.requestID, a.requestFingerprint)

theorem given_nothing (hnone : returnedFence (some (.ok response)) = none) :
    Given request response d := by
  intro f hf
  rw [hnone] at hf
  cases hf

theorem returnedFence_refused (hr : response.acquired = false) :
    returnedFence (some (.ok response)) = none := by
  simp [returnedFence, hr]

theorem returnedFence_withFence
    (hf : returnedFence (some (.ok (withFence response fence holderToken))) = some f) :
    fence = f := by
  unfold returnedFence withFence at hf
  dsimp only at hf
  split_ifs at hf
  cases hl : response.lease with
  | none => simp [hl] at hf
  | some => simpa [hl] using hf

theorem given_active (ha : d.stored.active = some a)
    (hreq : ∀ g ∈ request, g = (a.requestID, a.requestFingerprint)) :
    Given request (withFence response a.fence holderToken) d :=
  fun _ hf => ⟨a, ha, returnedFence_withFence hf, hreq⟩

section

variable (state : ControlOperationState) (phase : String) (now : Time)

@[simp] theorem retireControlOperation_active :
    (retireControlOperation state phase now).active = none := by
  unfold retireControlOperation
  split
  · assumption
  · rfl

@[simp] theorem retireControlOperation_nextToken :
    (retireControlOperation state phase now).nextToken = state.nextToken := by
  unfold retireControlOperation
  split <;> rfl

end

theorem retireExpired_some (ha : (retireExpired state now).active = some a) :
    state.active = some a := by
  unfold retireExpired at ha
  split_ifs at ha
  · simp at ha
  · exact ha

theorem retireExpired_none (hn : (retireExpired state now).active = none) :
    (retireExpired state now).nextToken = state.nextToken ∧
      ∀ a, state.active = some a → a.fence.expiresAt ≤ now := by
  unfold retireExpired at hn ⊢
  split_ifs at hn ⊢ with hexp
  · refine ⟨retireControlOperation_nextToken .., ?_⟩
    intro a ha
    simpa [ha] using hexp
  · refine ⟨rfl, ?_⟩
    intro a ha
    rw [ha] at hn
    cases hn

section Calls

variable {I : Disk → Prop} (hI : ∀ d w, I d → Write S draw before clock d w → I w) (hd : I d)

include hI hd

theorem retryActive_holds (ha : d.stored.active = some a) (hid : a.requestID = req.requestID) :
    Holds (retryActive S faults req fingerprint a readAt) d I
      (Given [(req.requestID, fingerprint)]) := by
  refine holds_require fun hfp => ?_
  refine holds_guard fun _ _ => ?_
  refine holds_bind (holds_call (hI _ _ hd .read) fun _ _ => ?_)
  refine holds_guard fun _ _ => holds_ok (given_active ha ?_)
  intro g hg
  rw [mem_singleton.mp hg, hid, hfp.2]

theorem reportActive_holds : Holds (reportActive S faults a readAt) d I (Given request) :=
  holds_bind (holds_call (hI _ _ hd .read) fun _ _ => holds_ok
    (given_nothing (returnedFence_refused rfl)))

/-- The lease, the binding and the journal are written in this order; only the last one
changes the active operation. The fence expires with the lease that was acquired for it. -/
theorem grantOperation_holds (hbefore : d.stored.active = before)
    (hidle : (retireExpired d.stored now).active = none) (hnow : now ≤ clock) :
    Holds (grantOperation S installation faults draw inventory req targets fingerprint
      (retireExpired d.stored now) now leaseAt) d I (Given [(req.requestID, fingerprint)]) := by
  obtain ⟨hnext, hexp⟩ := retireExpired_none hidle
  refine holds_guard fun operationID hdraw => ?_
  have hleased : I { d with leases := update d.leases req.scope (acquireLease S.dataDir faults.lease
      { req with id := operationID } leaseAt (d.leases req.scope)).2 } := hI _ _ hd
        (.acquire hdraw hbefore)
  refine holds_bind (holds_call hleased ?_)
  intro response hresp
  split
  · rename_i lease hacquired hlease
    have hfile := acquired_file hresp hacquired hlease
    refine holds_require fun hne => ?_
    refine holds_onError ?_ hleased fun d' hd' => holds_call (hI _ _ hd' .release) fun _ _ =>
      trivial
    refine holds_guard fun holderToken _ => ?_
    refine holds_guard fun holderTokenHash _ => ?_
    refine holds_guard fun fence hsigned => ?_
    have hfence := signOperationFence_eq _ hsigned
    refine holds_bind (holds_bindControllerRequest (fun _ _ hfree => hI _ _ hleased (.bind hfree))
      ?_)
    intro d' hbound hd'
    let record : ControlOperationRecord :=
      ⟨req.requestID, fingerprint, holderToken, fence, none, "authority-acquired", now, 0⟩
    have hsame : I d' ∧ d'.journal = d.journal ∧ d'.leases req.scope = .held lease := by
      rcases hd' with rfl | ⟨path, binding, hfree, rfl⟩
      · exact ⟨hleased, rfl, (update_self ..).trans hfile⟩
      · exact ⟨hI _ _ hleased (.bind hfree), rfl, (update_self ..).trans hfile⟩
    obtain ⟨hkept, hjournal, hheld⟩ := hsame
    have hstored : d'.stored = d.stored := congrArg (·.getD emptyControlOperationState) hjournal
    have htoken : d'.stored.nextToken = (retireExpired d.stored now).nextToken := by
      rw [hstored, hnext]
    refine holds_bind (holds_writeControlOperationState (fun kept => hI _ _ hkept ?_) fun kept =>
      holds_ok ?_)
    · refine .grant (l := lease) ?_ ?_ ?_ hbound ?_ ?_ rfl ?_
      · intro a ha
        rw [hstored] at ha
        exact (hexp a ha).trans hnow
      · rw [htoken]
        exact hne
      · rw [htoken]
        rw [hfence]
        rfl
      · rw [hfence]
        exact hheld
      · rw [hfence]
        rfl
      · rw [htoken]
    · exact given_active (a := record) rfl fun g hg => mem_singleton.mp hg
  · rename_i hother
    refine holds_ok (given_nothing ?_)
    unfold returnedFence
    dsimp only
    split_ifs with hacq
    · cases hl : response.lease with
      | none => rfl
      | some lease => exact absurd hl (hother lease hacq)
    · rfl

theorem acquireOperation_holds (hbefore : d.stored.active = before) (hnow : now ≤ clock)
    (hreq : ∀ targets, validateFenceTargets inventory req.targetNodeIDs req.operation =
      .ok targets →
      request = [(req.requestID, controllerOperationRequestFingerprint S req targets)]) :
    Holds (acquireOperation S installation faults draw inventory req now leaseAt) d I
      (Given request) := by
  refine holds_guard fun _ _ => ?_
  refine holds_guard fun targets htgts => ?_
  rw [hreq targets htgts]
  refine holds_guard fun _ _ => ?_
  refine holds_readState ?_
  refine holds_guard fun _ _ => ?_
  refine holds_guard fun _ _ => ?_
  refine holds_guard fun _ _ => ?_
  split
  · rename_i a ha
    split_ifs with hid
    · exact retryActive_holds hI hd (retireExpired_some ha) hid
    · exact reportActive_holds hI hd
  · rename_i hidle
    exact grantOperation_holds hI hd hbefore hidle hnow

/-- The journal commits the later expiry first, so a stop before the lease call leaves a
lease that ends earlier. -/
theorem renewActive_holds (ha : d.stored.active = some a) :
    Holds (renewActive S installation faults inventory inventoryFile req presented d.stored a
      verifyAt now) d I (Given []) := by
  refine holds_guard fun _ _ => ?_
  refine holds_guard fun _ _ => ?_
  refine holds_guard fun _ _ => ?_
  refine holds_require fun hextends => ?_
  refine holds_guard fun fence hsigned => ?_
  have hfence := signOperationFence_eq _ hsigned
  let record : ControlOperationRecord :=
    { a with previousFence := some a.fence, fence := fence, updatedAt := now }
  have hrenewed : ∀ kept, I { d with journal := some { d.stored with
      history := kept, active := some record, updatedAt := now } } := by
    refine fun kept => hI _ _ hd (.rewrite (b := record) ha ⟨rfl, rfl⟩ ?_ ?_ ?_ rfl rfl)
    · change fence.token = _
      rw [hfence]
    · change SameGrant a.fence fence
      rw [hfence]
      exact ⟨rfl, rfl, rfl, rfl, rfl, rfl⟩
    · change a.fence.expiresAt ≤ fence.expiresAt
      rw [hfence]
      exact hextends.le
  have hexp : now + req.ttl = record.fence.expiresAt := by
    change _ = fence.expiresAt
    rw [hfence]
  refine holds_bind (holds_writeControlOperationState hrenewed fun kept => ?_)
  rw [hexp]
  refine holds_bind (holds_call (hI _ _ (hrenewed kept) (.renew rfl)) fun _ _ => ?_)
  exact holds_guard fun _ _ => holds_ok (given_active (a := record) rfl (by simp))

theorem reconcileRenewal_holds (ha : d.stored.active = some a) :
    Holds (reconcileRenewal S faults inventoryFile req presented a) d I (Given []) := by
  refine holds_guard fun _ _ => ?_
  refine holds_guard fun _ _ => ?_
  refine holds_bind (holds_call (hI _ _ hd (.renew ha)) fun _ _ => ?_)
  exact holds_guard fun _ _ => holds_ok (given_active ha (by simp))

theorem renewControllerOperationLease_holds :
    Holds (renewControllerOperationLease S installation faults inventory inventoryFile req verifyAt
      now) d I (Given []) := by
  refine holds_guard fun _ _ => ?_
  refine holds_readState ?_
  split
  · exact holds_ok (given_nothing (returnedFence_refused rfl))
  rename_i a ha
  split_ifs
  · exact holds_ok (given_nothing (returnedFence_refused rfl))
  refine holds_guard fun _ _ => ?_
  split
  · exact holds_fail
  split_ifs
  · exact reconcileRenewal_holds hI hd ha
  · exact renewActive_holds hI hd ha

theorem acquireCall_holds (hcontroller : S.controller = some installation)
    (hbefore : d.stored.active = before) (hnow : now ≤ clock) :
    Holds (acquireCall S req draw inventoryFile checkedFile faults now leaseAt) d I
      (Given (requestOf S inventoryFile req)) := by
  unfold acquireCall acquireControllerOperationLease
  rw [hcontroller]
  refine holds_guard fun inventory hinv => ?_
  rw [wrap_eq_ok] at hinv
  have hfile : inventoryFile = some inventory := by
    unfold readInventory at hinv
    split at hinv
    · cases hinv
    · simp only [bind_eq_ok, Except.ok.injEq] at hinv
      obtain ⟨_, _, _, _, rfl⟩ := hinv
      rfl
  subst inventoryFile
  split_ifs with hrenew
  · have hnone : requestOf S (some inventory) req = [] := by
      unfold requestOf
      dsimp only
      split
      · rfl
      · rw [if_pos hrenew]
    rw [hnone]
    exact renewControllerOperationLease_holds hI hd
  · refine acquireOperation_holds hI hd hbefore hnow ?_
    intro targets htgts
    unfold requestOf
    dsimp only
    rw [htgts]
    exact if_neg hrenew

theorem reconcileExpired_holds (hle : checkedAt ≤ clock) :
    Holds (reconcileExpired S faults checkedAt retiredAt) d I (fun _ _ => True) := by
  refine holds_guard fun _ _ => ?_
  refine holds_guard fun _ _ => ?_
  refine holds_readState ?_
  split_ifs with hexp
  · refine holds_writeControlOperationState (fun kept => hI _ _ hd ?_) fun _ => trivial
    refine .expire ?_ (retireControlOperation_active ..) (retireControlOperation_nextToken ..)
    intro a ha
    rw [ha] at hexp
    have hle' : a.fence.expiresAt ≤ checkedAt := by simpa using hexp
    exact hle'.trans hle
  · exact holds_ok trivial

theorem updateControllerFencePhase_holds :
    Holds (updateControllerFencePhase S faults inventoryFile fence holderToken phase verifyAt now) d
      I (fun _ _ => True) := by
  unfold updateControllerFencePhase
  split
  · exact holds_fail
  refine holds_guard fun _ _ => ?_
  refine holds_guard fun _ _ => ?_
  refine holds_readState ?_
  split
  · exact holds_fail
  rename_i a ha
  refine holds_guard fun _ _ => ?_
  refine holds_guard fun _ _ => ?_
  refine holds_bind (holds_writeControlOperationState (fun kept => hI _ _ hd ?_) fun _ =>
    holds_ok trivial)
  exact .rewrite (b := { a with phase := phase, updatedAt := now }) ha ⟨rfl, rfl⟩ rfl
    (.refl _) le_rfl rfl rfl

end Calls

/-- A release removes the lease and then retires the active operation. -/
theorem release_holds (hcontroller : S.controller = some installation) (draw : Draw)
    (before : Option ControlOperationRecord) (clock : Time) :
    Holds (releaseControllerOperationLease S faults inventoryFile req now) d
      (fun w => (Write S draw before clock d w ∧ w.journal = d.journal) ∨
        ∃ a leases kept, d.stored.active = some a ∧ w = { d with
          leases := leases
          journal := some { retireControlOperation d.stored "completed" now with
            history := kept } })
      (fun _ _ => True) := by
  unfold releaseControllerOperationLease
  rw [hcontroller]
  refine holds_guard fun _ _ => ?_
  refine holds_readState ?_
  split
  · rename_i a presented ha _
    refine holds_guard fun _ _ => ?_
    refine holds_guard fun _ _ => ?_
    refine holds_guard fun _ _ => ?_
    refine holds_bind (holds_call (.inl ⟨.release, rfl⟩) fun _ _ => ?_)
    refine holds_guard fun _ _ => ?_
    refine holds_bind (holds_writeControlOperationState ?_ fun _ => holds_ok trivial)
    exact fun kept => .inr ⟨a, _, kept, ha, rfl⟩
  · exact holds_fail

def releasedHistory (h : History) (d w : Disk) : History :=
  { h with completed := completedBy d w ++ h.completed }

theorem completedBy_same (hsame : w.stored.active = d.stored.active) : completedBy d w = [] := by
  unfold completedBy
  rw [hsame]
  cases d.stored.active <;> rfl

theorem release_sound (hcontroller : S.controller = some installation) (hs : Sound S clock h d) :
    Holds (releaseControllerOperationLease S faults inventoryFile req now) d
      (fun w => Sound S clock (releasedHistory h d w) w) (fun _ _ => True) := by
  refine (release_holds hcontroller ⟨.ok "", .ok ""⟩ none clock).weaken ?_ ?_
  · rintro w (⟨hwrite, hjournal⟩ | ⟨a, leases, kept, ha, rfl⟩)
    · have hsame : completedBy d w = [] := by
        apply completedBy_same
        unfold Disk.stored
        rw [hjournal]
      rw [releasedHistory, hsame]
      exact Sound.write _ _ _ _ hs hwrite
    · unfold Sound releasedHistory completedBy Disk.stored
      simp only [Option.getD_some, retireControlOperation_active, retireControlOperation_nextToken]
      rw [show (d.journal.getD emptyControlOperationState).active = some a from ha]
      exact complete hs ha
  · exact fun _ _ _ => trivial

theorem initial_invariant (hs : Initial s) : Invariant S s := by
  obtain ⟨hj, hb, hh⟩ := hs
  have hstored : s.disk.stored = emptyControlOperationState := by simp [Disk.stored, hj]
  unfold Invariant
  rw [hstored, hh]
  constructor <;> simp [emptyControlOperationState]

def fenceOf (S : ControlServer) (s : State) : Event → Option OperationFence
  | .acquire req draw inventoryFile checkedFile faults now leaseAt _ stop =>
    returnedFence ((acquireCall S req draw inventoryFile checkedFile faults now leaseAt).answer
      s.disk stop)
  | _ => none

section

variable (hcontroller : S.controller = some installation)

include hcontroller

/-- After an acquire event the disk is sound, and a returned fence is the active one. -/
theorem acquire_sound (hs : Invariant S s) (req : LeaseRequest) (draw : Draw)
    (inventoryFile checkedFile : Option ClusterInventory) (faults : CallFaults) (leaseAt : Time)
    (stop : Stop) (hclock : s.clock ≤ now) (hle : now ≤ returnAt) :
    let u := next S s (.acquire req draw inventoryFile checkedFile faults now leaseAt returnAt stop)
    Sound S returnAt s.history u.disk ∧
      ∀ f, fenceOf S s (.acquire req draw inventoryFile checkedFile faults now leaseAt returnAt
          stop) = some f → ∃ a, u.disk.stored.active = some a ∧ a.fence = f ∧
          ∀ g ∈ requestOf S inventoryFile req, Bound S u.disk.bindings g.1 g.2 := by
  have hlater := later hs (hclock.trans hle)
  have hcall : Holds (acquireCall S req draw inventoryFile checkedFile faults now leaseAt) s.disk
      (Sound S returnAt s.history) (Given (requestOf S inventoryFile req)) :=
    acquireCall_holds (Sound.write _ _) hlater hcontroller rfl hle
  refine ⟨hcall.disk hlater stop, ?_⟩
  intro f hf
  simp only [fenceOf] at hf
  cases hans : (acquireCall S req draw inventoryFile checkedFile faults now leaseAt).answer s.disk
    stop with
  | none => rw [hans] at hf; cases hf
  | some result =>
    cases result with
    | error => rw [hans] at hf; cases hf
    | ok =>
      rw [hans] at hf
      obtain ⟨a, ha, hfence, hreq⟩ := hcall.answer hans f hf
      refine ⟨a, ha, hfence, ?_⟩
      intro g hg
      rw [hreq g hg]
      exact active_bound (hcall.disk hlater stop) a ha

theorem acquire_preserves (hs : Invariant S s) (hclock : s.clock ≤ now) (hle : now ≤ returnAt) :
    Invariant S (next S s
      (.acquire req draw inventoryFile checkedFile faults now leaseAt returnAt stop)) := by
  obtain ⟨hsound, hfence⟩ := acquire_sound hcontroller hs req draw inventoryFile checkedFile faults
    leaseAt stop hclock hle
  simp only [next] at hsound hfence ⊢
  cases hf : returnedFence ((acquireCall S req draw inventoryFile checkedFile faults now
      leaseAt).answer s.disk stop) with
  | none => exact hsound
  | some f =>
    obtain ⟨a, ha, rfl, hbound⟩ := hfence f hf
    exact record hsound ha hbound

theorem step_preserves_invariant (hs : Invariant S s) (he : Enabled s e) :
    Invariant S (next S s e) := by
  cases e with
  | tick => exact later hs he
  | leases => exact hs
  | acquire =>
    obtain ⟨hclock, hlease, hreturn⟩ := he
    exact acquire_preserves hcontroller hs hclock (hlease.trans hreturn)
  | release req inventoryFile faults now stop =>
    have hlater := later hs he
    have hcall : Holds (releaseControllerOperationLease S faults inventoryFile req now) s.disk
        (fun w => Sound S now (releasedHistory s.history s.disk w) w) (fun _ _ => True) :=
      release_sound hcontroller hlater
    refine hcall.disk ?_ stop
    rw [releasedHistory, completedBy_same rfl]
    exact hlater
  | status faults checkedAt retiredAt stop =>
    have hlater := later hs (he.1.trans he.2)
    exact (reconcileExpired_holds (Sound.write ⟨.ok "", .ok ""⟩ none) hlater he.2).disk hlater stop
  | phase fence holderToken phase inventoryFile faults verifyAt now stop =>
    have hlater := later hs (he.1.trans he.2)
    exact (updateControllerFencePhase_holds
      (Sound.write ⟨.ok "", .ok ""⟩ none) hlater).disk hlater stop

theorem reachable_invariant (hr : (machine S).Reachable Initial s) : Invariant S s :=
  hr.invariant (fun _ => initial_invariant)
    (fun _ _ hs he => step_preserves_invariant hcontroller hs he)

end

/-- Two returned fences, in the order they were returned: the token does not fall, and an
equal token is the same grant. -/
theorem returned_pair (hs : Invariant S s) (hsplit : s.history.returned = l₁ ++ g :: l₂)
    (hf : f ∈ l₂) : f.token ≤ g.token ∧ (f.token = g.token → SameGrant f g) := by
  have hp := ordered hs
  rw [hsplit, pairwise_append] at hp
  exact (pairwise_cons.mp hp.2.1).1 f hf

theorem same_token_same_grant (hs : Invariant S s) (hf : f ∈ s.history.returned)
    (hg : g ∈ s.history.returned) (ht : f.token = g.token) : SameGrant f g := by
  obtain ⟨l₁, l₂, hsplit⟩ := append_of_mem hg
  have hp := ordered hs
  rw [hsplit, pairwise_append] at hp
  rw [hsplit, mem_append, mem_cons] at hf
  rcases hf with hf | rfl | hf
  · have hgf := (hp.2.2 f hf g mem_cons_self).2 ht.symm
    exact ⟨hgf.1.symm, hgf.2.symm, hgf.3.symm, hgf.4.symm, hgf.5.symm, hgf.6.symm⟩
  · exact SameGrant.refl f
  · exact (returned_pair hs hsplit hf).2 ht

theorem bound_unique (hb : Bound S bindings requestID fp) (hb' : Bound S bindings requestID fp') :
    fp = fp' := by
  obtain ⟨b, hb, _, rfl⟩ := hb
  obtain ⟨b', hb', _, rfl⟩ := hb'
  rw [hb] at hb'
  cases hb'
  rfl

/-- When a fence is handed out, every fence of another operation is over. -/
theorem others_over (hcontroller : S.controller = some installation) (hs : Invariant S s)
    (he : Enabled s e) (hg : fenceOf S s e = some g) (hf : f ∈ s.history.returned)
    (hne : f.operationID ≠ g.operationID) :
    Completed s.history f ∨ f.expiresAt ≤ (next S s e).clock := by
  cases e with
  | tick | leases | release | status | phase => cases hg
  | acquire req draw inventoryFile checkedFile faults now leaseAt returnAt stop =>
    obtain ⟨hclock, hlease, hreturn⟩ := he
    obtain ⟨hsound, hfence⟩ := acquire_sound hcontroller hs req draw inventoryFile checkedFile
      faults leaseAt stop hclock (hlease.trans hreturn)
    obtain ⟨a, ha, rfl, _⟩ := hfence g hg
    rcases over_or_covered hsound f hf with hcomp | hexp | ⟨b, hb, ht, _⟩
    · exact .inl hcomp
    · exact .inr hexp
    · rw [ha] at hb
      cases hb
      exact absurd (active_same hsound a ha f hf ht.symm).operationID hne

/-- The four laws of controller grants, in every reachable state. `returned` lists the
latest fence first. An operation counts as released once the journal records it. -/
theorem controller_grant_uniqueness (hcontroller : S.controller = some installation) {s : State}
    (hr : (machine S).Reachable Initial s) :
    (∀ f ∈ s.history.returned, ∀ g ∈ s.history.returned, f.token = g.token → SameGrant f g) ∧
    (∀ l₁ g l₂ f, s.history.returned = l₁ ++ g :: l₂ → f ∈ l₂ →
      f.operationID ≠ g.operationID → f.token < g.token) ∧
    (∀ e, Enabled s e → ∀ g, fenceOf S s e = some g → ∀ f ∈ s.history.returned,
      f.operationID ≠ g.operationID →
      Completed s.history f ∨ f.expiresAt ≤ (next S s e).clock) ∧
    (∀ p ∈ s.history.granted, ∀ q ∈ s.history.granted, p.1 = q.1 → p.2 = q.2) := by
  have hs := reachable_invariant hcontroller hr
  refine ⟨?_, ?_, ?_, ?_⟩
  · intro f hf g
    exact same_token_same_grant hs hf
  · intro l₁ g l₂ f hsplit hf hne
    obtain ⟨hle, hsame⟩ := returned_pair hs hsplit hf
    refine lt_of_le_of_ne hle ?_
    intro ht
    exact hne (hsame ht).operationID
  · intro e he g hg f
    exact others_over hcontroller hs he hg
  · intro p hp q hq hid
    have hbp := granted_bound hs p hp
    have hbq := granted_bound hs q hq
    rw [hid] at hbp
    exact bound_unique hbp hbq

/-! Two operations in a row: the first is released, then another request is granted. -/

def demoControl : ControlServer where
  oracles := { openOracles with
    sha256Hex := fun text => String.ofList
      (replicate 64 (if text = "request-1" then 'b' else 'a')) }
  controller := some demoInstallation
  dataDir := "/var/lib/tako"
  encodedLen _ := 1
  bindingLen _ := 1

def demoAsk (requestID : String) : LeaseRequest where
  project := "demo"
  environment := "production"
  id := ""
  operation := "deploy"
  who := "ci"
  pid := 7
  ttlSeconds := 60
  renew := false
  requestID := requestID
  holderToken := ""
  targetNodeIDs := [demoControllerID]
  fence := none

def noCallFaults : CallFaults := ⟨none, none, none, none, none, noFaults, noFaults⟩

def firstFence : OperationFence :=
  { newFence demoInventory (demoAsk "request-1") "op-1" 1 (String.ofList (replicate 64 'a'))
      [demoControllerID] 1 (1 + minute) with signature := "signature" }

def askFirst : Event :=
  .acquire (demoAsk "request-1") ⟨.ok "op-1", .ok "holder-1"⟩ (some demoInventory)
    (some demoInventory) noCallFaults 1 1 1 .returns

def askSecond : Event :=
  .acquire (demoAsk "request-2") ⟨.ok "op-2", .ok "holder-2"⟩ (some demoInventory)
    (some demoInventory) noCallFaults 3 3 3 .returns

def releaseFirst : Event :=
  .release { demoAsk "request-1" with
    id := "op-1", holderToken := "holder-1", fence := some firstFence }
    (some demoInventory) noCallFaults 2 .returns

def emptyController : State := ⟨1, ⟨none, fun _ => none, fun _ => .absent⟩, ⟨[], [], []⟩⟩

def afterFirst : State := (machine demoControl).runTrace emptyController [askFirst, releaseFirst]

/-- The second operation is granted while the first fence is still within its window,
because its release is on record. -/
theorem controller_grant_uniqueness_released :
    ∃ g, fenceOf demoControl afterFirst askSecond = some g ∧ g.token = 2 ∧
      firstFence ∈ afterFirst.history.returned ∧
      (Completed afterFirst.history firstFence ∨ firstFence.expiresAt ≤ 3) := by
  have hreach : (machine demoControl).Reachable Initial afterFirst :=
    .of_trace ⟨rfl, fun _ => rfl, rfl⟩ [askFirst, releaseFirst] (by decide +kernel)
  obtain ⟨g, hg, htoken, hid⟩ := exists_of_any (o := fenceOf demoControl afterFirst askSecond)
    (P := fun g => g.token = 2 ∧ g.operationID = "op-2") (by decide +kernel)
  have hfirst : firstFence ∈ afterFirst.history.returned := by decide +kernel
  refine ⟨g, hg, htoken, hfirst, ?_⟩
  exact (controller_grant_uniqueness rfl hreach).2.2.1 askSecond (by decide +kernel) g hg firstFence
    hfirst (by rw [hid]; decide)

end ControllerGrantUniqueness
