import Tako.MembershipStore
import Tako.WorkerFences

/-! # The trusted inventory of a node

Accepting a signed snapshot and republishing the membership's inventory hold
`workerFenceAdmissionMu` for their whole run and do not touch the fence file. The proxy's route
files and container appear through what the calls about them return.
-/
namespace InventoryAuthority

open GoPrelude NodeIdentity DurablePrograms PlatformMembership MembershipStore WorkerFences

structure HTTPError where
  status : ℕ
  message : String
  deriving DecidableEq

structure Daemon where
  server : Server
  membershipFile : String
  membershipLen : MembershipState → ℕ

def Daemon.store (D : Daemon) : Store := ⟨D.server.oracles, D.membershipFile, D.membershipLen⟩

/-- What `invalidStoredProxyRoutes` (called twice), `storedProxyAuthorityInvalidForInventory`,
`reconcileAllStoredProxyAuthority` and `stopProxyAndVerifyAbsent` return to one operation. -/
structure ProxyOutcomes where
  (invalidBefore invalidAfter : Except String ℕ)
  invalidForInventory : Except String Bool
  (reconciled stopped : Option String)
  deriving DecidableEq

variable (D : Daemon)

/-- The two inventories are compared by their encoded texts in the source. -/
def acceptSignedInventory (faults : StoreFaults) (proxy : ProxyOutcomes) (now : Time)
    (snapshot : SignedInventorySnapshot) : Durable Files Unit := do
  .check fun _ => require (D.server.installation.isSome)
    "signed inventory publication requires an enrolled node"
  let current ← .check fun d => readInventory D.server.oracles d.inventory
  .check fun _ => require (snapshot.inventory.clusterID = current.clusterID ∧
    snapshot.inventory.controllerNodeID = current.controllerNodeID ∧
    current.generation ≤ snapshot.inventory.generation ∧
    current.allocationGeneration ≤ snapshot.inventory.allocationGeneration)
    "signed inventory does not advance the trusted controller generation"
  let controller ← .check fun _ =>
    trustedController current "current inventory has no trusted controller key"
  .check fun _ =>
    verifyInventorySnapshot D.server.oracles snapshot controller.allocationPublicKey now
  if snapshot.inventory.generation = current.generation ∧
      snapshot.inventory.allocationGeneration = current.allocationGeneration then do
    .check fun _ => require (current = snapshot.inventory)
      "signed inventory content changed without a generation advance"
    .check fun _ => succeeds proxy.reconciled
  else do
    -- the running proxy may still serve a route that the new allocations withdraw
    .check fun _ =>
      whenever (snapshot.inventory.allocationGeneration ≠ current.allocationGeneration) do
      let invalid ← proxy.invalidForInventory
      whenever (invalid)
        (wrap (fun cause => "stop proxy before allocation authority transition: " ++ cause)
          (succeeds proxy.stopped))
    publishInventory D.store faults snapshot.inventory
    .check fun _ => succeeds proxy.reconciled

structure MembershipReconcileResponse where
  generation : ℕ
  proxyStopped : Bool
  invalidRoutes : ℕ
  deriving DecidableEq

abbrev Handled (α : Type) : Type := ExceptT HTTPError (StateM Files) α

def attempt {α : Type} (failure : String → HTTPError) (p : Durable Files α) : Handled α :=
  fun files =>
  ((p.run files).1.mapError failure, (p.run files).2)

def unavailable (message : String) : HTTPError := ⟨503, message⟩

/-- The method and the enrolment are checked before the lock is taken. `opened` is the error
of `NewMembershipStore`; each of the two reads of the store has its own faults. -/
def handleMembershipReconcile (post : Bool) (first second : StoreFaults) (opened : Option String)
    (proxy : ProxyOutcomes) : Handled MembershipReconcileResponse := do
  if post = false then throw ⟨405, "method not allowed"⟩
  match D.server.installation with
  | none => throw ⟨409, "platform membership is unavailable on an unenrolled node"⟩
  | some installation =>
    let invalidBefore ← attempt unavailable (.check fun _ => proxy.invalidBefore)
    attempt (fun cause => ⟨500, cause⟩) (.check fun _ => succeeds opened)
    let state ← attempt
      (fun cause => unavailable ("reconcile controller membership snapshot: " ++ cause))
      (read D.store first)
    if state.clusterID ≠ installation.clusterID ∨ state.controllerNodeID ≠ installation.nodeID then
      throw ⟨403, "this node is not the authoritative membership controller"⟩
    match proxy.reconciled, proxy.stopped with
    | some cause, some stopErr =>
      throw (unavailable ("reconcile stored allocation authority: " ++ cause ++
        "; fail-closed proxy stop also failed: " ++ stopErr))
    | some cause, none =>
      throw (unavailable ("reconcile stored allocation authority; proxy stopped fail-closed: " ++
        cause))
    | none, _ =>
      let state ← attempt (fun cause => unavailable ("read reconciled membership: " ++ cause))
        (read D.store second)
      let invalid ← attempt unavailable (.check fun _ => proxy.invalidAfter)
      attempt (fun cause => unavailable ("stop proxy after membership revocation: " ++ cause))
        (.check fun _ => whenever (0 < invalid) (succeeds proxy.stopped))
      pure ⟨state.generation, decide (0 < invalidBefore), invalidBefore⟩

end InventoryAuthority
