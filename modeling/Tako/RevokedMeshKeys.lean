import Tako.Base64
import Tako.MembershipLifecycle

/-! # Revoked mesh keys

A mesh key is what WireGuard reads, whatever its text. If every worker enrols with a key that the
membership does not have, no node is active under a revoked key. The validator compares texts: two
nodes have one key where it is written in two ways.
-/
namespace RevokedMeshKeys

open List GoPrelude NodeIdentity PlatformMembership MembershipStore MembershipEffects
open AllocationAuthority ControlPlane MembershipLifecycle

def meshKey (O : Oracles) (text : String) : Option (List UInt8) := O.meshKeyBytes (trimSpace text)

def meshKeys (O : Oracles) (m : MembershipState) : List (Option (List UInt8)) :=
  (credentials m).map fun c => meshKey O c.2

/-- An enrolment that changes the membership brings a key the membership does not have. -/
def EnrolsFreshKey (C : Controller) (s : State) (e : Event) : Prop :=
  match e with
  | .perform (.enrollWorker request) _ _ _ => (next C s e).file ≠ s.file →
    ∀ m ∈ s.file, meshKey C.store.oracles request.meshPublicKey ∉ meshKeys C.store.oracles m
  | _ => True

instance (s : State) (e : Event) : Decidable (EnrolsFreshKey C s e) := by
  unfold EnrolsFreshKey
  split <;> infer_instance

theorem rewrites_meshKeys {A : Request → Prop} (h : Rewrites O A m n) (hm : (meshKeys O m).Nodup)
    (hfresh : ∀ request, A (.enrollWorker request) →
      meshKey O request.meshPublicKey ∉ meshKeys O m) :
    (meshKeys O n).Nodup := by
  cases h with
  | @intro after settled _ heffect hsettled _ _ =>
    have hsame : credentials settled = credentials after := by rw [hsettled]; rfl
    rw [meshKeys, ((sorted_credentials settled).map _).nodup_iff, hsame]
    rcases effect_credentials heffect with hperm | ⟨asked, request, hasked, hreq, -, hperm⟩
    · exact (hperm.map _).nodup_iff.mpr hm
    · have hkey : request.meshPublicKey = asked.meshPublicKey := by
        rw [hreq, EnrollWorkerRequest.normalized]
      rw [(hperm.map _).nodup_iff, hkey]
      exact nodup_cons.mpr ⟨hfresh asked hasked, hm⟩

theorem isFirst_meshKeys (h : IsFirst C n) : (meshKeys O n).Nodup := by
  obtain ⟨_, _, _, hpersists⟩ := h
  obtain ⟨_, _, _, _, _, _, settled, _, _, hsettles, rfl⟩ := persists_first hpersists
  rw [meshKeys, hsettles.eq]
  exact nodup_singleton _

theorem reachable_meshKeys (hr : ((machine C).restrict (EnrolsFreshKey C)).Reachable Initial s) :
    ∀ m, s.file = some m → (meshKeys C.store.oracles m).Nodup := by
  refine hr.invariant_with (I := fun s => ∀ m, s.file = some m → (meshKeys C.store.oracles m).Nodup)
    (fun _ h => reachable_invariant h.of_restrict) ?_ ?_
  · exact fun s hs m hm => absurd hm (hs.file_ne m)
  · rintro s e hs hkeys ⟨he, hfresh⟩ n hn
    change (next C s e).file = some n at hn
    by_cases hsame : (next C s e).file = s.file
    · exact hkeys n (hsame.symm.trans hn)
    have hstep := next_fileStep hs he
    rw [hn] at hstep
    generalize hfile : s.file = old at hstep
    cases hstep with
    | kept => exact hkeys n hfile
    | rewritten hrewrites =>
      refine rewrites_meshKeys hrewrites (hkeys _ hfile) ?_
      intro request hasked
      cases e with
      | perform =>
        cases hasked
        exact hfresh hsame _ hfile
      | _ => exact hasked.elim
    | created hfirst => exact isFirst_meshKeys hfirst

def Published (d w : Files) : Prop :=
  w.inventory = d.inventory ∨ ∃ n, w.membership = some n ∧ w.inventory = some n.inventory.sorted

theorem Reconciled.publishes (h : Reconciled S m d w) (hm : d.membership = some m) :
    Published d w := by
  cases h with
  | current => exact .inl rfl
  | published => exact .inr ⟨m, hm, rfl⟩

theorem Committed.publishes (h : Committed S m d w) : Published d w := by
  cases h with
  | persisted => exact .inl rfl
  | published hw =>
    have hpub := Reconciled.publishes hw rfl
    exact hpub

theorem next_published (he : Enabled s e) : Published s.disk.files (next C s e).disk.files := by
  have heffect := next_diskEffect (C := C) he
  change Published _ (nextDisk C s e).files
  generalize nextDisk C s e = w at heffect
  generalize s.handler = handler at heffect
  cases heffect with
  | performed hperformed =>
    cases hperformed with
    | untouched | persisted => exact .inl rfl
    | repaired hm hw => exact Reconciled.publishes hw hm
    | published _ hw =>
      have hpub := Reconciled.publishes hw rfl
      exact hpub
  | phase hsection =>
    cases hsection with
    | repaired hfiles =>
      rcases hfiles with rfl | ⟨m, hm, hw⟩
      · exact .inl rfl
      · exact Reconciled.publishes hw hm
    | committed _ hfiles | recoveryCommitted _ _ hfiles => exact Committed.publishes hfiles
    | _ => exact .inl rfl

/-- No node of the inventory or the membership has the key that the tombstone revokes. -/
def Revoked (O : Oracles) (t : NodeTombstone) (nodes : List InventoryNode) : Prop :=
  ∀ node ∈ nodes, meshKey O node.meshPublicKey ≠ meshKey O t.revokedMeshPublicKey

theorem revoked_of_run (hr : ((machine C).restrict (EnrolsFreshKey C)).Reachable Initial s)
    (hrun : ((machine C).restrict (EnrolsFreshKey C)).Execution s u) (hm : s.file = some m)
    (ht : t ∈ m.tombstones) :
    ∃ n, u.file = some n ∧ t ∈ n.tombstones ∧ Revoked C.store.oracles t n.nodes := by
  obtain ⟨n, hn, hlaw⟩ :=
    execution_fileRun hrun.of_restrict (reachable_invariant hr.of_restrict) m hm
  have hkept := hlaw.tombstones t ht
  refine ⟨n, hn, hkept, ?_⟩
  intro node hnode hsame
  have hnodup := reachable_meshKeys (hr.after hrun) n hn
  rw [meshKeys, credentials, map_append, map_map, map_map] at hnodup
  apply disjoint_of_nodup_append hnodup (mem_map_of_mem hnode)
  exact mem_map.mpr ⟨t, hkept, hsame.symm⟩

/-- In a run whose enrolments all bring fresh keys, a key that a tombstone revokes stays in it, and
is the key of no node in a later membership, or in an inventory that a later event publishes. -/
theorem revoked_keys_stay_revoked
    (hr : ((machine C).restrict (EnrolsFreshKey C)).Reachable Initial s)
    (hrun : ((machine C).restrict (EnrolsFreshKey C)).Execution s u) (hm : s.file = some m)
    (ht : t ∈ m.tombstones) :
    (∃ n, u.file = some n ∧ t ∈ n.tombstones ∧ Revoked C.store.oracles t n.nodes) ∧
      ∀ e i, ((machine C).restrict (EnrolsFreshKey C)).Enabled u e →
        (next C u e).disk.files.inventory = some i → u.disk.files.inventory ≠ some i →
        Revoked C.store.oracles t i.nodes := by
  refine ⟨revoked_of_run hr hrun hm ht, ?_⟩
  intro e i he hi hnew
  obtain ⟨n, hn, -, hrevoked⟩ := revoked_of_run hr (hrun.tail ⟨he, rfl⟩) hm ht
  obtain hsame | ⟨k, hk, hinventory⟩ := next_published he.1
  · exact absurd (hsame.symm.trans hi) hnew
  · have hkn : k = n := Option.some.inj (hk.symm.trans hn)
    have hik := Option.some.inj (hi.symm.trans hinventory)
    intro node hnode
    rw [hik, hkn] at hnode
    obtain ⟨old, hold, rfl⟩ := mem_map.mp hnode
    exact hrevoked old (SliceOrder.mem_sortBy.mp hold)

/-- Keys are decoded as Go does; the hash tells the key of the controller from others. -/
def meshAuthority : Controller :=
  { demoAuthority with
    store := { demoStore with oracles := { openOracles with
      meshKeyBytes := Base64.decode
      sha256HexBytes := fun key =>
        String.ofList (replicate 64 (if key = replicate 32 1 then 'a' else 'b')) } } }

def secondWorkerID : String := "00000000-0000-4000-8000-000000000003"

def secondJoin (meshPublicKey : String) : List Event :=
  [demoPerform (.createJoinToken secondWorkerID 0 (.ok "next") (.ok "secret")) 12,
    demoPerform
      (.reserveJoinToken "tako_join_v1.next.secret" secondWorkerID (.ok "reservation")) 13,
    demoPerform (.enrollWorker { demoEnrollment "tako_reserve_v1.next.reservation" with
      nodeID := secondWorkerID, meshPublicKey := meshPublicKey }) 14]

def buriedWorker : State := (machine meshAuthority).runTrace emptyControlPlane demoRemoval

def freshJoin : List Event := secondJoin "AwMDAwMDAwMDAwMDAwMDAwMDAwMDAwMDAwMDAwMDAwM="

/-- The key of the removed worker stays revoked when another worker has enrolled. -/
theorem buried_worker_key_revoked : ∃ m t n, buriedWorker.file = some m ∧ t ∈ m.tombstones ∧
    ((machine meshAuthority).runTrace buriedWorker freshJoin).file = some n ∧ n.nodes.length = 2 ∧
      t ∈ n.tombstones ∧ Revoked meshAuthority.store.oracles t n.nodes := by
  obtain ⟨m, hm, hne⟩ := exists_of_any (o := buriedWorker.file) (P := (·.tombstones ≠ []))
    (by decide +kernel)
  obtain ⟨t, ht⟩ := exists_mem_of_ne_nil _ hne
  have hvalid : ((machine meshAuthority).restrict (EnrolsFreshKey meshAuthority)).ValidTrace
      buriedWorker freshJoin := by decide +kernel
  obtain ⟨n, hn, htn, hrevoked⟩ := (revoked_keys_stay_revoked
    (.of_trace emptyControlPlane_initial demoRemoval (by decide +kernel))
    hvalid.execution hm ht).1
  obtain ⟨k, hk, htwo⟩ := exists_of_any
    (o := ((machine meshAuthority).runTrace buriedWorker freshJoin).file)
    (P := (·.nodes.length = 2)) (by decide +kernel)
  cases hn.symm.trans hk
  exact ⟨m, t, n, hm, ht, hn, htwo, htn, hrevoked⟩

/-- The worker comes back under another identifier, with its old key. -/
def returned : List Event := demoRemoval ++ secondJoin (demoEnrollment "").meshPublicKey

theorem revoked_key_enrolled_again :
    let s := (machine meshAuthority).runTrace emptyControlPlane returned
    (machine meshAuthority).Reachable Initial s ∧
      (s.file.any fun m => m.nodes.any fun node => m.tombstones.any fun t =>
        t.revokedMeshPublicKey == node.meshPublicKey) ∧
      (s.disk.files.inventory.any fun i => i.nodes.any fun node => i.tombstones.any fun t =>
        t.revokedMeshPublicKey == node.meshPublicKey) := by
  exact ⟨.of_trace emptyControlPlane_initial returned (by decide +kernel), by decide +kernel⟩

/-- No two nodes have one text for their key. -/
def TextsApart (nodes : List InventoryNode) : Prop :=
  ∀ a ∈ nodes, ∀ b ∈ nodes, a ≠ b → b.meshPublicKey ≠ "" → a.meshPublicKey ≠ b.meshPublicKey

section

variable (O : Oracles) (nodes : List InventoryNode)

/-- No two nodes have one key, or one identifier of it. -/
def KeysApart : Prop :=
  ∀ a ∈ nodes, ∀ b ∈ nodes, a ≠ b →
    (∀ key, meshKey O a.meshPublicKey = some key → key.length = 32 →
      meshKey O b.meshPublicKey ≠ some key) ∧
      ∀ id, meshCredentialID O a.meshPublicKey = .ok id →
        meshCredentialID O b.meshPublicKey ≠ .ok id

/-- The hash does not take two keys for one. -/
def HashApart : Prop :=
  ∀ a ∈ nodes, ∀ b ∈ nodes, (meshKey O a.meshPublicKey).map O.sha256HexBytes =
    (meshKey O b.meshPublicKey).map O.sha256HexBytes →
      meshKey O a.meshPublicKey = meshKey O b.meshPublicKey
  deriving Decidable

def IsKey (text : String) : Prop :=
  ∃ key, Base64.decode (trimSpace text) = some key ∧ key.length = 32

/-- The text without white space around it and line ends in it, and with its spare bits set to zero.
-/
def spelling (text : String) : List Char := Base64.normal (trimSpace text)

/-- No key is written in two ways. -/
def OneSpelling : Prop :=
  ∀ a ∈ nodes, ∀ b ∈ nodes, IsKey a.meshPublicKey →
    spelling b.meshPublicKey = spelling a.meshPublicKey →
    a.meshPublicKey = b.meshPublicKey

/-- No white space around it, no line end in it, and spare bits that are zero. -/
def Canonical (text : String) : Prop :=
  trimSpace text = text ∧ (chars text).any Base64.isLineEnd = false ∧
    Base64.clearSpare (chars text) = chars text
  deriving Decidable

end

theorem Canonical.spelling_eq (h : Canonical text) : spelling text = chars text := by
  obtain ⟨htrimmed, hjoined, hspare⟩ := h
  rw [spelling, Base64.normal, htrimmed, filter_eq_self.mpr (by simpa using hjoined), hspare]

theorem oneSpelling_of_canonical (h : ∀ node ∈ nodes, Canonical node.meshPublicKey) :
    OneSpelling nodes := by
  intro a ha b hb _ hsame
  rw [(h a ha).spelling_eq, (h b hb).spelling_eq, chars_eq_toList, chars_eq_toList] at hsame
  exact (String.toList_inj.mp hsame).symm

theorem inventory_textsApart (h : ClusterInventory.validate O i = .ok ()) : TextsApart i.nodes := by
  simp only [ClusterInventory.validate, bind_eq_ok, require_eq_ok] at h
  obtain ⟨_, _, _, _, _, _, _, _, _, hnodes, _⟩ := h
  have hpairs := (validateInventoryNodes_keys O hnodes).1
  have : Std.Symm fun a b : InventoryNode => b.meshPublicKey ≠ "" →
      a.meshPublicKey ≠ b.meshPublicKey :=
    ⟨fun a b hab hne hsame => hab (hsame ▸ hne) hsame.symm⟩
  exact fun a ha b hb => hpairs.forall ha hb

theorem sorted_textsApart (h : MembershipState.validate O m checkedAt = .ok ()) :
    TextsApart (sorted m).nodes := by
  simp only [MembershipState.validate, bind_eq_ok, require_eq_ok] at h
  obtain ⟨_, _, _, _, _, _, _, hinv, _⟩ := h
  have htexts := inventory_textsApart hinv
  exact fun a ha b hb => htexts a (SliceOrder.mem_sortBy.mp ha) b (SliceOrder.mem_sortBy.mp hb)

theorem reachable_textsApart (hr : (machine C).Reachable Initial s) (hm : s.file = some m) :
    TextsApart m.nodes := by
  refine reachable_file (P := fun m => TextsApart m.nodes) ?_ ?_ hr m hm
  · rintro n ⟨_, _, _, hpersists⟩
    obtain ⟨_, _, _, _, _, _, settled, _, _, hsettles, rfl⟩ := persists_first hpersists
    exact sorted_textsApart hsettles.valid
  · rintro A m n ⟨_, _, _, hvalid⟩ _
    exact sorted_textsApart hvalid

theorem meshCredentialID_ok (h : meshCredentialID O text = .ok credentialID) :
    ∃ key, meshKey O text = some key ∧ key.length = 32 ∧
      credentialID = "wg-sha256:" ++ O.sha256HexBytes key := by
  simp only [meshCredentialID, validateMeshPublicKey, bind_eq_ok, Except.ok.injEq] at h
  obtain ⟨_, hvalid, rfl⟩ := h
  cases hkey : O.meshKeyBytes (trimSpace text) with
  | none =>
    rw [hkey] at hvalid
    cases hvalid
  | some key =>
    rw [hkey] at hvalid
    simp only [bind_eq_ok, require_eq_ok] at hvalid
    obtain ⟨_, hlen, _⟩ := hvalid
    exact ⟨key, hkey, hlen, rfl⟩

theorem keysApart_iff (hdecode : O.meshKeyBytes = Base64.decode) (htexts : TextsApart nodes)
    (hhash : HashApart O nodes) : KeysApart O nodes ↔ OneSpelling nodes := by
  have hmeshKey : ∀ text, meshKey O text = Base64.decode (trimSpace text) := by
    intro text
    rw [meshKey, hdecode]
  constructor
  · rintro hkeys a ha b hb ⟨key, hkey, hlen⟩ hsame
    by_contra hne
    refine (hkeys a ha b hb fun heq => hne (congrArg _ heq)).1 key ((hmeshKey _).trans hkey) hlen ?_
    rw [hmeshKey]
    exact (Base64.decode_eq_some_iff hkey).mpr hsame
  · intro hspelling a ha b hb hab
    have hkeys : ∀ key, meshKey O a.meshPublicKey = some key → key.length = 32 →
        meshKey O b.meshPublicKey ≠ some key := by
      intro key hkey hlen hother
      rw [hmeshKey] at hkey hother
      refine htexts a ha b hb hab ?_
        (hspelling a ha b hb ⟨key, hkey, hlen⟩ ((Base64.decode_eq_some_iff hkey).mp hother))
      intro hnone
      rw [hnone] at hother
      cases hother
      cases hlen
    refine ⟨hkeys, ?_⟩
    intro id hid hother
    obtain ⟨key, hakey, hlen, rfl⟩ := meshCredentialID_ok hid
    obtain ⟨other, hbkey, -, hsame⟩ := meshCredentialID_ok hother
    refine hkeys key hakey hlen ((hhash a ha b hb ?_).symm.trans hakey)
    rw [hakey, hbkey]
    exact congrArg some (String.append_right_inj _ |>.mp hsame)

/-- The nodes of an accepted inventory, or of a membership that the control plane reaches. -/
inductive Listed (C : Controller) : List InventoryNode → Prop where
  | accepted : ClusterInventory.validate C.store.oracles i = .ok () → Listed C i.nodes
  | reached : (machine C).Reachable Initial s → s.file = some m → Listed C m.nodes

theorem Listed.textsApart (h : Listed C nodes) : TextsApart nodes := by
  cases h with
  | accepted hvalid => exact inventory_textsApart hvalid
  | reached hr hm => exact reachable_textsApart hr hm

/-- The validator compares the texts of the keys: it keeps the keys apart exactly where no key is
written in two ways, so where every text is canonical. -/
theorem mesh_keys_unique_iff (hdecode : C.store.oracles.meshKeyBytes = Base64.decode)
    (h : Listed C nodes) (hhash : HashApart C.store.oracles nodes) :
    (KeysApart C.store.oracles nodes ↔ OneSpelling nodes) ∧
      ((∀ node ∈ nodes, Canonical node.meshPublicKey) → KeysApart C.store.oracles nodes) := by
  have hiff := keysApart_iff hdecode h.textsApart hhash
  exact ⟨hiff, fun hcanonical => hiff.mpr (oneSpelling_of_canonical hcanonical)⟩

def joinedWorker : State := (machine meshAuthority).runTrace emptyControlPlane (demoJoin.take 4)

theorem joined_worker_key_unique : ∃ m, joinedWorker.file = some m ∧ m.nodes.length = 2 ∧
    KeysApart meshAuthority.store.oracles m.nodes := by
  obtain ⟨m, hm, htwo, hhash, hcanonical⟩ := exists_of_any (o := joinedWorker.file)
    (P := fun m => m.nodes.length = 2 ∧ HashApart meshAuthority.store.oracles m.nodes ∧
      ∀ node ∈ m.nodes, Canonical node.meshPublicKey) (by decide +kernel)
  have hreach : (machine meshAuthority).Reachable Initial joinedWorker :=
    .of_trace emptyControlPlane_initial _ (by decide +kernel)
  exact ⟨m, hm, htwo, (mesh_keys_unique_iff rfl (.reached hreach hm) hhash).2 hcanonical⟩

/-- A worker enrols with the key of the controller and a blank before it. -/
theorem spaced_key_enrolled_twice :
    let s := (machine meshAuthority).runTrace emptyControlPlane (demoJoin.take 3 ++
      [demoPerform (.enrollWorker { demoEnrollment "tako_reserve_v1.token.reservation" with
        meshPublicKey := " " ++ demoControllerKey }) 4])
    (machine meshAuthority).Reachable Initial s ∧
      (s.disk.files.inventory.any fun i => decide
        (i.validate meshAuthority.store.oracles = .ok ()) &&
        decide (i.nodes.map (fun node => meshKey meshAuthority.store.oracles node.meshPublicKey) =
          replicate 2 (some (replicate 32 1)))) := by
  intro s
  exact ⟨.of_trace emptyControlPlane_initial _ (by decide +kernel), by decide +kernel⟩

end RevokedMeshKeys
