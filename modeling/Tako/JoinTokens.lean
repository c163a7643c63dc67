import Tako.MembershipLifecycle

/-! # Join tokens are single use

The invariant ties every record of the membership file to the events that issued, reserved and
consumed the token. Identifiers are assumed never to be drawn twice, and a presented text to share
its hash with no other text that was handed out.
-/
namespace JoinTokens

open List GoPrelude NodeIdentity SliceOrder PlatformMembership MembershipStore MembershipEffects
open Except
open AllocationAuthority ControlPlane MembershipLifecycle

variable {C : Controller} {m n : MembershipState}

def tokenText (id secret : String) : String := joinTokenPrefix ++ "." ++ id ++ "." ++ secret
def reservationText (id secret : String) : String := reservationPrefix ++ "." ++ id ++ "." ++ secret

def middle (text : String) : Option String :=
  match split (trimSpace text) '.' with
  | [_, id, _] => some id
  | _ => none

structure AcceptsToken (O : Oracles) (m : MembershipState) (token nodeID : String) (now : Time)
    (record : JoinTokenRecord) : Prop where
  id : middle token = some record.id
  stored : record ∈ m.joinTokens
  hash : record.tokenHash = hashJoinToken O token
  unconsumed : record.consumedAt = 0
  unexpired : now < record.expiresAt
  bound : toLower record.expectedNodeID = toLower nodeID

variable {nodeID reservation id secret : String}

theorem validateJoinToken_ok (h : validateJoinToken O m token nodeID now = .ok record) :
    AcceptsToken O m token nodeID now record := by
  unfold validateJoinToken at h
  split at h
  · rename_i header id secret hparts
    simp only [bind_eq_ok, require_eq_ok] at h
    obtain ⟨_, _, h⟩ := h
    cases hfound : m.joinTokens.find? fun record => record.id == id with
    | none => simp [hfound] at h
    | some found =>
      simp only [hfound, bind_eq_ok, require_eq_ok, ok.injEq] at h
      obtain ⟨_, hhash, _, hconsumed, _, hexp, _, hbound, rfl⟩ := h
      have hid : found.id = id := by simpa using find?_some hfound
      exact ⟨by simp [middle, hparts, hid], mem_of_find?_eq_some hfound, hhash, hconsumed, hexp,
        equalFold_iff_toLower.mp hbound⟩
  · cases h

structure AcceptsReservation (O : Oracles) (m : MembershipState) (reservation nodeID : String)
    (now : Time) (record : JoinTokenRecord) : Prop where
  id : middle reservation = some record.id
  stored : record ∈ m.joinTokens
  unconsumed : record.consumedAt = 0
  reserved : record.reservationHash ≠ ""
  hash : record.reservationHash = hashJoinToken O reservation
  unexpired : now < record.reservationExpiresAt
  bound : toLower record.expectedNodeID = toLower nodeID

theorem consumeJoinReservation_ok
    (h : consumeJoinReservation O m reservation nodeID now = .ok record) :
    AcceptsReservation O m reservation nodeID now record := by
  unfold consumeJoinReservation at h
  split at h
  · rename_i header id secret hparts
    simp only [bind_eq_ok, require_eq_ok] at h
    obtain ⟨_, _, h⟩ := h
    cases hfound : m.joinTokens.find? fun record => record.id == id with
    | none => simp [hfound] at h
    | some found =>
      simp only [hfound, bind_eq_ok, require_eq_ok, ok.injEq] at h
      obtain ⟨_, hconsumed, _, ⟨hne, hhash⟩, _, hexp, _, hbound, rfl⟩ := h
      have hid : found.id = id := by simpa using find?_some hfound
      exact ⟨by simp [middle, hparts, hid], mem_of_find?_eq_some hfound, hconsumed, hne, hhash,
        hexp, equalFold_iff_toLower.mp hbound⟩
  · cases h

def issuedRecord (O : Oracles) (nodeID : String) (ttl : ℤ) (id secret : String) (now : Time) :
    JoinTokenRecord :=
  ⟨id, toLower nodeID, hashJoinToken O (tokenText id secret), now,
    now + (if ttl = 0 then defaultJoinTokenTTL else ttl), 0, "", 0, 0⟩

inductive TokenChange (O : Oracles) (m : MembershipState) (now : Time) :
    Request → List JoinTokenRecord → Prop where
  | issued {nodeID ttl id secret} :
      TokenChange O m now (.createJoinToken nodeID ttl (.ok id) (.ok secret))
        (m.joinTokens ++ [issuedRecord O nodeID ttl id secret now])
  | reserved {token nodeID secret record} :
      AcceptsToken O m token (toLower (trimSpace nodeID)) now record →
      TokenChange O m now (.reserveJoinToken token nodeID (.ok secret))
        (modifyFirst (fun r => r.id == record.id)
          (fun r => r.reserved (hashJoinToken O (reservationText record.id secret)) now)
            m.joinTokens)
  | consumed {request record} :
      AcceptsReservation O m request.reservation (toLower (trimSpace request.nodeID)) now record →
      TokenChange O m now (.enrollWorker request)
        (modifyFirst (fun r => r.id == record.id) (fun r => r.consumed now) m.joinTokens)
  | kept : TokenFree request → TokenChange O m now request m.joinTokens

theorem mutation_tokens {next : MembershipState} (hcluster : m.clusterID ≠ "")
    (h : request.mutation O m now = .ok change) (hnext : change.next = some next) :
    TokenChange O m now request next.joinTokens := by
  cases request with
  | createJoinToken nodeID ttl id secret =>
    simp only [Request.mutation, createJoinToken, bind_eq_ok, ok.injEq] at h
    obtain ⟨_, _, id, rfl, secret, rfl, rfl⟩ := h
    cases hnext
    exact .issued
  | reserveJoinToken token nodeID secret =>
    simp only [Request.mutation, reserveJoinToken, bind_eq_ok, ok.injEq] at h
    obtain ⟨record, hvalid, secret, rfl, rfl⟩ := h
    cases hnext
    exact .reserved (validateJoinToken_ok hvalid)
  | enrollWorker =>
    simp only [Request.mutation, enrollWorker, bind_eq_ok, ok.injEq] at h
    obtain ⟨_, _, _, _, _, _, _, _, record, hconsume, _, _, rfl⟩ := h
    cases hnext
    have haccepts := consumeJoinReservation_ok hconsume
    exact .consumed haccepts
  | _ =>
    have hkept := (mutation_nodeEffect hcluster h hnext trivial).joinTokens
    rw [hkept]
    exact .kept trivial

theorem validateJoinTokens_ids (h : validateJoinTokens seen tokens = .ok ()) :
    (tokens.map (·.id)).Nodup ∧ ∀ r ∈ tokens, r.id ∉ seen := by
  induction tokens generalizing seen with
  | nil => simp
  | cons r rest ih =>
    simp only [validateJoinTokens, bind_eq_ok, require_eq_ok] at h
    obtain ⟨_, _, _, _, _, hfresh, _, _, hrest⟩ := h
    exact nodup_cons_of_seen hfresh (fun _ => mem_cons.mpr) (ih hrest)

theorem validate_tokenIDs (h : m.validate O checkedAt = .ok ()) :
    (m.joinTokens.map (·.id)).Nodup := by
  simp only [MembershipState.validate, bind_eq_ok] at h
  obtain ⟨_, _, _, _, _, _, _, _, _, _, _, htokens, _⟩ := h
  exact (validateJoinTokens_ids htokens).1

theorem sorted_tokenIDs (h : (m.joinTokens.map (·.id)).Nodup) :
    ((sorted m).joinTokens.map (·.id)).Nodup :=
  ((sortBy_perm _ m.joinTokens).map _).nodup_iff.mpr h

theorem fileStep_tokenIDs {A : Request → Prop} (h : FileStep C A old new)
    (hold : ∀ m, old = some m → (m.joinTokens.map (·.id)).Nodup) (hn : new = some n) :
    (n.joinTokens.map (·.id)).Nodup := by
  refine fileStep_keeps h ?_ ?_ hold n hn
  · rintro _ ⟨_, _, _, hpersists⟩
    obtain ⟨_, _, _, _, _, _, settled, _, _, hsettles, rfl⟩ := persists_first hpersists
    exact sorted_tokenIDs (validate_tokenIDs hsettles.valid)
  · rintro _ _ ⟨_, _, _, hvalid⟩ _
    exact sorted_tokenIDs (validate_tokenIDs hvalid)

inductive TokenStep (C : Controller) (e : Event) :
    Option MembershipState → MembershipState → Prop where
  | phase : (∀ request faults clock stop, e ≠ .perform request faults clock stop) →
      (∀ r ∈ new.joinTokens, r ∈ old.joinTokens) → TokenStep C e (some old) new
  | first : e = .perform request faults clock stop →
      TokenFree request → new.joinTokens = [] → TokenStep C e none new
  | mutated :
      e = .perform request faults clock stop →
      TokenChange C.store.oracles old clock.mutatedAt request tokens →
        (∀ r ∈ new.joinTokens, r ∈ tokens) →
      (∀ enrolment, request = .enrollWorker enrolment → clock.mutatedAt ≠ 0 ∧
        ∃ node ∈ new.nodes, node.nodeID = toLower (trimSpace enrolment.nodeID)) →
          TokenStep C e (some old) new

/-- An enrolment adds the node. The clock is then not at its zero time, or the node would not
be valid. -/
theorem enrollWorker_node {after settled : MembershipState}
    (h : enrollWorker O request m now = .ok change) (hnext : change.next = some after)
    (hnodes : settled.nodes = after.nodes) (hctrl : settled.controllerNodeID ≠ "")
    (hvalid : settled.validate O checkedAt = .ok ()) :
    now ≠ 0 ∧ ∃ node ∈ settled.nodes, node.nodeID = toLower (trimSpace request.nodeID) := by
  simp only [enrollWorker, bind_eq_ok, ok.injEq] at h
  obtain ⟨_, _, _, _, _, _, _, _, record, _, credentialID, _, rfl⟩ := h
  cases hnext
  have hworker : request.normalized.worker credentialID now ∈ settled.nodes := by
    rw [hnodes]
    exact mem_append_right _ (mem_singleton_self _)
  refine ⟨?_, _, hworker, rfl⟩
  have hnode := ((validate_inventory hvalid).authoritative O hctrl hworker).2
  simp only [validateAuthoritativeNode, bind_eq_ok, require_eq_ok] at hnode
  obtain ⟨_, _, _, _, _, _, _, _, _, _, _, _, _, _, _, _, _, htimes, _⟩ := hnode
  exact htimes.1

theorem persists_tokenStep (hcluster : m.clusterID ≠ "") (hctrl : m.controllerNodeID ≠ "")
    (h : Persists C.store clock request (some m) n receipt) :
    TokenStep C (.perform request faults clock stop) (some m) n := by
  cases h with
  | @intro before change after settled hprecheck hread hvalid hmut hnext hsame hsettle =>
    obtain ⟨_, hfile | ⟨hnone, _, _⟩⟩ := readForMutation_ok hread
    · cases hfile
      have hsettles := settle_settles hsettle
      have htokens : settled.joinTokens = (pruneTokens after clock.prunedAt).joinTokens := by
        rw [hsettles.eq]
      have hnodes : settled.nodes = after.nodes := by rw [hsettles.eq]
      refine .mutated rfl (mutation_tokens hcluster hmut hnext) ?_ ?_
      · intro r hr
        have hkept := mem_sortBy.mp hr
        rw [htokens] at hkept
        exact mem_of_mem_filter hkept
      · rintro enrolment rfl
        have henroll : enrollWorker C.store.oracles enrolment m clock.mutatedAt = .ok change := hmut
        have hauth : settled.controllerNodeID ≠ "" := by
          rw [hsettles.eq]
          exact (mutation_effect hcluster hmut hnext).sameAuthority.controllerNodeID.trans_ne hctrl
        obtain ⟨hclock, node, hnode, hid⟩ :=
          enrollWorker_node henroll hnext hnodes hauth hsettles.valid
        exact ⟨hclock, node, mem_sortBy.mpr hnode, hid⟩
    · cases hnone

theorem persists_first_tokens (h : Persists C.store clock request none n receipt) :
    TokenFree request ∧ n.joinTokens = [] := by
  constructor
  · cases h with
    | intro _ hread _ _ _ _ _ _ =>
      obtain ⟨_, hfile | ⟨_, hallow, _⟩⟩ := readForMutation_ok hread
      · cases hfile
      · cases request with
        | initializeFirstNode => trivial
        | _ => cases hallow
  · obtain ⟨_, _, _, _, _, _, settled, _, _, hsettles, rfl⟩ := persists_first h
    have htokens : settled.joinTokens = [] := by rw [hsettles.eq]; rfl
    unfold sorted
    rw [htokens]
    rfl

theorem section_tokens (hs : Invariant C s) (h : SectionEffect C s.disk s.handler w) :
    w.files.membership = s.file ∨ ∃ m n, s.file = some m ∧ w.files.membership = some n ∧
      ∀ r ∈ n.joinTokens, r ∈ m.joinTokens := by
  generalize hhandler : s.handler = handler at h
  cases h with
  | repaired hfiles => exact .inl hfiles.membership_eq
  | @committed _ current _ p hcommits hfiles =>
    have hfile := hcommits.file_eq
    obtain ⟨_, _, _, _, _, hpreview, _⟩ := commit_base hs (hs.handler _ hhandler).1 hfile
      hcommits.generation_eq hcommits.allocationGeneration_eq
    obtain ⟨_, hcand⟩ := hpreview.preview
    have htokens : p.candidate.joinTokens = current.joinTokens := by
      obtain ⟨next, happly, _, ⟨heq, _⟩ | ⟨heq, _⟩⟩ :=
        previewOf_ok (hs.persistable current hfile) hcand
      · rw [heq]
      · rw [heq]
        exact (NodeEffect.authorized (A := fun _ => False) happly).joinTokens
    refine .inr ⟨current, _, hfile, hfiles.membership_eq, ?_⟩
    intro r hr
    rw [← htokens]
    exact mem_sortBy.mp hr
  | recoveryCommitted _ hcommits hfiles =>
    have hstored := recovery_base hs (hs.handler _ hhandler).2.2 hcommits.file_eq
      hcommits.generation_eq hcommits.allocationGeneration_eq
    subst hstored
    refine .inr ⟨_, _, hcommits.file_eq, hfiles.membership_eq, ?_⟩
    intro r
    exact mem_sortBy.mp
  | _ => exact .inl rfl

theorem next_tokenStep (hs : Invariant C s) (hctrl : ∀ m, s.file = some m → m.controllerNodeID ≠ "")
    (he : Enabled s e) (hchanged : (next C s e).file ≠ s.file) :
    ∃ n, (next C s e).file = some n ∧ TokenStep C e s.file n := by
  by_cases hperform : ∃ request faults clock stop, e = .perform request faults clock stop
  · obtain ⟨request, faults, clock, stop, rfl⟩ := hperform
    obtain ⟨n, receipt, hn, hpersists⟩ := perform_persists hchanged
    refine ⟨n, hn, ?_⟩
    cases hfile : s.file with
    | none =>
      rw [hfile] at hpersists
      obtain ⟨hfree, htokens⟩ := persists_first_tokens hpersists
      exact .first rfl hfree htokens
    | some m =>
      rw [hfile] at hpersists
      exact persists_tokenStep (hs.persistable m hfile).clusterID (hctrl m hfile) hpersists
  · push Not at hperform
    rcases section_tokens hs (next_sectionEffect he hperform) with hsame | ⟨m, n, hm, hn, htokens⟩
    · exact absurd hsame hchanged
    · rw [hm]
      exact ⟨n, hn, .phase hperform htokens⟩

def Changed (x : Entry) : Prop := x.after.files.membership ≠ x.before.files.membership

structure Issued (x : Entry) (id secret expectedNodeID : String) (expiresAt : Time) : Prop where
  changed : Changed x
  event : ∃ nodeID ttl faults clock stop,
    x.event = .perform (.createJoinToken nodeID ttl (.ok id) (.ok secret)) faults clock stop ∧
    expectedNodeID = toLower nodeID ∧
    expiresAt = clock.mutatedAt + (if ttl = 0 then defaultJoinTokenTTL else ttl)

structure Reserved (x : Entry) (token id secret : String) : Prop where
  changed : Changed x
  event : ∃ nodeID faults clock stop,
    x.event = .perform (.reserveJoinToken token nodeID (.ok secret)) faults clock stop
  id : middle token = some id

structure Enrolled (x : Entry) (reservation id nodeID : String) (enrolledAt : Time) : Prop where
  changed : Changed x
  event : ∃ request faults clock stop,
    x.event = .perform (.enrollWorker request) faults clock stop ∧
    reservation = request.reservation ∧ nodeID = toLower (trimSpace request.nodeID) ∧
    enrolledAt = clock.mutatedAt
  id : middle reservation = some id

def NeverEnrolled (history : List Entry) (id : String) : Prop :=
  ∀ z ∈ history, ∀ reservation nodeID enrolledAt, ¬Enrolled z reservation id nodeID enrolledAt

/-- The last reservation for the token `id` in the history, and that the token itself was
presented for it. -/
def LatestReservation (history : List Entry) (id tokenSecret secret : String) : Prop :=
  ∃ newer y older token, history = newer ++ y :: older ∧ Reserved y token id secret ∧
    trimSpace token = trimSpace (tokenText id tokenSecret) ∧
    ∀ y' ∈ newer, ∀ token' secret', ¬Reserved y' token' id secret'

structure RecordFacts (O : Oracles) (history : List Entry) (secret : String) (r : JoinTokenRecord) :
    Prop where
  issued : ∃ x ∈ history, Issued x r.id secret r.expectedNodeID r.expiresAt
  hash : r.tokenHash = hashJoinToken O (tokenText r.id secret)
  unconsumed : r.consumedAt = 0 → NeverEnrolled history r.id
  reservation : r.reservationHash ≠ "" → r.reservationExpiresAt ≤ r.expiresAt ∧
    ∃ reserved, LatestReservation history r.id secret reserved ∧
      r.reservationHash = hashJoinToken O (reservationText r.id reserved)

/-- The events before an enrolment, as the claim to the token demands them. -/
structure EnrolmentLaw (earlier : List Entry) (reservation id nodeID : String) (enrolledAt : Time) :
    Prop where
  first : NeverEnrolled earlier id
  token : ∃ secret expiresAt reserved, (∃ x ∈ earlier, Issued x id secret nodeID expiresAt) ∧
    enrolledAt < expiresAt ∧ LatestReservation earlier id secret reserved ∧
    trimSpace reservation = trimSpace (reservationText id reserved)

def HasNode (z : Entry) (nodeID : String) : Prop :=
  ∃ n, z.after.files.membership = some n ∧ ∃ node ∈ n.nodes, node.nodeID = nodeID

def Lawful : List Entry → Prop
  | [] => True
  | z :: earlier =>
    (∀ reservation id nodeID enrolledAt, Enrolled z reservation id nodeID enrolledAt →
      HasNode z nodeID ∧ EnrolmentLaw earlier reservation id nodeID enrolledAt) ∧ Lawful earlier

theorem Lawful.split (h : Lawful (later ++ z :: earlier))
    (hz : Enrolled z reservation id nodeID enrolledAt) :
    HasNode z nodeID ∧ EnrolmentLaw earlier reservation id nodeID enrolledAt := by
  induction later with
  | nil => exact h.1 _ _ _ _ hz
  | cons x rest ih => exact ih h.2

theorem Lawful.issued (h : Lawful history) (hz : z ∈ history)
    (hz' : Enrolled z reservation id nodeID enrolledAt) :
    ∃ x ∈ history, ∃ secret expiresAt, Issued x id secret nodeID expiresAt := by
  obtain ⟨later, earlier, rfl⟩ := append_of_mem hz
  obtain ⟨secret, expiresAt, _, ⟨x, hx, hissued⟩, _⟩ := (h.split hz').2.token
  exact ⟨x, mem_append_right _ (mem_cons_of_mem _ hx), secret, expiresAt, hissued⟩

theorem RecordFacts.cons (h : RecordFacts O history secret r)
    (hreserved : ∀ token s, ¬Reserved x token r.id s)
    (henrolled : ∀ reservation nodeID enrolledAt, ¬Enrolled x reservation r.id nodeID enrolledAt) :
    RecordFacts O (x :: history) secret r where
  issued := by
    obtain ⟨y, hy, hissued⟩ := h.issued
    exact ⟨y, mem_cons_of_mem _ hy, hissued⟩
  hash := h.hash
  unconsumed hc := forall_mem_cons.mpr ⟨henrolled, h.unconsumed hc⟩
  reservation := by
    intro hne
    obtain ⟨hexp, reserved, ⟨newer, y, older, token, rfl, hy, htoken, hlatest⟩, hhash⟩ :=
      h.reservation hne
    exact ⟨hexp, reserved,
      ⟨x :: newer, y, older, token, rfl, hy, htoken, forall_mem_cons.mpr ⟨hreserved, hlatest⟩⟩,
      hhash⟩

/-- The token or reservation that the answer to a request hands out. -/
def handedOut : Event → Option String
  | .perform (.createJoinToken _ _ (.ok id) (.ok secret)) _ _ _ => some (tokenText id secret)
  | .perform (.reserveJoinToken token _ (.ok secret)) _ _ _ =>
    (middle token).map (reservationText · secret)
  | _ => none

def presented : Event → Option String
  | .perform (.reserveJoinToken token _ _) _ _ _ => some token
  | .perform (.enrollWorker request) _ _ _ => some request.reservation
  | _ => none

/-- `text` does not collide with a text handed out before. -/
def HashApart (O : Oracles) (history : List Entry) (text : String) : Prop :=
  ∀ x ∈ history, ∀ given ∈ handedOut x.event,
    hashJoinToken O text = hashJoinToken O given → trimSpace text = trimSpace given
  deriving Decidable

theorem Issued.handedOut (h : Issued x id secret expectedNodeID expiresAt) :
    handedOut x.event = some (tokenText id secret) := by
  obtain ⟨nodeID, ttl, faults, clock, stop, he, _⟩ := h.event
  rw [he]
  rfl

theorem Reserved.handedOut (h : Reserved x token id secret) :
    handedOut x.event = some (reservationText id secret) := by
  obtain ⟨nodeID, faults, clock, stop, he⟩ := h.event
  rw [he]
  exact congrArg (Option.map _) h.id

section

variable (hfacts : RecordFacts O history secret r)

include hfacts

/-- The record a presented token opens is the one of that very token. -/
theorem accepted_token (hapart : HashApart O history token)
    (haccepts : AcceptsToken O m token nodeID now r) :
    trimSpace token = trimSpace (tokenText r.id secret) := by
  obtain ⟨x, hx, hissued⟩ := hfacts.issued
  exact hapart x hx _ hissued.handedOut (haccepts.hash.symm.trans hfacts.hash)

theorem accepted_reservation (hapart : HashApart O history reservation)
    (haccepts : AcceptsReservation O m reservation nodeID now r) :
    now < r.expiresAt ∧ ∃ reserved, LatestReservation history r.id secret reserved ∧
      trimSpace reservation = trimSpace (reservationText r.id reserved) := by
  obtain ⟨hexp, reserved, hlatest, hreserved⟩ := hfacts.reservation haccepts.reserved
  refine ⟨lt_of_lt_of_le haccepts.unexpired hexp, reserved, hlatest, ?_⟩
  obtain ⟨newer, y, older, _, rfl, hy, _⟩ := hlatest
  exact hapart y (by simp) _ hy.handedOut (haccepts.hash.symm.trans hreserved)

end

def drawnID : Event → Option String
  | .perform (.createJoinToken _ _ (.ok id) _) _ _ _ => some id
  | _ => none

def FreshIdentifiers (s : State) (e : Event) : Prop :=
  ∀ id ∈ drawnID e, ∀ x ∈ s.history, drawnID x.event ≠ some id
  deriving Decidable

/-- A step that draws no identifier again and presents no colliding text. -/
def Unforged (C : Controller) (s : State) (e : Event) : Prop :=
  FreshIdentifiers s e ∧ ∀ text ∈ presented e, HashApart C.store.oracles s.history text
  deriving Decidable

structure TokenInvariant (C : Controller) (s : State) : Prop where
  records : ∀ m, s.file = some m → ∀ r ∈ m.joinTokens, ∃ secret,
    RecordFacts C.store.oracles s.history secret r
  ids : ∀ m, s.file = some m → (m.joinTokens.map (·.id)).Nodup
  lawful : Lawful s.history

theorem Issued.drawn (h : Issued x id secret expectedNodeID expiresAt) :
    drawnID x.event = some id := by
  obtain ⟨nodeID, ttl, faults, clock, stop, he, _⟩ := h.event
  rw [he]
  rfl

theorem Reserved.request (h : Reserved x token id secret) {request : Request}
    (he : x.event = .perform request faults clock stop) :
    ∃ nodeID, request = .reserveJoinToken token nodeID (.ok secret) := by
  obtain ⟨nodeID, _, _, _, hevent⟩ := h.event
  cases he.symm.trans hevent
  exact ⟨nodeID, rfl⟩

theorem Enrolled.request (h : Enrolled x reservation id nodeID enrolledAt) {request : Request}
    (he : x.event = .perform request faults clock stop) :
    ∃ enrolment, request = .enrollWorker enrolment ∧ reservation = enrolment.reservation ∧
      nodeID = toLower (trimSpace enrolment.nodeID) ∧ enrolledAt = clock.mutatedAt := by
  obtain ⟨enrolment, _, _, _, hevent, hrest⟩ := h.event
  cases he.symm.trans hevent
  exact ⟨enrolment, rfl, hrest⟩

section Step

theorem not_reserved {request : Request} (hevent : x.event = .perform request faults clock stop)
    (h : ∀ token nodeID q, request = .reserveJoinToken token nodeID (.ok q) →
      middle token ≠ some id)
    (token q : String) : ¬Reserved x token id q := by
  intro hx
  obtain ⟨_, hreq⟩ := hx.request hevent
  exact h _ _ _ hreq hx.id

theorem not_enrolled {request : Request} (id : String)
    (hevent : x.event = .perform request faults clock stop)
    (h : ∀ enrolment, request = .enrollWorker enrolment → middle enrolment.reservation ≠ some id)
    (reservation nodeID : String) (enrolledAt : Time) :
    ¬Enrolled x reservation id nodeID enrolledAt := by
  intro hx
  obtain ⟨enrolment, hreq, rfl, _⟩ := hx.request hevent
  exact h enrolment hreq hx.id

variable {x : Entry} {clock : CallClock} (h : TokenInvariant C s)
  (hapart : ∀ text ∈ presented x.event, HashApart C.store.oracles s.history text)
  (hm : s.file = some m) (hevent : x.event = .perform request faults clock stop)
  (hchange : TokenChange C.store.oracles m clock.mutatedAt request tokens)

include h hapart hm hevent hchange

/-- The records after a request on tokens, for the history with its event. -/
theorem tokenChange_records (hchanged : Changed x)
    (hfresh : ∀ id ∈ drawnID x.event, ∀ y ∈ s.history, drawnID y.event ≠ some id)
    (hclock : ∀ enrolment, request = .enrollWorker enrolment → clock.mutatedAt ≠ 0)
    (hr : r ∈ tokens) : ∃ secret, RecordFacts C.store.oracles (x :: s.history) secret r := by
  have hold := h.records m hm
  cases hchange with
  | @issued nodeID ttl id secret =>
    have hnotEnrolled := fun k => not_enrolled k hevent fun _ hreq => by cases hreq
    rcases mem_append.mp hr with hmem | hnew
    · obtain ⟨q, hfacts⟩ := hold r hmem
      exact ⟨q, hfacts.cons (not_reserved hevent fun _ _ _ hreq => by cases hreq)
        (hnotEnrolled r.id)⟩
    · rw [mem_singleton.mp hnew]
      refine ⟨secret, ⟨x, mem_cons_self, hchanged, nodeID, ttl, _, _, _, hevent, rfl, rfl⟩, rfl, ?_,
        ?_⟩
      · intro _ z hz reservation worker enrolledAt henrolled
        rcases mem_cons.mp hz with rfl | hz
        · exact hnotEnrolled _ _ _ _ henrolled
        · -- an enrolment needs an issue, and the identifier was not drawn before
          obtain ⟨y, hy, _, _, hissued⟩ := h.lawful.issued hz henrolled
          refine hfresh id ?_ y hy hissued.drawn
          rw [hevent]
          rfl
      · exact absurd rfl
  | @reserved token nodeID secret record haccepts =>
    have hnotEnrolled := fun k => not_enrolled k hevent fun _ hreq => by cases hreq
    rcases mem_modifyFirst_key (h.ids m hm) hr with ⟨hmem, hne⟩ | ⟨a, ha, hid, rfl⟩
    · obtain ⟨q, hfacts⟩ := hold r hmem
      refine ⟨q, hfacts.cons (not_reserved hevent ?_) (hnotEnrolled r.id)⟩
      rintro _ _ _ ⟨rfl⟩ hid
      exact hne (Option.some.inj (hid.symm.trans haccepts.id))
    · have hrec : a = record := inj_on_of_nodup_map (h.ids m hm) ha haccepts.stored hid
      subst hrec
      obtain ⟨q, hfacts⟩ := hold a ha
      have htoken := accepted_token hfacts (hapart token (by rw [hevent]; rfl)) haccepts
      obtain ⟨y, hy, hissued⟩ := hfacts.issued
      refine ⟨q, ⟨y, mem_cons_of_mem _ hy, hissued⟩, hfacts.hash, ?_, ?_⟩
      · exact fun hc => forall_mem_cons.mpr ⟨hnotEnrolled a.id, hfacts.unconsumed hc⟩
      · intro _
        refine ⟨?_, secret, ⟨[], x, s.history, token, rfl,
          ⟨hchanged, ⟨_, _, _, _, hevent⟩, haccepts.id⟩, htoken, fun _ hy' => by cases hy'⟩, rfl⟩
        unfold JoinTokenRecord.reserved
        split_ifs with hlate
        · exact le_rfl
        · exact not_lt.mp hlate
  | @consumed enrolment record haccepts =>
    rcases mem_modifyFirst_key (h.ids m hm) hr with ⟨hmem, hne⟩ | ⟨a, ha, hid, rfl⟩
    · obtain ⟨q, hfacts⟩ := hold r hmem
      refine ⟨q, hfacts.cons (not_reserved hevent fun _ _ _ hreq => by cases hreq)
        (not_enrolled _ hevent ?_)⟩
      rintro _ ⟨rfl⟩ hid
      exact hne (Option.some.inj (hid.symm.trans haccepts.id))
    · obtain ⟨q, hfacts⟩ := hold a ha
      obtain ⟨y, hy, hissued⟩ := hfacts.issued
      refine ⟨q, ⟨y, mem_cons_of_mem _ hy, hissued⟩, hfacts.hash, ?_, ?_⟩
      · intro hc
        exact absurd hc (hclock enrolment rfl)
      · exact absurd rfl
  | kept hfree =>
    obtain ⟨q, hfacts⟩ := hold r hr
    refine ⟨q, hfacts.cons (not_reserved hevent ?_) (not_enrolled _ hevent ?_)⟩
    · rintro _ _ _ rfl
      exact hfree.elim
    · rintro _ rfl
      exact hfree.elim

/-- The law for the enrolment of the newest event. -/
theorem tokenChange_enrolment (hx : Enrolled x reservation id nodeID enrolledAt) :
    EnrolmentLaw s.history reservation id nodeID enrolledAt := by
  obtain ⟨enrolment, rfl, rfl, hnodeID, rfl⟩ := hx.request hevent
  cases hchange with
  | @consumed _ record haccepts =>
    have hid : record.id = id := Option.some.inj (haccepts.id.symm.trans hx.id)
    subst hid
    obtain ⟨secret, hfacts⟩ := h.records m hm record haccepts.stored
    have hunforged := hapart enrolment.reservation (by rw [hevent]; rfl)
    obtain ⟨hbefore, reserved, hlatest, htext⟩ := accepted_reservation hfacts hunforged haccepts
    obtain ⟨y, hy, hissued⟩ := hfacts.issued
    have hexp : record.expectedNodeID = nodeID := by
      obtain ⟨raw, _, _, _, _, _, hraw, _⟩ := hissued.event
      have hbound := haccepts.bound
      rw [hraw, toLower_toLower, toLower_toLower] at hbound
      rw [hraw, hbound, hnodeID]
    rw [hexp] at hissued
    exact ⟨hfacts.unconsumed haccepts.unconsumed,
      secret, record.expiresAt, reserved, ⟨y, hy, hissued⟩, hbefore, hlatest, htext⟩
  | kept hfree => exact hfree.elim

end Step

theorem step_tokenInvariant (hs : Invariant C s)
    (hctrl : ∀ m, s.file = some m → m.controllerNodeID ≠ "") (h : TokenInvariant C s)
    (he : Enabled s e) (hunforged : Unforged C s e) : TokenInvariant C (next C s e) := by
  have hids : ∀ m, (next C s e).file = some m → (m.joinTokens.map (·.id)).Nodup := by
    intro n
    exact fileStep_tokenIDs (next_fileStep hs he) h.ids
  by_cases hsame : (next C s e).file = s.file
  · have hunchanged : ¬Changed ⟨e, s.handler, s.disk, nextDisk C s e, outcome C s e⟩ := fun hc =>
      hc hsame
    refine ⟨?_, hids, ?_, h.lawful⟩
    · intro m hm r hr
      rw [hsame] at hm
      obtain ⟨secret, hfacts⟩ := h.records m hm r hr
      exact ⟨secret, hfacts.cons (fun _ _ hx => hunchanged hx.changed) fun _ _ _ hx =>
        hunchanged hx.changed⟩
    · intro _ _ _ _ hx
      exact absurd hx.changed hunchanged
  · have hchanged : Changed ⟨e, s.handler, s.disk, nextDisk C s e, outcome C s e⟩ := hsame
    obtain ⟨n, hn, hstep⟩ := next_tokenStep hs hctrl he hsame
    have hfiled : ∀ k, (next C s e).file = some k → n = k := fun k hk =>
      Option.some.inj (hn.symm.trans hk)
    generalize hfile : s.file = old at hstep
    cases hstep with
    | @phase m _ hevent htokens =>
      refine ⟨?_, hids, ?_, h.lawful⟩
      · rintro k hk r hr
        cases hfiled k hk
        obtain ⟨secret, hfacts⟩ := h.records m hfile r (htokens r hr)
        refine ⟨secret, hfacts.cons ?_ ?_⟩
        · intro token q hx
          obtain ⟨_, _, _, _, hx⟩ := hx.event
          exact hevent _ _ _ _ hx
        · intro reservation nodeID enrolledAt hx
          obtain ⟨_, _, _, _, hx, _⟩ := hx.event
          exact hevent _ _ _ _ hx
      · intro reservation id nodeID enrolledAt hx
        obtain ⟨_, _, _, _, hx, _⟩ := hx.event
        exact absurd hx (hevent _ _ _ _)
    | first hevent hfree htokens =>
      refine ⟨?_, hids, ?_, h.lawful⟩
      · intro k hk r hr
        cases hfiled k hk
        rw [htokens] at hr
        cases hr
      · intro reservation id nodeID enrolledAt hx
        obtain ⟨_, rfl, _⟩ := hx.request hevent
        exact hfree.elim
    | mutated hevent hchange htokens henrols =>
      refine ⟨?_, hids, ?_, h.lawful⟩
      · intro k hk r hr
        cases hfiled k hk
        exact tokenChange_records h hunforged.2 hfile hevent hchange hchanged hunforged.1
          (fun q hq => (henrols q hq).1) (htokens r hr)
      · intro reservation id nodeID enrolledAt hx
        obtain ⟨enrolment, hreq, _, rfl, _⟩ := hx.request hevent
        exact ⟨⟨n, hn, (henrols enrolment hreq).2⟩,
          tokenChange_enrolment h hunforged.2 hfile hevent hchange hx⟩

theorem reachable_tokenInvariant (hr : ((machine C).restrict (Unforged C)).Reachable Initial s) :
    TokenInvariant C s := by
  refine hr.invariant_with (fun _ h => h.of_restrict) ?_ ?_
  · intro s hs
    refine ⟨fun m hm => absurd hm (hs.file_ne m), fun m hm => absurd hm (hs.file_ne m), ?_⟩
    rw [hs.history]
    trivial
  · rintro s e hr htokens ⟨he, hunforged⟩
    exact step_tokenInvariant (reachable_invariant hr)
      (fun m hm => (reachable_wellFormed hr m hm).controllerNodeID) htokens he hunforged

/-- In every reachable state: an enrolment is the first one of its token, enrols the node the
token was issued for, before the token expired, and presents the last reservation made with
the token; and a token or a reservation that would be accepted now is one of an issued token
that has not expired and through which no node was ever enrolled. -/
theorem join_token_single_use {s : State}
    (hr : ((machine C).restrict (Unforged C)).Reachable Initial s) :
    (∀ later z earlier reservation id nodeID enrolledAt, s.history = later ++ z :: earlier →
      Enrolled z reservation id nodeID enrolledAt →
      HasNode z nodeID ∧ EnrolmentLaw earlier reservation id nodeID enrolledAt) ∧
    (∀ m token nodeID now record, s.file = some m → HashApart C.store.oracles s.history token →
      validateJoinToken C.store.oracles m token nodeID now = .ok record →
      NeverEnrolled s.history record.id ∧ ∃ x ∈ s.history, ∃ secret expectedNodeID expiresAt,
        Issued x record.id secret expectedNodeID expiresAt ∧
        trimSpace token = trimSpace (tokenText record.id secret) ∧ now < expiresAt) ∧
    (∀ m reservation nodeID now record, s.file = some m →
      HashApart C.store.oracles s.history reservation →
      consumeJoinReservation C.store.oracles m reservation nodeID now = .ok record →
      NeverEnrolled s.history record.id ∧ ∃ x ∈ s.history,
      ∃ secret expectedNodeID expiresAt reserved,
        Issued x record.id secret expectedNodeID expiresAt ∧ now < expiresAt ∧
        LatestReservation s.history record.id secret reserved ∧
        trimSpace reservation = trimSpace (reservationText record.id reserved)) := by
  have hs := reachable_tokenInvariant hr
  refine ⟨?_, ?_, ?_⟩
  · intro later z earlier reservation id nodeID enrolledAt hsplit hz
    have hlawful := hs.lawful
    rw [hsplit] at hlawful
    exact hlawful.split hz
  · intro m token nodeID now record hm hapart hvalid
    have haccepts := validateJoinToken_ok hvalid
    obtain ⟨secret, hfacts⟩ := hs.records m hm record haccepts.stored
    obtain ⟨x, hx, hissued⟩ := hfacts.issued
    exact ⟨hfacts.unconsumed haccepts.unconsumed, x, hx, secret, _, _, hissued,
      accepted_token hfacts hapart haccepts, haccepts.unexpired⟩
  · intro m reservation nodeID now record hm hapart hconsume
    have haccepts := consumeJoinReservation_ok hconsume
    obtain ⟨secret, hfacts⟩ := hs.records m hm record haccepts.stored
    obtain ⟨hbefore, reserved, hlatest, htext⟩ := accepted_reservation hfacts hapart haccepts
    obtain ⟨x, hx, hissued⟩ := hfacts.issued
    exact ⟨hfacts.unconsumed haccepts.unconsumed, x, hx, secret, _, _, reserved, hissued, hbefore,
      hlatest, htext⟩

def tokenAuthority : Controller :=
  { demoAuthority with
    store := { demoStore with oracles := { openOracles with
      sha256Hex := fun text => String.ofList (replicate 64
        (if (chars reservationPrefix).isPrefixOf (chars text) then 'b' else 'a')) } } }

def reservedToken : State := (machine tokenAuthority).runTrace emptyControlPlane (demoJoin.take 3)

def demoEnroll : Event :=
  demoPerform (.enrollWorker (demoEnrollment "tako_reserve_v1.token.reservation")) 4

/-- The worker is enrolled with the reservation of the only token. -/
theorem join_token_single_use_enrolled :
    ∃ z, (next tokenAuthority reservedToken demoEnroll).history = z :: reservedToken.history ∧
      Enrolled z "tako_reserve_v1.token.reservation" "token" demoWorkerID 4 ∧
        HasNode z demoWorkerID ∧
      EnrolmentLaw reservedToken.history
        "tako_reserve_v1.token.reservation" "token" demoWorkerID 4 := by
  have hreach : ((machine tokenAuthority).restrict (Unforged tokenAuthority)).Reachable Initial
      (next tokenAuthority reservedToken demoEnroll) :=
    .of_trace emptyControlPlane_initial (demoJoin.take 4) (by decide +kernel)
  have hchanged : (next tokenAuthority reservedToken demoEnroll).file ≠ reservedToken.file := by
    decide +kernel
  have hmiddle : middle "tako_reserve_v1.token.reservation" = some "token" := by decide +kernel
  have hnodeID : demoWorkerID = toLower (trimSpace demoWorkerID) := by decide +kernel
  refine ⟨⟨demoEnroll, reservedToken.handler, reservedToken.disk,
    nextDisk tokenAuthority reservedToken demoEnroll,
    outcome tokenAuthority reservedToken demoEnroll⟩, rfl, ?_⟩
  have henrolled : Enrolled ⟨demoEnroll, reservedToken.handler, reservedToken.disk,
      nextDisk tokenAuthority reservedToken demoEnroll,
      outcome tokenAuthority reservedToken demoEnroll⟩
      "tako_reserve_v1.token.reservation" "token" demoWorkerID 4 :=
    ⟨hchanged, ⟨_, _, _, _, rfl, rfl, hnodeID, rfl⟩, hmiddle⟩
  exact ⟨henrolled, (join_token_single_use hreach).1 [] _ _ _ _ _ _ rfl henrolled⟩

end JoinTokens
