import Tako.Runs
import Tako.OperationLeases

/-! # Mutual exclusion of operation leases

A call to acquire reads the clock first and may then wait for the mutex arbitrarily long, so a stale
reading meets fresh files. `outstanding` is the history of grants that no release has ended.
-/
namespace LeaseMutualExclusion

open List GoPrelude OperationLeases Runs Function

structure Grant where
  scope : Scope
  lease : LeaseInfo
  deriving DecidableEq

structure State where
  clock : Time
  files : LeaseDir
  inFlight : List (LeaseRequest × Time)
  outstanding : List Grant

inductive Event where
  | tick (t : Time)
  | sample (req : LeaseRequest)
  | acquire (req : LeaseRequest) (sampled : Time) (faults : LeaseFaults)
  | read (req : LeaseRequest) (faults : LeaseFaults)
  | release (req : LeaseRequest) (faults : LeaseFaults)
  deriving DecidableEq

def grantOf (scope : Scope) : Except String LeaseResponse → List Grant
  | .ok ⟨true, _, some lease, _, _⟩ => [⟨scope, lease⟩]
  | _ => []

/-- A release that returns a lease has ended every grant of that ID in its scope. -/
def endGrants (req : LeaseRequest) : Except String LeaseResponse → List Grant → List Grant
  | .ok ⟨_, _, some _, _, _⟩, grants =>
    grants.filter fun g => !decide (g.scope = req.scope ∧ g.lease.id = req.id)
  | _, grants => grants

def Enabled (s : State) : Event → Prop
  | .tick t => s.clock ≤ t
  | .acquire req sampled _ => (req, sampled) ∈ s.inFlight
  | _ => True

instance (s : State) (e : Event) : Decidable (Enabled s e) := by
  cases e <;> simp only [Enabled] <;> infer_instance

def next (dataDir : String) (s : State) : Event → State
  | .tick t => { s with clock := t }
  | .sample req => { s with inFlight := (req, s.clock) :: s.inFlight }
  | .acquire req sampled faults =>
    let r := acquireLease dataDir faults req sampled (s.files req.scope)
    { s with
      files := update s.files req.scope r.2
      inFlight := s.inFlight.erase (req, sampled)
      outstanding := grantOf req.scope r.1 ++ s.outstanding }
  | .read req faults =>
    let r := readLease dataDir faults req s.clock (s.files req.scope)
    { s with files := update s.files req.scope r.2 }
  | .release req faults =>
    let r := releaseLease dataDir faults req (s.files req.scope)
    { s with
      files := update s.files req.scope r.2
      outstanding := endGrants req r.1 s.outstanding }

def machine (dataDir : String) : Machine State Event := ⟨Enabled, next dataDir⟩

instance (dataDir : String) (s : State) (e : Event) : Decidable ((machine dataDir).Enabled s e) :=
  inferInstanceAs (Decidable (Enabled s e))

def Initial (s : State) : Prop := s.inFlight = [] ∧ s.outstanding = []

def Backed (g : Grant) (file : LeaseFile) : Prop :=
  ∃ lease, file = .held lease ∧ lease.id = g.lease.id ∧ g.lease.expiresAt ≤ lease.expiresAt

structure Invariant (s : State) : Prop where
  sampled_past : ∀ p ∈ s.inFlight, p.2 ≤ s.clock
  live_backed : ∀ g ∈ s.outstanding, g.lease.expiresAt ≤ s.clock ∨ Backed g (s.files g.scope)

theorem initial_invariant (h : Initial s) : Invariant s := by
  obtain ⟨hf, ho⟩ := h
  constructor <;> simp [hf, ho]

/-- Behind a free file every outstanding grant of the scope has expired. -/
theorem expired_of_free (h : Invariant s) (hnow : now ≤ s.clock) (hfree : Free (s.files scope) now)
    (hg : g ∈ s.outstanding) (hs : g.scope = scope) : g.lease.expiresAt ≤ s.clock := by
  rcases h.live_backed g hg with hexp | ⟨lease, hfile, _, hle⟩
  · exact hexp
  · rw [hs] at hfile
    rcases hfree with ha | ⟨current, hc, hexp⟩
    · rw [ha] at hfile; cases hfile
    · rw [hc] at hfile
      cases hfile
      exact (hle.trans hexp).trans hnow

/-- Behind a file of one ID every outstanding grant of another ID has expired. -/
theorem expired_of_other (h : Invariant s) (hfile : s.files scope = .held current)
    (hg : g ∈ s.outstanding) (hs : g.scope = scope) (hid : g.lease.id ≠ current.id) :
    g.lease.expiresAt ≤ s.clock := by
  rcases h.live_backed g hg with hexp | ⟨lease, hl, heq, _⟩
  · exact hexp
  · rw [hs, hfile] at hl
    cases hl
    exact absurd heq.symm hid

theorem le_renewed (lease : LeaseInfo) : lease.expiresAt ≤ (lease.renewed e).expiresAt := by
  unfold LeaseInfo.renewed
  split_ifs with h
  · exact le_of_lt h
  · exact le_rfl

theorem backed_update {scope : Scope} (hne : g.scope ≠ scope) :
    Backed g (update files scope file g.scope) ↔ Backed g (files g.scope) := by
  rw [update_of_ne hne]

theorem acquire_keeps (h : Invariant s) (hin : (req, sampled) ∈ s.inFlight) :
    Invariant (next dataDir s (.acquire req sampled faults)) := by
  have hpast := h.sampled_past _ hin
  constructor
  · intro p hp
    exact h.sampled_past p (mem_of_mem_erase hp)
  · have hout := acquire_outcome dataDir faults req sampled (s.files req.scope)
    intro g hg
    simp only [next] at hg ⊢
    generalize hr : acquireLease dataDir faults req sampled (s.files req.scope) = r at hg hout ⊢
    by_cases hs : g.scope = req.scope
    · rw [hs, update_self]
      cases hout with
      | @refused r href =>
        have hnone : grantOf req.scope r = [] := by
          cases r with
          | error => rfl
          | ok response =>
            obtain ⟨acquired, found, lease, message, holderToken⟩ := response
            have := href _ rfl
            simp only at this
            subst acquired
            rfl
        rw [hnone] at hg
        simpa [hs] using h.live_backed g hg
      | failed _ hfree =>
        exact .inl (expired_of_free h hpast hfree (by simpa [grantOf] using hg) hs)
      | created _ hfree =>
        rcases mem_append.mp hg with hg | hg
        · simp only [grantOf, granted, mem_singleton] at hg
          subst g
          exact .inr ⟨_, rfl, rfl, le_rfl⟩
        · exact .inl (expired_of_free h hpast hfree hg hs)
      | @renewed current e hfile _ =>
        rcases mem_append.mp hg with hg | hg
        · simp only [grantOf, granted, mem_singleton] at hg
          subst g
          exact .inr ⟨_, rfl, rfl, le_rfl⟩
        · by_cases hgid : g.lease.id = current.id
          · rcases h.live_backed g hg with hexp | ⟨lease, hl, _, hle⟩
            · exact .inl hexp
            · rw [hs, hfile] at hl
              cases hl
              exact .inr ⟨_, rfl, hgid.symm, hle.trans (le_renewed current)⟩
          · exact .inl (expired_of_other h hfile hg hs hgid)
    · rw [backed_update hs]
      rcases mem_append.mp hg with hg | hg
      · have hscope : g.scope = req.scope := by
          unfold grantOf at hg
          split at hg
          · simp only [mem_singleton] at hg
            rw [hg]
          · simp at hg
        exact absurd hscope hs
      · exact h.live_backed g hg

theorem read_keeps (h : Invariant s) : Invariant (next dataDir s (.read req faults)) := by
  refine ⟨h.sampled_past, ?_⟩
  intro g hg
  simp only [next]
  by_cases hs : g.scope = req.scope
  · rw [hs, update_self]
    rcases read_outcome dataDir faults req s.clock (s.files req.scope) with hr | ⟨hfree, _⟩
    · rw [hr, ← hs]
      exact h.live_backed g hg
    · exact .inl (expired_of_free h le_rfl hfree hg hs)
  · rw [backed_update hs]
    exact h.live_backed g hg

theorem endGrants_subset (h : g ∈ endGrants req r grants) : g ∈ grants := by
  unfold endGrants at h
  split at h
  · exact (mem_filter.mp h).1
  · exact h

theorem release_keeps (h : Invariant s) : Invariant (next dataDir s (.release req faults)) := by
  refine ⟨h.sampled_past, ?_⟩
  intro g hg
  simp only [next] at hg ⊢
  have hold := h.live_backed g (endGrants_subset hg)
  by_cases hs : g.scope = req.scope
  · rw [hs, update_self]
    rcases release_outcome dataDir faults req (s.files req.scope) with
      ⟨hr, _⟩ | ⟨current, hfile, hid, hr⟩
    · rw [hr, ← hs]
      exact hold
    · rw [hr] at hg
      have hne : g.lease.id ≠ current.id := by
        have := (mem_filter.mp hg).2
        simp only [hs, true_and, Bool.not_eq_true', decide_eq_false_iff_not] at this
        rwa [hid]
      exact .inl (expired_of_other h hfile (endGrants_subset hg) hs hne)
  · rw [backed_update hs]
    exact hold

theorem step_preserves_invariant (h : Invariant s) (he : Enabled s e) :
    Invariant (next dataDir s e) := by
  cases e with
  | tick =>
    constructor
    · intro p hp
      exact (h.sampled_past p hp).trans he
    · intro g hg
      rcases h.live_backed g hg with hexp | hb
      · exact .inl (hexp.trans he)
      · exact .inr hb
  | sample =>
    refine ⟨?_, h.live_backed⟩
    exact forall_mem_cons.mpr ⟨le_rfl, h.sampled_past⟩
  | acquire => exact acquire_keeps h he
  | read => exact read_keeps h
  | release => exact release_keeps h

theorem reachable_invariant (h : (machine dataDir).Reachable Initial s) : Invariant s :=
  h.invariant (fun _ => initial_invariant) (fun _ _ hs he => step_preserves_invariant hs he)

def Extends (before after : LeaseInfo) : Prop :=
  before.expiresAt ≤ after.expiresAt ∧ after = { before with expiresAt := after.expiresAt }

/-- Nobody is told `Acquired` while another ID's grant is live, in any interleaving.
The second part is about every grant over a lease still live at the reading the call works
with, and every grant to an explicit renewal; the third about callers that do not hold. -/
theorem lease_mutual_exclusion {s : State} (h : (machine dataDir).Reachable Initial s) :
    (∀ req sampled faults response, (req, sampled) ∈ s.inFlight →
      (acquireLease dataDir faults req sampled (s.files req.scope)).1 = .ok response →
      response.acquired → ∀ g ∈ s.outstanding, g.scope = req.scope →
      g.lease.id ≠ req.id → g.lease.expiresAt ≤ s.clock) ∧
    (∀ req sampled faults response,
      (acquireLease dataDir faults req sampled (s.files req.scope)).1 = .ok response →
      response.acquired →
      (req.renew ∨ ∃ lease, s.files req.scope = .held lease ∧ sampled < lease.expiresAt) →
      ∃ before after, s.files req.scope = .held before ∧ before.id = req.id ∧
        (next dataDir s (.acquire req sampled faults)).files req.scope = .held after ∧
        Extends before after) ∧
    (∀ req faults sampled, (∀ lease, s.files req.scope = .held lease → lease.id ≠ req.id) →
      (next dataDir s (.release req faults)).files = s.files ∧
      (req.renew → (next dataDir s (.acquire req sampled faults)).files = s.files)) := by
  have hinv := reachable_invariant h
  refine ⟨?_, ?_, ?_⟩
  · intro req sampled faults response hin hok hacq g hg hs hid
    have hout := acquire_outcome dataDir faults req sampled (s.files req.scope)
    generalize acquireLease dataDir faults req sampled (s.files req.scope) = r at hok hout
    cases hout with
    | refused href => simp [href response hok] at hacq
    | failed => cases hok
    | created _ hfree => exact expired_of_free hinv (hinv.sampled_past _ hin) hfree hg hs
    | renewed hfile _ heq => exact expired_of_other hinv hfile hg hs (heq ▸ hid)
  · intro req sampled faults response hok hacq hlive
    have hout := acquire_outcome dataDir faults req sampled (s.files req.scope)
    simp only [next, update_self]
    generalize acquireLease dataDir faults req sampled (s.files req.scope) = r at hok hout ⊢
    have hnot : ∀ {now}, now = sampled → req.renew = false → ¬ Free (s.files req.scope) now := by
      rintro _ rfl hr hfree
      rcases hlive with hren | ⟨lease, hf, hlt⟩
      · simp [hr] at hren
      · rcases hfree with ha | ⟨current, hc, hexp⟩
        · rw [ha] at hf; cases hf
        · rw [hc] at hf; cases hf; exact absurd hexp (not_le.mpr hlt)
    cases hout with
    | refused href => simp [href response hok] at hacq
    | failed => cases hok
    | created hr hfree => exact absurd hfree (hnot rfl hr)
    | @renewed current e hfile _ heq => exact ⟨current, _, hfile, heq, rfl, le_renewed current, rfl⟩
  · intro req faults sampled hnot
    constructor
    · simp only [next]
      rcases release_outcome dataDir faults req (s.files req.scope) with
        ⟨hr, _⟩ | ⟨current, hf, hid, _⟩
      · rw [hr, update_eq_self]
      · exact absurd hid (hnot current hf)
    · intro hren
      simp only [next]
      have hout := acquire_outcome dataDir faults req sampled (s.files req.scope)
      generalize acquireLease dataDir faults req sampled (s.files req.scope) = r at hout ⊢
      cases hout with
      | refused => exact update_eq_self _ _
      | failed hr | created hr => simp [hr] at hren
      | renewed hf _ hid => exact absurd hid (hnot _ hf)

/-! A handover: the first holder's grant ends at one minute, a second ID acquires then. -/

def demoRequest (id : String) : LeaseRequest where
  project := "demo"
  environment := "production"
  id := id
  operation := "deploy"
  who := "ci"
  pid := 7
  ttlSeconds := 60
  renew := false
  requestID := ""
  holderToken := ""
  targetNodeIDs := []
  fence := none

def emptyState : State := ⟨1, fun _ => .absent, [], []⟩

def handover : List Event :=
  [.sample (demoRequest "first"), .acquire (demoRequest "first") 1 noFaults,
    .tick (1 + minute), .sample (demoRequest "second")]

def handoverState : State := (machine "/var/lib/tako").runTrace emptyState handover

theorem handover_reachable : (machine "/var/lib/tako").Reachable Initial handoverState :=
  .of_trace ⟨rfl, rfl⟩ handover (by decide +kernel)

theorem lease_mutual_exclusion_handover :
    ∃ response, (acquireLease "/var/lib/tako" noFaults (demoRequest "second") (1 + minute)
        (handoverState.files ("demo", "production"))).1 = .ok response ∧ response.acquired ∧
      ∀ g ∈ handoverState.outstanding, g.scope = ("demo", "production") →
        g.lease.id ≠ "second" → g.lease.expiresAt ≤ handoverState.clock := by
  have hok : (acquireLease "/var/lib/tako" noFaults (demoRequest "second") (1 + minute)
      (handoverState.files ("demo", "production"))).1 =
      .ok (granted (newLease (demoRequest "second") (1 + minute)) "") := by decide +kernel
  refine ⟨_, hok, rfl, ?_⟩
  exact (lease_mutual_exclusion handover_reachable).1 (demoRequest "second") (1 + minute) noFaults _
    (by decide +kernel) hok rfl

end LeaseMutualExclusion
