import Tako.DurablePrograms
import Tako.LeaseMutualExclusion

/-! # Leases across crashes

The lease calls as sequences of system calls, between any two of which the process may stop. The
exclusive create leaves an empty file, which holds a prefix of the encoded lease until the write is
through: the file is then `torn`.
-/
namespace LeaseCrashes

open List GoPrelude OperationLeases DurablePrograms Runs LeaseFile

section

variable (faults : AttemptFaults)

/-- `os.Remove` on the way out of a failed create, whose own error nobody looks at. -/
def discardLeaseFile : Durable LeaseFile Unit :=
  if faults.remove.isSome then pure () else .write none fun _ => .absent

def failedWrite (lease : LeaseInfo) : Durable LeaseFile Unit :=
  if faults.whole then .write none fun _ => .held lease else pure ()

def createLeaseProgram (lease : LeaseInfo) : Durable LeaseFile LeaseResponse := do
  -- `O_CREATE|O_EXCL` has succeeded: the file is there, and empty
  .write none fun _ => .torn
  match faults.write with
  | some cause =>
    failedWrite faults lease
    discardLeaseFile faults
    .fail ("failed to write lease: " ++ cause)
  | none =>
    .write none fun _ => .held lease
    match faults.close with
    | some cause =>
      discardLeaseFile faults
      .fail ("failed to close lease: " ++ cause)
    | none => pure (granted lease "")

end

def rewriteLeaseProgram (fault : Option String) (renewed : LeaseInfo) (failure : String) :
    Durable LeaseFile LeaseResponse := do
  .write (fault.map (failure ++ ·)) fun _ => .held renewed
  pure (granted renewed "lease renewed")

def orFail (failure : String) : Option String → Except String Unit
  | some cause => .error (failure ++ cause)
  | none => .ok ()

def attemptsProgram (req : LeaseRequest) (now : Time) : List AttemptFaults →
    Durable LeaseFile LeaseResponse
  | [] => .fail "failed to acquire lease after removing expired lease"
  | faults :: rest => do
    .check fun _ => orFail "failed to create lease: " faults.create
    let file ← .check .ok
    if file = .absent then createLeaseProgram faults (newLease req now)
    else do
      let current ← .check fun _ => wrap ("lease is held but metadata could not be read: " ++ ·)
        (readLeaseFile faults.read file)
      match current with
      | none => attemptsProgram req now rest
      | some current =>
        if current.expiresAt ≤ now then do
          .write (faults.remove.map ("failed to remove expired lease: " ++ ·)) fun _ => .absent
          attemptsProgram req now rest
        else if current.id = req.id then
          rewriteLeaseProgram faults.rename
            (current.renewed (now + req.ttl)) "failed to renew lease: "
        else pure (refused true (some current) "lease is held")

/-- Renewal, reading and release have one effect at most, which is atomic. -/
def atomically (run : LeaseFile → Except String LeaseResponse × LeaseFile) :
    Durable LeaseFile LeaseResponse :=
  .call run

def acquireLeaseProgram (dataDir : String) (faults : LeaseFaults) (req : LeaseRequest)
    (now : Time) : Durable LeaseFile LeaseResponse := do
  .check fun _ => leasePreflight dataDir faults req true
  .check fun _ => orFail "failed to create lease directory: " faults.mkdir
  if req.renew then atomically (renewLease req now faults.first)
  else attemptsProgram req now [faults.first, faults.second]

theorem createLeaseProgram_run :
    (createLeaseProgram faults lease).run file = createLeaseFile faults lease := by
  unfold createLeaseProgram createLeaseFile failedWrite discardLeaseFile
  cases faults.write <;> cases faults.close <;> cases faults.remove <;> cases faults.whole <;> rfl

theorem rewriteLeaseProgram_run (failure : String) :
    (rewriteLeaseProgram fault renewed failure).run file =
      rewriteLeaseFile fault renewed file failure := by
  cases fault <;> rfl

theorem attemptsProgram_run (file : LeaseFile) :
    (attemptsProgram req now faults).run file = acquireAttempts req now faults file := by
  induction faults generalizing file with
  | nil => rfl
  | cons f rest ih =>
    unfold attemptsProgram acquireAttempts
    cases hcreate : f.create with
    | some => exact run_bind_error rfl
    | none =>
      rw [run_bind_ok rfl, run_bind_ok (a := file) rfl]
      by_cases habsent : file = .absent
      · simp only [habsent, if_true]
        exact createLeaseProgram_run
      · simp only [habsent, if_false]
        cases hread : readLeaseFile f.read file with
        | error => exact run_bind_error rfl
        | ok current =>
          rw [run_bind_ok rfl]
          cases current with
          | none => exact ih file
          | some current =>
            dsimp only
            by_cases hexp : current.expiresAt ≤ now
            · rw [if_pos hexp, if_pos hexp]
              cases f.remove with
              | some => exact run_bind_error rfl
              | none =>
                rw [run_bind_ok rfl]
                exact ih .absent
            · rw [if_neg hexp, if_neg hexp]
              by_cases hid : current.id = req.id
              · rw [if_pos hid, if_pos hid]
                exact rewriteLeaseProgram_run _
              · rw [if_neg hid, if_neg hid]
                rfl

section

variable (dataDir : String) (faults : LeaseFaults) (req : LeaseRequest) (now : Time)
  (file : LeaseFile)

theorem acquireLeaseProgram_run :
    (acquireLeaseProgram dataDir faults req now).run file =
      acquireLease dataDir faults req now file := by
  unfold acquireLeaseProgram acquireLease
  cases hpreflight : leasePreflight dataDir faults req true with
  | error => exact run_bind_error rfl
  | ok =>
    rw [run_bind_ok rfl]
    cases hmkdir : faults.mkdir with
    | some => exact run_bind_error rfl
    | none =>
      by_cases hrenew : req.renew
      · simp only [hrenew, if_true]
        rfl
      · simp only [hrenew, if_false, Bool.false_eq_true]
        exact attemptsProgram_run file

/-- The exclusive create that a call gets to: the number of effects before it, and its faults. -/
def creation : Option (ℕ × AttemptFaults) :=
  if leasePreflight dataDir faults req true = .ok () ∧ faults.mkdir = none ∧ req.renew = false ∧
      faults.first.create = none then
    match file with
    | .absent => some (0, faults.first)
    | .torn => none
    | .held current =>
      if current.expiresAt ≤ now ∧ faults.first.read = none ∧ faults.first.remove = none ∧
          faults.second.create = none then some (1, faults.second)
      else none
  else none

end

def Short (faults : AttemptFaults) : Prop := faults.write.isSome ∧ faults.whole = false
  deriving Decidable

/-- A call whose create is preceded by `k` effects does not stop between the create and the
end of the write, and takes a short write back. -/
def Completes (k : ℕ) (faults : AttemptFaults) : Stop → Prop
  | .returns => Short faults → faults.remove = none
  | .crashes n => n ≤ k ∨ (k + 2 ≤ n ∧ (Short faults → faults.remove = none))

instance (k : ℕ) (faults : AttemptFaults) (stop : Stop) : Decidable (Completes k faults stop) := by
  cases stop <;> unfold Completes <;> infer_instance

theorem createLeaseProgram_writes :
    ∃ rest, (createLeaseProgram faults lease file).1 = .torn :: rest ∧ (∀ w ∈ rest, w ≠ .torn) ∧
      ((Short faults → faults.remove = none) → rest ≠ []) := by
  unfold createLeaseProgram failedWrite discardLeaseFile Short
  cases faults.write with
  | some =>
    cases faults.whole <;> cases faults.remove
    · exact ⟨[.absent], rfl, by simp, by simp⟩
    · exact ⟨[], rfl, by simp, by simp⟩
    · exact ⟨[.held lease, .absent], rfl, by simp, by simp⟩
    · exact ⟨[.held lease], rfl, by simp, by simp⟩
  | none =>
    cases faults.close with
    | none => exact ⟨[.held lease], rfl, by simp, by simp⟩
    | some =>
      cases faults.remove
      · exact ⟨[.held lease, .absent], rfl, by simp, by simp⟩
      · exact ⟨[.held lease], rfl, by simp, by simp⟩

variable {p : Durable LeaseFile LeaseResponse}

/-- A call that makes one torn disk on its way, at a place where it does not end. -/
theorem completes_untorn (before : List LeaseFile) (hfile : file ≠ .torn)
    (hwrites : (p file).1 = before ++ .torn :: rest) (hbefore : ∀ w ∈ before, w ≠ .torn)
    (hrest : ∀ w ∈ rest, w ≠ .torn) (hne : (Short faults → faults.remove = none) → rest ≠ [])
    (h : Completes before.length faults stop) : p.disk file stop ≠ .torn := by
  have hlast : ∀ l : List LeaseFile, (∀ w ∈ l, w ≠ .torn) → ∀ d, d ≠ .torn →
      l.getLastD d ≠ .torn := by
    intro l hl d hd
    rcases getLastD_mem_or l d with he | hm
    · rwa [he]
    · exact hl _ hm
  have htail : ∀ m, rest.take (m + 1) ≠ [] →
      (before ++ .torn :: rest.take (m + 1)).getLastD file ≠ .torn := by
    intro m hm
    rw [getLastD_append, getLastD_cons]
    cases rest with
    | nil => exact absurd rfl hm
    | cons w =>
      rw [take_succ_cons, getLastD_cons]
      apply hlast
      · intro v hv
        exact hrest v (mem_cons_of_mem _ (mem_of_mem_take hv))
      · exact hrest w mem_cons_self
  cases stop with
  | returns =>
    change (p file).1.getLastD file ≠ _
    rw [hwrites]
    have hfull := htail rest.length
    rw [take_of_length_le (by omega)] at hfull
    exact hfull (hne h)
  | crashes n =>
    change ((p file).1.take n).getLastD file ≠ _
    rw [hwrites]
    rcases h with hle | ⟨hlt, htakes⟩
    · rw [take_append_of_le_length hle]
      apply hlast _ _ _ hfile
      intro w hw
      exact hbefore w (mem_of_mem_take hw)
    · obtain ⟨m, rfl⟩ : ∃ m, n = before.length + (m + 2) := ⟨n - before.length - 2, by omega⟩
      rw [take_length_add_append]
      apply htail
      intro hnil
      rcases take_eq_nil_iff.mp hnil with hzero | hempty
      · omega
      · exact hne htakes hempty

section Disks

theorem untorn_of_writes (hfile : file ≠ .torn) (h : ∀ w ∈ (p file).1, w ≠ .torn) :
    p.disk file stop ≠ .torn := by
  rcases p.disk_cases file stop with he | hm
  · rwa [he]
  · exact h _ hm

theorem renewLease_file :
    (renewLease req now f file).2 = file ∨
    ∃ current, file = .held current ∧
      (renewLease req now f file).2 = .held (current.renewed (now + req.ttl)) := by
  unfold renewLease
  split
  · exact .inl rfl
  · exact .inl rfl
  · rename_i current hread
    split_ifs with hexp hid
    · exact .inl rfl
    · exact .inl rfl
    · cases f.rename with
      | some => exact .inl rfl
      | none => exact .inr ⟨current, readLeaseFile_some hread, rfl⟩

variable {current lease : LeaseInfo}

theorem attempts_absent (hcreate : f.create = none) :
    attemptsProgram req now (f :: rest) .absent =
      createLeaseProgram f (newLease req now) .absent := by
  unfold attemptsProgram
  rw [check_bind_ok (by rw [hcreate]; rfl), check_bind_ok rfl, if_pos rfl]

theorem attempts_held (hcreate : f.create = none) (hread : f.read = none) :
    attemptsProgram req now (f :: rest) (.held current) = (if current.expiresAt ≤ now then do
          .write (f.remove.map ("failed to remove expired lease: " ++ ·)) fun _ => .absent
          attemptsProgram req now rest
        else if current.id = req.id then
          rewriteLeaseProgram f.rename (current.renewed (now + req.ttl)) "failed to renew lease: "
        else pure (refused true (some current) "lease is held") : Durable LeaseFile LeaseResponse)
          (.held current) := by
  rw [attemptsProgram]
  rw [check_bind_ok (by rw [hcreate]; rfl), check_bind_ok rfl,
    if_neg (by simp), check_bind_ok (by rw [hread]; rfl)]

theorem held_untorn {second : AttemptFaults} (hcreate : f.create = none)
    (h : current.expiresAt ≤ now → f.read = none → f.remove = none → second.create = none →
      Completes 1 second stop) :
    (attemptsProgram req now [f, second]).disk (.held current) stop ≠ .torn := by
  cases hread : f.read with
  | some =>
    apply untorn_of_writes (by simp)
    intro w hw
    unfold attemptsProgram at hw
    rw [check_bind_ok (by rw [hcreate]; rfl), check_bind_ok rfl,
      if_neg (by simp), check_bind_error (by rw [hread]; rfl)] at hw
    cases hw
  | none =>
    rw [disk_congr (attempts_held hcreate hread)]
    by_cases hexp : current.expiresAt ≤ now
    · rw [if_pos hexp]
      cases hremove : f.remove with
      | some =>
        apply untorn_of_writes (by simp)
        intro w hw
        cases hw
      | none =>
        cases hsecond : second.create with
        | some =>
          apply untorn_of_writes (by simp)
          intro w hw
          rw [writes_bind_ok rfl, attemptsProgram,
            check_bind_error (by rw [hsecond]; rfl)] at hw
          rw [mem_singleton.mp hw]
          simp
        | none =>
          obtain ⟨rest, hwrites, huntorn, hne⟩ := createLeaseProgram_writes
          apply completes_untorn [.absent] (by simp) _ (by simp) huntorn hne
            (h hexp hread hremove hsecond)
          rw [writes_bind_ok (w := absent) rfl, attempts_absent hsecond, hwrites]
          rfl
    · apply untorn_of_writes (by simp)
      split_ifs
      · cases f.rename with
        | some =>
          intro w hw
          cases hw
        | none =>
          intro w hw
          rw [mem_singleton.mp hw]
          simp
      · intro w hw
        cases hw

/-- A call that completes its create leaves no torn file, wherever it stops. -/
theorem acquire_untorn (hfile : file ≠ .torn)
    (h : ∀ k f, creation dataDir faults req now file = some (k, f) → Completes k f stop) :
    (acquireLeaseProgram dataDir faults req now).disk file stop ≠ .torn := by
  have hnothing : (acquireLeaseProgram dataDir faults req now file).1 = [] →
      (acquireLeaseProgram dataDir faults req now).disk file stop ≠ .torn := by
    intro hnil
    apply untorn_of_writes hfile
    rw [hnil]
    simp
  cases hpreflight : leasePreflight dataDir faults req true with
  | error =>
    apply hnothing
    unfold acquireLeaseProgram
    rw [check_bind_error (by exact hpreflight)]
  | ok =>
    cases hmkdir : faults.mkdir with
    | some =>
      apply hnothing
      unfold acquireLeaseProgram
      rw [check_bind_ok (by exact hpreflight), check_bind_error (by rw [hmkdir]; rfl)]
    | none =>
      have hprogram : acquireLeaseProgram dataDir faults req now file =
          (if req.renew then atomically (renewLease req now faults.first)
            else attemptsProgram req now [faults.first, faults.second]) file := by
        unfold acquireLeaseProgram
        rw [check_bind_ok (by exact hpreflight), check_bind_ok (by rw [hmkdir]; rfl)]
      rw [disk_congr hprogram]
      by_cases hrenew : req.renew
      · rw [if_pos hrenew]
        apply untorn_of_writes hfile
        intro w hw
        rw [mem_singleton.mp hw]
        rcases renewLease_file with hkept | ⟨_, _, hrenewed⟩
        · rwa [hkept]
        · rw [hrenewed]
          simp
      · rw [if_neg hrenew]
        cases hcreate : faults.first.create with
        | some =>
          apply untorn_of_writes hfile
          intro w hw
          rw [attemptsProgram, check_bind_error (by rw [hcreate]; rfl)] at hw
          cases hw
        | none =>
          have hcreation := h
          simp only [creation, hpreflight, hmkdir, hrenew, hcreate, and_self, if_true] at hcreation
          cases file with
          | torn => exact absurd rfl hfile
          | absent =>
            rw [disk_congr (attempts_absent hcreate)]
            obtain ⟨rest, hwrites, huntorn, hne⟩ :=
              createLeaseProgram_writes
            exact completes_untorn [] (by simp) hwrites (by simp) huntorn hne (hcreation 0 _ rfl)
          | held =>
            apply held_untorn hcreate
            intro hexp hread hremove hsecond
            apply hcreation 1
            simp [hexp, hread, hremove, hsecond]

def Dated (S : Time → Prop) (file : LeaseFile) : Prop :=
  ∀ lease, file = .held lease → S lease.expiresAt

variable {S : Time → Prop}

theorem dated_absent : Dated S .absent := fun _ h => by cases h

theorem dated_torn : Dated S .torn := fun _ h => by cases h

theorem dated_held (h : S lease.expiresAt) : Dated S (.held lease) := by
  intro other he
  cases he
  exact h

theorem dated_renewed (hcur : S current.expiresAt) (he : S e) :
    Dated S (.held (current.renewed e)) := by
  apply dated_held
  unfold LeaseInfo.renewed
  split_ifs
  · exact he
  · exact hcur

theorem createLeaseProgram_dated (h : S lease.expiresAt) :
    Holds (createLeaseProgram f lease) file (Dated S) fun _ _ => True := by
  have hdiscard : ∀ {g : Durable LeaseFile LeaseResponse} {d : LeaseFile},
      (∀ w, Holds g w (Dated S) fun _ _ => True) →
      Holds (discardLeaseFile f >>= fun _ => g) d (Dated S) fun _ _ => True := by
    intro g d hg
    refine holds_bind ?_
    unfold discardLeaseFile
    split_ifs
    · exact holds_ok (hg _)
    · exact holds_write dated_absent (hg _)
  refine holds_bind (holds_write dated_torn ?_)
  cases f.write with
  | some =>
    refine holds_bind ?_
    unfold failedWrite
    split_ifs
    · exact holds_write (dated_held h) (hdiscard fun _ => holds_fail)
    · exact holds_ok (hdiscard fun _ => holds_fail)
  | none =>
    refine holds_bind (holds_write (dated_held h) ?_)
    cases f.close with
    | some => exact hdiscard fun _ => holds_fail
    | none => exact holds_ok trivial

theorem attemptsProgram_dated (hnow : S (now + req.ttl)) {faults : List AttemptFaults}
    (hfile : Dated S file) :
    Holds (attemptsProgram req now faults) file (Dated S) fun _ _ => True := by
  induction faults generalizing file with
  | nil => exact holds_fail
  | cons f rest ih =>
    refine holds_guard fun _ _ => holds_guard ?_
    intro found hfound
    cases hfound
    split_ifs with habsent
    · exact createLeaseProgram_dated hnow
    · refine holds_guard ?_
      intro current hread
      rw [wrap_eq_ok] at hread
      cases current with
      | none => exact ih hfile
      | some current =>
        have hcur := readLeaseFile_some hread
        dsimp only
        split_ifs
        · exact holds_bind (holds_write dated_absent (ih dated_absent))
        · exact holds_bind (holds_write (dated_renewed (hfile current hcur) hnow)
            (holds_ok trivial))
        · exact holds_ok trivial

/-- Every lease a call may leave ends when the lease before it did, or a TTL after the reading. -/
theorem acquireLeaseProgram_dated (hnow : S (now + req.ttl)) (hfile : Dated S file) :
    Holds (acquireLeaseProgram dataDir faults req now) file (Dated S) fun _ _ => True := by
  refine holds_guard fun _ _ => holds_guard fun _ _ => ?_
  split_ifs
  · refine holds_call ?_ fun _ _ => trivial
    rcases renewLease_file with hkept | ⟨current, hcur, hrenewed⟩
    · rwa [hkept]
    · rw [hrenewed]
      exact dated_renewed (hfile current hcur) hnow
  · exact attemptsProgram_dated hnow hfile

end Disks

/-- `attempted` are the expiries of all leases granted or attempted. -/
structure State where
  clock : Time
  files : LeaseDir
  attempted : List Time

/-- A stopped process takes its mutex with it. -/
inductive Event where
  | tick (t : Time)
  | acquire (req : LeaseRequest) (sampled : Time) (faults : LeaseFaults) (stop : Stop)
  | read (req : LeaseRequest) (faults : LeaseFaults) (stop : Stop)
  | release (req : LeaseRequest) (faults : LeaseFaults) (stop : Stop)
  deriving DecidableEq

def Enabled (s : State) : Event → Prop
  | .tick t => s.clock ≤ t
  | .acquire _ sampled _ _ => sampled ≤ s.clock
  | _ => True

instance (s : State) (e : Event) : Decidable (Enabled s e) := by
  cases e <;> simp only [Enabled] <;> infer_instance

def State.after (s : State) (scope : Scope) (p : Durable LeaseFile LeaseResponse) (stop : Stop) :
    LeaseDir :=
  Function.update s.files scope (p.disk (s.files scope) stop)

def next (dataDir : String) (s : State) : Event → State
  | .tick t => { s with clock := t }
  | .acquire req sampled faults stop =>
    { s with
      files := s.after req.scope (acquireLeaseProgram dataDir faults req sampled) stop
      attempted := (sampled + req.ttl) :: s.attempted }
  | .read req faults stop =>
    { s with files := s.after req.scope (atomically (readLease dataDir faults req s.clock)) stop }
  | .release req faults stop =>
    { s with files := s.after req.scope (atomically (releaseLease dataDir faults req)) stop }

def machine (dataDir : String) : Machine State Event := ⟨Enabled, next dataDir⟩

def Initial (s : State) : Prop := (∀ scope, s.files scope = .absent) ∧ s.attempted = []

/-- No call stops, or gives up, with its lease file created and not yet written. -/
def CompletesCreates (dataDir : String) (s : State) : Event → Prop
  | .acquire req sampled faults stop =>
    ∀ c ∈ creation dataDir faults req sampled (s.files req.scope), Completes c.1 c.2 stop
  | _ => True

instance (dataDir : String) (s : State) (e : Event) : Decidable (CompletesCreates dataDir s e) := by
  cases e <;> unfold CompletesCreates <;> infer_instance

instance (dataDir : String) (s : State) (e : Event) : Decidable ((machine dataDir).Enabled s e) :=
  inferInstanceAs (Decidable (Enabled s e))

structure Invariant (s : State) : Prop where
  untorn : ∀ scope, s.files scope ≠ .torn
  dated : ∀ scope, Dated (· ∈ s.attempted) (s.files scope)

variable {s : State}

theorem initial_invariant (h : Initial s) : Invariant s := by
  constructor
  · intro scope
    rw [h.1 scope]
    simp
  · intro scope
    rw [h.1 scope]
    exact dated_absent

theorem after_all {P : LeaseFile → Prop} (hfiles : ∀ k, P (s.files k))
    (h : P (p.disk (s.files scope) stop)) (k : Scope) : P (s.after scope p stop k) := by
  unfold State.after
  by_cases hk : k = scope
  · rw [hk, Function.update_self]
    exact h
  · rw [Function.update_of_ne hk]
    exact hfiles k

theorem atomically_invariant (hs : Invariant s)
    (hrun : (run (s.files scope)).2 = s.files scope ∨ (run (s.files scope)).2 = .absent) :
    Invariant { s with files := s.after scope (atomically run) stop } := by
  have hdisk : (atomically run).disk (s.files scope) stop = s.files scope ∨
      (atomically run).disk (s.files scope) stop = .absent := by
    rcases (atomically run).disk_cases (s.files scope) stop with he | hm
    · exact .inl he
    · rw [mem_singleton.mp hm]
      exact hrun
  constructor
  · apply after_all (P := fun file => file ≠ .torn) hs.untorn
    rcases hdisk with he | he
    · rw [he]
      exact hs.untorn scope
    · rw [he]
      simp
  · apply after_all hs.dated
    rcases hdisk with he | he
    · rw [he]
      exact hs.dated scope
    · rw [he]
      exact dated_absent

theorem step_preserves_invariant (hs : Invariant s) (hc : CompletesCreates dataDir s e) :
    Invariant (next dataDir s e) := by
  cases e with
  | tick => exact ⟨hs.untorn, hs.dated⟩
  | acquire req sampled faults stop =>
    constructor
    · apply after_all (P := fun file => file ≠ .torn) hs.untorn
      exact acquire_untorn (hs.untorn _) fun k f hcreation => hc (k, f) hcreation
    · have hgrown : ∀ scope, Dated (· ∈ (sampled + req.ttl) :: s.attempted) (s.files scope) := by
        intro scope lease hlease
        exact mem_cons_of_mem _ (hs.dated scope lease hlease)
      apply after_all hgrown
      exact (acquireLeaseProgram_dated mem_cons_self (hgrown _)).disk (hgrown _) stop
  | read req faults =>
    apply atomically_invariant hs
    rcases read_outcome dataDir faults req s.clock (s.files req.scope) with hkept | ⟨_, hremoved⟩
    · exact .inl hkept
    · exact .inr hremoved
  | release req faults =>
    apply atomically_invariant hs
    rcases release_outcome dataDir faults req (s.files req.scope) with
      ⟨hkept, _⟩ | ⟨_, _, _, hremoved⟩
    · exact .inl hkept
    · rw [hremoved]
      exact .inr rfl

theorem reachable_invariant
    (h : ((machine dataDir).restrict (CompletesCreates dataDir)).Reachable Initial s) :
    Invariant s := by
  refine h.invariant (fun _ => initial_invariant) ?_
  rintro s e hs ⟨_, hcompletes⟩
  exact step_preserves_invariant hs hcompletes

theorem acquire_free (hvalid : leasePreflight dataDir noFaults req true = .ok ())
    (hacquire : req.renew = false) (hfree : Free file now) :
    acquireLease dataDir noFaults req now file =
      (.ok (granted (newLease req now) ""), .held (newLease req now)) := by
  unfold acquireLease
  rw [hvalid, hacquire]
  rcases hfree with rfl | ⟨current, rfl, hexp⟩
  · rfl
  · change acquireAttempts req now [noAttemptFaults, noAttemptFaults] (.held current) = _
    unfold acquireAttempts
    simp only [noAttemptFaults, readLeaseFile, hexp, if_true, reduceCtorEq, if_false]
    rfl

/-- In every run whose creates all complete: once every expiry has passed, a valid acquire by
any ID succeeds. -/
theorem crash_never_wedges {s : State}
    (hr : ((machine dataDir).restrict (CompletesCreates dataDir)).Reachable Initial s)
    (hpast : ∀ t ∈ s.attempted, t ≤ s.clock) {req : LeaseRequest}
    (hvalid : leasePreflight dataDir noFaults req true = .ok ()) (hacquire : req.renew = false) :
    (acquireLeaseProgram dataDir noFaults req s.clock).answer (s.files req.scope) .returns =
      some (.ok (granted (newLease req s.clock) "")) := by
  have hs := reachable_invariant hr
  have hfree : Free (s.files req.scope) s.clock := by
    cases hfile : s.files req.scope with
    | absent => exact .inl rfl
    | torn => exact absurd hfile (hs.untorn _)
    | held current => exact .inr ⟨current, rfl, hpast _ (hs.dated _ current hfile)⟩
  have hrun := acquireLeaseProgram_run dataDir noFaults req s.clock (s.files req.scope)
  rw [acquire_free hvalid hacquire hfree] at hrun
  exact congrArg some (Prod.mk.inj hrun).1

/-! The first holder's process stops right after the exclusive create, or a step later. -/

open LeaseMutualExclusion (demoRequest)

def emptyDirectory : State := ⟨1, fun _ => .absent, []⟩

def stoppedHolder (written : ℕ) : List Event :=
  [.acquire (demoRequest "first") 1 noFaults (.crashes written), .tick (1 + minute)]

theorem crash_never_wedges_stopped :
    (acquireLeaseProgram "/var/lib/tako" noFaults (demoRequest "second") (1 + minute)).answer
      (((machine "/var/lib/tako").runTrace emptyDirectory (stoppedHolder 2)).files
        ("demo", "production")) .returns =
      some (.ok (granted (newLease (demoRequest "second") (1 + minute)) "")) := by
  have hreach : ((machine "/var/lib/tako").restrict (CompletesCreates "/var/lib/tako")).Reachable
      Initial ((machine "/var/lib/tako").runTrace emptyDirectory (stoppedHolder 2)) :=
    .of_trace ⟨fun _ => rfl, rfl⟩ (stoppedHolder 2) (by decide +kernel)
  have hrequest : leasePreflight "/var/lib/tako" noFaults (demoRequest "second") true = .ok () := by
    decide +kernel
  exact crash_never_wedges hreach (by decide +kernel) hrequest rfl

def stoppedFirst : State := (machine "/var/lib/tako").runTrace emptyDirectory (stoppedHolder 1)

/-- The empty file is there for good: every acquire fails on it, however late. -/
theorem torn_lease_wedges : (machine "/var/lib/tako").Reachable Initial stoppedFirst ∧
      (∀ t ∈ stoppedFirst.attempted, t ≤ stoppedFirst.clock) ∧
      leasePreflight "/var/lib/tako" noFaults (demoRequest "second") true = .ok () ∧
      ∀ now, (acquireLeaseProgram "/var/lib/tako" noFaults (demoRequest "second") now).answer
        (stoppedFirst.files ("demo", "production")) .returns =
        some (.error
          "lease is held but metadata could not be read: unexpected end of JSON input") := by
  refine ⟨.of_trace ⟨fun _ => rfl, rfl⟩ _ (by decide +kernel), by decide +kernel, by decide +kernel,
    ?_⟩
  intro now
  have hrun := acquireLeaseProgram_run "/var/lib/tako" noFaults (demoRequest "second") now .torn
  exact congrArg some (Prod.mk.inj hrun).1

end LeaseCrashes
