import Tako.PortRegistry

/-! # Runs of the port registry

Each entry is filed under the key of its identity and no two have one port; until the counter is
used up, it is the number of grants made so far.
-/
namespace PortRegistry

open List GoPrelude GoMaps Runs PortAllocationEntry AList Except

/-- Each entry is filed under the key of its identity, and no two entries have one port. -/
structure WellFormed (allocations : GoMap PortAllocationEntry) : Prop where
  keyed : ∀ key entry, allocations.lookup key = some entry →
    key = entry.identity.key ∧ entry.identity.Safe ∧ 1 ≤ entry.hostPort
  apart : ∀ key other entry sibling, allocations.lookup key = some entry →
    allocations.lookup other = some sibling →
    entry.hostPort = sibling.hostPort → key = other

theorem wellFormed_empty : WellFormed ∅ :=
  ⟨fun key entry h => by simp at h, fun key other entry sibling h => by simp at h⟩

namespace WellFormed

theorem insert (h : WellFormed allocations)
    (hkey : key = entry.identity.key) (hsafe : entry.identity.Safe) (hport : 1 ≤ entry.hostPort)
    (hfree : ∀ other sibling, other ≠ key → allocations.lookup other = some sibling →
      sibling.hostPort ≠ entry.hostPort) : WellFormed (allocations.insert key entry) := by
  have hlookup : ∀ {other sibling}, (allocations.insert key entry).lookup other = some sibling →
      (other = key ∧ sibling = entry) ∨
        (other ≠ key ∧ allocations.lookup other = some sibling) := by
    intro other sibling hfound
    by_cases hother : other = key
    · subst hother
      rw [lookup_insert, Option.some.injEq] at hfound
      exact .inl ⟨rfl, hfound.symm⟩
    · rw [lookup_insert_ne hother] at hfound
      exact .inr ⟨hother, hfound⟩
  constructor
  · intro other sibling hfound
    rcases hlookup hfound with ⟨rfl, rfl⟩ | ⟨-, hold⟩
    · exact ⟨hkey, hsafe, hport⟩
    · exact h.keyed other sibling hold
  · intro first second a b ha hb hsame
    rcases hlookup ha with ⟨rfl, rfl⟩ | ⟨hfirst, hold⟩
    · rcases hlookup hb with ⟨rfl, rfl⟩ | ⟨hsecond, hother⟩
      · rfl
      · exact absurd hsame.symm (hfree second b hsecond hother)
    · rcases hlookup hb with ⟨rfl, rfl⟩ | ⟨-, hother⟩
      · exact absurd hsame (hfree first a hfirst hold)
      · exact h.apart first second a b hold hother hsame

theorem replace (h : WellFormed allocations) (hold : allocations.lookup key = some old)
    (hident : entry.identity = old.identity) (hport : entry.hostPort = old.hostPort) :
    WellFormed (allocations.insert key entry) := by
  obtain ⟨hkey, hsafe, hpos⟩ := h.keyed key old hold
  refine h.insert (hident ▸ hkey) (hident ▸ hsafe) (hport ▸ hpos) ?_
  intro other sibling hother hfound hsame
  exact hother (h.apart other key sibling old hfound hold (hsame.trans hport))

theorem keepWhere (h : WellFormed allocations) (p : String → PortAllocationEntry → Bool) :
    WellFormed (GoMaps.keepWhere allocations p) where
  keyed key entry hfound := h.keyed key entry (lookup_keepWhere.mp hfound).1
  apart key other entry sibling hfound hother :=
    h.apart key other entry sibling (lookup_keepWhere.mp hfound).1 (lookup_keepWhere.mp hother).1

end WellFormed

/-- The entry without its number: what an upgrade keeps of it. -/
def PortAllocationEntry.unnumbered (entry : PortAllocationEntry) : PortAllocationEntry :=
  { entry with generation := 0, issuedAt := 0 }

theorem PortAllocationEntry.kept (h : unnumbered entry = unnumbered old) :
    entry.identity = old.identity ∧ entry.hostPort = old.hostPort ∧
      entry.containerPort = old.containerPort ∧
      entry.hostIP = old.hostIP := by
  simp only [unnumbered, mk.injEq] at h
  simp [identity, h]

section

variable (now : Time) (registry : PortAllocationRegistry)

include now registry

theorem upgradeEntry_cases :
    (upgradeEntry now registry key).allocations = registry.allocations ∨
      ∃ old entry, registry.allocations.lookup key = some old ∧ entry.unnumbered = old.unnumbered ∧
        (upgradeEntry now registry key).allocations = registry.allocations.insert key entry := by
  unfold upgradeEntry
  cases hfound : registry.allocations.lookup key with
  | none => exact .inl rfl
  | some old =>
    dsimp only
    by_cases hzero : old.generation = 0
    · rw [if_pos hzero]
      refine .inr ⟨old, _, rfl, ?_, rfl⟩
      rfl
    · split_ifs
      · exact .inl rfl
      · exact .inl rfl

theorem upgradeEntry_lookup :
    ((upgradeEntry now registry upgraded).allocations.lookup key).map unnumbered =
      (registry.allocations.lookup key).map unnumbered := by
  rcases upgradeEntry_cases now registry with hsame | ⟨old, entry, hold, hkept, hinsert⟩
  · rw [hsame]
  · rw [hinsert]
    by_cases hkey : key = upgraded
    · subst hkey
      rw [lookup_insert, hold, Option.map_some, Option.map_some, hkept]
    · rw [lookup_insert_ne hkey]

theorem upgrade_lookup : ((upgrade now registry).allocations.lookup key).map unnumbered =
      (registry.allocations.lookup key).map unnumbered := by
  have hfold : ∀ (keys : List String) (start : PortAllocationRegistry),
      ((keys.foldl (upgradeEntry now) start).allocations.lookup key).map unnumbered =
        (start.allocations.lookup key).map unnumbered := by
    intro keys
    induction keys with
    | nil => intro start; rfl
    | cons first rest ih =>
      intro start
      rw [foldl_cons, ih, upgradeEntry_lookup]
  exact hfold _ registry

end

theorem upgradeEntry_wellFormed (h : WellFormed registry.allocations) :
    WellFormed (upgradeEntry now registry key).allocations := by
  rcases upgradeEntry_cases now registry with hsame | ⟨old, entry, hold, hkept, hinsert⟩
  · rw [hsame]
    exact h
  · rw [hinsert]
    obtain ⟨hident, hport, -⟩ := kept hkept
    exact h.replace hold hident hport

theorem upgrade_wellFormed (h : WellFormed registry.allocations) :
    WellFormed (upgrade now registry).allocations := by
  unfold upgrade
  induction sortStrings registry.allocations.keys generalizing registry with
  | nil => exact h
  | cons first rest ih => exact ih (upgradeEntry_wellFormed h)

def entryAt (file : Option PortAllocationRegistry) (key : String) : Option PortAllocationEntry :=
  file.bind fun registry => registry.allocations.lookup key

def FileWellFormed (file : Option PortAllocationRegistry) : Prop :=
  ∀ registry, file = some registry → WellFormed registry.allocations

theorem read_wellFormed (hfile : FileWellFormed file)
    (h : readPortAllocationRegistry call file = .ok registry) :
    WellFormed registry.allocations := by
  unfold readPortAllocationRegistry at h
  split at h
  · cases h
  · cases h
    exact wellFormed_empty
  · cases h
    exact upgrade_wellFormed (hfile _ rfl)

theorem reserved_eq_true : reserved registry usedPorts req key port ↔
      hostPortUsedByOtherService (usedPorts port) req ∨
        ∃ other sibling, other ≠ key ∧ registry.allocations.lookup other = some sibling ∧
          0 < sibling.hostPort ∧
          sibling.hostPort = port := by
  simp only [reserved, Bool.or_eq_true, any_eq_true, Bool.and_eq_true, bne_iff_ne,
    decide_eq_true_eq, beq_iff_eq]
  refine or_congr_right ?_
  constructor
  · rintro ⟨⟨other, sibling⟩, hmem, ⟨hother, hpos⟩, hport⟩
    exact ⟨other, sibling, hother, mem_lookup_iff.mpr hmem, hpos, hport⟩
  · rintro ⟨other, sibling, hother, hfound, hpos, hport⟩
    exact ⟨⟨other, sibling⟩, mem_lookup_iff.mp hfound, ⟨hother, hpos⟩, hport⟩

theorem chooseAllocatedPort_ok (hreq : Validated req)
    (h : chooseAllocatedPort req isReserved = .ok port) :
    (req.minPort ≤ port ∧ port ≤ req.maxPort) ∧ isReserved port = false := by
  unfold chooseAllocatedPort at h
  split at h
  case h_2 => cases h
  case h_1 found hfound =>
    cases h
    have hmem := ((candidatePorts_enumerates hreq.above hreq.below).all _).mp
      (mem_of_find?_eq_some hfound)
    have hfree := find?_some hfound
    exact ⟨hmem, by simpa using hfree⟩

theorem assign_cases (h : assign registry usedPorts req now = .ok (written, entry)) :
    (∃ existing, renewable registry usedPorts req req.key = some existing ∧
        (written, entry) = renew registry req.key existing now) ∨
      renewable registry usedPorts req req.key = none ∧
        ∃ port, chooseAllocatedPort req (reserved registry usedPorts req req.key) = .ok port ∧
          (written, entry) = issue registry req.key req port now := by
  unfold assign at h
  cases hrenewable : renewable registry usedPorts req req.key with
  | some existing =>
    rw [hrenewable] at h
    exact .inl ⟨existing, rfl, (ok.inj h).symm⟩
  | none =>
    rw [hrenewable] at h
    obtain ⟨port, hport, hissued⟩ := bind_eq_ok.mp h
    exact .inr ⟨rfl, port, hport, (ok.inj hissued).symm⟩

theorem assign_wellFormed (hreq : Validated req) (hreg : WellFormed registry.allocations)
    (h : assign registry usedPorts req now = .ok (written, entry)) :
    WellFormed written.allocations := by
  rcases assign_cases h with ⟨existing, hfound, hrenewed⟩ | ⟨-, port, hport, hissued⟩
  · cases hrenewed
    exact hreg.replace (Option.eq_some_of_filter_eq_some hfound) rfl rfl
  · cases hissued
    obtain ⟨hrange, hfree⟩ := chooseAllocatedPort_ok hreq hport
    refine hreg.insert rfl hreq.safe (hreq.low.trans hrange.1) ?_
    intro other sibling hother hfound hsame
    have hsibling := (hreg.keyed other sibling hfound).2.2
    have htaken : reserved registry usedPorts req req.key port :=
      reserved_eq_true.mpr (.inr ⟨other, sibling, hother, hfound, by omega, hsame⟩)
    rw [htaken] at hfree
    cases hfree

section Calls

theorem grant_eq_ok : grant parsesIP call request file = .ok result ↔
      validatePortAllocationRequest parsesIP request.withKind = .ok () ∧
        checkContext call = .ok () ∧
        ∃ registry usedPorts, readPortAllocationRegistry call file = .ok registry ∧
          call.docker = .ok usedPorts ∧
          assign registry usedPorts request.withKind call.now = .ok result := by
  simp only [grant, bind_eq_ok]
  constructor
  · rintro ⟨_, hvalid, _, hcontext, registry, hread, usedPorts, hdocker, hassigned⟩
    exact ⟨hvalid, hcontext, registry, usedPorts, hread, hdocker, hassigned⟩
  · rintro ⟨hvalid, hcontext, registry, usedPorts, hread, hdocker, hassigned⟩
    exact ⟨(), hvalid, (), hcontext, registry, hread, usedPorts, hdocker, hassigned⟩

theorem written_eq :
    (writePortAllocationRegistry call file registry).2 = if call.persists then some registry
      else file := by
  unfold writePortAllocationRegistry Call.persists
  cases call.write with
  | none => rfl
  | some fault => cases hreplaced : fault.replaced <;> rfl

theorem allocatePort_file : (allocatePort parsesIP call request file).2 =
      match grant parsesIP call request file with
      | .error _ => file
      | .ok (registry, _) => if call.persists then some registry else file := by
  unfold allocatePort
  cases grant parsesIP call request file with
  | error => rfl
  | ok => exact written_eq

theorem releaseMatching_file (isReleased : PortAllocationEntry → Bool) :
    (releaseMatching call isReleased file).2 = file ∨
      ∃ registry, readPortAllocationRegistry call file = .ok registry ∧
        (releaseMatching call isReleased file).2 = some { registry with
            allocations := keepWhere registry.allocations fun _ entry => !isReleased entry
            updatedAt := call.now } := by
  unfold releaseMatching
  split
  · exact .inl rfl
  · rename_i registry hread
    obtain ⟨_, -, hreg⟩ := bind_eq_ok.mp hread
    split_ifs
    · rw [written_eq]
      by_cases hpersists : call.persists
      · rw [if_pos hpersists]
        exact .inr ⟨registry, hreg, rfl⟩
      · rw [if_neg hpersists]
        exact .inl rfl
    · exact .inl rfl

end Calls

section Steps

inductive Effect (parsesIP : String → Bool) (s : State) : State → Prop
  | unchanged : Effect parsesIP s s
  | released (p : String → PortAllocationEntry → Bool)
      (read : readPortAllocationRegistry call s.file = .ok registry) :
      Effect parsesIP s
        { s with
          file := some { registry with
          allocations := keepWhere registry.allocations p, updatedAt := call.now } }
  | granted {call : Call} {request : PortAllocationRequest} {written : PortAllocationRegistry}
      {entry : PortAllocationEntry}
        (granted : grant parsesIP call request s.file = .ok (written, entry)) :
      Effect parsesIP s { file := some written, granted := s.granted ++ [entry.generation] }

theorem releaseMatching_effect (call : Call) (isReleased : PortAllocationEntry → Bool) :
    Effect parsesIP s { s with file := (releaseMatching call isReleased s.file).2 } := by
  rcases @releaseMatching_file call s.file isReleased with hsame | ⟨registry, hread, hreleased⟩
  · rw [hsame]
    exact Effect.unchanged
  · rw [hreleased]
    exact Effect.released _ hread

theorem next_effect : Effect parsesIP s (State.next parsesIP s e) := by
  cases e with
  | allocate call request =>
    rw [State.next, allocatePort_file]
    cases hgrant : grant parsesIP call request s.file with
    | error => exact Effect.unchanged
    | ok =>
      dsimp only
      by_cases hpersists : call.persists
      · rw [if_pos hpersists, if_pos hpersists]
        exact Effect.granted hgrant
      · rw [if_neg hpersists, if_neg hpersists]
        exact Effect.unchanged
  | releaseService call =>
    rw [State.next]
    unfold releaseServicePortAllocations
    dsimp only
    split
    · exact Effect.unchanged
    · exact releaseMatching_effect call _
  | releaseProject call =>
    rw [State.next]
    unfold releaseProjectPortAllocations
    dsimp only
    split
    · exact Effect.unchanged
    · exact releaseMatching_effect call _

theorem Effect.wellFormed (h : Effect parsesIP s u) (hs : FileWellFormed s.file) :
    FileWellFormed u.file := by
  cases h with
  | unchanged => exact hs
  | released p hread =>
    rintro _ ⟨rfl⟩
    exact (read_wellFormed hs hread).keepWhere p
  | granted hgrant =>
    rintro _ ⟨rfl⟩
    obtain ⟨hvalid, -, registry, usedPorts, hread, -, hassigned⟩ := grant_eq_ok.mp hgrant
    exact assign_wellFormed (validatePortAllocationRequest_ok hvalid)
      (read_wellFormed hs hread) hassigned

theorem reachable_wellFormed (h : (machine parsesIP).Reachable Empty s) :
    FileWellFormed s.file := by
  have hstart : ∀ s, Empty s → FileWellFormed s.file := by
    rintro _ rfl registry hnone
    cases hnone
  exact h.invariant (I := fun s => FileWellFormed s.file) hstart fun s e hs _ =>
    next_effect.wellFormed hs

structure Counts (registry : PortAllocationRegistry) (grants : ℕ) : Prop where
  counter : registry.nextGeneration = grants
  issued : ∀ key entry, registry.allocations.lookup key = some entry →
    1 ≤ entry.generation ∧ entry.generation ≤ grants

theorem Counts.upgrade_eq (h : Counts registry grants) (now : Time) :
    upgrade now registry = registry := by
  unfold upgrade
  induction sortStrings registry.allocations.keys with
  | nil => rfl
  | cons key rest ih =>
    have hentry : upgradeEntry now registry key = registry := by
      unfold upgradeEntry
      cases hfound : registry.allocations.lookup key with
      | none => rfl
      | some entry =>
        obtain ⟨hpos, hle⟩ := h.issued key entry hfound
        have hcounter := h.counter
        dsimp only
        rw [if_neg (by omega), if_neg (by omega)]
    rw [foldl_cons, hentry, ih]

theorem Counts.insert (h : Counts registry grants) (hgrants : grants + 1 < 2 ^ 64)
    (hcounter : written.nextGeneration = uint64Succ registry.nextGeneration)
    (hgen : entry.generation = uint64Succ registry.nextGeneration)
    (hallocations : written.allocations = registry.allocations.insert key entry) :
    Counts written (grants + 1) ∧ entry.generation = grants + 1 := by
  have hnext : uint64Succ registry.nextGeneration = grants + 1 := by
    rw [h.counter, uint64Succ, Nat.mod_eq_of_lt hgrants]
  rw [hnext] at hcounter hgen
  refine ⟨⟨hcounter, ?_⟩, hgen⟩
  intro other found hfound
  rw [hallocations] at hfound
  by_cases hother : other = key
  · subst hother
    rw [lookup_insert, Option.some.injEq] at hfound
    subst hfound
    omega
  · rw [lookup_insert_ne hother] at hfound
    have := h.issued other found hfound
    omega

theorem assign_counts (h : Counts registry grants) (hgrants : grants + 1 < 2 ^ 64)
    (hassigned : assign registry usedPorts req now = .ok (written, entry)) :
    Counts written (grants + 1) ∧ entry.generation = grants + 1 := by
  rcases assign_cases hassigned with ⟨existing, -, hrenewed⟩ | ⟨-, port, -, hissued⟩
  · cases hrenewed
    exact h.insert hgrants rfl rfl rfl
  · cases hissued
    exact h.insert hgrants rfl rfl rfl

structure Numbered (s : State) : Prop where
  bounded : ∀ generation ∈ s.granted, 1 ≤ generation ∧ generation ≤ s.granted.length
  counts : ∀ registry, s.file = some registry → Counts registry s.granted.length
  absent : s.file = none → s.granted = []

theorem Numbered.read (h : Numbered s)
    (hread : readPortAllocationRegistry call s.file = .ok registry) :
    Counts registry s.granted.length := by
  unfold readPortAllocationRegistry at hread
  split at hread
  case h_1 => cases hread
  case h_2 hnone =>
    cases hread
    rw [h.absent hnone]
    exact ⟨rfl, fun key entry hfound => by simp at hfound⟩
  case h_3 stored _ hstored =>
    cases hread
    have hcounts := h.counts stored hstored
    rw [hcounts.upgrade_eq]
    exact hcounts

theorem Numbered.grant (h : Numbered s)
    (hgrant : grant parsesIP call request s.file = .ok (written, entry))
    (hgrants : s.granted.length + 1 < 2 ^ 64) :
    Counts written (s.granted.length + 1) ∧ entry.generation = s.granted.length + 1 := by
  obtain ⟨-, -, registry, usedPorts, hread, -, hassigned⟩ := grant_eq_ok.mp hgrant
  exact assign_counts (h.read hread) hgrants hassigned

theorem Effect.numbered (h : Effect parsesIP s u) (hs : s.granted.length < 2 ^ 64 → Numbered s)
    (hu : u.granted.length < 2 ^ 64) : Numbered u := by
  cases h with
  | unchanged => exact hs hu
  | released p hread =>
    have hnum := hs hu
    have hcounts := hnum.read hread
    refine ⟨hnum.bounded, ?_, ?_⟩
    · rintro _ ⟨rfl⟩
      exact ⟨hcounts.counter, fun key entry hfound => hcounts.issued key entry
        (lookup_keepWhere.mp hfound).1⟩
    · intro hnone
      cases hnone
  | @granted call request written entry hgrant =>
    rw [length_append] at hu
    have hnum := hs (by omega)
    obtain ⟨hcounts, hgen⟩ := hnum.grant hgrant hu
    refine ⟨?_, ?_, ?_⟩
    · intro generation hmem
      rw [length_append, length_singleton]
      rcases mem_append.mp hmem with hold | hnew
      · have := hnum.bounded generation hold
        omega
      · rw [mem_singleton.mp hnew]
        omega
    · rintro _ ⟨rfl⟩
      rw [length_append]
      exact hcounts
    · intro hnone
      cases hnone

theorem reachable_numbered (h : (machine parsesIP).Reachable Empty s)
    (hs : s.granted.length < 2 ^ 64) : Numbered s := by
  have hstart : ∀ s, Empty s → s.granted.length < 2 ^ 64 → Numbered s := by
    rintro _ rfl -
    exact ⟨by simp, fun registry hnone => by simp at hnone, fun _ => rfl⟩
  exact h.invariant hstart
    (fun s e hs _ hu => next_effect.numbered hs hu) hs

end Steps

/-- A container of another service publishes the port; for a request with a revision, also one of
another revision. -/
def UsedByOther (usedPorts : HostPorts) (req : PortAllocationRequest) (port : ℤ) : Prop :=
  ∃ use ∈ usedPorts port, ¬ (use.project = req.project ∧ use.environment = req.environment ∧
    use.service = req.service ∧ (req.revision = "" ∨ use.revision = req.revision))

theorem hostPortUsedByOtherService_iff :
    hostPortUsedByOtherService (usedPorts port) req ↔ UsedByOther usedPorts req port := by
  simp only [hostPortUsedByOtherService, UsedByOther, any_eq_true, Bool.not_eq_true',
    Bool.and_eq_false_iff,
    Bool.or_eq_false_iff, beq_eq_false_iff_ne, not_and_or, not_or, ne_eq, or_assoc]

theorem chooseAllocatedPort_eq_error (hreq : Validated req) :
    (∃ cause, chooseAllocatedPort req isReserved = .error cause) ↔
      ∀ port, req.minPort ≤ port → port ≤ req.maxPort → isReserved port := by
  have hall := (candidatePorts_enumerates hreq.above hreq.below).all
  unfold chooseAllocatedPort
  cases hfound : (candidatePorts req.preferredPort req.minPort req.maxPort).find? fun port =>
    !isReserved port with
  | some port =>
    have hfree := find?_some hfound
    obtain ⟨hmin, hmax⟩ := (hall port).mp (mem_of_find?_eq_some hfound)
    refine iff_of_false (by simp) ?_
    intro h
    rw [h port hmin hmax] at hfree
    cases hfree
  | none =>
    refine iff_of_true ⟨_, rfl⟩ ?_
    intro port hmin hmax
    have hnot := find?_eq_none.mp hfound port ((hall port).mpr ⟨hmin, hmax⟩)
    simpa using hnot

section NewIdentity

theorem read_lookup (h : readPortAllocationRegistry call file = .ok registry) :
    (registry.allocations.lookup key).map unnumbered = (entryAt file key).map unnumbered := by
  unfold readPortAllocationRegistry at h
  split at h
  · cases h
  · cases h
    rfl
  · cases h
    exact upgrade_lookup _ _

section

variable (hfile : FileWellFormed file) (h : readPortAllocationRegistry call file = .ok registry)

include hfile h

theorem read_lookup_new (hreq : Validated req)
    (hnew : ∀ key entry, entryAt file key = some entry → entry.identity ≠ req.identity) :
    registry.allocations.lookup req.key = none := by
  cases hfound : registry.allocations.lookup req.key with
  | none => rfl
  | some entry =>
    obtain ⟨old, hold, hkept⟩ := exists_of_map_eq (read_lookup h) hfound
    obtain ⟨hkey, hsafe, -⟩ := (read_wellFormed hfile h).keyed req.key entry hfound
    have hident := (kept hkept).1
    exact absurd (hident.trans (hsafe.eq_of_key hreq.safe hkey.symm)) (hnew req.key old hold)

theorem reserved_iff_of_new (hnone : registry.allocations.lookup req.key = none) :
    reserved registry usedPorts req req.key port ↔
      (∃ key entry, entryAt file key = some entry ∧ entry.hostPort = port) ∨
        UsedByOther usedPorts req port := by
  rw [reserved_eq_true, hostPortUsedByOtherService_iff, or_comm]
  refine or_congr_left ?_
  constructor
  · rintro ⟨other, sibling, -, hfound, -, hport⟩
    obtain ⟨old, hold, hkept⟩ := exists_of_map_eq (read_lookup h) hfound
    have hsame := (kept hkept).2.1
    exact ⟨other, old, hold, hsame.trans hport⟩
  · rintro ⟨other, old, hold, hport⟩
    obtain ⟨sibling, hfound, hkept⟩ := exists_of_map_eq (read_lookup h).symm hold
    have hsame := (kept hkept).2.1
    have hpos := ((read_wellFormed hfile h).keyed other sibling hfound).2.2
    refine ⟨other, sibling, ?_, hfound, by omega, hsame.trans hport⟩
    rintro rfl
    rw [hnone] at hfound
    cases hfound

end

theorem head_append {text more : String} (h : text.toList.head? = some c) :
    (text ++ more).toList.head? = some c := by
  rw [String.toList_append, head?_append, h, Option.some_or]

theorem noFreePorts_ne_write (cause : String) :
    s!"failed to write port allocation registry: {cause}" ≠ noFreePorts req := by
  intro heq
  have hwrite : (s!"failed to write port allocation registry: {cause}").toList.head? = some 'f' :=
    head_append (by decide +kernel)
  have hlack : (noFreePorts req).toList.head? = some 'n' :=
    head_append (head_append (head_append (by decide +kernel)))
  rw [heq, hlack] at hwrite
  exact absurd hwrite (by decide)

theorem grant_eq_assign (hvalid : validatePortAllocationRequest parsesIP request.withKind = .ok ())
    (hcontext : call.context = none) (hread : readPortAllocationRegistry call file = .ok registry)
    (hdocker : call.docker = .ok usedPorts) :
    grant parsesIP call request file = assign registry usedPorts request.withKind call.now := by
  rw [grant, hvalid, checkContext, hcontext, hread, hdocker]
  rfl

theorem assign_of_none (hnone : registry.allocations.lookup req.key = none) :
    assign registry usedPorts req now =
      (chooseAllocatedPort req (reserved registry usedPorts req req.key)).map fun port =>
        issue registry req.key req port now := by
  have hrenewable : renewable registry usedPorts req req.key = none := by
    rw [renewable, hnone]
    rfl
  rw [assign, hrenewable]
  cases chooseAllocatedPort req (reserved registry usedPorts req req.key) <;> rfl

/-- A new identity is refused for want of a port exactly if each port of its range belongs to an
entry or is published by another service. -/
theorem allocatePort_lacks_iff (hfile : FileWellFormed file)
    (hvalid : validatePortAllocationRequest parsesIP request.withKind = .ok ())
    (hcontext : call.context = none) (hread : call.read = none)
    (hdocker : call.docker = .ok usedPorts)
    (hnew : ∀ key entry, entryAt file key = some entry →
      entry.identity ≠ request.withKind.identity) :
    (allocatePort parsesIP call request file).1 = .error (noFreePorts request.withKind) ↔
      ∀ port, request.withKind.minPort ≤ port → port ≤ request.withKind.maxPort →
        (∃ key entry, entryAt file key = some entry ∧ entry.hostPort = port) ∨
          UsedByOther usedPorts request.withKind port := by
  obtain ⟨registry, hreg⟩ : ∃ registry, readPortAllocationRegistry call file = .ok registry := by
    unfold readPortAllocationRegistry
    rw [hread]
    cases file with
    | none | some => exact ⟨_, rfl⟩
  have hreq := validatePortAllocationRequest_ok hvalid
  have hnone := read_lookup_new hfile hreg hreq hnew
  have hassign := (grant_eq_assign hvalid hcontext hreg hdocker).trans (assign_of_none hnone)
  have hlack := @chooseAllocatedPort_eq_error _
    (reserved registry usedPorts request.withKind request.withKind.key) hreq
  simp only [reserved_iff_of_new hfile hreg hnone] at hlack
  rw [← hlack, allocatePort, hassign]
  cases hchoice : chooseAllocatedPort request.withKind
      (reserved registry usedPorts request.withKind request.withKind.key) with
  | error cause =>
    refine iff_of_true ?_ ⟨cause, rfl⟩
    unfold chooseAllocatedPort at hchoice
    split at hchoice
    · cases hchoice
    · cases hchoice
      rfl
  | ok =>
    refine iff_of_false ?_ (by simp)
    simp only [Except.map, writePortAllocationRegistry]
    cases call.write with
    | none => simp
    | some fault =>
      intro heq
      exact noFreePorts_ne_write fault.cause (Except.error.inj heq)

end NewIdentity

/-- Over any run of grants and releases from an empty registry, no two entries have one port, each
is filed under its own key, and valid requests for different identities have different keys. Below
`2 ^ 64` grants every grant is numbered above all earlier ones. A new identity is refused exactly if
each port of its range belongs to an entry or to another service; the candidates are the range. -/
theorem port_registry_invariant (parsesIP : String → Bool) {s : State}
    (h : (machine parsesIP).Reachable Empty s) :
    (∀ key other entry sibling, entryAt s.file key = some entry →
      entryAt s.file other = some sibling →
        entry.hostPort = sibling.hostPort → key = other) ∧
      (∀ key entry, entryAt s.file key = some entry → key = entry.identity.key) ∧
      (∀ req other : PortAllocationRequest, validatePortAllocationRequest parsesIP req = .ok () →
        validatePortAllocationRequest parsesIP other = .ok () → req.key = other.key →
          req.identity = other.identity) ∧
      (∀ call request written entry, grant parsesIP call request s.file = .ok (written, entry) →
        s.granted.length + 1 < 2 ^ 64 → ∀ generation ∈ s.granted, generation < entry.generation) ∧
      (∀ call request usedPorts, validatePortAllocationRequest parsesIP request.withKind = .ok () →
        call.context = none → call.read = none → call.docker = .ok usedPorts →
        (∀ key entry, entryAt s.file key = some entry →
          entry.identity ≠ request.withKind.identity) →
        ((allocatePort parsesIP call request s.file).1 = .error (noFreePorts request.withKind) ↔
          ∀ port, request.withKind.minPort ≤ port → port ≤ request.withKind.maxPort →
            (∃ key entry, entryAt s.file key = some entry ∧ entry.hostPort = port) ∨
              UsedByOther usedPorts request.withKind port)) ∧
      ∀ req : PortAllocationRequest, validatePortAllocationRequest parsesIP req = .ok () →
        Enumerates (candidatePorts req.preferredPort req.minPort req.maxPort) req.preferredPort
          req.minPort
          req.maxPort := by
  have hfile := reachable_wellFormed h
  have hentry : ∀ {key entry}, entryAt s.file key = some entry →
      ∃ registry, s.file = some registry ∧ registry.allocations.lookup key = some entry := by
    intro key entry
    exact Option.bind_eq_some_iff.mp
  refine ⟨?_, ?_, ?_, ?_, ?_, ?_⟩
  · intro key other entry sibling hfound hother hport
    obtain ⟨registry, hregistry, hlookup⟩ := hentry hfound
    obtain ⟨same, hsame, hsibling⟩ := hentry hother
    rw [hregistry, Option.some.injEq] at hsame
    subst hsame
    exact (hfile registry hregistry).apart key other entry sibling hlookup hsibling hport
  · intro key entry hfound
    obtain ⟨registry, hregistry, hlookup⟩ := hentry hfound
    exact ((hfile registry hregistry).keyed key entry hlookup).1
  · intro req other hreq hother
    exact (validatePortAllocationRequest_ok hreq).safe.eq_of_key
      (validatePortAllocationRequest_ok hother).safe
  · intro call request written entry hgrant hgrants generation hgeneration
    have hnumbered := reachable_numbered h (by omega)
    have hnew := (hnumbered.grant hgrant hgrants).2
    have hold := hnumbered.bounded generation hgeneration
    omega
  · intro call request usedPorts
    exact allocatePort_lacks_iff hfile
  · intro req hreq
    have hvalidated := validatePortAllocationRequest_ok hreq
    exact candidatePorts_enumerates hvalidated.above hvalidated.below

def webSlot (slot : ℤ) : PortAllocationRequest where
  project := "shop"
  environment := "production"
  service := "web"
  slot := slot
  hostIP := "10.0.0.1"
  containerPort := 8080
  preferredPort := 30000
  minPort := 30000
  maxPort := 30000

def webPublishes : HostPorts := fun port =>
  if port = 30000 then [{ project := "shop", environment := "production", service := "web" }]
      else []

def anyIP : String → Bool := fun _ => true

def firstGranted : State := (machine anyIP).runTrace {} [.allocate {} (webSlot 1)]

/-- The port of the first slot is reserved, and the second slot finds none. -/
theorem second_slot_lacks_port :
    ((allocatePort anyIP {} (webSlot 2) firstGranted.file).1 =
        .error (noFreePorts (webSlot 2).withKind)) ∧
      firstGranted.granted = [1] := by
  have hreachable : (machine anyIP).Reachable Empty firstGranted :=
    ⟨{}, rfl, Machine.ValidTrace.execution ⟨trivial, trivial⟩⟩
  have hport : (entryAt firstGranted.file
      (webSlot 1).withKind.key).map hostPort = some 30000 := by decide +kernel
  have hkeys : firstGranted.file.map
      (fun registry => registry.allocations.entries.map fun entry => entry.2.identity) =
        some [(webSlot 1).withKind.identity] := by decide +kernel
  obtain ⟨-, -, -, -, hlacks, -⟩ := port_registry_invariant anyIP hreachable
  refine ⟨(hlacks {} (webSlot 2) (fun _ => []) (by decide +kernel) rfl rfl rfl ?_).mpr
    ?_, by decide +kernel⟩
  · intro key entry hfound hidentity
    obtain ⟨registry, hregistry, hlookup⟩ := Option.bind_eq_some_iff.mp hfound
    rw [hregistry, Option.map_some, Option.some.injEq] at hkeys
    have hmem := mem_map_of_mem
      (f := fun entry : Sigma fun _ : String => PortAllocationEntry => entry.2.identity)
      (mem_lookup_iff.mp hlookup)
    rw [hkeys, mem_singleton] at hmem
    exact absurd (hmem.symm.trans hidentity) (by decide)
  · intro port hmin hmax
    have honly : port = 30000 := le_antisymm hmax hmin
    cases hentry : entryAt firstGranted.file (webSlot 1).withKind.key with
    | none =>
      rw [hentry] at hport
      cases hport
    | some entry =>
      rw [hentry, Option.map_some, Option.some.injEq] at hport
      exact .inl ⟨_, entry, hentry, hport.trans honly.symm⟩

def Renews (s : State) : Prop :=
  ∀ registry, s.file = some registry → ∃ existing,
    registry.allocations.lookup (webSlot 1).withKind.key = some existing ∧
    existing.containerPort = 8080 ∧ existing.hostIP = "10.0.0.1"

theorem webSlot_valid : validatePortAllocationRequest anyIP (webSlot 1).withKind = .ok () := by
    decide +kernel

theorem grant_again (hnum : Numbered s) (hrenews : Renews s) :
    ∃ written entry, grant anyIP {} (webSlot 1) s.file = .ok (written, entry) ∧
      entry.generation = uint64Succ s.granted.length ∧
      written.allocations.lookup (webSlot 1).withKind.key = some entry ∧
        entry.containerPort = 8080 ∧
      entry.hostIP = "10.0.0.1" := by
  cases hfile : s.file with
  | none =>
    have hgrants := hnum.absent hfile
    have hread : readPortAllocationRegistry {} (none : Option PortAllocationRegistry) = .ok {} :=
      rfl
    have hgrant := (grant_eq_assign webSlot_valid rfl hread rfl).trans (assign_of_none (by rfl))
    refine ⟨_, _, hgrant, ?_, lookup_insert _, rfl, rfl⟩
    rw [hgrants]
    rfl
  | some registry =>
    obtain ⟨existing, hfound, hport, hip⟩ := hrenews registry hfile
    have hcounts := hnum.counts registry hfile
    have hread : readPortAllocationRegistry {} (some registry) = .ok registry :=
      congrArg ok (hcounts.upgrade_eq _)
    have hrenewable : renewable registry (fun _ => []) (webSlot 1).withKind
        (webSlot 1).withKind.key =
        some existing := by
      rw [renewable, hfound, Option.filter_some]
      simp [hport, hip, hostPortUsedByOtherService, PortAllocationRequest.withKind, webSlot]
    have hassign : assign registry (fun _ => []) (webSlot 1).withKind 0 =
        .ok (renew registry (webSlot 1).withKind.key existing 0) := by
      rw [assign, hrenewable]
    refine ⟨_, _, (grant_eq_assign webSlot_valid rfl hread rfl).trans hassign, ?_, lookup_insert _,
      hport, hip⟩
    rw [← hcounts.counter]

theorem exists_granted (n : ℕ) (hn : n < 2 ^ 64) :
    ∃ s, (machine anyIP).Reachable Empty s ∧ s.granted.length = n ∧ Renews s := by
  induction n with
  | zero => exact ⟨{}, ⟨{}, rfl, .refl _⟩, rfl, fun registry hnone => by cases hnone⟩
  | succ n ih =>
    obtain ⟨s, hs, hlen, hrenews⟩ := ih (by omega)
    obtain ⟨written, entry, hgrant, -, hfound, hport, hip⟩ :=
      grant_again (reachable_numbered hs (by omega)) hrenews
    have hnext : State.next anyIP s (.allocate {} (webSlot 1)) =
        { file := some written, granted := s.granted ++ [entry.generation] } := by
      rw [State.next, allocatePort_file, hgrant]
      rfl
    have hstep : (machine anyIP).Step s (.allocate {} (webSlot 1))
        { file := some written, granted := s.granted ++ [entry.generation] } :=
          ⟨trivial, hnext.symm⟩
    refine ⟨_, hs.step hstep, ?_, ?_⟩
    · rw [length_append, length_singleton, hlen]
    · rintro _ ⟨rfl⟩
      exact ⟨entry, hfound, hport, hip⟩

/-- A service gets a port that its own container publishes, though the range has no other; and after
`2 ^ 64` grants the counter has begun again. -/
theorem own_port_granted_and_counter_wraps :
    ((∀ port, (webSlot 1).minPort ≤ port → port ≤ (webSlot 1).maxPort → webPublishes port ≠ []) ∧
        ((allocatePort anyIP { docker := .ok webPublishes } (webSlot 1) ((machine anyIP).runTrace {}
          [.allocate {} (webSlot 1),
            .releaseService {} "shop" "production" "web" ""]).file).1.toOption.map
            PortAllocationResponse.hostPort) = some 30000) ∧
      ∃ s written entry, (machine anyIP).Reachable Empty s ∧
        grant anyIP {} (webSlot 1) s.file = .ok (written, entry) ∧
        ∃ generation ∈ s.granted, entry.generation < generation := by
  refine ⟨⟨?_, by decide +kernel⟩, ?_⟩
  · intro port hmin hmax
    have honly : port = 30000 := le_antisymm hmax hmin
    subst honly
    decide
  · obtain ⟨s, hs, hlength, hrenews⟩ := exists_granted (2 ^ 64 - 1) (by decide)
    have hnumbered := reachable_numbered hs (by omega)
    obtain ⟨written, entry, hgrant, hgeneration, -⟩ := grant_again hnumbered hrenews
    have hzero : entry.generation = 0 := by
      rw [hgeneration, hlength]
      decide
    obtain ⟨generation, hmem⟩ := exists_mem_of_length_pos (by omega : 0 < s.granted.length)
    have hpos := (hnumbered.bounded generation hmem).1
    exact ⟨s, written, entry, hs, hgrant, generation, hmem, by omega⟩

theorem renewable_eq_some : renewable registry usedPorts req key = some existing ↔
    registry.allocations.lookup key = some existing ∧ existing.containerPort = req.containerPort ∧
      existing.hostIP = req.hostIP ∧ ¬ UsedByOther usedPorts req existing.hostPort := by
  rw [renewable, ← hostPortUsedByOtherService_iff]
  simp [and_assoc]

/-- An entry is renewed whatever the range of the request: the port granted is in the range exactly
if that of an entry that can be renewed is. -/
theorem allocated_port_in_range_iff {parsesIP : String → Bool} {call : Call}
    {request : PortAllocationRequest} {file : Option PortAllocationRegistry}
    {response : PortAllocationResponse}
    (h : (allocatePort parsesIP call request file).1 = .ok response) :
    (request.minPort ≤ response.hostPort ∧ response.hostPort ≤ request.maxPort) ↔
      ∀ usedPorts stored, call.docker = .ok usedPorts →
        entryAt file request.withKind.key = some stored →
        stored.containerPort = request.containerPort → stored.hostIP = request.hostIP →
        ¬ UsedByOther usedPorts request.withKind stored.hostPort →
          request.minPort ≤ stored.hostPort ∧ stored.hostPort ≤ request.maxPort := by
  have hsame : request.withKind = { request with kind := request.withKind.kind } := by
    unfold PortAllocationRequest.withKind
    split_ifs <;> rfl
  obtain ⟨⟨written, entry⟩, hgrant, hport⟩ : ∃ granted,
    grant parsesIP call request file = .ok granted ∧
      granted.2.hostPort = response.hostPort := by
    unfold allocatePort at h
    cases hgrant : grant parsesIP call request file with
    | error =>
      rw [hgrant] at h
      cases h
    | ok granted =>
      rw [hgrant] at h
      simp only [writePortAllocationRegistry] at h
      split at h
      · cases h
        exact ⟨granted, rfl, rfl⟩
      · cases h
  obtain ⟨hvalid, -, registry, usedPorts, hread, hdocker, hassigned⟩ := grant_eq_ok.mp hgrant
  rw [← hport]
  rcases assign_cases hassigned with
    ⟨existing, hexisting, hrenewed⟩ | ⟨hnone, port, hchosen, hissued⟩
  · cases hrenewed
    obtain ⟨hfound, hcontainer, hip, hunused⟩ := renewable_eq_some.mp hexisting
    obtain ⟨old, hold, hkept⟩ := exists_of_map_eq (read_lookup hread) hfound
    obtain ⟨-, holdPort, holdContainer, holdIP⟩ := kept hkept
    constructor
    · intro hrange _ stored _ hstored _ _ _
      cases hold.symm.trans hstored
      exact holdPort ▸ hrange
    · intro hall
      rw [hsame] at hcontainer hip
      exact holdPort ▸ hall usedPorts old hdocker hold (holdContainer.trans hcontainer)
        (holdIP.trans hip) (holdPort ▸ hunused)
  · cases hissued
    obtain ⟨hrange, -⟩ := chooseAllocatedPort_ok (validatePortAllocationRequest_ok hvalid) hchosen
    rw [hsame] at hrange
    refine iff_of_true hrange ?_
    intro usedPorts' stored hdocker' hstored hcontainer hip hunused
    -- A stored entry that fits would have been renewed.
    obtain rfl := ok.inj (hdocker.symm.trans hdocker')
    obtain ⟨existing, hfound, hkept⟩ := exists_of_map_eq (read_lookup hread).symm hstored
    obtain ⟨-, hstoredPort, hstoredContainer, hstoredIP⟩ := kept hkept
    have hfits := renewable_eq_some.mpr ⟨hfound, hstoredContainer.trans (by rw [hcontainer, hsame]),
      hstoredIP.trans (by rw [hip, hsame]), hstoredPort ▸ hunused⟩
    rw [hnone] at hfits
    cases hfits

theorem first_grant_in_range : ∃ response,
    (allocatePort anyIP {} (webSlot 1) none).1 = .ok response ∧
    (webSlot 1).minPort ≤ response.hostPort ∧ response.hostPort ≤ (webSlot 1).maxPort := by
  have hok : ((allocatePort anyIP {} (webSlot 1) none).1.toOption).isSome := by decide +kernel
  obtain ⟨response, h⟩ := exists_ok hok
  exact ⟨response, h, (allocated_port_in_range_iff h).mpr (by rintro _ _ _ ⟨⟩)⟩

/-- The range has moved since the port was granted. -/
theorem renewed_port_out_of_range : let moved : PortAllocationRequest :=
      { webSlot 1 with preferredPort := 31000, minPort := 31000, maxPort := 31999 }
    ((allocatePort anyIP {} moved firstGranted.file).1.toOption.map
      PortAllocationResponse.hostPort) = some 30000 := by
  decide +kernel

end PortRegistry
