import Tako.NodeReports

/-! # Plans partition the services

`ComputePlan` ranges over two maps, in orders that Go leaves open, and counts what it lists.
Whatever the orders, a service is listed once, and only the order of the changes depends on them.
-/
namespace Reconciliation

open List GoPrelude GoMaps DeployConfig ServiceChange

structure Planning where
  matchedActual : List String := []
  changes : List ServiceChange := []
  summary : ReconciliationSummary := ⟨0, 0, 0, 0, 0⟩

section Loops

variable (F : Fingerprints) (projectName env : String) (actualServices : GoMap ActualService)

def planDesired (p : Planning) (entry : Sigma fun _ : String => ServiceConfig) : Planning :=
  let actual := actualServices.lookup entry.1
  let change := desiredChange F projectName env entry.1 entry.2 actual
  { matchedActual :=
      if entry.2.isRun || entry.2.isJob || actual.isSome then entry.1 :: p.matchedActual
        else p.matchedActual
    changes := p.changes ++ [change]
    summary :=
      match change.type with
      | .add => { p.summary with adds := p.summary.adds + 1 }
      | .update => { p.summary with updates := p.summary.updates + 1 }
      | _ => { p.summary with noOps := p.summary.noOps + 1 } }

def planActual (p : Planning) (entry : Sigma fun _ : String => ActualService) : Planning :=
  if entry.1 ∈ p.matchedActual then p
  else
    let change := removalChange entry.1 entry.2
    { p with
      changes := p.changes ++ [change]
      summary :=
        match change.type with
        | .remove => { p.summary with removes := p.summary.removes + 1 }
        | _ => { p.summary with noOps := p.summary.noOps + 1 } }

/-- `ComputePlan` with the entries of its maps in the orders the loops take them. -/
def computePlanOver (desired : List (Sigma fun _ : String => ServiceConfig))
    (actual : List (Sigma fun _ : String => ActualService)) : ReconciliationPlan :=
  let planned := actual.foldl planActual
    (desired.foldl (planDesired F projectName env actualServices) {})
  { projectName := projectName
    environment := env
    changes := planned.changes
    summary := { planned.summary with total := planned.changes.length } }

variable {F projectName env actualServices}

def Planning.Counted (p : Planning) : Prop :=
  p.summary = ⟨0, countType .add p.changes, countType .update p.changes,
    countType .remove p.changes, countType .none p.changes⟩

theorem planDesired_counted (hp : p.Counted) :
    (planDesired F projectName env actualServices p entry).Counted := by
  unfold Planning.Counted planDesired
  rw [hp]
  cases htype :
    (desiredChange F projectName env entry.1 entry.2 (actualServices.lookup entry.1)).type with
  | remove => exact absurd htype (desiredChange_ne_remove _ _ _ _ _ _)
  | _ => simp [countType, htype]

theorem planActual_counted (hp : p.Counted) : (planActual p entry).Counted := by
  unfold planActual
  split_ifs
  · exact hp
  · unfold Planning.Counted
    rw [hp]
    rcases removalChange_type entry.1 entry.2 with
      ⟨-, htype⟩ | ⟨-, htype⟩ <;> simp [countType, htype]

theorem foldl_planDesired (desired : List (Sigma fun _ : String => ServiceConfig)) (p : Planning) :
    let planned := desired.foldl (planDesired F projectName env actualServices) p
    planned.changes = p.changes ++ desired.map (fun entry =>
        desiredChange F projectName env entry.1 entry.2 (actualServices.lookup entry.1)) ∧
      ∀ name ∈ actualServices, name ∈ planned.matchedActual ↔ name ∈ p.matchedActual ∨
        name ∈ desired.keys := by
  induction desired generalizing p with
  | nil => simp
  | cons entry rest ih =>
    obtain ⟨hchanges, hmatched⟩ := ih (planDesired F projectName env actualServices p entry)
    refine ⟨by rw [foldl_cons, hchanges]; simp [planDesired], ?_⟩
    intro name hname
    rw [foldl_cons, hmatched name hname, keys_cons]
    by_cases hentry : name = entry.1
    · subst hentry
      simp [planDesired, AList.lookup_isSome.mpr hname]
    · unfold planDesired
      dsimp only
      split_ifs <;> simp [hentry]

theorem foldl_planActual (actual : List (Sigma fun _ : String => ActualService)) :
    (actual.foldl planActual p).changes = p.changes ++
      (actual.filter fun entry => entry.1 ∉ p.matchedActual).map fun entry =>
        removalChange entry.1 entry.2 := by
  induction actual generalizing p with
  | nil => simp
  | cons entry rest ih =>
    rw [foldl_cons, ih, planActual]
    by_cases hmatched : entry.1 ∈ p.matchedActual
    · simp [hmatched]
    · simp [hmatched]

end Loops

theorem computePlanOver_perm (hconf : configured.Perm desiredServices.entries)
    (hrunning : running.Perm actualServices.entries) :
    (computePlanOver F projectName env actualServices configured running).changes.Perm
      (computePlan F projectName env desiredServices actualServices).changes := by
  obtain ⟨hchanges, hmatched⟩ := @foldl_planDesired F projectName env actualServices configured {}
  simp only [computePlanOver, foldl_planActual, hchanges, nil_append, computePlan]
  refine (hconf.map _).append (((hrunning.filter _).trans ?_).map _)
  rw [filter_congr]
  intro entry hentry
  have hkey := AList.mem_keys.mp (mem_map_of_mem hentry)
  simp only [decide_not, hmatched _ hkey, not_mem_nil, false_or, keys,
    (hconf.map Sigma.fst).mem_iff]
  exact congrArg not (decide_eq_decide.mpr Iff.rfl)

theorem computePlanOver_summary :
    (computePlanOver F projectName env actualServices configured running).summary =
    let changes := (computePlanOver F projectName env actualServices configured running).changes
    ⟨changes.length, countType .add changes, countType .update changes, countType .remove changes,
      countType .none changes⟩ := by
  have hcounted : (running.foldl planActual
      (configured.foldl (planDesired F projectName env actualServices) {})).Counted := by
    apply foldlRecOn
    · apply foldlRecOn
      · rfl
      · exact fun p hp entry _ => planDesired_counted hp
    · exact fun p hp entry _ => planActual_counted hp
  simp only [computePlanOver, show _ = _ from hcounted]

theorem computePlan_names :
    (computePlan F projectName env desiredServices actualServices).changes.map
    serviceName = desiredServices.keys ++ actualServices.keys.filter fun name =>
      name ∉ desiredServices := by
  simp only [computePlan, map_append, map_map, Function.comp_def, desiredChange_serviceName,
    removalChange_serviceName, AList.keys, keys, filter_map]

theorem desiredChange_add_iff (serviceName : String) :
    (desiredChange F projectName env serviceName desired actual).type = .add ↔
      deployed desired actual = none := by
  obtain ⟨hnone, _, h⟩ | ⟨_, hfound, ⟨-, _, h⟩ | ⟨-, _, h⟩⟩ :=
    desiredChange_cases F projectName env serviceName desired actual
  · simp [h, hnone, added]
  · simp [h, hfound, unchanged]
  · simp [h, hfound, changed]

/-- Every service once, under a type that its membership in the two maps decides, and counted so. -/
structure ReconciliationPlan.Partitions (desiredServices : GoMap ServiceConfig)
    (actualServices : GoMap ActualService) (plan : ReconciliationPlan) : Prop where
  once : (plan.changes.map serviceName).Nodup
  listed : ∀ name, name ∈ plan.changes.map serviceName ↔ name ∈ desiredServices ∨
    name ∈ actualServices
  desired : ∀ change ∈ plan.changes, ∀ desired,
    desiredServices.lookup change.serviceName = some desired →
    change.type ≠ .remove ∧ (change.type = .add ↔
      deployed desired (actualServices.lookup change.serviceName) = none)
  actual : ∀ change ∈ plan.changes, change.serviceName ∉ desiredServices →
    ∃ actual, actualServices.lookup change.serviceName = some actual ∧
      ((KeepsRunning actual ∧ change.type = .none) ∨
        (¬ KeepsRunning actual ∧ change.type = .remove))
  counted : plan.summary = ⟨plan.changes.length, countType .add plan.changes,
    countType .update plan.changes, countType .remove plan.changes, countType .none plan.changes⟩

/-- In whatever order the maps are taken: the changes are the same up to their order. -/
theorem plan_partitions (F : Fingerprints) (projectName env : String)
    (hconfigured : configured.Perm desiredServices.entries)
    (hrunning : running.Perm actualServices.entries) :
    let plan := computePlanOver F projectName env actualServices configured running
    plan.Partitions desiredServices actualServices ∧
      plan.changes.Perm (computePlan F projectName env desiredServices actualServices).changes ∧
      plan.summary = (computePlan F projectName env desiredServices actualServices).summary := by
  intro plan
  have hperm :
      plan.changes.Perm (computePlan F projectName env desiredServices actualServices).changes :=
    computePlanOver_perm hconfigured hrunning
  have hnames := hperm.map serviceName
  rw [computePlan_names] at hnames
  refine ⟨⟨?_, ?_, ?_, ?_, computePlanOver_summary⟩, hperm, ?_⟩
  · rw [hnames.nodup_iff, nodup_append']
    refine ⟨desiredServices.keys_nodup, actualServices.keys_nodup.filter _, ?_⟩
    intro name hin hout
    exact of_decide_eq_true (mem_filter.mp hout).2 (AList.mem_keys.mp hin)
  · intro name
    simp only [hnames.mem_iff, mem_append, mem_filter, AList.mem_keys, decide_eq_true_eq]
    tauto
  · intro change hchange desired hdesired
    rw [(mem_computePlan_changes hdesired change).mp ⟨hperm.mem_iff.mp hchange, rfl⟩]
    exact ⟨desiredChange_ne_remove _ _ _ _ _ _, by rw [desiredChange_serviceName,
      desiredChange_add_iff]⟩
  · intro change hchange hdesired
    obtain ⟨actual, hactual, heq⟩ :=
      (mem_computePlan_unconfigured hdesired change).mp ⟨hperm.mem_iff.mp hchange, rfl⟩
    refine ⟨actual, hactual, ?_⟩
    rw [heq]
    exact removalChange_type _ actual
  · have hcount : ∀ type, countType type plan.changes = countType type
        (computePlan F projectName env desiredServices actualServices).changes := fun _ =>
          hperm.countP_eq _
    rw [computePlanOver_summary]
    simp only [show (computePlanOver F projectName env actualServices configured running) =
      plan from rfl, hcount, hperm.length_eq]
    rfl

def webBecomesJob : GoMap ServiceConfig := mapOf [("web", { kind := .job }), ("db", {})]

def webRuns : GoMap ActualService := mapOf [("web", {})]

theorem web_becomes_job_partitions :
    (computePlanOver buildHash "shop" "production" webRuns webBecomesJob.entries.reverse
      webRuns.entries).Partitions webBecomesJob webRuns :=
  (plan_partitions buildHash "shop" "production" (reverse_perm _) (List.Perm.refl _)).1

/-- The service is in both maps and is added, and the two orders of the map give two plans. -/
theorem web_added_in_either_order :
    (computePlanOver buildHash "shop" "production" webRuns webBecomesJob.entries
      webRuns.entries).changes.map
        (fun change => (change.serviceName, change.type)) = [("web", .add), ("db", .add)] ∧
      (computePlanOver buildHash "shop" "production" webRuns webBecomesJob.entries.reverse
        webRuns.entries).changes.map
        (fun change => (change.serviceName, change.type)) = [("db", .add), ("web", .add)] := by
  decide +kernel

end Reconciliation
