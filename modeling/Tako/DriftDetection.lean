import Mathlib.Data.List.Infix
import Tako.DeployConfig
import Tako.ScopedCleanup

/-! # Drift detection

`CheckOnce` compares the services of an environment with the containers the node reports, which has
no jobs. Times and notifications are left out.
-/
namespace DriftDetection

open List GoPrelude GoMaps DeployConfig
open ResourceNames (hasPrefix)
open ScopedCleanup (containsText)

inductive DriftType where
  | imageChanged
  | replicasDown
  | serviceGone
  | unexpected
  deriving DecidableEq

structure DriftReport where
  service : String
  type : DriftType
  (expected actual severity : String)
  deriving DecidableEq

structure DriftState where
  drifts : List DriftReport
  servicesOK : List String
  deriving DecidableEq

structure ActualService where
  image : String
  replicas : ℤ

/-- Go divides in `float64`, which decides the comparisons alike for counts below `2 ^ 53`. -/
def getReplicaSeverity (actual expected : ℤ) : String :=
  let ratio : Rat := actual / expected
  if actual = 0 then "critical" else if ratio < 1 / 2 then "high" else if ratio < 1 then
    "medium" else "low"

inductive Verdict where
  | skipped
  | drifted (report : DriftReport)
  | ok

def expectedReplicas (serviceCfg : ServiceConfig) : ℤ :=
  if serviceCfg.replicas = 0 then 1 else serviceCfg.replicas

section

variable (project : String) (actualServices : GoMap ActualService)

def imageAccepted (expectedImage image : String) : Bool :=
  expectedImage == "" || image == "" || containsText image expectedImage || hasPrefix image project

section

variable (serviceName : String) (serviceCfg : ServiceConfig)

def checkService : Verdict :=
  if serviceCfg.isJob then .skipped
  else
    match actualServices.lookup serviceName with
    | none =>
      .drifted ⟨serviceName, .serviceGone, s!"{serviceCfg.replicas} replicas", "service not found",
        "critical"⟩
    | some actual =>
      let expected := expectedReplicas serviceCfg
      if actual.replicas < expected then
        .drifted ⟨serviceName, .replicasDown, s!"{expected} replicas",
          s!"{actual.replicas} replicas", getReplicaSeverity actual.replicas expected⟩
      else if imageAccepted project serviceCfg.image actual.image then .ok
      else .drifted ⟨serviceName, .imageChanged, serviceCfg.image, actual.image, "high"⟩

def reports : Option DriftReport :=
  match checkService project actualServices serviceName serviceCfg with
  | .drifted report => some report
  | _ => none

def accepts : Bool :=
  match checkService project actualServices serviceName serviceCfg with
  | .ok => true
  | _ => false

end

end

/-- Go leaves the order of both loops open. -/
def checkOnce (config : Config) (environment : String)
    (actual : Except String (GoMap ActualService)) : Except String DriftState := do
  let env ← wrap ("failed to get environment: " ++ ·) (config.getEnvironment environment)
  let actualServices ← wrap ("failed to get actual services: " ++ ·) actual
  .ok
    { drifts := env.services.entries.filterMap (fun entry =>
          reports config.project actualServices entry.1 entry.2) ++
        (actualServices.keys.filter fun name => name ∉ env.services).map fun name =>
          ⟨name, .unexpected, "not configured", "running", "low"⟩
      servicesOK := (env.services.entries.filter fun entry =>
        accepts config.project actualServices entry.1 entry.2).map Sigma.fst }

def ordinary (serviceCfg : ServiceConfig) : Bool := !serviceCfg.isJob && !serviceCfg.isRun

/-- The ordinary services run with their images and enough replicas, and nothing else has
containers. -/
structure Converged (services : GoMap ServiceConfig) (actual : GoMap ActualService) : Prop where
  running : ∀ name service, services.lookup name = some service → ordinary service →
    ∃ running, actual.lookup name = some running ∧ 0 < running.replicas ∧
      service.replicas ≤ running.replicas ∧
      (service.image ≠ "" → running.image = service.image)
  configured : ∀ name ∈ actual, ∃ service, services.lookup name = some service ∧ ordinary service

section Verdicts

variable {env : EnvironmentConfig} {actual : GoMap ActualService} {service : ServiceConfig}
  {config : Config} {name : String}

theorem containsText_self : containsText text text := by
  rw [containsText, any_eq_true]
  exact ⟨chars text, (mem_tails _ _).mpr (suffix_refl _), isPrefixOf_iff_prefix.mpr (prefix_refl _)⟩

section

variable (project : String) (h : Converged env.services actual)
  (hservice : env.services.lookup name = some service)

include h hservice

theorem Converged.checkService_ok (hordinary : ordinary service) :
    checkService project actual name service = .ok := by
  obtain ⟨running, hrunning, hpos, hreplicas, himage⟩ := h.running name service hservice hordinary
  have henough : ¬ running.replicas < expectedReplicas service := by
    unfold expectedReplicas
    split_ifs <;> omega
  have haccepted : imageAccepted project service.image running.image := by
    by_cases hnone : service.image = ""
    · simp [imageAccepted, hnone]
    · simp [imageAccepted, himage hnone, containsText_self]
  have hjob : service.isJob = false := by simpa using (Bool.and_eq_true_iff.mp hordinary).1
  simp only [checkService, hjob, hrunning]
  rw [if_neg Bool.false_ne_true, if_neg henough, if_pos haccepted]

/-- A completed run has no containers, so it is taken for a service that is gone. -/
theorem Converged.verdict : accepts project actual name service = ordinary service ∧
    (reports project actual name service = none ↔ service.isRun = false) := by
  by_cases hordinary : ordinary service
  · have hrun : service.isRun = false := by simpa using (Bool.and_eq_true_iff.mp hordinary).2
    simp [accepts, reports, h.checkService_ok project hservice hordinary, hordinary, hrun]
  · have hgone : actual.lookup name = none := by
      refine AList.lookup_eq_none.mpr fun hmem => ?_
      obtain ⟨other, hother, hordinary'⟩ := h.configured name hmem
      rw [hservice] at hother
      cases hother
      exact hordinary hordinary'
    by_cases hjob : service.isJob
    · have hrun : service.isRun = false := by simp_all [ServiceConfig.isJob, ServiceConfig.isRun]
      simp [accepts, reports, checkService, hjob, hordinary, hrun]
    · have hrun : service.isRun := by simpa [ordinary, hjob] using hordinary
      simp [accepts, reports, checkService, hjob, hgone, hordinary, hrun]

end

/-- A converged environment shows no drift as long as it has no deploy-time runs. -/
theorem converged_no_drift_iff (henv : config.getEnvironment environment = .ok env)
    (h : Converged env.services actual) :
    checkOnce config environment (.ok actual) =
        .ok ⟨[], (env.services.entries.filter fun entry => ordinary entry.2).map Sigma.fst⟩ ↔
      ∀ entry ∈ env.services.entries, entry.2.isRun = false := by
  have hunexpected : (actual.keys.filter fun name => name ∉ env.services) = [] := by
    refine filter_eq_nil_iff.mpr fun name hname => ?_
    obtain ⟨service, hservice, -⟩ := h.configured name (AList.mem_keys.mpr hname)
    simpa using AList.lookup_isSome.mp (by rw [hservice]; rfl)
  have hverdict : ∀ entry ∈ env.services.entries, _ := fun entry hentry =>
    h.verdict config.project (AList.mem_lookup_iff.mpr hentry)
  have haccepted : env.services.entries.filter
      (fun entry => accepts config.project actual entry.1 entry.2) =
      env.services.entries.filter fun entry => ordinary entry.2 :=
    filter_congr fun entry hentry => (hverdict entry hentry).1
  simp only [checkOnce, henv, wrap, haccepted, bind, Except.bind, Except.ok.injEq,
    DriftState.mk.injEq, and_true]
  rw [hunexpected, map_nil, append_nil, filterMap_eq_nil_iff]
  exact forall₂_congr fun entry hentry => (hverdict entry hentry).2

theorem accepts_iff {project : String} : accepts project actual name service ↔ ∃ running,
    actual.lookup name = some running ∧ service.isJob = false ∧
      expectedReplicas service ≤ running.replicas ∧
      imageAccepted project service.image running.image := by
  unfold accepts checkService
  by_cases hjob : service.isJob
  · simp [hjob]
  cases hrunning : actual.lookup name with
  | none => simp [hjob]
  | some running =>
    by_cases hreplicas : running.replicas < expectedReplicas service
    · simp [hjob, hreplicas]
    · by_cases haccepted : imageAccepted project service.image running.image
      · simp [hjob, hreplicas, haccepted, not_lt.mp hreplicas]
      · simp [hjob, hreplicas, haccepted]

theorem reported_of_not_accepted {project : String} (hjob : service.isJob = false)
    (h : ¬ accepts project actual name service) :
    ∃ report, reports project actual name service = some report ∧ report.service = name := by
  rw [accepts_iff] at h
  unfold reports checkService
  rw [if_neg (by simp [hjob])]
  cases hrunning : actual.lookup name with
  | none => exact ⟨_, rfl, rfl⟩
  | some running =>
    by_cases hreplicas : running.replicas < expectedReplicas service
    · simp only [hreplicas, if_true]
      exact ⟨_, rfl, rfl⟩
    · have himage : ¬ imageAccepted project service.image running.image :=
        fun haccepted => h ⟨running, hrunning, hjob, not_lt.mp hreplicas, haccepted⟩
      simp only [hreplicas, himage, if_false]
      exact ⟨_, rfl, rfl⟩

/-- The configured image, or the same with a registry or namespace before it. -/
def SameImage (running image : String) : Prop :=
  running = image ∨ ∃ registry, running = registry ++ "/" ++ image

theorem SameImage.last_eq (h : SameImage running image) (hne : image.toList ≠ []) :
    running.toList.getLast? = image.toList.getLast? := by
  rcases h with rfl | ⟨registry, rfl⟩
  · rfl
  · rw [String.toList_append, getLast?_append_of_ne_nil _ hne]

/-- A service is listed as OK with its own image only, unless it runs enough replicas of another
image whose text is empty, contains the configured one or starts with the name of the project. What
is not listed as OK is reported. -/
theorem image_change_noticed_iff (henv : config.getEnvironment environment = .ok env)
    (hservice : env.services.lookup name = some service) (himage : service.image ≠ "") :
    ((∀ state, checkOnce config environment (.ok actual) = .ok state → name ∈ state.servicesOK →
        ∃ running, actual.lookup name = some running ∧ SameImage running.image service.image) ↔
      ∀ running, actual.lookup name = some running → service.isJob = false →
        expectedReplicas service ≤ running.replicas →
        (running.image = "" ∨ containsText running.image service.image ∨
          hasPrefix running.image config.project) →
        SameImage running.image service.image) ∧
    ∀ state, checkOnce config environment (.ok actual) = .ok state → service.isJob = false →
      name ∉ state.servicesOK → ∃ report ∈ state.drifts, report.service = name := by
  have hlisted : name ∈ (env.services.entries.filter fun entry =>
      accepts config.project actual entry.1 entry.2).map Sigma.fst ↔
        accepts config.project actual name service := by
    rw [mem_map]
    constructor
    · rintro ⟨⟨found, other⟩, hentry, rfl⟩
      obtain ⟨hmem, haccepted⟩ := mem_filter.mp hentry
      rw [AList.mem_lookup_iff.mpr hmem] at hservice
      cases hservice
      exact haccepted
    · intro haccepted
      exact ⟨⟨name, service⟩, mem_filter.mpr ⟨AList.mem_lookup_iff.mp hservice, haccepted⟩, rfl⟩
  have haccepted : ∀ running : ActualService,
      imageAccepted config.project service.image running.image ↔
      running.image = "" ∨ containsText running.image service.image ∨
        hasPrefix running.image config.project := by
    intro running
    simp [imageAccepted, himage, or_assoc]
  simp only [checkOnce, henv, wrap, bind, Except.bind, Except.ok.injEq, forall_eq', hlisted]
  constructor
  · simp only [accepts_iff, haccepted]
    constructor
    · intro h running hrunning hjob hreplicas himage
      obtain ⟨found, hfound, hsame⟩ := h ⟨running, hrunning, hjob, hreplicas, himage⟩
      rw [hrunning] at hfound
      cases hfound
      exact hsame
    · rintro h ⟨running, hrunning, hjob, hreplicas, himage⟩
      exact ⟨running, hrunning, h running hrunning hjob hreplicas himage⟩
  · intro hjob hnot
    obtain ⟨report, hreport, hname⟩ := reported_of_not_accepted hjob hnot
    refine ⟨report, mem_append_left _ (mem_filterMap.mpr ⟨⟨name, service⟩, ?_, hreport⟩), hname⟩
    exact AList.mem_lookup_iff.mp hservice

end Verdicts

def shop (services : List (String × ServiceConfig)) : Config where
  project := "shop"
  environments := mapOf [("production", { services := mapOf services })]

def web : ServiceConfig := { image := "web:1", replicas := 2 }

theorem shop_services : (shop services).getEnvironment "production" =
    .ok { services := mapOf services } := rfl

theorem converged_web_no_drift : checkOnce (shop [("web", web)]) "production"
    (.ok (mapOf [("web", ⟨"web:1", 2⟩)])) =
    .ok ⟨[], ["web"]⟩ := by
  have hconverged : Converged (mapOf [("web", web)]) (mapOf [("web", ⟨"web:1", 2⟩)]) := by
    constructor
    · intro name service hservice _
      obtain ⟨rfl, rfl⟩ := mapOf_singleton_lookup hservice
      exact ⟨⟨"web:1", 2⟩, rfl, by decide⟩
    · intro name hname
      obtain ⟨running, hrunning⟩ := exists_lookup hname
      obtain ⟨rfl, -⟩ := mapOf_singleton_lookup hrunning
      exact ⟨web, rfl, by decide⟩
  exact (converged_no_drift_iff shop_services hconverged).mpr (by decide +kernel)

def migrate : ServiceConfig := { kind := .run, image := "migrate:1" }

/-- The run has completed and left no container. -/
theorem completed_run_drifts : Converged (mapOf [("migrate", migrate)]) ∅ ∧
    (checkOnce (shop [("migrate", migrate)]) "production" (.ok ∅)).toOption =
      some ⟨[⟨"migrate", .serviceGone, "0 replicas", "service not found", "critical"⟩], []⟩ := by
  refine ⟨⟨?_, ?_⟩, by decide +kernel⟩
  · intro name service hservice hordinary
    obtain ⟨-, rfl⟩ := mapOf_singleton_lookup hservice
    exact absurd hordinary (by decide)
  · intro name hname
    exact absurd hname (AList.notMem_empty name)

/-- The detector reports a service with another tag. -/
theorem retagged_web_noticed : ∃ state, checkOnce (shop [("web", web)]) "production"
    (.ok (mapOf [("web", ⟨"web:2", 2⟩)])) = .ok state ∧ ∃ report ∈ state.drifts,
      report.service = "web" := by
  have hweb : (mapOf [("web", web)]).lookup "web" = some web := rfl
  have hlaw := @image_change_noticed_iff _ (mapOf [("web", ⟨"web:2", 2⟩)]) _ _ _ _
    shop_services hweb (by decide)
  refine ⟨_, rfl, hlaw.2 _ rfl rfl ?_⟩
  intro hlisted
  refine absurd (hlaw.1.mpr ?_ _ rfl hlisted) ?_
  · intro running hrunning _ _ htext
    obtain ⟨-, rfl⟩ := mapOf_singleton_lookup hrunning
    exact absurd htext (by decide +kernel)
  · rintro ⟨running, hrunning, himage⟩
    obtain ⟨-, rfl⟩ := mapOf_singleton_lookup hrunning
    exact absurd (himage.last_eq (by decide)) (by decide)

/-- Another tag is running, whose text contains the configured one. -/
theorem longer_tag_overlooked : ¬ SameImage "web:1.9" "web:1" ∧
    (checkOnce (shop [("web", web)]) "production"
    (.ok (mapOf [("web", ⟨"web:1.9", 2⟩)]))).toOption = some ⟨[], ["web"]⟩ := by
  refine ⟨?_, by decide +kernel⟩
  intro hsame
  exact absurd (hsame.last_eq (by decide)) (by decide)

end DriftDetection
