import Tako.NodeReconcile

/-! # The frame of a reconcile

A reconcile takes away containers of the requested revision only and starts such only, whatever
Docker does to its commands and wherever it stops.
-/
namespace NodeReconcile

open List GoPrelude GoMaps AList
open ResourceNames (hasPrefix)
open DurablePrograms DockerEngine

def requestKeys : List String := ["tako.runtimeId", "tako.persistent", "tako.configHash"]

def containerKeys : List String :=
  ["tako.revision", "tako.deployStrategy", "tako.slot", "tako.active"]

def identityKeys : List String :=
  ["tako.project", "tako.environment", "tako.service", "tako.runtime"]

structure Accepted (req : ReconcileServiceRequest) : Prop where
  revision : req.revision ≠ ""
  request : ∀ key ∈ req.labels, hasPrefix key "tako." → key ∈ requestKeys
  container : ∀ container ∈ req.containers, ∀ key value, container.labels.lookup key = some value →
    hasPrefix key "tako." → key ∈ containerKeys ∧ (key = "tako.revision" → value = req.revision)

theorem checkRequestRuntimeLabel_ok
    (h : checkRequestRuntimeLabel sha256Hex quoted req key value = .ok ())
    (hpre : hasPrefix key "tako.") : key ∈ requestKeys := by
  by_contra hkey
  simp only [requestKeys, mem_cons, not_mem_nil, or_false, not_or] at hkey
  obtain ⟨h1, h2, h3⟩ := hkey
  rw [checkRequestRuntimeLabel, if_neg (by simp [hpre]), if_neg h1, if_neg h2, if_neg h3] at h
  cases h

theorem checkContainerRuntimeLabel_ok (h : checkContainerRuntimeLabel quoted req key value = .ok ())
    (hpre : hasPrefix key "tako.") :
    key ∈ containerKeys ∧ (key = "tako.revision" → value = req.revision) := by
  rw [checkContainerRuntimeLabel, if_neg (by simp [hpre])] at h
  constructor
  · by_contra hkey
    simp only [containerKeys, mem_cons, not_mem_nil, or_false, not_or] at hkey
    obtain ⟨h1, h2, h3, h4⟩ := hkey
    rw [if_neg h1, if_neg h2, if_neg h3, if_neg h4] at h
    cases h
  · intro hkey
    rw [if_pos hkey] at h
    exact require_eq_ok.mp h

theorem validateContainers_ok (h : validateContainers quoted req containers = .ok ()) :
    ∀ container ∈ containers, validateContainerRuntimeLabels quoted req container.labels =
      .ok () := by
  induction containers with
  | nil => simp
  | cons first rest ih =>
    simp only [validateContainers, bind_eq_ok] at h
    obtain ⟨_, -, _, -, _, -, _, -, _, hlabels, _, -, hrest⟩ := h
    exact forall_mem_cons.mpr ⟨hlabels, ih hrest⟩

theorem accepted_of_valid (h : validateReconcileServiceRequest sha256Hex quoted req = .ok ())
    (hscope : takodDeployStrategyUsesRevisionScope
      (normalizeTakodDeployStrategy req.deployStrategy)) :
    Accepted req := by
  simp only [validateReconcileServiceRequest, bind_eq_ok, require_eq_ok, exists_and_left,
    exists_const] at h
  obtain ⟨-, -, -, -, -, -, -, -, -, -, hrev, -, -, _, -, -, _, hcont, _, -, hlabels⟩ := h
  refine ⟨?_, ?_, ?_⟩
  · rcases hrev with hfalse | hrev
    · rw [hscope] at hfalse
      cases hfalse
    · exact hrev
  · intro key hkey hpre
    obtain ⟨value, hvalue⟩ := exists_lookup hkey
    exact checkRequestRuntimeLabel_ok (checkEntries_ok hlabels hvalue) hpre
  · intro container hmem key value hvalue hpre
    exact checkContainerRuntimeLabel_ok
      (checkEntries_ok (validateContainers_ok hcont container hmem) hvalue) hpre

section Labels

variable (hacc : Accepted req) (hmem : container ∈ req.containers)

include hacc hmem

/-- Every reserved key of a started container is one of the known ones, which have no `=`. -/
theorem reserved_serviceLabels (hkey : key ∈ serviceLabels req container)
    (hpre : hasPrefix key "tako.") : '=' ∉ key.toList := by
  have hknown : key ∈ requestKeys ++ containerKeys ++ identityKeys := by
    have hreq := hacc.request key
    have hcont : key ∈ container.labels → key ∈ containerKeys := by
      intro hin
      obtain ⟨value, hvalue⟩ := exists_lookup hin
      exact (hacc.container container hmem key value hvalue hpre).1
    simp only [serviceLabels, mapOf] at hkey
    split_ifs at hkey <;>
      simp only [mem_insert, mem_union, foldr_cons, foldr_nil, notMem_empty] at hkey <;>
      grind [identityKeys, containerKeys]
  have hplain : ∀ known ∈ requestKeys ++ containerKeys ++ identityKeys, '=' ∉ chars known := by
    decide +kernel
  rw [← chars_eq_toList]
  exact hplain key hknown

theorem lookup_startedLabels (hpre : hasPrefix key "tako.")
    (hvalue : (serviceLabels req container).lookup key = some value) :
    (startedLabels imageLabels req container).lookup key = some value := by
  have hin := AList.lookup_isSome.mp (by rw [hvalue]; rfl)
  have hflag : splitLabel (labelFlag key value) = (key, value) :=
    splitLabel_labelFlag (reserved_serviceLabels hacc hmem hin hpre)
  have hargs : ∀ flag, flag ∈ labelArgs req container ↔
      ∃ k ∈ serviceLabels req container,
        labelFlag k (((serviceLabels req container).lookup k).getD "") = flag := by
    intro flag
    simp only [labelArgs, sortStrings, mem_map, mem_insertionSort, AList.mem_keys]
  refine lookup_startLabels (.inr ⟨labelFlag key value, ?_, by rw [hflag]⟩) ?_
  · exact (hargs _).mpr ⟨key, hin, by rw [hvalue]; rfl⟩
  · intro flag hmemflag hkey
    obtain ⟨k, hk, rfl⟩ := (hargs flag).mp hmemflag
    -- the text before the first `=` begins the key, so the key is reserved as well
    have hstart : key.toList <+: k.toList := by
      rw [splitLabel_labelFlag_fst] at hkey
      rw [← hkey, String.toList_ofList]
      exact takeWhile_prefix _
    have hkprefix : hasPrefix k "tako." := by
      simp only [hasPrefix, chars_eq_toList, isPrefixOf_iff_prefix] at hpre ⊢
      exact hpre.trans hstart
    rw [splitLabel_labelFlag (reserved_serviceLabels hacc hmem hk hkprefix)] at hkey ⊢
    dsimp only at hkey ⊢
    rw [hkey, hvalue]
    rfl

theorem lookup_serviceLabels_revision :
    (serviceLabels req container).lookup "tako.revision" = some req.revision := by
  simp only [serviceLabels, if_pos hacc.revision]
  rw [lookup_insert_ne (by decide), lookup_insert_ne (by decide), lookup_insert_ne (by decide),
    lookup_insert_ne (by decide)]
  by_cases hown : "tako.revision" ∈ container.labels
  · obtain ⟨value, hvalue⟩ := exists_lookup hown
    have hsame := (hacc.container container hmem _ value hvalue (by decide +kernel)).2 rfl
    rw [lookup_union_left hown, hvalue, hsame]
  · rw [lookup_union_right hown, lookup_insert]

theorem ofRevision_started (imageLabels : String → StringMap) (id : ℕ) (name : String) :
    ofRevision req ⟨id, name, startedLabels imageLabels req container⟩ := by
  have hproj : (serviceLabels req container).lookup "tako.project" = some req.project := by
    simp [serviceLabels, lookup_insert_ne]
  have henv : (serviceLabels req container).lookup "tako.environment" = some req.environment := by
    simp [serviceLabels, lookup_insert_ne]
  have hsvc : (serviceLabels req container).lookup "tako.service" = some req.service := by
    simp [serviceLabels, lookup_insert_ne]
  have hstarted : ∀ key value, hasPrefix key "tako." →
      (serviceLabels req container).lookup key = some value →
      (startedLabels imageLabels req container).lookup key = some value :=
    fun _ _ => lookup_startedLabels hacc hmem
  simp only [ofRevision, ofService, hstarted _ _ (by decide +kernel) hproj,
    hstarted _ _ (by decide +kernel) henv, hstarted _ _ (by decide +kernel) hsvc,
    hstarted _ _ (by decide +kernel) (lookup_serviceLabels_revision hacc hmem), BEq.rfl,
    Bool.and_self]

end Labels

section Quiet

variable (schedule : ℕ → Outcome)

theorem quiet_outside : Quiet (outside schedule) :=
  quiet_bind (quiet_query schedule) fun _ => quiet_pure _

theorem quiet_report : Quiet (do let _ ← (query schedule).mapError text; pure () :
    Durable Engine Unit) :=
  quiet_bind (quiet_mapError (quiet_query schedule)) fun _ => quiet_pure _

theorem quiet_ensureDockerNetwork : Quiet (ensureDockerNetworkWithLabels schedule network) := by
  refine quiet_bind (quiet_ask schedule) fun result => ?_
  cases result with
  | ok _ => exact quiet_pure _
  | error => exact quiet_report schedule

theorem quiet_prepareNetworkAttachments :
    Quiet (prepareNetworkAttachments schedule attachments) := by
  induction attachments with
  | nil => exact quiet_pure _
  | cons attachment rest ih =>
    refine quiet_bind (quiet_ite ?_ ?_ : Quiet (prepareNetworkAttachment schedule attachment))
      fun _ => ih
    · exact quiet_ensureDockerNetwork schedule
    · exact quiet_report schedule

theorem quiet_connectContainerNetworks :
    Quiet (connectContainerNetworks schedule name attachments) := by
  induction attachments with
  | nil => exact quiet_pure _
  | cons attachment rest ih => exact quiet_bind (quiet_mapError (quiet_query schedule)) fun _ => ih

theorem quiet_waitLoop (health : Option HealthSpec) (lastErr : String) :
    Quiet (waitLoop schedule name health attempts lastErr) := by
  induction attempts generalizing lastErr with
  | zero => exact quiet_bind (quiet_ask schedule) fun _ => quiet_fail _
  | succ attempts ih =>
    refine quiet_bind (quiet_mapError (quiet_query schedule)) fun running =>
      quiet_ite ?_ (quiet_ite ?_ ?_)
    · exact quiet_bind (quiet_query schedule) fun _ => ih _
    · exact quiet_pure _
    · refine quiet_bind (quiet_ask schedule) fun ready => ?_
      cases ready with
      | ok _ => exact quiet_pure _
      | error => exact quiet_bind (quiet_query schedule) fun _ => ih _

end Quiet

section Removal

variable {I : Engine → Prop}

theorem holds_selectByRevision (hI : ∀ w, Same e w → I w) :
    Holds (selectByRevision schedule jsonSize shouldRemove words) e I fun filtered w =>
      Same e w ∧ none ∉ words ∧ ∀ c ∈ e.containers, c.id ∈ filtered ↔
        some c.id ∈ words ∧ shouldRemove (revisionLabel (parseDockerLabels jsonSize c.labels)) := by
  induction words generalizing e with
  | nil => exact holds_ok ⟨Same.refl e, by simp, by simp⟩
  | cons word rest ih =>
    cases word with
    | none => exact holds_fail
    | some id =>
      refine holds_bind (holds_mapError ((holds_inspectLabels schedule id hI).post ?_))
      rintro labels w ⟨hw, found, hfound, rfl, rfl⟩
      refine holds_seq (ih fun w' hw' => hI w' (hw.trans hw')) ?_
      rintro filtered w' ⟨hw', hnotice, hfiltered⟩
      refine holds_ok ⟨hw.trans hw', by simpa using hnotice, ?_⟩
      intro c hc
      have hrest := hfiltered c (hw.containers ▸ hc)
      by_cases hid : c.id = found.id
      · obtain rfl := Engine.eq_of_id hc hfound hid
        split <;> simp_all
      · split <;> simp_all

def readable (jsonSize : StringMap → ℕ) (req : ReconcileServiceRequest) (c : Container) : Bool :=
  ofRevision req c && decide (Legible jsonSize c.labels)

theorem readable_iff (hrev : req.revision ≠ "") :
    readable jsonSize req c ↔ ofService req.project req.environment req.service c ∧
      (revisionLabel (parseDockerLabels jsonSize c.labels) == req.revision) := by
  have hread : revisionLabel (parseDockerLabels jsonSize c.labels) = req.revision ↔
      Legible jsonSize c.labels ∧ c.labels.lookup "tako.revision" = some req.revision := by
    unfold parseDockerLabels revisionLabel
    split_ifs with hlegible
    · cases hlabel : c.labels.lookup "tako.revision" with
      | none => simp [Ne.symm hrev]
      | some => simp [hlegible]
    · simp [hlegible, Ne.symm hrev]
  simp only [readable, ofRevision, Bool.and_eq_true, beq_iff_eq, decide_eq_true_eq, hread]
  tauto

theorem listedWords_of_notice (h : none ∉ listedWords ids) : listedWords ids = ids.map some := by
  unfold listedWords at h ⊢
  split_ifs with hfits
  · rfl
  · simp [hfits] at h

theorem holds_removeContainerIDs
    (hI : ∀ w taken, (∀ c, taken c → c.id ∈ ids) → Removed taken e w → I w) :
    Holds (removeContainerIDs schedule ids) e I fun _ =>
      Removed (fun c => decide (c.id ∈ ids)) e := by
  unfold removeContainerIDs
  split_ifs with hids
  · subst hids
    exact holds_ok ⟨by simp, rfl⟩
  · refine holds_bind (holds_mapError ((holds_remove schedule _ ?_).post ?_))
    · intro w taken htaken hw
      exact hI w taken (fun c hc => of_decide_eq_true (htaken c hc)) hw
    · intro _ w hw
      exact holds_ok hw

/-- For a strategy with revision scope the removal takes readable containers of the revision
only, and all of them if it succeeds. -/
theorem holds_removeForReconcile (hscope : takodDeployStrategyUsesRevisionScope strategy)
    (hrev : req.revision ≠ "")
    (hI : ∀ w taken, (∀ c ∈ e.containers, taken c → readable jsonSize req c) → Removed taken e w →
      I w) :
    Holds (removeServiceContainersForReconcile schedule jsonSize req strategy) e I fun _ =>
      Removed (readable jsonSize req) e := by
  have hsame : ∀ w, Same e w → I w := by
    intro w hw
    exact hI w (fun _ => false) (fun _ _ h => by cases h) ⟨by simpa using hw.containers, hw.nextID⟩
  rw [removeServiceContainersForReconcile, if_pos hscope, removeServiceContainersMatchingRevision,
    if_neg hrev]
  refine holds_bind ((holds_bind (holds_mapError ((holds_listIDs schedule _ hsame).post ?_))))
  rintro ids w ⟨hw, rfl⟩
  refine holds_ok
    (holds_bind ((holds_selectByRevision fun w' hw' => hsame w' (hw.trans hw')).post ?_))
  rintro filtered w' ⟨hw', hnotice, hfiltered⟩
  have hcont := (hw.trans hw').containers
  have hsel : ∀ c ∈ e.containers, c.id ∈ filtered ↔ readable jsonSize req c := by
    intro c hc
    rw [hfiltered c (hw.containers ▸ hc), readable_iff hrev, listedWords_of_notice hnotice]
    refine and_congr_left fun _ => ?_
    simp only [mem_map, mem_filter, Option.some.injEq, exists_eq_right]
    constructor
    · rintro ⟨other, ⟨hother, hlabelled⟩, hid⟩
      rwa [← Engine.eq_of_id hother hc hid]
    · intro hlabelled
      exact ⟨c, ⟨hc, hlabelled⟩, rfl⟩
  refine (holds_removeContainerIDs ?_).post ?_
  · intro w'' taken htaken hw''
    refine hI w'' taken (fun c hc hct => (hsel c hc).mp (htaken c hct)) ⟨?_, ?_⟩
    · rw [hw''.containers, hcont]
    · rw [hw''.nextID, (hw.trans hw').nextID]
  · intro _ w'' hw''
    refine ⟨?_, by rw [hw''.nextID, (hw.trans hw').nextID]⟩
    rw [hw''.containers, hcont]
    refine filter_congr fun c hc => ?_
    rw [Bool.eq_iff_iff.mpr (decide_eq_true_iff.trans (hsel c hc))]

end Removal

section Frame

/-- Relative to the containers `before`, only containers of the requested revision are missing,
and only such are new. -/
structure Framed (req : ReconcileServiceRequest) (before : List Container) (w : Engine) : Prop where
  kept : ∀ c ∈ before, ofRevision req c = false → c ∈ w.containers
  added : ∀ c ∈ w.containers, c ∉ before → ofRevision req c

theorem Framed.refl (req : ReconcileServiceRequest) (e : Engine) : Framed req e.containers e :=
  ⟨fun _ h _ => h, fun _ h hnot => absurd h hnot⟩

theorem Framed.same (h : Framed req before e) (hw : Same e w) : Framed req before w :=
  ⟨hw.containers ▸ h.kept, hw.containers ▸ h.added⟩

theorem Framed.removed (h : Framed req before e) (hw : Removed taken e w)
    (htaken : ∀ c ∈ e.containers, taken c → ofRevision req c) : Framed req before w := by
  constructor
  · intro c hc hother
    have hmem := h.kept c hc hother
    rw [hw.containers]
    refine mem_filter.mpr ⟨hmem, ?_⟩
    cases ht : taken c with
    | false => rfl
    | true =>
      rw [htaken c hmem ht] at hother
      cases hother
  · intro c hc hnew
    rw [hw.containers] at hc
    exact h.added c (mem_of_mem_filter hc) hnew

theorem Framed.started (h : Framed req before e) (hw : Started name labels e w)
    (hown : ofRevision req ⟨e.nextID, name, labels⟩) : Framed req before w := by
  constructor
  · intro c hc hother
    rw [hw.containers]
    exact mem_append_left _ (h.kept c hc hother)
  · intro c hc hnew
    rw [hw.containers] at hc
    rcases mem_append.mp hc with hc | hc
    · exact h.added c hc hnew
    · rw [mem_singleton.mp hc]
      exact hown

/-- The names started so far belong to containers of the revision, so they may be removed. -/
structure Cleanable (req : ReconcileServiceRequest) (before : List Container)
    (started : List String) (w : Engine) :
    Prop where
  framed : Framed req before w
  own : ∀ c ∈ w.containers, c.name ∈ started → ofRevision req c

theorem Cleanable.same (h : Cleanable req before started e) (hw : Same e w) :
    Cleanable req before started w :=
  ⟨h.framed.same hw, hw.containers ▸ h.own⟩

theorem Cleanable.removed {started : List String} (h : Cleanable req before started e)
    (hw : Removed taken e w) (htaken : ∀ c, taken c → c.name ∈ started) :
    Cleanable req before started w := by
  refine ⟨h.framed.removed hw fun c hc ht => h.own c hc (htaken c ht), ?_⟩
  intro c hc hname
  rw [hw.containers] at hc
  exact h.own c (mem_of_mem_filter hc) hname

theorem Cleanable.started {started : List String} (h : Cleanable req before started e)
    (hw : Started name labels e w) (hown : ofRevision req ⟨e.nextID, name, labels⟩) :
    Cleanable req before (started ++ [name]) w := by
  refine ⟨h.framed.started hw hown, ?_⟩
  intro c hc hname
  rw [hw.containers] at hc
  rcases mem_append.mp hc with hc | hc
  · rcases mem_append.mp hname with hname | hname
    · exact h.own c hc hname
    · -- the new name was free, so no old container has it
      have hused := mem_map.mpr ⟨c, hc, mem_singleton.mp hname⟩
      exact absurd hused hw.free
  · rw [mem_singleton.mp hc]
    exact hown

theorem holds_orCleanUp {Q : Unit → Engine → Prop}
    (hstep : Holds step e (Cleanable req before started) Q) (he : Cleanable req before started e) :
    Holds (orCleanUp schedule started step) e (Framed req before) Q := by
  refine Holds.weaken (holds_recover hstep he ?_) (fun _ h => h.framed) fun _ _ h => h
  intro cause d hd
  refine holds_bind (holds_mapError ?_)
  unfold cleanupStartedContainers
  split_ifs with hempty
  · exact holds_ok holds_fail
  · refine holds_mapError ((holds_remove schedule _ ?_).post fun _ _ _ => holds_fail)
    intro w taken htaken hw
    exact hd.removed hw fun c hc => of_decide_eq_true (htaken c hc)

structure Requested (imageLabels : String → StringMap) (req : ReconcileServiceRequest)
    (before : List Container) (c : Container) (spec : ContainerSpec) : Prop where
  fresh : c ∉ before
  name : c.name = spec.name
  labels : c.labels = startedLabels imageLabels req spec

/-- The state of the start loop: of the revision there are the containers that were left over and,
for each container started so far, the one that was asked for. -/
structure Progress (imageLabels : String → StringMap) (req : ReconcileServiceRequest)
    (first : Engine) (leftovers : List Container) (done : List ContainerSpec) (w : Engine) :
    Prop where
  cleanable : Cleanable req first.containers (done.map ContainerSpec.name) w
  nextID : first.nextID ≤ w.nextID
  selected : ∃ new, w.containers.filter (ofRevision req) = leftovers ++ new ∧
    List.Forall₂ (Requested imageLabels req first.containers) new done

theorem Progress.same (h : Progress imageLabels req first leftovers done e) (hw : Same e w) :
    Progress imageLabels req first leftovers done w :=
  ⟨h.cleanable.same hw, hw.nextID ▸ h.nextID, hw.containers ▸ h.selected⟩

theorem Progress.started (h : Progress imageLabels req first leftovers done e)
    (hw : Started container.name (startedLabels imageLabels req container) e w)
    (hown : ofRevision req ⟨e.nextID, container.name, startedLabels imageLabels req container⟩) :
    Progress imageLabels req first leftovers (done ++ [container]) w := by
  refine ⟨?_, ?_, ?_⟩
  · rw [map_append]
    exact h.cleanable.started hw hown
  · rw [hw.nextID]
    exact Nat.le_succ_of_le h.nextID
  · obtain ⟨new, hnew, hreq⟩ := h.selected
    refine ⟨new ++ [⟨e.nextID, container.name, startedLabels imageLabels req container⟩], ?_, ?_⟩
    · rw [hw.containers, filter_append, hnew, filter_singleton, hown, cond_true, append_assoc]
    · exact rel_append hreq (.cons ⟨Engine.new_notMem h.nextID, rfl, rfl⟩ .nil)

/-- The loop keeps its state over every container it starts, by induction on those left. -/
theorem holds_startContainers (hacc : Accepted req) (hrest : ∀ spec ∈ rest, spec ∈ req.containers)
    (he : Progress imageLabels req first leftovers done e) :
    Holds (startContainers schedule imageLabels req attachments (done.map ContainerSpec.name) rest)
      e (Framed req first.containers) fun _ =>
        Progress imageLabels req first leftovers (done ++ rest) := by
  induction rest generalizing done e with
  | nil => exact holds_ok (by rwa [append_nil])
  | cons container rest ih =>
    have hown := fun id =>
      ofRevision_started hacc (hrest container mem_cons_self) imageLabels id container.name
    refine holds_bind (holds_orCleanUp
      (holds_mapError ((holds_run schedule _ _ ?_ ?_).post ?_)) he.cleanable)
    · intro w
      exact he.cleanable.same
    · intro w hw
      refine ⟨he.cleanable.framed.started hw (hown _), ?_⟩
      intro c hc hname
      exact (he.cleanable.started hw (hown _)).own c hc (mem_append_left _ hname)
    · intro _ w hw
      have hstarted := he.started hw (hown _)
      have hnames : done.map ContainerSpec.name ++
          [container.name] = (done ++ [container]).map ContainerSpec.name := by
        rw [map_append, map_singleton]
      rw [hnames]
      refine holds_bind (holds_orCleanUp (((quiet_connectContainerNetworks schedule).holds
        fun w' hw' => hstarted.cleanable.same hw').post ?_) hstarted.cleanable)
      intro _ w₁ hw₁
      have hconnected := hstarted.same hw₁
      refine holds_bind (holds_orCleanUp (((quiet_waitLoop schedule _ _).holds
        fun w' hw' => hconnected.cleanable.same hw').post ?_) hconnected.cleanable)
      intro _ w₂ hw₂
      have hnext := ih (fun spec hspec => hrest spec (mem_cons_of_mem _ hspec))
        (hconnected.same hw₂)
      rwa [append_assoc] at hnext

def leftOver (jsonSize : StringMap → ℕ) (req : ReconcileServiceRequest)
    (containers : List Container) : List Container :=
  containers.filter fun c => ofRevision req c && !decide (Legible jsonSize c.labels)

theorem filter_removed (hw : Removed (readable jsonSize req) e w) :
    w.containers.filter (ofRevision req) = leftOver jsonSize req e.containers := by
  rw [hw.containers, filter_filter]
  refine filter_congr fun c _ => ?_
  cases hown : ofRevision req c <;> simp [readable, hown]

theorem Framed.removedReadable (hw : Removed taken e w)
    (htaken : ∀ c ∈ e.containers, taken c → readable jsonSize req c) : Framed req e.containers w :=
  (Framed.refl req e).removed hw fun c hc ht => ((Bool.and_eq_true _ _).mp (htaken c hc ht)).1

theorem holds_reconcileService
    (hvalid : validateReconcileServiceRequest sha256Hex quoted req = .ok ())
    (hscope : takodDeployStrategyUsesRevisionScope
      (normalizeTakodDeployStrategy req.deployStrategy)) :
    Holds (reconcileService schedule jsonSize imageLabels sha256Hex quoted req) e
      (Framed req e.containers)
      fun _ w => ∃ new, w.containers.filter (ofRevision req) = leftOver jsonSize req e.containers ++
        new ∧
        List.Forall₂ (Requested imageLabels req e.containers) new req.containers := by
  have hacc := accepted_of_valid hvalid hscope
  have hremoval : ∀ w, Same e w → Holds (removeServiceContainersForReconcile schedule jsonSize req
      (normalizeTakodDeployStrategy req.deployStrategy)) w (Framed req e.containers) fun _ =>
        Removed (readable jsonSize req) w := by
    intro w hw
    refine holds_removeForReconcile hscope hacc.revision ?_
    intro w' taken htaken hw'
    rw [← hw.containers]
    exact Framed.removedReadable hw' htaken
  have hquiet : ∀ w, Same e w → Framed req e.containers w := fun w hw => (Framed.refl req e).same hw
  refine holds_guard fun _ _ => ?_
  refine holds_bind (((quiet_ite (quiet_outside schedule) (quiet_pure ()) :
    Quiet (provideServiceFiles schedule req)).holds hquiet).post ?_)
  intro _ w hw
  split_ifs with hnone
  · refine holds_seq (hremoval w hw) ?_
    intro removed w' hw'
    refine holds_ok ⟨[], ?_, by rw [hnone]; exact .nil⟩
    rw [filter_removed hw', hw.containers, append_nil]
  · refine holds_bind (((quiet_ensureDockerNetwork schedule).holds
      fun w' hw' => hquiet w' (hw.trans hw')).post ?_)
    intro _ w₁ hw₁
    have hs₁ := hw.trans hw₁
    refine holds_bind (((quiet_prepareNetworkAttachments schedule).holds
      fun w' hw' => hquiet w' (hs₁.trans hw')).post ?_)
    intro _ w₂ hw₂
    have hs₂ := hs₁.trans hw₂
    refine holds_bind (((quiet_outside schedule).holds fun w' hw' => hquiet w' (hs₂.trans hw')).post
      ?_)
    intro _ w₃ hw₃
    have hs₃ := hs₂.trans hw₃
    refine holds_seq (hremoval w₃ hs₃) ?_
    intro removed w₄ hw₄
    have hframed : Framed req e.containers w₄ := by
      rw [← hs₃.containers]
      exact Framed.removedReadable hw₄ fun _ _ h => h
    have hprogress : Progress imageLabels req e (leftOver jsonSize req e.containers) [] w₄ := by
      refine ⟨⟨hframed, by simp⟩, by rw [hw₄.nextID, hs₃.nextID], [], ?_, .nil⟩
      rw [filter_removed hw₄, hs₃.containers, append_nil]
    refine holds_bind (((quiet_outside schedule).holds
      fun w' hw' => (hprogress.same hw').cleanable.framed).post ?_)
    intro _ w₅ hw₅
    have hprogress₅ := hprogress.same hw₅
    refine holds_bind (((quiet_ite (quiet_report schedule) (quiet_pure ()) :
      Quiet (pullServiceImage schedule req)).holds
        fun w' hw' => (hprogress₅.same hw').cleanable.framed).post ?_)
    intro _ w₆ hw₆
    refine holds_bind ((holds_startContainers hacc (fun _ h => h)
      (hprogress₅.same hw₆)).post ?_)
    intro started w₇ hw₇
    exact holds_ok hw₇.selected

end Frame

/-- Wherever a reconcile stops and whatever Docker does to its commands, it has removed containers
of the requested revision only and has started such only. When it succeeds, the containers of the
revision are the requested ones if and only if the labels of those it found could be read. -/
theorem reconcile_touches_own_revision (schedule : ℕ → Outcome) (jsonSize : StringMap → ℕ)
    (imageLabels : String → StringMap) (sha256Hex quoted : String → String)
    (req : ReconcileServiceRequest)
    (hvalid : validateReconcileServiceRequest sha256Hex quoted req = .ok ())
    (hscope : takodDeployStrategyUsesRevisionScope
      (normalizeTakodDeployStrategy req.deployStrategy))
    (e : Engine) (stop : Stop) :
    let call := reconcileService schedule jsonSize imageLabels sha256Hex quoted req
    let after := (call.disk e stop).containers
    (∀ c ∈ e.containers, ofRevision req c = false → c ∈ after) ∧
    (∀ c ∈ after, c ∉ e.containers → c.labels.lookup "tako.project" = some req.project ∧
      c.labels.lookup "tako.environment" = some req.environment ∧
      c.labels.lookup "tako.service" = some req.service ∧
        c.labels.lookup "tako.revision" = some req.revision) ∧
    ∀ response, call.answer e stop = some (.ok response) →
      (List.Forall₂ (Requested imageLabels req e.containers)
        (after.filter (ofRevision req)) req.containers ↔
        ∀ c ∈ e.containers, ofRevision req c → Legible jsonSize c.labels) := by
  have hholds : Holds (reconcileService schedule jsonSize imageLabels sha256Hex quoted req) e _ _ :=
    holds_reconcileService hvalid hscope
  have hframed := hholds.disk (Framed.refl req e) stop
  refine ⟨hframed.kept, ?_, ?_⟩
  · intro c hc hnew
    have hown := hframed.added c hc hnew
    simpa only [ofRevision, ofService, Bool.and_eq_true, beq_iff_eq, and_assoc] using hown
  · intro response hresponse
    obtain ⟨new, hselected, hrequested⟩ := hholds.answer hresponse
    have hempty : leftOver jsonSize req e.containers = [] ↔
        ∀ c ∈ e.containers, ofRevision req c → Legible jsonSize c.labels := by
      simp [leftOver, filter_eq_nil_iff]
    rw [hselected, ← hempty]
    constructor
    · intro hall
      have hlength := hall.length_eq
      rw [length_append, hrequested.length_eq] at hlength
      exact length_eq_zero_iff.mp (by omega)
    · intro hnone
      rw [hnone]
      exact hrequested

/-- The size of a label map in JSON, for texts without characters to escape. -/
def plainJsonSize (labels : StringMap) : ℕ :=
  1 + (labels.entries.map fun entry => entry.1.utf8ByteSize + entry.2.utf8ByteSize + 6).sum

def allWell : ℕ → Outcome := fun _ => ⟨none, "true", fun _ => false, false⟩

def webLabels (service revision : String) : StringMap :=
  mapOf [("tako.project", "shop"), ("tako.environment", "prod"), ("tako.service", service),
    ("tako.revision", revision)]

def webRequest (containers : List ContainerSpec) : ReconcileServiceRequest where
  project := "shop"
  environment := "prod"
  service := "web"
  revision := "r2"
  deployStrategy := "rolling"
  image := "web:2"
  pullImage := true
  network := "shop_prod"
  networkAlias := ""
  networkAttachments := []
  envFileContent := ""
  labels := mapOf [("team", "core")]
  fileSetID := ""
  containers := containers
  health := none

def webContainer : ContainerSpec :=
  ⟨"web_1", [], [], mapOf [("note=tako.revision", "r1"), ("tako.slot", "1")]⟩

def webEngine : Engine where
  containers := [⟨0, "web_0", webLabels "web" "r1"⟩, ⟨1, "web_1", webLabels "web" "r2"⟩,
    ⟨2, "db_1", webLabels "db" "r2"⟩]
  nextID := 3
  commands := 0
  ids_lt := by simp
  ids_nodup := by decide
  names_nodup := by decide

theorem rolling_web_reconciled :
    let call := reconcileService allWell plainJsonSize (fun _ => ∅) id id
      (webRequest [webContainer])
    call.answer webEngine .returns = some (.ok ⟨"shop", "prod", "web", ["web_1"], 1⟩) ∧
    List.Forall₂ (Requested (fun _ => ∅) (webRequest [webContainer]) webEngine.containers)
      ((call.disk webEngine .returns).containers.filter (ofRevision (webRequest [webContainer])))
        [webContainer] := by
  have hanswer :
      (reconcileService allWell plainJsonSize (fun _ => ∅) id id (webRequest [webContainer])).answer
      webEngine .returns = some (.ok ⟨"shop", "prod", "web", ["web_1"], 1⟩) := by decide +kernel
  have htouched := reconcile_touches_own_revision allWell plainJsonSize (fun _ => ∅) id id
    (webRequest [webContainer]) (by decide +kernel) (by decide +kernel) webEngine .returns
  exact ⟨hanswer, (htouched.2.2 _ hanswer).mpr (by decide +kernel)⟩

def annotatedEngine (note : String) : Engine where
  containers := [⟨0, "web_1", (webLabels "web" "r2").insert "note" note⟩]
  nextID := 1
  commands := 0
  ids_lt := by simp
  ids_nodup := by simp
  names_nodup := by simp

theorem annotated_illegible (h : 2 ^ 20 ≤ note.utf8ByteSize) :
    ¬ Legible plainJsonSize ((webLabels "web" "r2").insert "note" note) := by
  have hentries : ((webLabels "web" "r2").insert "note" note).entries =
      ⟨"note", note⟩ :: (webLabels "web" "r2").entries := by
    refine entries_insert_of_notMem ?_
    decide +kernel
  simp only [Legible, plainJsonSize, hentries, map_cons, sum_cons, defaultCommandOutputMaxBytes]
  omega

/-- Nothing is asked for, the container found is not recognised, and the call succeeds. -/
theorem annotated_reconcile (h : 2 ^ 20 ≤ note.utf8ByteSize) :
    (reconcileService allWell plainJsonSize (fun _ => ∅) id id (webRequest [])).run
      (annotatedEngine note) =
      (.ok ⟨"shop", "prod", "web", [], 0⟩, { annotatedEngine note with commands := 2 }) := by
  have hfiles : (provideServiceFiles allWell (webRequest [])).run (annotatedEngine note) =
      (.ok (), annotatedEngine note) := rfl
  have hlist : (listServiceContainers allWell "shop" "prod" "web").run (annotatedEngine note) =
      (.ok [some 0], { annotatedEngine note with commands := 1 }) := rfl
  have hinspect : ((inspectLabels allWell 0).mapError fun cause =>
      s!"failed to inspect old service container {0} labels: {cause}").run
        { annotatedEngine note with commands := 1 } =
      (.ok ((webLabels "web" "r2").insert "note" note),
        { annotatedEngine note with commands := 2 }) := rfl
  have hselect : (selectByRevision allWell plainJsonSize (fun r => r == "r2") [some 0]).run
      { annotatedEngine note with commands := 1 } =
        (.ok [], { annotatedEngine note with commands := 2 }) := by
    rw [selectByRevision, run_bind_ok hinspect]
    have hnotice : (revisionLabel (parseDockerLabels plainJsonSize
        ((webLabels "web" "r2").insert "note" note)) ==
        "r2") = false := by
      rw [parseDockerLabels, if_neg (annotated_illegible h)]
      rfl
    rw [hnotice]
    rfl
  have hremove : (removeServiceContainersForReconcile allWell plainJsonSize (webRequest [])
      (normalizeTakodDeployStrategy (webRequest []).deployStrategy)).run (annotatedEngine note) =
      (.ok 0, { annotatedEngine note with commands := 2 }) := by
    have hscope : takodDeployStrategyUsesRevisionScope
        (normalizeTakodDeployStrategy (webRequest []).deployStrategy) := by decide +kernel
    rw [removeServiceContainersForReconcile, if_pos hscope, removeServiceContainersMatchingRevision]
    exact (run_bind_ok hlist).trans ((run_bind_ok hselect).trans rfl)
  rw [reconcileService]
  refine (run_bind_ok hfiles).trans ?_
  exact (run_bind_ok hremove).trans rfl

theorem exists_long_note : ∃ note : String, size ≤ note.utf8ByteSize := by
  induction size with
  | zero => exact ⟨"", Nat.zero_le _⟩
  | succ size ih =>
    obtain ⟨note, hnote⟩ := ih
    refine ⟨note ++ "x", ?_⟩
    rw [String.utf8ByteSize_append]
    exact Nat.add_le_add hnote (by decide)

theorem unreadable_container_survives : ∃ note : String,
      let call := reconcileService allWell plainJsonSize (fun _ => ∅) id id (webRequest [])
      validateReconcileServiceRequest id id (webRequest []) = .ok () ∧
      call.answer (annotatedEngine note) .returns = some (.ok ⟨"shop", "prod", "web", [], 0⟩) ∧
      ((call.disk (annotatedEngine note) .returns).containers.filter
        (ofRevision (webRequest []))).length = 1 ∧
      (webRequest []).containers = [] := by
  obtain ⟨note, hsize⟩ := exists_long_note
  have hrun := annotated_reconcile hsize
  refine ⟨note, by decide +kernel, ?_, ?_, rfl⟩
  · exact congrArg (fun r => some r.1) hrun
  · have hdisk : (Durable.disk _ (annotatedEngine note) .returns : Engine) = _ :=
      congrArg Prod.snd hrun
    rw [hdisk]
    rfl

end NodeReconcile
