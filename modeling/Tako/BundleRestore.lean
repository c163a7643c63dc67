import Tako.BundleVerification

/-! # Where a restore creates entries

A file system goes up from where a link has led, the checks from its text. If no link lies below an
earlier one and no target steps up after it has come to a link, both stay in the directory of the
restore, wherever the extraction stops.
-/
namespace RecoveryBundle

open List GoPrelude GoTexts DurablePrograms DirectoryTrees

def linkEntries (m : Manifest) : List Entry := m.entries.filter fun e => e.mode.isSymlink

def linkSites (m : Manifest) : List (List Text) := (linkEntries m).map fun e => split e.path

structure LinksApart (m : Manifest) : Prop where
  /-- No link lies below an earlier one. -/
  apart : (linkEntries m).Pairwise fun earlier later =>
    ¬ split earlier.path <+: (split later.path).dropLast
  /-- No target steps up after it has come to a link. -/
  straight : ∀ e ∈ linkEntries m, straight (linkSites m) (split e.path).dropLast (pathSteps e.link)

theorem local_of_safe (h : safeArchivePath t) : Local t := by
  simp only [safeArchivePath, Bool.and_eq_true, bne_iff_ne, ne_eq, Bool.not_eq_true',
    beq_iff_eq] at h
  obtain ⟨⟨⟨⟨⟨⟨⟨-, -⟩, hdot⟩, hrooted⟩, -⟩, hclean⟩, hdotdot⟩, hup⟩ := h
  rw [hclean] at hdotdot hup
  refine local_of_clean hrooted hclean hdot hdotdot ?_
  rw [← isPrefixOf_iff_prefix, hup]
  exact Bool.false_ne_true

theorem safeArchiveLink_spec (h : safeArchiveLink name target root) : isRooted target = false ∧
      (clean (joinPath (dir name) target) = root ∨
        (root ++ [slash]) <+: clean (joinPath (dir name) target)) := by
  simp only [safeArchiveLink, Bool.and_eq_true, Bool.or_eq_true, Bool.not_eq_true', beq_iff_eq,
    isPrefixOf_iff_prefix] at h
  exact ⟨h.1.1.2, h.2⟩

/-- A path that is resolved by its text without a step too many, and is straight, keeps to the rule.
-/
theorem tame_of_straight {elements location : List Text} (hlocation : dotdot ∉ location)
    (hslash : ∀ e ∈ elements, slash ∉ e)
    (hstraight : straight sites location (elements.filterMap elementStep))
    (hresolved : dotdot ∉ elements.foldl (pushElement false) location.reverse) :
    Tame sites location (elements.filterMap elementStep) := by
  induction elements generalizing location with
  | nil => simp [Tame]
  | cons e rest ih =>
    have hrest : ∀ other ∈ rest, slash ∉ other := fun other hother =>
      hslash other (mem_cons_of_mem _ hother)
    rw [foldl_cons] at hresolved
    rcases element_cases (hslash e mem_cons_self) with hskip | rfl | hproper
    · rw [pushElement_skipped hskip] at hresolved
      have hnone : elementStep e = none := by rw [elementStep, if_pos hskip]
      rw [filterMap_cons_none hnone] at hstraight ⊢
      exact ih hlocation hrest hstraight hresolved
    · rw [pushElement_dotdot] at hresolved
      have hparent : elementStep dotdot = some .parent := by decide
      rw [filterMap_cons_some hparent] at hstraight ⊢
      rcases eq_nil_or_concat location with rfl | ⟨parents, last, rfl⟩
      · exact absurd (dotdot_mem_foldl mem_cons_self hrest) hresolved
      · rw [concat_eq_append] at hlocation hstraight hresolved ⊢
        rw [mem_append, not_or, mem_singleton] at hlocation
        rw [reverse_append, reverse_singleton, singleton_append, climb,
          if_neg fun heq => hlocation.2 heq.symm] at hresolved
        rw [straight, dropLast_concat] at hstraight
        exact tame_parent (ih hlocation.1 hrest hstraight hresolved)
    · rw [pushElement_proper hproper] at hresolved
      have hname : elementStep e = some (.name e) := by
        rw [elementStep, if_neg (not_or.mpr ⟨hproper.nonempty, hproper.not_dot⟩),
          if_neg hproper.not_dotdot]
      rw [filterMap_cons_some hname] at hstraight ⊢
      by_cases hsite : location ++ [e] ∈ sites
      · simp only [straight, hsite, if_true, decide_eq_true_eq] at hstraight
        simp only [Tame, hsite, if_true]
        exact hstraight
      · simp only [straight, hsite, if_false] at hstraight
        simp only [Tame, hsite, if_false]
        refine ih ?_ hrest hstraight ?_
        · intro hmem
          rcases mem_append.mp hmem with hmem | hmem
          · exact hlocation hmem
          · exact hproper.not_dotdot (mem_singleton.mp hmem).symm
        · rwa [reverse_append, reverse_singleton, singleton_append]

theorem tame_of_expected (hapart : LinksApart m) (hroots : ∀ root ∈ m.roots, safeArchivePath root)
    {e : Entry} (he : e ∈ linkEntries m) (hsafe : safeArchivePath e.path)
    (hroot : matchingArchiveRoot e.path m.roots ≠ [])
    (hlink : safeArchiveLink e.path e.link (matchingArchiveRoot e.path m.roots)) :
    isRooted e.link = false ∧ Tame (linkSites m) (split e.path).dropLast (pathSteps e.link) := by
  obtain ⟨hrooted, hbelow⟩ := safeArchiveLink_spec hlink
  have hpath := local_of_safe hsafe
  have hmem := ((matchingArchiveRoot_spec e.path m.roots).1).resolve_left hroot
  have hsplit := (dropLast_append_getLast (split_ne_nil e.path)).symm
  have hresolved := proper_of_below hpath hsplit (local_of_safe (hroots _ hmem)) hbelow
  refine ⟨hrooted, tame_of_straight ?_ split_no_slash (hapart.straight e he) ?_⟩
  · intro hdotdot
    exact (hpath dotdot (mem_of_mem_dropLast hdotdot)).not_dotdot rfl
  · intro hdotdot
    exact (hresolved dotdot hdotdot).not_dotdot rfl

section Extract

variable {δ : Type} {F : Formats δ}

theorem holds_createEntry (hnode : ∀ absolute target, node ≠ .link absolute target)
    (h : Kept sites stood w) :
    Holds (createEntry schedule links node elements) w (Sound sites) fun _ => Kept sites stood := by
  cases elements with
  | nil => exact holds_ok h
  | cons =>
    refine holds_seq (holds_mkdirAll h) ?_
    intro _ v hv
    exact holds_createWith_plain hv hnode

theorem holds_extractEntry (h : Kept sites stood w) :
    Holds (extractEntry schedule links true entry) w (Sound sites) fun _ v =>
      Kept sites stood v ∧ (entry.mode.isRegular → entry.truncated = false) := by
  by_cases hregular : entry.mode.isRegular
  · rw [extractEntry, if_pos hregular, extractFile]
    refine holds_seq (holds_createEntry (by simp) h) ?_
    intro _ v hv
    exact holds_check fun _ hcomplete => ⟨hv, fun _ => require_eq_ok.mp hcomplete⟩
  · rw [extractEntry, if_neg hregular]
    split_ifs
    · exact (holds_mkdirAll h).post fun _ _ hv => ⟨hv, fun hreg => absurd hreg hregular⟩
    · exact holds_ok ⟨h, fun hreg => absurd hreg hregular⟩

/-- What the verdict depends on. -/
def Scan.plain (s : Scan) : Scan := { s with extractedModes := ∅ }

theorem holds_readHeader (header : TarEntry δ) (h : Kept sites stood w) :
    Holds (readHeader F schedule links true s header) w (Sound sites) fun t v =>
      Kept sites stood v ∧ scanHeader F s.plain header = .ok t.plain := by
  refine holds_guard fun _ hcount => ?_
  unfold scanHeader
  by_cases hname : header.name = manifestName
  · rw [if_pos hname]
    refine holds_check fun t ht => ⟨h, ?_⟩
    simp only [readManifest, bind_eq_ok, require_eq_ok, exists_const, Except.ok.injEq] at ht
    obtain ⟨hfirst, hcomplete, m, hdecode, rfl⟩ := ht
    simp only [bind_eq_ok, if_pos hname, readManifest, require_eq_ok, exists_const, Except.ok.injEq]
    exact ⟨require_eq_ok.mp hcount, hfirst, hcomplete, m, hdecode, rfl⟩
  · rw [if_neg hname]
    refine holds_guard fun _ hheader => ?_
    refine holds_seq (holds_extractEntry h) ?_
    rintro _ v ⟨hv, hcomplete⟩
    refine holds_ok ⟨hv, ?_⟩
    simp only [bind_eq_ok, if_neg hname, whenever_eq_ok, require_eq_ok, exists_const,
      Except.ok.injEq]
    exact ⟨require_eq_ok.mp hcount, (), hheader, hcomplete, rfl⟩

theorem holds_readHeaders (h : Kept sites stood w) :
    Holds (readHeaders F schedule links true headers s) w (Sound sites) fun t v =>
      Kept sites stood v ∧ scanHeaders F headers s.plain = .ok t.plain := by
  induction headers generalizing s w with
  | nil => exact holds_ok ⟨h, rfl⟩
  | cons header rest ih =>
    refine holds_seq (holds_readHeader header h) ?_
    rintro next v ⟨hv, hscan⟩
    refine (ih hv).post ?_
    rintro t u ⟨hu, hrest⟩
    exact ⟨hu, bind_eq_ok.mpr ⟨next.plain, hscan, hrest⟩⟩

structure Linkable (sites stood : List (List Text)) (e : Entry) : Prop where
  site : split e.path ∈ sites
  relative : isRooted e.link = false
  tame : Tame sites (split e.path).dropLast (pathSteps e.link)
  clear : ∀ place ∈ stood, ¬ place <+: (split e.path).dropLast

theorem holds_restoreLink (h : Kept sites stood w) (he : Linkable sites stood e)
    (hlink : e.mode.isSymlink) :
    Holds (restoreLink schedule links e) w (Sound sites) fun _ =>
      Kept sites (split e.path :: stood) := by
  obtain ⟨parents, n, hsplit⟩ : ∃ parents n, split e.path = parents ++ [n] :=
    ⟨_, _, (dropLast_append_getLast (split_ne_nil e.path)).symm⟩
  have hsite := he.site
  have htame := he.tame
  have hclear := he.clear
  rw [hsplit, dropLast_concat] at htame hclear
  rw [hsplit] at hsite
  rw [restoreLink, if_pos hlink, hsplit, reverse_append, reverse_singleton, singleton_append,
    he.relative]
  refine holds_seq (holds_mkdirAll h) ?_
  intro _ v hv
  rw [reverse_reverse]
  exact holds_create_link hv hsite htame hclear

theorem holds_restoreLinks (h : Kept sites stood w)
    (hentries : ∀ e ∈ entries, e.mode.isSymlink → Linkable sites stood e)
    (hapart : (entries.filter fun e => e.mode.isSymlink).Pairwise fun earlier later =>
      ¬ split earlier.path <+: (split later.path).dropLast) :
    Holds (restoreLinks schedule links entries) w (Sound sites) fun _ v => ∃ stood',
      Kept sites stood' v := by
  induction entries generalizing w stood with
  | nil => exact holds_ok ⟨stood, h⟩
  | cons e rest ih =>
    have hrest : ∀ other ∈ rest, other.mode.isSymlink → Linkable sites stood other :=
      fun other hother => hentries other (mem_cons_of_mem _ hother)
    by_cases hlink : e.mode.isSymlink
    · rw [filter_cons, if_pos hlink, pairwise_cons] at hapart
      refine holds_seq (holds_restoreLink h (hentries e mem_cons_self hlink) hlink) ?_
      intro _ v hv
      refine ih hv ?_ hapart.2
      intro other hother hother_link
      obtain ⟨hsite, hrelative, htame, hclear⟩ := hrest other hother hother_link
      refine ⟨hsite, hrelative, htame, ?_⟩
      exact forall_mem_cons.mpr ⟨hapart.1 other (mem_filter.mpr ⟨hother, hother_link⟩), hclear⟩
    · rw [filter_cons, if_neg hlink] at hapart
      have hskip : restoreLink schedule links e = pure () := by rw [restoreLink, if_neg hlink]
      rw [restoreLinks, hskip]
      refine holds_bind (holds_ok ?_)
      exact ih h hrest hapart

theorem holds_chmodAll (h : Kept sites stood w) :
    Holds (chmodAll schedule links names) w (Sound sites) fun _ => Kept sites stood := by
  induction names generalizing w with
  | nil => exact holds_ok h
  | cons name rest ih =>
    refine holds_seq (holds_chmod h) ?_
    intro _ v hv
    exact ih hv

theorem holds_restore (h : Kept (linkSites m) [] w) (hapart : LinksApart m)
    (hcheck : checkManifest clusterID s = .ok m) :
    Holds (restore schedule links true s m) w (Sound (linkSites m)) fun _ =>
      Sound (linkSites m) := by
  obtain ⟨-, -, -, -, hroots, -, hentries⟩ := checkManifest_ok.mp hcheck
  have hlinks : ∀ e ∈ m.entries, e.mode.isSymlink → Linkable (linkSites m) [] e := by
    intro e he hlink
    obtain ⟨hsafe, -, hexp⟩ := (checkEntries_ok.mp hentries).1 e he
    obtain ⟨hroot, hbelow⟩ := (checkExpected_ok.mp hexp).2 hlink
    have hmem : e ∈ linkEntries m := mem_filter.mpr ⟨he, hlink⟩
    obtain ⟨hrelative, htame⟩ := tame_of_expected hapart hroots hmem hsafe hroot hbelow
    exact ⟨mem_map.mpr ⟨e, hmem, rfl⟩, hrelative, htame, by simp⟩
  refine holds_seq (holds_restoreLinks h hlinks hapart.apart) ?_
  rintro _ v ⟨stood, hv⟩
  exact (holds_chmodAll hv).post fun _ _ hu => hu.toSound

theorem holds_verifyBundleArchive (h : Kept sites [] w)
    (hverdict : ∀ m, verdict F archive clusterID = .ok m → LinksApart m ∧ sites = linkSites m) :
    Holds (verifyBundleArchive F schedule links true archive clusterID) w (Sound sites) fun _ =>
      Sound sites := by
  refine holds_seq (holds_readHeaders h) ?_
  rintro s v ⟨hv, hscan⟩
  refine holds_guard fun _ hwhole => ?_
  refine holds_guard fun m hcheck => ?_
  have haccepted : verdict F archive clusterID = .ok m :=
    bind_eq_ok.mpr ⟨s.plain, hscan, bind_eq_ok.mpr ⟨(), hwhole, hcheck⟩⟩
  obtain ⟨hapart, rfl⟩ := hverdict m haccepted
  refine holds_seq (holds_restore hv hapart hcheck) ?_
  intro _ u hu
  exact holds_ok hu

end Extract

section Containment

variable {δ : Type} (F : Formats δ) (schedule : ℕ → CallOutcome) (links : ℕ) (archive : Archive δ)
  (clusterID : String)

def extracted (stop : Stop) : World Text :=
  (verifyBundleArchive F schedule links true archive clusterID).disk World.empty stop

variable {F schedule links archive clusterID}

/-- The rule holds for the links on the disk, whatever the archive holds. -/
theorem sound_extracted (hverdict : ∀ m, verdict F archive clusterID = .ok m → LinksApart m) :
    ∃ sites, Sound sites (extracted F schedule links archive clusterID stop) := by
  cases haccepted : verdict F archive clusterID with
  | ok m =>
    have hstart : Kept (linkSites m) [] (World.empty : World Text) := kept_empty
    refine ⟨linkSites m, (holds_verifyBundleArchive hstart ?_).disk hstart.toSound stop⟩
    intro result hres
    cases haccepted.symm.trans hres
    exact ⟨hverdict m haccepted, rfl⟩
  | error =>
    have hstart : Kept [] [] (World.empty : World Text) := kept_empty
    refine ⟨[], (holds_verifyBundleArchive hstart ?_).disk hstart.toSound stop⟩
    intro m hres
    cases haccepted.symm.trans hres

end Containment

def linkEntry (path target : String) : Entry :=
  ⟨text path, { isSymlink := true, bits := 0o777 }, 0, [], text target⟩

def linkHeader (e : Entry) : TarEntry Content := ⟨e.path, e.mode, 0, e.link, .bytes 0, false⟩

section

variable (entries : List Entry)

def linkManifest : Manifest :=
  ⟨bundleAPIVersion, bundleKind, stateClusterID, 0, [text "r"], entries⟩

def linkArchive : Archive Content :=
  ⟨entries.map linkHeader ++ [manifestHeader contentFormats (linkManifest entries)], none⟩

def linksRestored : World Text :=
  extracted contentFormats (fun _ => ⟨none, true⟩) 40 (linkArchive entries) stateClusterID .returns

def linksAccepted : Prop :=
  (verifyBundleArchive contentFormats (fun _ => ⟨none, true⟩) 40 true
    (linkArchive entries) stateClusterID).answer
    World.empty .returns = some (.ok (linkManifest entries))

end

def siblingLinks : List Entry := [linkEntry "r/a/current" "../b", linkEntry "r/a/latest" "current"]

/-- The first link leads to `r`, so the second, whose text ends at `r/a`, leads above the directory
of the restore, and the third is created there. -/
def climbingLinks : List Entry :=
  [linkEntry "r/a/b/up" "../..", linkEntry "r/x" "a/b/up/../..", linkEntry "r/x/link" "target"]

/-- The second link is created at `r/a/link`, where its target has a step too many. -/
def nestedLinks : List Entry := [linkEntry "r/a/b/up" "..", linkEntry "r/a/b/up/link" "../../.."]

/-- A target may step up after a link that leads far enough down. -/
def harmlessLinks : List Entry := [linkEntry "r/a/up" "b", linkEntry "r/x" "a/up/.."]

example : linksAccepted harmlessLinks ∧ ¬ LinksApart (linkManifest harmlessLinks) ∧
    (linksRestored harmlessLinks).reach 40 [text "r", text "x"] ≠ .outside := by
  refine ⟨rfl, fun hapart => ?_, by decide +kernel⟩
  exact absurd hapart.straight (by decide +kernel)

end RecoveryBundle
