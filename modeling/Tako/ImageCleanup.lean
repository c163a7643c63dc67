import Mathlib.Data.Bool.AllAny
import Tako.NodeReconcile

/-! # Cleanup of old images

`cleanupOldProjectImages` reads the list of images, newest first, and removes the references of
all but the first few image IDs it finds among the allowed repositories. Of a list longer than
`defaultCommandOutputMaxBytes` only the beginning is read.
-/
namespace ImageCleanup

open List GoPrelude GoMaps SeparatedWords NodeReconcile

/-- A text that Docker prints as one field: not empty and without white space. -/
def IsField (s : String) : Prop := chars s ≠ [] ∧ ∀ c ∈ chars s, isSpace c = false

instance (s : String) : Decidable (IsField s) :=
  decidable_of_iff (chars s ≠ [] ∧ ((chars s).all fun c => isSpace c = false))
    (and_congr_right' all_iff_forall_prop)

structure Image where
  (id repo tag : String)
  id_field : IsField id
  repo_field : IsField repo
  tag_field : IsField tag
  tag_colon : ':' ∉ chars tag

def Image.ref (image : Image) : String := image.repo ++ ":" ++ image.tag

def Image.Tagged (image : Image) : Prop := image.repo ≠ "<none>" ∧ image.tag ≠ "<none>"
  deriving Decidable

def Image.line (image : Image) : String := image.id ++ "\t" ++ image.repo ++ "\t" ++ image.tag

def imageList (images : List Image) : String := fileText (images.map Image.line)

def imageRepositoryMatchesProject (repository _project : String)
    (allowedRepositories : List String) : Bool :=
  allowedRepositories.any (repository == ·)

structure Found where
  ids : List String
  refsByID : String → Option (List String)

def Found.add (found : Found) (id ref : String) : Found where
  ids := if (found.refsByID id).isSome then found.ids else found.ids ++ [id]
  refsByID := Function.update found.refsByID id (some ((found.refsByID id).getD [] ++ [ref]))

def collect (project : String) (imageRepositories : List String) : Found → List String → Found
  | found, [] => found
  | found, line :: rest =>
    match split (trimSpace line) '\t' with
    | [id, repo, tag] =>
      if id = "" ∨ repo = "<none>" ∨ tag = "<none>" ∨
          imageRepositoryMatchesProject repo project imageRepositories = false then
        collect project imageRepositories found rest
      else collect project imageRepositories (found.add id (repo ++ ":" ++ tag)) rest
    | _ => collect project imageRepositories found rest

/-- The answers of Docker: the list of images, and the error of `rmi -f` on some references. -/
structure Docker where
  images : Except String String
  rmi : List String → Option String

/-- The characters that lie within the first bytes of a text. -/
def firstBytes : ℕ → List Char → List Char
  | n, c :: rest => if c.utf8Size ≤ n then c :: firstBytes (n - c.utf8Size) rest else []
  | _, [] => []

/-- What `runDocker` returns of the output of its command. -/
def cappedOutput (text : String) : String :=
  if text.utf8ByteSize ≤ defaultCommandOutputMaxBytes then text
  else String.ofList (firstBytes defaultCommandOutputMaxBytes (chars text)) ++
    "\n... output truncated, " ++
    toString (text.utf8ByteSize - defaultCommandOutputMaxBytes) ++ " byte(s) omitted"

structure Outcome where
  refs : List String
  removed : ℕ
  err : Option String
  deriving DecidableEq

def cleanupOldProjectImages (docker : Docker) (project : String) (keepLatest : ℕ)
    (imageRepositories : List String) : Outcome :=
  if imageRepositories = [] then ⟨[], 0, none⟩
  else
    match docker.images with
    | .error cause => ⟨[], 0, some ("failed to list docker images: " ++ cause)⟩
    | .ok output =>
      let found := collect project imageRepositories ⟨[], fun _ => none⟩
        (split (cappedOutput output) '\n')
      if found.ids.length ≤ keepLatest then ⟨[], 0, none⟩
      else
        let removeIDs := found.ids.drop keepLatest
        let removeRefs := removeIDs.flatMap fun id => (found.refsByID id).getD []
        match docker.rmi removeRefs with
        | some cause => ⟨removeRefs, 0, some ("failed to remove old project images: " ++ cause)⟩
        | none => ⟨removeRefs, removeIDs.length, none⟩

theorem space_ne (h : IsField s) : '\t' ∉ chars s ∧ '\n' ∉ chars s := by
  constructor <;>
    · intro hmem
      exact absurd (h.2 _ hmem) (by decide)

section

variable (image : Image)

theorem line_chars :
    chars image.line = ['\t'].intercalate [chars image.id, chars image.repo, chars image.tag] := by
  simp [Image.line]

theorem line_no_newline : '\n' ∉ chars image.line := by
  have hid := (space_ne image.id_field).2
  have hrepo := (space_ne image.repo_field).2
  have htag := (space_ne image.tag_field).2
  unfold Image.line
  simp_all

theorem trimSpace_line : trimSpace image.line = image.line := by
  have htrimmed : trimChars (chars image.line) = chars image.line := by
    apply trimChars_of_ends
    · have hchars : chars image.line = chars image.id ++
          '\t' :: (chars image.repo ++ '\t' :: chars image.tag) := by
        simp [Image.line]
      rw [hchars, head?_append_of_ne_nil _ image.id_field.1]
      exact fun c hc => image.id_field.2 c (mem_of_head? hc)
    · have hchars : chars image.line = chars image.id ++ '\t' :: chars image.repo ++
          '\t' :: chars image.tag := by
        simp [Image.line]
      rw [hchars, getLast?_append_cons, getLast?_cons_of_ne_nil image.tag_field.1]
      exact fun c hc => image.tag_field.2 c (mem_of_getLast? hc)
  rw [trimSpace, htrimmed]
  simp

theorem split_line : split image.line '\t' = [image.id, image.repo, image.tag] := by
  have hclean : ∀ l ∈ [chars image.id, chars image.repo, chars image.tag], '\t' ∉ l := by
    simp only [forall_mem_cons, not_mem_nil, IsEmpty.forall_iff, implies_true, and_true]
    exact ⟨(space_ne image.id_field).1, (space_ne image.repo_field).1, (space_ne image.tag_field).1⟩
  unfold split
  rw [line_chars, splitOn_intercalate '\t' hclean (cons_ne_nil _ _)]
  simp

end

def Candidate (repositories : List String) (image : Image) : Prop :=
  image.Tagged ∧ image.repo ∈ repositories deriving Decidable

theorem collect_lines (project : String) (imageRepositories : List String) (images : List Image)
    (found : Found) :
    collect project imageRepositories found (images.map Image.line ++ [""]) =
      (images.filter (Candidate imageRepositories ·)).foldl
        (fun f image => f.add image.id image.ref) found := by
  induction images generalizing found with
  | nil =>
    have hlast : split (trimSpace "") '\t' = [""] := by decide +kernel
    simp [collect, hlast]
  | cons image images ih =>
    have hid : image.id ≠ "" := by
      intro heq
      have hfield := image.id_field.1
      rw [heq] at hfield
      exact absurd hfield (by decide +kernel)
    have hmatch : imageRepositoryMatchesProject image.repo project imageRepositories = false ↔
        image.repo ∉ imageRepositories := by
      unfold imageRepositoryMatchesProject
      simp only [any_eq_false, beq_iff_eq]
      exact ⟨fun h hmem => h _ hmem rfl, fun h r hr heq => h (heq ▸ hr)⟩
    rw [map_cons, cons_append, collect, trimSpace_line, split_line]
    dsimp only
    by_cases hcand : Candidate imageRepositories image
    · have hskip : ¬ (image.id = "" ∨ image.repo = "<none>" ∨ image.tag = "<none>" ∨
          imageRepositoryMatchesProject image.repo project imageRepositories = false) := by
        obtain ⟨⟨hrepo, htag⟩, hallowed⟩ := hcand
        tauto
      rw [if_neg hskip, ih, filter_cons_of_pos (by simpa using hcand)]
      rfl
    · have hskip : image.id = "" ∨ image.repo = "<none>" ∨ image.tag = "<none>" ∨
          imageRepositoryMatchesProject image.repo project imageRepositories = false := by
        unfold Candidate Image.Tagged at hcand
        tauto
      rw [if_pos hskip, ih, filter_cons_of_neg (by simpa using hcand)]

def distinct (ids : List String) : List String :=
  ids.foldl (fun seen id => if id ∈ seen then seen else seen ++ [id]) []

theorem distinct_append (id : String) :
    distinct (ids ++ [id]) = if id ∈ distinct ids then distinct ids else distinct ids ++ [id] := by
  rw [distinct, foldl_append]
  rfl

theorem mem_distinct {id : String} : id ∈ distinct ids ↔ id ∈ ids := by
  induction ids using reverseRecOn with
  | nil => simp [distinct]
  | append_singleton ids last ih =>
    rw [distinct_append]
    split_ifs with hlast
    · rw [ih, mem_append, mem_singleton]
      constructor
      · exact .inl
      · rintro (hmem | rfl)
        · exact hmem
        · exact ih.mp hlast
    · rw [mem_append, ih, mem_append]

theorem nodup_distinct (ids : List String) : (distinct ids).Nodup := by
  induction ids using reverseRecOn with
  | nil => exact nodup_nil
  | append_singleton ids last ih =>
    rw [distinct_append]
    split_ifs with hlast
    · exact ih
    · refine nodup_append.mpr ⟨ih, nodup_singleton _, ?_⟩
      intro a ha b hb heq
      rw [mem_singleton.mp hb] at heq
      exact hlast (heq ▸ ha)

structure Collected (images : List Image) (found : Found) : Prop where
  ids : found.ids = distinct (images.map Image.id)
  seen : ∀ id, (found.refsByID id).isSome ↔ id ∈ images.map Image.id
  refs : ∀ id, (found.refsByID id).getD [] = (images.filter (·.id == id)).map Image.ref

theorem Collected.add (h : Collected images found) (image : Image) :
    Collected (images ++ [image]) (found.add image.id image.ref) := by
  have hids := h.ids
  have hseen := h.seen
  have hrefs := h.refs
  unfold Found.add
  constructor
  · have hmem : (found.refsByID image.id).isSome ↔ image.id ∈ distinct (images.map Image.id) := by
      rw [hseen, mem_distinct]
    rw [map_append, map_singleton, distinct_append, hids]
    simp only [hmem]
  · intro id
    by_cases hid : id = image.id
    · simp [hid]
    · simp [hseen, hid]
  · intro id
    by_cases hid : id = image.id
    · simp [hid, hrefs]
    · have hother : ¬ image.id = id := fun heq => hid heq.symm
      simp [Function.update_of_ne hid, hrefs, hother]

theorem collected_foldl (images : List Image) :
    Collected images (images.foldl (fun f image => f.add image.id image.ref)
      ⟨[], fun _ => none⟩) := by
  induction images using reverseRecOn with
  | nil => exact ⟨rfl, by simp, by simp⟩
  | append_singleton images last ih =>
    rw [foldl_append]
    exact ih.add last

section Cleanup

variable (images : List Image) (repositories : List String)

def imageIDs : List String := distinct ((images.filter (Candidate repositories ·)).map Image.id)

def newest (k : ℕ) : List String := (imageIDs images repositories).take k

/-- The whole listing reaches the parser. -/
def Uncut : Prop := (imageList images).utf8ByteSize ≤ defaultCommandOutputMaxBytes
  deriving Decidable

variable {images repositories}

theorem mem_imageIDs {id : String} :
    id ∈ imageIDs images repositories ↔
      ∃ image ∈ images, Candidate repositories image ∧ image.id = id := by
  unfold imageIDs
  rw [mem_distinct, mem_map]
  simp only [mem_filter, decide_eq_true_eq, and_assoc]

/-- Exactly the references of the candidates beyond the newest are handed over. -/
theorem mem_cleanup_refs (hlist : docker.images = .ok (imageList images)) (huncut : Uncut images) :
    ref ∈ (cleanupOldProjectImages docker project k repositories).refs ↔
      ∃ image ∈ images, Candidate repositories image ∧
        image.id ∈ (imageIDs images repositories).drop k ∧
        image.ref = ref := by
  by_cases hempty : repositories = []
  · rw [cleanupOldProjectImages]
    simp [Candidate, hempty]
  · have hcollect := collect_lines project repositories images ⟨[], fun _ => none⟩
    have hlines : split (cappedOutput (imageList images)) '\n' = images.map Image.line ++ [""] := by
      unfold Uncut at huncut
      rw [cappedOutput, if_pos huncut]
      apply split_fileText
      intro line hline
      obtain ⟨image, _, rfl⟩ := mem_map.mp hline
      exact line_no_newline image
    obtain ⟨hids, -, hrefs⟩ := collected_foldl (images.filter (Candidate repositories ·))
    have hmem : ref ∈ ((imageIDs images repositories).drop k).flatMap (fun id =>
        ((images.filter (Candidate repositories ·)).filter (·.id == id)).map Image.ref) ↔
        ∃ image ∈ images, Candidate repositories image ∧
          image.id ∈ (imageIDs images repositories).drop k ∧
          image.ref = ref := by
      simp only [mem_flatMap, mem_map, mem_filter, decide_eq_true_eq, beq_iff_eq]
      constructor
      · rintro ⟨id, hid, image, ⟨⟨himage, hcand⟩, rfl⟩, href⟩
        exact ⟨image, himage, hcand, hid, href⟩
      · rintro ⟨image, himage, hcand, hid, href⟩
        exact ⟨image.id, hid, image, ⟨⟨himage, hcand⟩, rfl⟩, href⟩
    rw [cleanupOldProjectImages, if_neg hempty, hlist]
    simp only [hlines, hcollect, hids, hrefs]
    rw [← hmem]
    change ref ∈ Outcome.refs (if (imageIDs images repositories).length ≤ k then _ else _) ↔ _
    split_ifs with hlen
    · rw [drop_eq_nil_of_le hlen]
      simp
    · split <;> rfl

theorem repo_eq_of_ref_eq {a b : Image} (h : a.ref = b.ref) : a.repo = b.repo := by
  have hchars : chars a.repo ++ ':' :: chars a.tag = chars b.repo ++ ':' :: chars b.tag := by
    have heq := congrArg chars h
    simpa [Image.ref] using heq
  -- The tags have no colon, so the last colon of the text is the separator.
  have hreverse := congrArg reverse hchars
  simp only [reverse_append, reverse_cons, append_assoc, singleton_append] at hreverse
  have hsplit := append_cons_inj (by simpa using a.tag_colon) (by simpa using b.tag_colon) hreverse
  have hrepo := hsplit.2
  rw [← String.toList_inj, ← chars_eq_toList, ← chars_eq_toList]
  exact reverse_inj.mp hrepo

def KeepsNewest (images : List Image) (refs : List String) (k : ℕ) (repository : String) : Prop :=
  ∀ image ∈ images, Candidate [repository] image → image.id ∈ newest images [repository] k →
    image.ref ∉ refs

/-- If the listing is not cut, every allowed repository keeps its newest images if and only if
these are among the newest of all allowed repositories together; other repositories keep
everything. -/
theorem newest_images_kept_iff {docker : Docker} (hlist : docker.images = .ok (imageList images))
    (huncut : Uncut images) (hrefs : ∀ a ∈ images, ∀ b ∈ images, a.ref = b.ref → a.id = b.id)
    (project : String) (k : ℕ) :
    let refs := (cleanupOldProjectImages docker project k repositories).refs
    ((∀ repository ∈ repositories, KeepsNewest images refs k repository) ↔
      ∀ repository ∈ repositories, ∀ id ∈ newest images [repository] k,
      id ∈ newest images repositories k) ∧
    ∀ image ∈ images, image.repo ∉ repositories → image.ref ∉ refs := by
  intro refs
  have hwiden : ∀ {repository : String} {image : Image}, repository ∈ repositories →
      Candidate [repository] image → Candidate repositories image := by
    rintro repository image hrepository ⟨htagged, hrepo⟩
    rw [← mem_singleton.mp hrepo] at hrepository
    exact ⟨htagged, hrepository⟩
  refine ⟨⟨?_, ?_⟩, ?_⟩
  · intro hkeeps repository hrepository id hid
    obtain ⟨image, himage, hcandidate, rfl⟩ := mem_imageIDs.mp (mem_of_mem_take hid)
    have hall := mem_imageIDs.mpr ⟨image, himage, hwiden hrepository hcandidate, rfl⟩
    have hkept := hkeeps repository hrepository image himage hcandidate hid
    rw [← take_append_drop k (imageIDs images repositories), mem_append] at hall
    rcases hall with htake | hdrop
    · exact htake
    · exact absurd ((mem_cleanup_refs hlist huncut).mpr
        ⟨image, himage, hwiden hrepository hcandidate, hdrop, rfl⟩) hkept
  · intro hnewest repository hrepository image himage hcandidate hid hmem
    obtain ⟨other, hother, -, hdrop, href⟩ := (mem_cleanup_refs hlist huncut).mp hmem
    rw [hrefs other hother image himage href] at hdrop
    have hnodup := nodup_distinct ((images.filter (Candidate repositories ·)).map Image.id)
    exact disjoint_take_drop hnodup le_rfl (hnewest repository hrepository image.id hid) hdrop
  · intro image _ houtside hmem
    obtain ⟨other, -, hcandidate, -, href⟩ := (mem_cleanup_refs hlist huncut).mp hmem
    exact houtside (repo_eq_of_ref_eq href ▸ hcandidate.2)

end Cleanup

def twoServices : List Image :=
  [⟨"c3", "shop/web", "v2",
      by decide +kernel, by decide +kernel, by decide +kernel, by decide +kernel⟩,
    ⟨"b2", "shop/web", "v1",
      by decide +kernel, by decide +kernel, by decide +kernel, by decide +kernel⟩,
    ⟨"a1", "shop/api", "v1",
      by decide +kernel, by decide +kernel, by decide +kernel, by decide +kernel⟩]

def dockerListing (images : List Image) : Docker := ⟨.ok (imageList images), fun _ => none⟩

/-- With three images to keep nothing of the list goes. -/
theorem newest_images_kept_three : Uncut twoServices ∧ ∀ repository ∈ ["shop/api", "shop/web"],
    KeepsNewest twoServices
      (cleanupOldProjectImages (dockerListing twoServices) "shop" 3 ["shop/api", "shop/web"]).refs
      3 repository :=
  ⟨by decide +kernel,
    (newest_images_kept_iff rfl (by decide +kernel) (by decide +kernel) "shop" 3).1.mpr
      (by decide +kernel)⟩

/-- The only image of a service goes when another service has newer ones. -/
theorem only_image_removed : "a1" ∈ newest twoServices ["shop/api"] 2 ∧
      (cleanupOldProjectImages (dockerListing twoServices) "shop" 2 ["shop/api", "shop/web"]).refs =
        ["shop/api:v1"] := by
  decide +kernel

end ImageCleanup
