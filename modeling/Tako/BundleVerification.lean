import Tako.RecoveryBundle

/-! # Bundles that were written can be verified

The verifier accepts what was written if the names are fit for both formats, the manifest is not
too long, and the links stay below the longest root that their paths match.
-/
namespace RecoveryBundle

open List GoPrelude NodeIdentity GoTexts DurablePrograms DirectoryTrees Except TarEntry

variable {δ : Type} {F : Formats δ}

def regularBytes (headers : List (TarEntry δ)) : ℤ :=
  (headers.map fun h => if h.mode.isRegular = true then h.size else 0).sum

theorem regularBytes_append : regularBytes (a ++ b) = regularBytes a + regularBytes b := by
  rw [regularBytes, map_append, sum_append]
  rfl

structure Admissible (h : TarEntry δ) : Prop where
  safe : safeArchivePath h.name
  supported : h.mode.isSupported
  nonneg : 0 ≤ h.size
  bounded : h.size ≤ maxBundleFileBytes
  complete : h.truncated = false

theorem regularBytes_nonneg (hheaders : ∀ h ∈ headers, Admissible h) :
    0 ≤ regularBytes headers := by
  induction headers with
  | nil => exact le_rfl
  | cons h rest ih =>
    have hsize := (hheaders h mem_cons_self).nonneg
    have hrest := ih fun other hother => hheaders other (mem_cons_of_mem _ hother)
    change 0 ≤ (if h.mode.isRegular then h.size else 0) + regularBytes rest
    split_ifs <;> omega

structure Written (w : Writing δ) : Prop where
  admissible : ∀ h ∈ w.headers, Admissible h
  count : w.headers.length ≤ maxBundleEntries
  total : w.totalBytes = regularBytes w.headers
  limit : w.totalBytes ≤ maxBundleTotalBytes

@[simp] theorem notFaulty_eq_ok : notFaulty fault = .ok u ↔ fault = none := by
  cases fault with
  | none => exact iff_of_true rfl rfl
  | some => exact iff_of_false (by simp [notFaulty]) (by simp)

theorem appendItem_written {next : Writing δ} (h : Written w)
    (hitem : appendItem F source w item = .ok next) :
    Written next ∧ next.headers = w.headers ++ [item.header source.root] := by
  simp only [appendItem, bind_eq_ok, require_eq_ok, whenever_eq_ok, notFaulty_eq_ok, exists_const,
    ok.injEq] at hitem
  obtain ⟨-, hsafe, hcount, hsupported, -, hsize, -, rfl⟩ := hitem
  have hbounds : 0 ≤ (item.header source.root).size ∧
      (item.header source.root).size ≤ maxBundleFileBytes ∧
      w.totalBytes ≤ maxBundleTotalBytes - (item.header source.root).size := by
    by_cases hregular : item.mode.isRegular
    · simpa [Item.header, hregular] using hsize hregular
    · simpa [Item.header, hregular, maxBundleFileBytes] using h.limit
  refine ⟨⟨?_, ?_, ?_, ?_⟩, rfl⟩
  · exact forall_mem_append.mpr
      ⟨h.admissible, forall_mem_singleton.mpr ⟨hsafe, hsupported, hbounds.1, hbounds.2.1, rfl⟩⟩
  · rw [length_append, length_singleton]
    omega
  · have hone : regularBytes [item.header source.root] = if item.mode.isRegular then item.size
        else 0 := by
      by_cases hregular : item.mode.isRegular <;> simp [regularBytes, Item.header, hregular]
    rw [regularBytes_append, ← h.total, hone]
  · exact Int.add_le_of_le_sub_right hbounds.2.2

theorem appendItems_written {next : Writing δ} (h : Written w)
    (hitems : appendItems F source items w = .ok next) :
    Written next ∧ next.headers = w.headers ++ items.map (Item.header · source.root) := by
  induction items generalizing w with
  | nil =>
    cases hitems
    exact ⟨h, by simp⟩
  | cons item rest ih =>
    simp only [appendItems, bind_eq_ok] at hitems
    obtain ⟨middle, hitem, hrest⟩ := hitems
    obtain ⟨hmiddle, hheader⟩ := appendItem_written h hitem
    obtain ⟨hnext, hheaders⟩ := ih hmiddle hrest
    exact ⟨hnext, by rw [hheaders, hheader]; simp⟩

def bundleHeaders (sources : List (Source δ)) : List (TarEntry δ) :=
  sources.flatMap fun source => source.items.map (Item.header · source.root)

theorem appendSources_written {next : Writing δ} (h : Written w)
    (hsources : appendSources F sources w = .ok next) :
    Written next ∧ next.headers = w.headers ++ bundleHeaders sources ∧
      ∀ source ∈ sources, safeArchivePath source.root := by
  induction sources generalizing w with
  | nil =>
    cases hsources
    exact ⟨h, by simp [bundleHeaders], by simp⟩
  | cons source rest ih =>
    simp only [appendSources, appendSource, bind_eq_ok, require_eq_ok, notFaulty_eq_ok,
      exists_const] at hsources
    obtain ⟨hroot, middle, ⟨-, -, -, hitems⟩, hrest⟩ := hsources
    obtain ⟨hmiddle, hheader⟩ := appendItems_written h hitems
    obtain ⟨hnext, hheaders, hroots⟩ := ih hmiddle hrest
    refine ⟨hnext, ?_, ?_⟩
    · rw [hheaders, hheader]
      simp [bundleHeaders]
    · exact forall_mem_cons.mpr ⟨hroot, hroots⟩

def bundleManifest (F : Formats δ) (clusterID : String) (now : ℤ) (sources : List (Source δ)) :
    Manifest where
  apiVersion := bundleAPIVersion
  kind := bundleKind
  clusterID := clusterID
  createdAt := now
  roots := F.sortTexts (sources.map Source.root)
  entries := F.sortEntries ((bundleHeaders sources).map (entry F))

theorem writeBundleArchive_ok (h : writeBundleArchive F clusterID now sources = .ok (m, archive)) :
    m = bundleManifest F clusterID now sources ∧
      archive = ⟨bundleHeaders sources ++ [manifestHeader F m], none⟩ ∧
      Written ⟨bundleHeaders sources, regularBytes (bundleHeaders sources)⟩ ∧
      sources ≠ [] ∧ ∀ source ∈ sources, safeArchivePath source.root := by
  simp only [writeBundleArchive, bind_eq_ok, require_eq_ok, exists_const, ok.injEq,
    Prod.mk.injEq] at h
  obtain ⟨-, -, hsources, w, hw, rfl, rfl⟩ := h
  have hlimit : (0 : ℤ) ≤ maxBundleTotalBytes := by decide
  have hstart : Written ({} : Writing δ) := ⟨by simp, by simp, rfl, hlimit⟩
  obtain ⟨hwritten, hheaders, hroots⟩ := appendSources_written hstart hw
  have hheaders : w.headers = bundleHeaders sources := by simpa using hheaders
  refine ⟨?_, ?_, ?_, ?_, hroots⟩
  · rw [bundleManifest, hheaders]
  · rw [hheaders]
  · rw [← hheaders]
    exact ⟨hwritten.admissible, hwritten.count, rfl, by rw [← hwritten.total]; exact hwritten.limit⟩
  · rintro rfl
    simp at hsources

/-- `readHeader` without a destination. -/
def scanHeader (F : Formats δ) (s : Scan) (h : TarEntry δ) : Except String Scan := do
  require (s.entries + 1 ≤ maxBundleEntries + 1) "recovery archive exceeds entry limit"
  if h.name = manifestName then readManifest F s h
  else do
    checkHeader s h
    whenever (h.mode.isRegular) (require (h.truncated = false) "unexpected EOF")
    .ok (observe F false s h)

def scanHeaders (F : Formats δ) : List (TarEntry δ) → Scan → Except String Scan
  | [], s => .ok s
  | h :: rest, s => do
    let next ← scanHeader F s h
    scanHeaders F rest next

/-- What the verifier says of an archive before it restores links. -/
def verdict (F : Formats δ) (archive : Archive δ) (clusterID : String) :
    Except String Manifest := do
  let s ← scanHeaders F archive.entries {}
  notFaulty archive.broken
  checkManifest clusterID s

section Scanning

theorem run_check_then {α β : Type} {x : Except String α} {f : α → Durable (World Text) β}
    {g : α → Except String β} (h : ∀ a, (f a).run w = (g a, w)) :
    ((Durable.check fun _ => x) >>= f).run w = (x >>= g, w) := by
  cases x with
  | error cause => exact run_bind_error (run_check fun _ => .error cause)
  | ok a => exact (run_bind_ok (run_check fun _ => .ok a)).trans (h a)

theorem extractEntry_run (h : TarEntry δ) : (extractEntry schedule links false h).run w =
      (whenever (h.mode.isRegular) (require (h.truncated = false) "unexpected EOF"), w) := by
  by_cases hregular : h.mode.isRegular
  · rw [extractEntry, if_pos hregular, extractFile, if_neg (by simp), run_bind_ok (run_pure _),
      run_check, whenever, if_pos hregular]
  · rw [extractEntry, if_neg hregular, if_neg (by simp), run_pure, whenever, if_neg hregular]

theorem readHeader_run (h : TarEntry δ) :
    (readHeader F schedule links false s h).run w = (scanHeader F s h, w) := by
  refine run_check_then fun _ => ?_
  by_cases hname : h.name = manifestName
  · rw [if_pos hname, if_pos hname, run_check]
  · rw [if_neg hname, if_neg hname]
    refine run_check_then fun _ => ?_
    cases hextract : whenever h.mode.isRegular (require (h.truncated = false) "unexpected EOF") with
    | error => rw [run_bind_error ((extractEntry_run h).trans (by rw [hextract]))]; rfl
    | ok => rw [run_bind_ok ((extractEntry_run h).trans (by rw [hextract]))]; rfl

theorem readHeaders_run (headers : List (TarEntry δ)) :
    (readHeaders F schedule links false headers s).run w = (scanHeaders F headers s, w) := by
  induction headers generalizing s with
  | nil => rfl
  | cons h rest ih =>
    rw [readHeaders, scanHeaders]
    cases hscan : scanHeader F s h with
    | error => rw [run_bind_error ((readHeader_run h).trans (by rw [hscan]))]; rfl
    | ok => rw [run_bind_ok ((readHeader_run h).trans (by rw [hscan])), ih]; rfl

theorem verifyBundleArchive_run :
    (verifyBundleArchive F schedule links false archive clusterID).run w =
      (verdict F archive clusterID, w) := by
  rw [verifyBundleArchive, verdict]
  cases hscan : scanHeaders F archive.entries {} with
  | error => rw [run_bind_error ((readHeaders_run _).trans (by rw [hscan]))]; rfl
  | ok s =>
    rw [run_bind_ok ((readHeaders_run _).trans (by rw [hscan]))]
    refine run_check_then fun _ => ?_
    cases checkManifest clusterID s <;> rfl

end Scanning

section Accepts

theorem scanHeaders_append (s : Scan) :
    scanHeaders F (a ++ b) s = scanHeaders F a s >>= scanHeaders F b := by
  induction a generalizing s with
  | nil => rfl
  | cons h rest ih =>
    rw [cons_append, scanHeaders, scanHeaders]
    cases scanHeader F s h with
    | error => rfl
    | ok next => exact ih next

theorem scanHeader_plain (hname : h.name ≠ manifestName) :
    scanHeader F s h = .ok t ↔ s.entries + 1 ≤ maxBundleEntries + 1 ∧ checkHeader s h = .ok () ∧
      (h.mode.isRegular → h.truncated = false) ∧ t = observe F false s h := by
  simp only [scanHeader, if_neg hname, bind_eq_ok, require_eq_ok, whenever_eq_ok, exists_const,
    ok.injEq]
  constructor
  · rintro ⟨hcount, ⟨⟩, hcheck, hcomp, rfl⟩
    exact ⟨hcount, hcheck, hcomp, rfl⟩
  · rintro ⟨hcount, hcheck, hcomp, rfl⟩
    exact ⟨hcount, (), hcheck, hcomp, rfl⟩

theorem checkHeader_ok : checkHeader s h = .ok () ↔
    (safeArchivePath h.name ∧ 0 ≤ h.size ∧ h.size ≤ maxBundleFileBytes) ∧ h.name ∉ s.observed ∧
      h.mode.isSupported ∧ (h.mode.isRegular → s.totalBytes ≤ maxBundleTotalBytes - h.size) := by
  simp only [checkHeader, bind_eq_ok, require_eq_ok, whenever_eq_ok, exists_const]

theorem scanHeader_manifest (hname : h.name = manifestName) (hscan : scanHeader F s h = .ok t) :
    s.manifest = none ∧ h.size ≤ maxManifestBytes ∧ ∃ m, F.decode h.content = .ok m ∧
      t.manifest = some m := by
  simp only [scanHeader, if_pos hname, readManifest, bind_eq_ok, require_eq_ok, exists_const,
    ok.injEq] at hscan
  obtain ⟨-, ⟨hnone, -, hsize⟩, -, m, hdecode, rfl⟩ := hscan
  exact ⟨Option.isNone_iff_eq_none.mp hnone, hsize, m, hdecode, rfl⟩

theorem scanHeader_manifestHeader (hnone : s.manifest = none)
    (hcount : s.entries ≤ maxBundleEntries) (hshort : (F.size (F.encode m) : ℤ) ≤ maxManifestBytes)
    (hvalid : m.replaced = m) :
    scanHeader F s (manifestHeader F m) = .ok { s with
      manifest := some m, entries := s.entries + 1 } := by
  have hdecode := (F.decode_encode m).trans (by rw [hvalid])
  have hname : (manifestHeader F m).name = manifestName := rfl
  simp only [scanHeader, if_pos hname, readManifest, bind_eq_ok, require_eq_ok, exists_const]
  refine ⟨Nat.succ_le_succ hcount, ⟨by rw [hnone]; rfl, Int.natCast_nonneg _, hshort⟩, rfl, m,
    hdecode, rfl⟩

theorem scanHeaders_manifest (hscan : scanHeaders F headers s = .ok t) (hsome : s.manifest ≠ none) :
    t.manifest ≠ none := by
  induction headers generalizing s with
  | nil =>
    cases hscan
    exact hsome
  | cons h rest ih =>
    simp only [scanHeaders, bind_eq_ok] at hscan
    obtain ⟨next, hnext, hrest⟩ := hscan
    refine ih hrest ?_
    by_cases hname : h.name = manifestName
    · obtain ⟨-, -, m, -, hread⟩ := scanHeader_manifest hname hnext
      rw [hread]
      exact Option.some_ne_none m
    · obtain ⟨-, -, -, rfl⟩ := (scanHeader_plain hname).mp hnext
      exact hsome

theorem scanHeaders_reserved (hscan : scanHeaders F headers s = .ok t) (hnone : t.manifest = none) :
    ∀ h ∈ headers, h.name ≠ manifestName := by
  induction headers generalizing s with
  | nil => simp
  | cons h rest ih =>
    simp only [scanHeaders, bind_eq_ok] at hscan
    obtain ⟨next, hnext, hrest⟩ := hscan
    intro other hother hname
    rcases mem_cons.mp hother with rfl | hmem
    · obtain ⟨-, -, m, -, hread⟩ := scanHeader_manifest hname hnext
      exact scanHeaders_manifest hrest (by rw [hread]; exact Option.some_ne_none m) hnone
    · exact ih hrest other hmem hname

/-- An accepted archive without a manifest among these headers has no name twice. -/
theorem scanHeaders_nodup (hplain : ∀ h ∈ headers, h.name ≠ manifestName)
    (hscan : scanHeaders F headers s = .ok t) :
    (headers.map name).Nodup ∧ ∀ h ∈ headers, h.name ∉ s.observed := by
  induction headers generalizing s with
  | nil => simp
  | cons h rest ih =>
    simp only [scanHeaders, bind_eq_ok] at hscan
    obtain ⟨next, hnext, hrest⟩ := hscan
    obtain ⟨-, hcheck, -, rfl⟩ := (scanHeader_plain (hplain h mem_cons_self)).mp hnext
    have hfresh := (checkHeader_ok.mp hcheck).2.1
    have hothers := ih (fun other hother => hplain other (mem_cons_of_mem _ hother)) hrest
    exact nodup_cons_of_seen hfresh (fun _ => (AList.mem_insert _).mpr) hothers

theorem scanHeaders_plain (hheaders : ∀ h ∈ headers, Admissible h)
    (hplain : ∀ h ∈ headers, h.name ≠ manifestName) (hnodup : (headers.map name).Nodup)
    (hfresh : ∀ h ∈ headers, h.name ∉ s.observed)
    (hcount : s.entries + headers.length ≤ maxBundleEntries)
    (htotal : s.totalBytes + regularBytes headers ≤ maxBundleTotalBytes) :
    ∃ t, scanHeaders F headers s = .ok t ∧ t.manifest = s.manifest ∧
      t.entries = s.entries + headers.length ∧
      t.observed.keys.length = s.observed.keys.length + headers.length ∧
      (∀ name, name ∉ headers.map TarEntry.name → t.observed.lookup name = s.observed.lookup name) ∧
      ∀ h ∈ headers, t.observed.lookup h.name = some (h.entry F) := by
  induction headers generalizing s with
  | nil => exact ⟨s, rfl, rfl, rfl, rfl, fun _ _ => rfl, by simp⟩
  | cons h rest ih =>
    have hadmissible := hheaders h mem_cons_self
    obtain ⟨hnot, hrest⟩ := nodup_cons.mp hnodup
    have hnonneg := regularBytes_nonneg fun other hother =>
      hheaders other (mem_cons_of_mem _ hother)
    have hsum : regularBytes (h :: rest) = (if h.mode.isRegular then h.size else 0) +
        regularBytes rest := rfl
    rw [hsum] at htotal
    rw [length_cons] at hcount
    have hcheck : checkHeader s h = .ok () := by
      refine checkHeader_ok.mpr ⟨⟨hadmissible.safe, hadmissible.nonneg, hadmissible.bounded⟩,
        hfresh h mem_cons_self, hadmissible.supported, fun hregular => ?_⟩
      rw [if_pos hregular] at htotal
      omega
    have hnext : scanHeader F s h = .ok (observe F false s h) :=
      (scanHeader_plain (hplain h mem_cons_self)).mpr
        ⟨by omega, hcheck, fun _ => hadmissible.complete, rfl⟩
    have hfresh' : ∀ other ∈ rest, other.name ∉ (observe F false s h).observed := by
      intro other hother hmem
      rcases (AList.mem_insert _).mp hmem with heq | hold
      · exact hnot (mem_map.mpr ⟨other, hother, heq⟩)
      · exact hfresh other (mem_cons_of_mem _ hother) hold
    obtain ⟨t, hscan, hmanifest, hentries, hkeys, hother, hlookup⟩ :=
      ih (fun other hmem => hheaders other (mem_cons_of_mem _ hmem))
        (fun other hmem => hplain other (mem_cons_of_mem _ hmem)) hrest hfresh'
        (by change s.entries + 1 + rest.length ≤ maxBundleEntries; omega)
        (by change s.totalBytes + _ + regularBytes rest ≤ maxBundleTotalBytes; omega)
    have hinsert : (observe F false s h).observed.keys.length = s.observed.keys.length + 1 := by
      change (s.observed.insert h.name (h.entry F)).keys.length = _
      rw [AList.insert_of_notMem (hfresh h mem_cons_self)]
      rfl
    refine ⟨t, ?_, hmanifest, ?_, ?_, ?_, ?_⟩
    · simp only [scanHeaders, bind_eq_ok]
      exact ⟨_, hnext, hscan⟩
    · rw [hentries, length_cons]
      change s.entries + 1 + rest.length = _
      omega
    · rw [hkeys, length_cons]
      omega
    · intro name hname
      rw [map_cons, mem_cons, not_or] at hname
      rw [hother name hname.2]
      exact AList.lookup_insert_ne hname.1
    · intro other hmem
      rcases mem_cons.mp hmem with rfl | hmem
      · rw [hother other.name hnot]
        exact AList.lookup_insert _
      · exact hlookup other hmem

theorem checkEntries_ok : checkEntries observed roots entries seen = .ok () ↔
      (∀ e ∈ entries, safeArchivePath e.path ∧ e.path ∉ seen ∧
        checkExpected observed roots e = .ok ()) ∧
        (entries.map Entry.path).Nodup := by
  induction entries generalizing seen with
  | nil => exact iff_of_true rfl (by simp)
  | cons e rest ih =>
    rw [forall_mem_cons, map_cons, nodup_cons]
    simp only [checkEntries, bind_eq_ok, require_eq_ok, exists_const, ih, mem_cons, not_or]
    constructor
    · rintro ⟨hsafe, hseen, ⟨⟩, hexp, hrest, hnodup⟩
      refine ⟨⟨⟨hsafe, hseen, hexp⟩, fun other hother => ?_⟩, ?_, hnodup⟩
      · exact ⟨(hrest other hother).1, (hrest other hother).2.1.2, (hrest other hother).2.2⟩
      · intro hmem
        obtain ⟨other, hother, heq⟩ := mem_map.mp hmem
        exact (hrest other hother).2.1.1 heq
    · rintro ⟨⟨⟨hsafe, hseen, hexp⟩, hrest⟩, hfresh, hnodup⟩
      refine ⟨hsafe, hseen, (), hexp, fun other hother => ?_, hnodup⟩
      obtain ⟨hother_safe, hother_seen, hother_expected⟩ := hrest other hother
      exact ⟨hother_safe, ⟨fun heq => hfresh (mem_map.mpr ⟨other, hother, heq⟩), hother_seen⟩,
        hother_expected⟩

theorem checkExpected_ok : checkExpected observed roots e = .ok () ↔
    observed.lookup e.path = some e ∧
      (e.mode.isSymlink → matchingArchiveRoot e.path roots ≠ [] ∧
        safeArchiveLink e.path e.link (matchingArchiveRoot e.path roots)) := by
  simp only [checkExpected, bind_eq_ok, require_eq_ok, whenever_eq_ok, exists_const]

theorem checkManifest_ok : checkManifest clusterID s = .ok m ↔ s.manifest = some m ∧
      (m.apiVersion = bundleAPIVersion ∧ m.kind = bundleKind) ∧
        (clusterID = "" ∨ m.clusterID = clusterID) ∧
      m.roots ≠ [] ∧ (∀ root ∈ m.roots, safeArchivePath root) ∧
      s.observed.keys.length = m.entries.length ∧
        checkEntries s.observed m.roots m.entries [] = .ok () := by
  cases hread : s.manifest with
  | none => simp [checkManifest, hread]
  | some =>
    simp only [checkManifest, hread, bind_eq_ok, require_eq_ok, exists_const, ok.injEq,
      Option.some.injEq]
    constructor
    · rintro ⟨hversion, hcluster, hroots, hsafe, hcount, ⟨⟩, hentries, rfl⟩
      exact ⟨rfl, hversion, hcluster, hroots, hsafe, hcount, hentries⟩
    · rintro ⟨rfl, hversion, hcluster, hroots, hsafe, hcount, hentries⟩
      exact ⟨hversion, hcluster, hroots, hsafe, hcount, (), hentries, rfl⟩

end Accepts

section Bundles

variable {sources : List (Source δ)}

structure Verifiable (F : Formats δ) (clusterID : String) (now : ℤ) (sources : List (Source δ)) :
    Prop where
  distinct : ((bundleHeaders sources).map name).Nodup
  reserved : ∀ h ∈ bundleHeaders sources, h.name ≠ manifestName
  roots : ∀ source ∈ sources, Valid source.root
  texts : ∀ h ∈ bundleHeaders sources, Valid h.name ∧ Valid h.linkname
  /-- A link stays below the longest of the roots that its name matches, which need not be that of
  its source. -/
  links : ∀ h ∈ bundleHeaders sources, h.mode.isSymlink →
    safeArchiveLink h.name h.linkname
      (matchingArchiveRoot h.name (F.sortTexts (sources.map Source.root)))
  short : (F.size (F.encode (bundleManifest F clusterID now sources)) : ℤ) ≤ maxManifestBytes

theorem replaced_entry (h : TarEntry δ) :
    (h.entry F).replaced = h.entry F ↔ Valid h.name ∧ Valid h.linkname := by
  have hdigest : replaceInvalid (contentDigest F h.mode h.content) =
      contentDigest F h.mode h.content := by
    rw [replaceInvalid_eq_self]
    unfold contentDigest
    split_ifs
    · exact F.sha256_valid h.content
    · simp [Valid]
  simp only [Entry.replaced, entry, Entry.mk.injEq, true_and, hdigest, replaceInvalid_eq_self]

theorem map_eq_self {α : Type} {f : α → α} {l : List α} : l.map f = l ↔ ∀ a ∈ l, f a = a := by
  conv_lhs => rhs; rw [← map_id l]
  exact map_inj_left

/-- The manifest survives its round trip if all its texts are valid. -/
theorem replaced_bundleManifest :
    (bundleManifest F clusterID now sources).replaced = bundleManifest F clusterID now sources ↔
      (∀ source ∈ sources, Valid source.root) ∧ ∀ h ∈ bundleHeaders sources, Valid h.name ∧
        Valid h.linkname := by
  simp only [Manifest.replaced, bundleManifest, Manifest.mk.injEq, true_and, map_eq_self,
    (F.sortTexts_perm _).mem_iff, (F.sortEntries_perm _).mem_iff, forall_mem_map,
    replaceInvalid_eq_self, replaced_entry]

/-- A name lies below the root of its source, which is among the roots. -/
theorem matchingArchiveRoot_ne_nil (hroots : ∀ source ∈ sources, safeArchivePath source.root)
    (hmem : h ∈ bundleHeaders sources) :
    matchingArchiveRoot h.name (F.sortTexts (sources.map Source.root)) ≠ [] := by
  obtain ⟨source, hsource, hitem⟩ := mem_flatMap.mp hmem
  obtain ⟨item, -, rfl⟩ := mem_map.mp hitem
  have hmatch : item.name source.root = source.root ∨
      (source.root ++ [slash]).isPrefixOf (item.name source.root) := by
    unfold Item.name
    split_ifs
    · exact .inr ( isPrefixOf_iff_prefix.mpr ⟨item.relative, by simp⟩)
    · exact .inl rfl
  have hroot : source.root ∈ F.sortTexts (sources.map Source.root) :=
    (F.sortTexts_perm _).mem_iff.mpr (mem_map.mpr ⟨source, hsource, rfl⟩)
  have hne : source.root ≠ [] := by
    intro hnil
    have hsafe := hroots source hsource
    rw [hnil] at hsafe
    exact absurd hsafe (by decide)
  intro hnil
  have hlong := (matchingArchiveRoot_spec (item.name source.root) _).2 _ hroot hmatch
  have hpos := byteLength_pos hne
  change matchingArchiveRoot (item.name source.root) _ = [] at hnil
  rw [hnil] at hlong
  exact absurd hlong (by change ¬ byteLength source.root ≤ 0; omega)

theorem checkEntries_bundle (hheaders : ∀ h ∈ bundleHeaders sources, safeArchivePath h.name)
    (hroots : ∀ source ∈ sources, safeArchivePath source.root)
    (hv : Verifiable F clusterID now sources)
    (hlookup : ∀ h ∈ bundleHeaders sources, observed.lookup h.name = some (h.entry F)) :
    checkEntries observed (bundleManifest F clusterID now sources).roots
      (bundleManifest F clusterID now sources).entries [] =
      .ok () := by
  refine checkEntries_ok.mpr ⟨?_, ?_⟩
  · intro e he
    obtain ⟨h, hh, rfl⟩ := mem_map.mp ((F.sortEntries_perm _).mem_iff.mp he)
    refine ⟨hheaders h hh, by simp, checkExpected_ok.mpr ⟨hlookup h hh, fun hlink => ?_⟩⟩
    exact ⟨matchingArchiveRoot_ne_nil hroots hh, hv.links h hh hlink⟩
  · refine ((F.sortEntries_perm _).map Entry.path).nodup_iff.mpr ?_
    rw [map_map]
    exact hv.distinct

/-- The verifier returns the manifest that was written exactly for these sources. -/
theorem verify_written_iff
    (hwrite : writeBundleArchive F clusterID now sources = .ok (m, archive)) :
    verdict F archive clusterID = .ok m ↔ Verifiable F clusterID now sources := by
  obtain ⟨rfl, rfl, hwritten, hsources, hroots⟩ := writeBundleArchive_ok hwrite
  simp only [verdict, scanHeaders_append, bind_eq_ok, notFaulty_eq_ok, true_and, exists_const]
  constructor
  · rintro ⟨t, ⟨middle, hscan, hlast⟩, hcheck⟩
    simp only [scanHeaders, bind_eq_ok, ok.injEq, exists_eq_right] at hlast
    obtain ⟨hnone, hshort, m, hdecode, hread⟩ := scanHeader_manifest rfl hlast
    obtain ⟨hm, -, -, -, -, -, hentries⟩ := checkManifest_ok.mp hcheck
    cases hread.symm.trans hm
    have hreserved := scanHeaders_reserved hscan hnone
    have hvalid := replaced_bundleManifest.mp (ok.inj ((F.decode_encode _).symm.trans hdecode))
    refine ⟨(scanHeaders_nodup hreserved hscan).1, hreserved, hvalid.1, hvalid.2, ?_, hshort⟩
    intro h hh hlink
    have hentry : h.entry F ∈ (bundleManifest F clusterID now sources).entries :=
      (F.sortEntries_perm _).mem_iff.mpr (mem_map.mpr ⟨h, hh, rfl⟩)
    exact ((checkExpected_ok.mp ((checkEntries_ok.mp hentries).1 _ hentry).2.2).2 hlink).2
  · intro hv
    obtain ⟨middle, hscan, hnone, hcount, hkeys, -, hlookup⟩ :=
      scanHeaders_plain (s := {}) hwritten.admissible hv.reserved hv.distinct
        (fun _ _ hmem => by cases hmem)
        (by simpa using hwritten.count) (by simpa using hwritten.limit)
    refine ⟨{ middle with
      manifest := some (bundleManifest F clusterID now sources), entries := middle.entries + 1 },
      ⟨middle, hscan, ?_⟩, ?_⟩
    · have hcount : middle.entries ≤ maxBundleEntries := by
        rw [hcount]
        rw [Nat.zero_add]
        exact hwritten.count
      have hvalid : (bundleManifest F clusterID now sources).replaced =
          bundleManifest F clusterID now sources :=
        replaced_bundleManifest.mpr ⟨hv.roots, hv.texts⟩
      simp only [scanHeaders, bind_eq_ok, ok.injEq, exists_eq_right]
      exact scanHeader_manifestHeader hnone hcount hv.short hvalid
    · refine checkManifest_ok.mpr ⟨rfl, ⟨rfl, rfl⟩, .inr rfl, ?_, ?_, ?_, ?_⟩
      · intro hnil
        have hperm := F.sortTexts_perm (sources.map Source.root)
        rw [show F.sortTexts (sources.map Source.root) = [] from hnil, nil_perm,
          map_eq_nil_iff] at hperm
        exact hsources hperm
      · intro root hroot
        obtain ⟨source, hsource, rfl⟩ := mem_map.mp ((F.sortTexts_perm _).mem_iff.mp hroot)
        exact hroots source hsource
      · change middle.observed.keys.length = (F.sortEntries _).length
        rw [hkeys, (F.sortEntries_perm _).length_eq, length_map]
        exact Nat.zero_add _
      · exact checkEntries_bundle (fun h hh => (hwritten.admissible h hh).safe) hroots hv hlookup

/-- A bundle that was written is verified, with the manifest that was written, exactly if it is a
bundle of such sources. -/
theorem created_bundle_verifies {m : Manifest} {archive : Archive δ}
    (hwrite : writeBundleArchive F clusterID now sources = .ok (m, archive))
    (schedule : ℕ → CallOutcome) (links : ℕ) (w : World Text) :
    (verifyBundleArchive F schedule links false archive clusterID).run w = (.ok m, w) ↔
      Verifiable F clusterID now sources := by
  rw [verifyBundleArchive_run, Prod.mk.injEq, and_iff_left rfl]
  exact verify_written_iff hwrite

end Bundles

/-- Contents of a length, and manifests. -/
inductive Content where
  | bytes (length : ℕ)
  | manifest (m : Manifest)

theorem valid_text : Valid (text value) := by
  intro r hr
  obtain ⟨c, -, rfl⟩ := mem_map.mp hr
  rfl

def contentFormats : Formats Content where
  size
    | .bytes length => length
    | .manifest _ => 2
  sha256
    | .bytes length => text (toString length)
    | .manifest _ => text "m"
  sha256_valid content := by cases content <;> exact valid_text
  encode := .manifest
  decode
    | .bytes _ => .error "invalid character"
    | .manifest m => .ok m.replaced
  decode_encode _ := rfl
  sortEntries := id
  sortEntries_perm _ := List.Perm.refl _
  sortTexts := id
  sortTexts_perm _ := List.Perm.refl _

def regularItem (relative : Text) : Item Content :=
  ⟨relative, { bits := 0o600 }, 3, [], .bytes 3, none⟩

def stateSource (name : Text) : Source Content where
  path := text "/var/lib/tako"
  archive := text "state/"
  required := true
  fault := none
  found := some
    [⟨[dot], { isDir := true, bits := 0o700 }, 4096, [], .bytes 0, none⟩, regularItem name,
      ⟨text "self", { isSymlink := true, bits := 0o777 }, 1, text ".", .bytes 0, none⟩]

def stateClusterID : String := "11111111-1111-4111-8111-111111111111"

theorem state_bundle_verified :
    ∃ m archive, writeBundleArchive contentFormats stateClusterID 0 [stateSource (text "config")] =
      .ok (m, archive) ∧
      (verifyBundleArchive contentFormats (fun _ => ⟨none, true⟩) 40 false archive
        stateClusterID).run World.empty =
        (.ok m, World.empty) := by
  have hwrite : writeBundleArchive contentFormats stateClusterID 0 [stateSource (text "config")] =
      .ok (_, _) := rfl
  refine ⟨_, _, hwrite, (created_bundle_verifies hwrite _ _ _).mpr ⟨?_, ?_, ?_, ?_, ?_, ?_⟩⟩
  · decide +kernel
  · decide +kernel
  · decide +kernel
  · decide +kernel
  · decide +kernel
  · decide +kernel

/-- The name of the file is the byte `0xff`. JSON holds texts in UTF-8 only, so the manifest names
another file. -/
theorem invalid_name_fails_verification :
    ∃ m archive, writeBundleArchive contentFormats stateClusterID 0 [stateSource [.byte 0xff]] =
      .ok (m, archive) ∧
      (verifyBundleArchive contentFormats (fun _ => ⟨none, true⟩) 40 false archive
        stateClusterID).run World.empty =
        (.error "recovery entry state/\uFFFD failed integrity verification", World.empty) :=
  ⟨_, _, rfl, rfl⟩

end RecoveryBundle
