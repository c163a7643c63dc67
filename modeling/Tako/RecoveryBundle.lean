import Mathlib.Data.List.AList
import Tako.DirectoryTrees
import Tako.GoTexts
import Tako.NodeIdentity

/-! # Recovery bundles

A compressed archive of files, directories and links with a manifest as its last entry. The contents
of files are of any type that has a size and a digest. The archive and compression formats give back
what was written, and JSON does so up to bytes that are not UTF-8.
-/
namespace RecoveryBundle

open List GoPrelude NodeIdentity GoTexts DurablePrograms DirectoryTrees Durable

def bundleKind : String := "TakoPlatformRecoveryBundle"

def bundleAPIVersion : String := "tako.io/v1"

def maxBundleEntries : ℕ := 100000

def maxBundleFileBytes : ℤ := 2 * 2 ^ 30

def maxBundleTotalBytes : ℤ := 16 * 2 ^ 30

def maxManifestBytes : ℤ := 8 * 2 ^ 20

/-- `fs.FileMode`; the header of an archive may set several type bits. -/
structure FileMode where
  (isDir isSymlink : Bool := false)
  /-- A device, a pipe, a socket or the like. -/
  isSpecial : Bool := false
  /-- The permission, set-ID and sticky bits. -/
  bits : ℕ := 0
  deriving DecidableEq

def FileMode.isRegular (mode : FileMode) : Bool := !mode.isDir && !mode.isSymlink && !mode.isSpecial

def FileMode.isSupported (mode : FileMode) : Bool := mode.isRegular || mode.isDir || mode.isSymlink

structure Entry where
  path : Text
  mode : FileMode
  size : ℤ
  (sha256 link : Text)
  deriving DecidableEq

structure Manifest where
  (apiVersion kind clusterID : String)
  createdAt : ℤ
  roots : List Text
  entries : List Entry
  deriving DecidableEq

def Entry.replaced (e : Entry) : Entry :=
  { e with
    path := replaceInvalid e.path, sha256 := replaceInvalid e.sha256,
    link := replaceInvalid e.link }

def Manifest.replaced (m : Manifest) : Manifest :=
  { m with roots := m.roots.map replaceInvalid, entries := m.entries.map Entry.replaced }

/-- The parts of the formats that the code relies on, for contents of the type `δ`. -/
structure Formats (δ : Type) where
  size : δ → ℕ
  /-- The digest, in hexadecimal digits. -/
  sha256 : δ → Text
  sha256_valid : ∀ content, Valid (sha256 content)
  encode : Manifest → δ
  decode : δ → Except String Manifest
  decode_encode : ∀ m, decode (encode m) = .ok m.replaced
  /-- `sort.Slice` by path, which is not stable. -/
  sortEntries : List Entry → List Entry
  sortEntries_perm : ∀ entries, (sortEntries entries).Perm entries
  sortTexts : List Text → List Text
  sortTexts_perm : ∀ texts, (sortTexts texts).Perm texts

structure TarEntry (δ : Type) where
  name : Text
  mode : FileMode
  size : ℤ
  linkname : Text
  content : δ
  /-- The archive ends before the content does. -/
  truncated : Bool

structure Archive (δ : Type) where
  entries : List (TarEntry δ)
  /-- Why reading stops after these entries, if it is not the end of the archive. -/
  broken : Option String

def safeArchivePath (value : Text) : Bool :=
  value == trimSpace value && value != [] && value != [dot] && !isRooted value &&
    !value.contains nul &&
    clean value == value && clean value != dotdot && !(dotdot ++ [slash]).isPrefixOf (clean value)

def matchingArchiveRoot (name : Text) (roots : List Text) : Text :=
  roots.foldl (fun best root =>
    if (name = root ∨ (root ++ [slash]).isPrefixOf name) ∧ byteLength best < byteLength root then
      root else best) []

theorem matchingArchiveRoot_spec (name : Text) (roots : List Text) :
    (matchingArchiveRoot name roots = [] ∨ matchingArchiveRoot name roots ∈ roots) ∧
      ∀ root ∈ roots, (name = root ∨ (root ++ [slash]).isPrefixOf name) →
        byteLength root ≤ byteLength (matchingArchiveRoot name roots) := by
  unfold matchingArchiveRoot
  -- the roots that are folded so far are those left of the rest
  induction roots using reverseRecOn with
  | nil => simp
  | append_singleton roots last ih =>
    rw [foldl_append, foldl_cons, foldl_nil]
    obtain ⟨hmem, hlongest⟩ := ih
    constructor
    · split_ifs
      · exact .inr (by simp)
      · exact hmem.imp_right fun h => mem_append_left _ h
    · intro root hroot hmatch
      rcases mem_append.mp hroot with hold | hlast
      · have hle := hlongest root hold hmatch
        split_ifs <;> omega
      · rw [mem_singleton.mp hlast] at hmatch ⊢
        split_ifs with hlonger
        · exact le_rfl
        · exact not_lt.mp fun hlt => hlonger ⟨hmatch, hlt⟩

def safeArchiveLink (name target root : Text) : Bool :=
  let resolved := clean (joinPath (dir name) target)
  target == trimSpace target && target != [] && !isRooted target && !target.contains nul &&
    (resolved == root || (root ++ [slash]).isPrefixOf resolved)

def shown (t : Text) : String :=
  String.ofList (t.map fun r =>
    match r with
    | .char c => c
    | .byte _ => '�')

section Write

variable {δ : Type}

structure Item (δ : Type) where
  /-- The path from the root of the source, `.` for the root itself. -/
  relative : Text
  mode : FileMode
  size : ℤ
  link : Text
  content : δ
  /-- Reading it fails. -/
  fault : Option String

structure Source (δ : Type) where
  (path archive : Text)
  required : Bool
  /-- Inspecting the path fails, for another reason than that there is nothing. -/
  fault : Option String
  found : Option (List (Item δ))

def Source.root (source : Source δ) : Text := trimSlashes (trimSpace source.archive)

def Item.name (item : Item δ) (root : Text) : Text :=
  if item.relative ≠ [dot] then root ++ slash :: item.relative else root

def Item.header (item : Item δ) (root : Text) : TarEntry δ where
  name := item.name root
  mode := item.mode
  size := if item.mode.isRegular then item.size else 0
  linkname := if item.mode.isSymlink then item.link else []
  content := item.content
  truncated := false

def contentDigest (F : Formats δ) (mode : FileMode) (content : δ) : Text :=
  if mode.isRegular then F.sha256 content else []

def TarEntry.entry (F : Formats δ) (header : TarEntry δ) : Entry where
  path := header.name
  mode := header.mode
  size := header.size
  sha256 := contentDigest F header.mode header.content
  link := header.linkname

structure Writing (δ : Type) where
  headers : List (TarEntry δ) := []
  totalBytes : ℤ := 0

def notFaulty (fault : Option String) : Except String Unit :=
  match fault with
  | none => .ok ()
  | some cause => .error cause

def appendItem (F : Formats δ) (source : Source δ) (w : Writing δ) (item : Item δ) :
    Except String (Writing δ) := do
  let name := item.name source.root
  let current := shown (joinPath (clean source.path) item.relative)
  notFaulty item.fault
  require (safeArchivePath name) s!"unsafe recovery archive path {shown name}"
  require (w.headers.length < maxBundleEntries) "recovery bundle exceeds 100000 entries"
  require (item.mode.isSupported) s!"recovery source {current} has unsupported special file type"
  whenever (item.mode.isSymlink)
    (require (safeArchiveLink name item.link source.root)
      s!"recovery source {current} has unsafe symlink target")
  whenever (item.mode.isRegular)
    (require (0 ≤ item.size ∧ item.size ≤ maxBundleFileBytes ∧
      w.totalBytes ≤ maxBundleTotalBytes - item.size)
      s!"recovery source {current} exceeds bundle size limits")
  -- the archive takes exactly the announced number of bytes
  whenever (item.mode.isRegular) (require ((F.size item.content : ℤ) = item.size)
    "archive/tar: write too long")
  .ok
    { headers := w.headers ++ [item.header source.root]
      totalBytes := w.totalBytes + if item.mode.isRegular then item.size else 0 }

def appendItems (F : Formats δ) (source : Source δ) : List (Item δ) → Writing δ →
    Except String (Writing δ)
  | [], w => .ok w
  | item :: rest, w => do
    let next ← appendItem F source w item
    appendItems F source rest next

def Source.items (source : Source δ) : List (Item δ) := source.found.getD []

def appendSource (F : Formats δ) (w : Writing δ) (source : Source δ) :
    Except String (Writing δ) := do
  require (clean source.path ≠ [dot] ∧ safeArchivePath source.root) "invalid recovery source"
  notFaulty source.fault
  require (source.found.isSome ∨ source.required = false)
    s!"inspect recovery source {shown source.path}: no such file or directory"
  appendItems F source source.items w

def appendSources (F : Formats δ) : List (Source δ) → Writing δ → Except String (Writing δ)
  | [], w => .ok w
  | source :: rest, w => do
    require (safeArchivePath source.root) "invalid recovery source root"
    let next ← appendSource F w source
    appendSources F rest next

def manifestName : Text := text "manifest.json"

def manifestHeader (F : Formats δ) (m : Manifest) : TarEntry δ where
  name := manifestName
  mode := { bits := 0o600 }
  size := F.size (F.encode m)
  linkname := []
  content := F.encode m
  truncated := false

def writeBundleArchive (F : Formats δ) (clusterID : String) (now : ℤ) (sources : List (Source δ)) :
    Except String (Manifest × Archive δ) := do
  validateClusterID clusterID
  require (sources.isEmpty = false) "recovery bundle sources are required"
  let w ← appendSources F sources {}
  let manifest : Manifest :=
    { apiVersion := bundleAPIVersion
      kind := bundleKind
      clusterID := clusterID
      createdAt := now
      roots := F.sortTexts (sources.map Source.root)
      entries := F.sortEntries (w.headers.map (TarEntry.entry F)) }
  .ok (manifest, ⟨w.headers ++ [manifestHeader F manifest], none⟩)

end Write

section Verify

variable {δ : Type} (F : Formats δ) (schedule : ℕ → CallOutcome) (links : ℕ) (destination : Bool)

structure Scan where
  observed : AList (fun _ : Text => Entry) := ∅
  extractedModes : AList (fun _ : Text => FileMode) := ∅
  manifest : Option Manifest := none
  totalBytes : ℤ := 0
  entries : ℕ := 0

section

variable (s : Scan) (h : TarEntry δ)

def readManifest : Except String Scan := do
  require (s.manifest.isNone ∧ 0 ≤ h.size ∧ h.size ≤ maxManifestBytes)
    "recovery manifest is duplicated or oversized"
  require (h.truncated = false) "unexpected EOF"
  let decoded ← F.decode h.content
  .ok { s with manifest := some decoded, entries := s.entries + 1 }

def checkHeader : Except String Unit := do
  require (safeArchivePath h.name ∧ 0 ≤ h.size ∧ h.size ≤ maxBundleFileBytes)
    s!"unsafe archive entry {quoted (shown h.name)}"
  require (h.name ∉ s.observed) s!"duplicate recovery archive entry {quoted (shown h.name)}"
  require (h.mode.isSupported) s!"unsupported recovery archive entry type {quoted (shown h.name)}"
  whenever (h.mode.isRegular)
    (require (s.totalBytes ≤ maxBundleTotalBytes - h.size)
      "recovery archive exceeds total size limit")

def observe : Scan :=
  { s with
    observed := s.observed.insert h.name (h.entry F)
    extractedModes :=
      if destination ∧ h.mode.isSymlink = false then s.extractedModes.insert h.name h.mode
        else s.extractedModes
    totalBytes := s.totalBytes + if h.mode.isRegular then h.size else 0
    entries := s.entries + 1 }

end

/-- The directory of an entry and the entry in it; `elements` has the last element first. -/
def createEntry (node : Node Text) (elements : List Text) : Durable (World Text) Unit :=
  match elements with
  | [] => pure ()
  | n :: parents => do
    mkdirAll schedule links parents
    create schedule links node parents.reverse n

def extractFile (h : TarEntry δ) : Durable (World Text) Unit :=
  if destination then createEntry schedule links .file (split h.name).reverse else pure ()

def extractEntry (h : TarEntry δ) : Durable (World Text) Unit :=
  if h.mode.isRegular then do
    extractFile schedule links destination h
    check fun _ => require (h.truncated = false) "unexpected EOF"
  else if h.mode.isDir ∧ destination then mkdirAll schedule links (split h.name).reverse
  else pure ()

def readEntry (s : Scan) (h : TarEntry δ) : Durable (World Text) Scan := do
  check fun _ => checkHeader s h
  extractEntry schedule links destination h
  pure (observe F destination s h)

def readHeader (s : Scan) (h : TarEntry δ) : Durable (World Text) Scan := do
  check fun _ => require (s.entries + 1 ≤ maxBundleEntries + 1)
    "recovery archive exceeds entry limit"
  if h.name = manifestName then check fun _ => readManifest F s h
  else readEntry F schedule links destination s h

def readHeaders : List (TarEntry δ) → Scan → Durable (World Text) Scan
  | [], s => pure s
  | h :: rest, s => do
    let next ← readHeader F schedule links destination s h
    readHeaders rest next

/-- An entry of the manifest agrees with what was read, and a link stays below its root by its text.
-/
def checkExpected (observed : AList fun _ : Text => Entry) (roots : List Text) (expected : Entry) :
    Except String Unit := do
  require (observed.lookup expected.path = some expected)
    s!"recovery entry {shown expected.path} failed integrity verification"
  whenever (expected.mode.isSymlink)
    (require (matchingArchiveRoot expected.path roots ≠ [] ∧
        safeArchiveLink expected.path expected.link (matchingArchiveRoot expected.path roots))
      s!"recovery entry {shown expected.path} has unsafe link target")

def checkEntries (observed : AList fun _ : Text => Entry) (roots : List Text) : List Entry →
    List Text → Except String Unit
  | [], _ => .ok ()
  | expected :: rest, seen => do
    require (safeArchivePath expected.path)
      s!"recovery manifest contains unsafe entry {quoted (shown expected.path)}"
    require (expected.path ∉ seen)
      s!"recovery manifest duplicates entry {quoted (shown expected.path)}"
    checkExpected observed roots expected
    checkEntries observed roots rest (expected.path :: seen)

def checkManifest (expectedClusterID : String) (s : Scan) : Except String Manifest :=
  match s.manifest with
  | none => .error "recovery manifest is missing or invalid"
  | some m => do
    require (m.apiVersion = bundleAPIVersion ∧ m.kind = bundleKind)
      "recovery manifest is missing or invalid"
    require (expectedClusterID = "" ∨ m.clusterID = expectedClusterID)
      s!"recovery bundle cluster {m.clusterID} does not match {expectedClusterID}"
    require (m.roots ≠ []) "recovery manifest has no source roots"
    require (∀ root ∈ m.roots, safeArchivePath root) "recovery manifest contains unsafe source root"
    require (s.observed.keys.length = m.entries.length)
      "recovery manifest entry count does not match archive"
    checkEntries s.observed m.roots m.entries []
    .ok m

def elementStep (e : Text) : Option (Step Text) :=
  if e = [] ∨ e = [dot] then none else if e = dotdot then some .parent else some (.name e)

def pathSteps (t : Text) : List (Step Text) := (split t).filterMap elementStep

def restoreLink (expected : Entry) : Durable (World Text) Unit :=
  if expected.mode.isSymlink then
    createEntry schedule links (.link (isRooted expected.link) (pathSteps expected.link))
      (split expected.path).reverse
  else pure ()

def restoreLinks : List Entry → Durable (World Text) Unit
  | [] => pure ()
  | expected :: rest => do
    restoreLink schedule links expected
    restoreLinks rest

def chmodAll : List Text → Durable (World Text) Unit
  | [] => pure ()
  | name :: rest => do
    chmod schedule links (split name)
    chmodAll rest

/-- The modes are set at the end, those of directories last and from the longest path on. -/
def chmodOrder (modes : AList fun _ : Text => FileMode) : List Text :=
  let names (directory : Bool) := (modes.entries.filter fun entry => entry.2.isDir == directory).map
    Sigma.fst
  names false ++ (names true).insertionSort fun a b => byteLength b ≤ byteLength a

def restore (s : Scan) (m : Manifest) : Durable (World Text) Unit :=
  if destination then do
    restoreLinks schedule links m.entries
    chmodAll schedule links (chmodOrder s.extractedModes)
  else pure ()

def verifyBundleArchive (archive : Archive δ) (expectedClusterID : String) :
    Durable (World Text) Manifest := do
  let s ← readHeaders F schedule links destination archive.entries {}
  check fun _ => notFaulty archive.broken
  let m ← check fun _ => checkManifest expectedClusterID s
  restore schedule links destination s m
  pure m

end Verify

end RecoveryBundle
