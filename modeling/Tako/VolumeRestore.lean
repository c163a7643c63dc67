import Tako.ResourceNames
import Tako.OperationLeases
import Tako.ShellScripts

/-! # Restoring a volume

`RestoreVolumeBackup` and the script it runs in a container. What `tar` does with the bytes of
an archive is given: the lines and the status of the listing, and the entries and the status
after the extraction.
-/
namespace VolumeRestore

open List GoPrelude OperationLeases ResourceNames ShellScripts

structure BackupRequest (Storage : Type) where
  (project environment volume dockerVolume : String)
  externalVolume : Bool
  backupID : String
  retentionDays : ℤ
  storage : Option Storage
  deriving Repr

def isSafeBackupVolume (value : String) : Bool :=
  let letterOrDigit := fun c => isLowerLetter c || isUpperLetter c || isDigit c
  match chars value with
  | [] => false
  | first :: rest =>
    decide (value.utf8ByteSize ≤ 128) && letterOrDigit first &&
      rest.all fun c => letterOrDigit c || c == '-' || c == '_' || c == '.'

def maxDockerVolumeName : ℕ := 255

def isSafeDockerVolumeName (name : String) : Bool :=
  decide (trimSpace name ≠ "") && decide (name.utf8ByteSize ≤ maxDockerVolumeName) &&
    !((chars name).any fun c => c == '/' || c == '\\' || c == '\x00' || c == '\r' || c == '\n') &&
    !hasPrefix name "-" && (chars name).all fun c =>
      decide (0x20 < c.toNat) && decide (c.toNat ≠ 0x7f)

def digitsValue (l : List Char) : Option ℕ :=
  if l.all isDigit then some (l.foldl (fun n c => 10 * n + (c.toNat - '0'.toNat)) 0) else none

def daysIn (month year : ℕ) : ℕ :=
  match month with
  | 2 => if year % 4 = 0 ∧ (year % 100 ≠ 0 ∨ year % 400 = 0) then 29 else 28
  | 4 | 6 | 9 | 11 => 30
  | _ => 31

/-- `time.Parse` with the layout `20060102-150405` accepts the text. -/
def isBackupTimestamp (l : List Char) : Bool :=
  let number := fun start length => digitsValue ((l.drop start).take length)
  match number 0 4, number 4 2, number 6 2, number 9 2, number 11 2, number 13 2 with
  | some year, some month, some day, some hours, some minutes, some seconds =>
    decide (l.length = 15 ∧ l[8]? = some '-' ∧ 1 ≤ month ∧ month ≤ 12 ∧ 1 ≤ day ∧
      day ≤ daysIn month year ∧
      hours < 24 ∧ minutes < 60 ∧ seconds < 60)
  | _, _, _, _, _, _ => false

def isSafeBackupID (value : String) : Bool :=
  let suffixed := decide (value.utf8ByteSize = 48) && decide ((chars value)[15]? = some '-') &&
    ((chars value).drop 16).all fun c => isDigit c || decide ('a' ≤ c ∧ c ≤ 'f')
  (decide (value.utf8ByteSize = 15) || suffixed) && isBackupTimestamp ((chars value).take 15)

def validateBackupRequest {Storage : Type} (validateBackupStorage : Storage → Except String Unit)
    (req : BackupRequest Storage) (requireVolume requireBackupID : Bool) : Except String Unit := do
  require (isSafeProjectName req.project) "invalid project name"
  require (isSafeRuntimeName req.environment) "invalid environment name"
  whenever (requireVolume ∨ req.volume ≠ "") do
    require (isSafeBackupVolume req.volume) "invalid volume name"
  whenever (req.dockerVolume ≠ "") do
    require (isSafeDockerVolumeName req.dockerVolume) "invalid docker volume name"
  whenever (requireBackupID ∨ req.backupID ≠ "") do
    require (isSafeBackupID req.backupID) "invalid backup ID"
  require (0 ≤ req.retentionDays) "retentionDays cannot be negative"
  match req.storage with
  | some storage => validateBackupStorage storage
  | none => .ok ()

def backupRootDir : String := "/var/lib/tako/backups"

section Names

variable {Storage : Type} (sha256Hex : String → String) (req : BackupRequest Storage)

/-- The parts are single path elements, so that `filepath.Join` only joins them. -/
def backupDirectory : String := backupRootDir ++ "/" ++ req.project ++ "/" ++ req.environment

def fullBackupVolumeName : String :=
  if req.dockerVolume ≠ "" then req.dockerVolume
  else volumeName sha256Hex req.project req.environment req.volume

def backupFileName (volume backupID : String) : String := volume ++ "_" ++ backupID ++ ".tar.gz"

def backupFullPath : String := backupDirectory req ++ "/" ++ backupFileName req.volume req.backupID

end Names

def shellQuote (value : String) : String :=
  String.ofList (apostrophe :: quoteChars (chars value) ++ [apostrophe])

inductive PathTest where
  | directory
  | symlink
  | file
  deriving DecidableEq

inductive Word where
  | path (text : String)
  | quotedVariable (name : String)
  deriving DecidableEq

inductive Command where
  | setOptions
  | assign (name word : String)
  | test (negated : Bool) (flag : PathTest) (word : Word)
  | complain (message : String)
  | tarList (archive : Word)
  | awkUnsafeEntries
  | findRemove (directory : String)
  | tarExtract (archive : Word) (directory : String)
  deriving DecidableEq

def PathTest.text : PathTest → String
  | .directory => "-d"
  | .symlink => "-L"
  | .file => "-f"

def Word.text : Word → String
  | .path text => text
  | .quotedVariable name => "\"$" ++ name ++ "\""

def unsafeEntryProgram : String :=
  "\nBEGIN \x7b bad = 0 \x7d\n/^\\/|(^|\\/)\\.\\.(\\/|$)/ \x7b\n" ++
  "  print \"unsafe backup entry: \" $0 > \"/dev/stderr\"\n  bad = 1\n\x7d\n" ++
  "END \x7b exit bad \x7d\n"

def Command.text : Command → String
  | .setOptions => "set -eu"
  | .assign name word => name ++ "=" ++ word
  | .test negated flag word =>
    "[ " ++ (if negated then "! " else "") ++ flag.text ++ " " ++ word.text ++ " ]"
  | .complain message => "echo \"" ++ message ++ "\" >&2"
  | .tarList archive => "tar -tzf " ++ archive.text
  | .awkUnsafeEntries => "awk '" ++ unsafeEntryProgram ++ "'"
  | .findRemove directory =>
    "find " ++ directory ++ " -mindepth 1 -maxdepth 1 -exec rm -rf -- \x7b\x7d \\;"
  | .tarExtract archive directory => "tar -xzf " ++ archive.text ++ " -C " ++ directory

section

variable (backupFile : String)

def assignBackupPath : Script Command :=
  .simple (.assign "backupPath" ("/backup/" ++ shellQuote backupFile))

def refuseTarget : Script Command :=
  .ifThen (.orElse (.simple (.test true .directory (.path "/target")))
    (.simple (.test false .symlink (.path "/target"))))
    (.seq (.simple (.complain "invalid restore target")) (.exit 1))

def refuseMissingBackup : Script Command :=
  .ifThen (.simple (.test true .file (.quotedVariable "backupPath")))
    (.seq (.simple (.complain "backup file not found")) (.exit 1))

def refuseUnsafeEntries : Script Command :=
  .pipe (.simple (.tarList (.quotedVariable "backupPath"))) (.simple .awkUnsafeEntries)

def replaceContent : Script Command :=
  .seq (.simple (.findRemove "/target"))
    (.simple (.tarExtract (.quotedVariable "backupPath") "/target"))

/-- Everything before the content of the volume is touched. -/
def restoreChecks : Script Command :=
  .seq (.simple .setOptions) (.seq (assignBackupPath backupFile)
    (.seq refuseTarget (.seq refuseMissingBackup refuseUnsafeEntries)))

def restoreScript : Script Command := .seq (restoreChecks backupFile) replaceContent

def restoreVolumeScript : String := "set -eu\nbackupPath=/backup/" ++ shellQuote backupFile ++
"
if [ ! -d /target ] || [ -L /target ]; then
  echo \"invalid restore target\" >&2
  exit 1
fi
if [ ! -f \"$backupPath\" ]; then
  echo \"backup file not found\" >&2
  exit 1
fi
tar -tzf \"$backupPath\" | awk '
BEGIN \x7b bad = 0 \x7d
/^\\/|(^|\\/)\\.\\.(\\/|$)/ \x7b
  print \"unsafe backup entry: \" $0 > \"/dev/stderr\"
  bad = 1
\x7d
END \x7b exit bad \x7d
'
find /target -mindepth 1 -maxdepth 1 -exec rm -rf -- \x7b\x7d \\;
tar -xzf \"$backupPath\" -C /target
"

theorem restoreScript_text :
    (restoreScript backupFile).text Command.text "" ++ "\n" = restoreVolumeScript backupFile := by
  have hhead : "set -eu" ++ "\n" ++ "backupPath" ++ "=" ++
      "/backup/" = "set -eu\nbackupPath=/backup/" := by
    decide +kernel
  unfold restoreVolumeScript
  rw [← hhead]
  simp only [restoreScript, restoreChecks, assignBackupPath, Script.text, Command.text,
    String.append_assoc, String.empty_append, String.append_right_inj]
  decide +kernel

end

/-- `tar` on the bytes of an archive and `find … -exec rm` on the entries of a directory, each
with its status. -/
structure Tools (Archive Entry : Type) where
  list : Archive → List String × ℕ
  extract : Archive → List Entry → List Entry × ℕ
  remove : List Entry → List Entry × ℕ

inductive FileState (Archive : Type) where
  | missing
  | unreadable (cause : String)
  | regular (archive : Archive)
  | other

def FileState.isRegular {Archive : Type} : FileState Archive → Bool
  | .regular _ => true
  | _ => false

inductive MountPoint where
  | directory
  | linkToDirectory
  | other
  deriving DecidableEq

/-- The container as the script sees it: its variables, `/target` and the files at their paths. -/
structure Container (Archive Entry : Type) where
  vars : String → Option String
  target : MountPoint
  content : List Entry
  file : String → FileState Archive

def dotDotNext : List Char → Bool
  | ['.', '.'] => true
  | '.' :: '.' :: '/' :: _ => true
  | _ => false

/-- The expression `(^|\/)\.\.(\/|$)` matches; `first` says that an element starts here. -/
def matchesDotDot : Bool → List Char → Bool
  | _, [] => false
  | first, c :: rest => (first && dotDotNext (c :: rest)) || matchesDotDot (c == '/') rest

/-- The expression `^\/|(^|\/)\.\.(\/|$)` matches the line. -/
def unsafeEntry (line : String) : Bool :=
  (chars line).head? == some '/' || matchesDotDot true (chars line)

section Commands

variable {Archive Entry : Type}

section

variable (c : Container Archive Entry)

def Container.word : Word → Option String
  | .path text => some text
  | .quotedVariable name => c.vars name

def Container.test (flag : PathTest) (path : String) : Bool :=
  match flag with
  | .directory => path == "/target" && (c.target == .directory || c.target == .linkToDirectory)
  | .symlink => path == "/target" && c.target == .linkToDirectory
  | .file => (c.file path).isRegular

/-- A word with an unset variable ends the shell, by `set -u`. -/
def withWord (word : Word)
    (f : String → Result (Container Archive Entry)) : Result (Container Archive Entry) :=
  match c.word word with
  | some value => f value
  | none => ⟨c, [], 2, true⟩

end

def runCommand (tools : Tools Archive Entry) :
    Command → List String → Container Archive Entry → Result (Container Archive Entry)
  | .setOptions, _, c => ⟨c, [], 0, false⟩
  | .assign name word, _, c =>
    match expand .bare (chars word) with
    | some value =>
      ⟨{ c with vars := Function.update c.vars name (some (String.ofList value)) }, [], 0, false⟩
    | none => ⟨c, [], 2, true⟩
  | .test negated flag word, _, c =>
    withWord c word fun path => ⟨c, [], if c.test flag path != negated then 0 else 1, false⟩
  | .complain _, _, c => ⟨c, [], 0, false⟩
  | .tarList archive, _, c =>
    withWord c archive fun path =>
      match c.file path with
      | .regular bytes => ⟨c, (tools.list bytes).1, (tools.list bytes).2, false⟩
      | _ => ⟨c, [], 1, false⟩
  | .awkUnsafeEntries, input, c => ⟨c, [], if input.any unsafeEntry then 1 else 0, false⟩
  | .findRemove _, _, c =>
    ⟨{ c with content := (tools.remove c.content).1 }, [], (tools.remove c.content).2, false⟩
  | .tarExtract archive _, _, c =>
    withWord c archive fun path =>
      match c.file path with
      | .regular bytes =>
        let r := tools.extract bytes c.content
        ⟨{ c with content := r.1 }, [], r.2, false⟩
      | _ => ⟨c, [], 1, false⟩

end Commands

structure Host (Storage Archive Entry : Type) where
  validateBackupStorage : Storage → Except String Unit
  sha256Hex : String → String
  ctxErr : Option String
  file : String → FileState Archive
  (volumeInspect volumeCreate : String → Option String)
  containerStart : Option String
  target : MountPoint
  tools : Tools Archive Entry

structure Volumes (Entry : Type) where
  entries : String → Option (List Entry)

section Restore

variable {Storage Archive Entry : Type}

section

variable (volumes : Volumes Entry) (name : String)

def Volumes.content : List Entry := (volumes.entries name).getD []

def Volumes.set (content : List Entry) : Volumes Entry :=
  ⟨Function.update volumes.entries name (some content)⟩

end

def checkRestore (host : Host Storage Archive Entry) (req : BackupRequest Storage) :
    Except String Unit := do
  validateBackupRequest host.validateBackupStorage req true true
  match host.ctxErr with
  | some cause => .error cause
  | none =>
    match host.file (backupFullPath req) with
    | .missing => .error ("backup not found: " ++ backupFullPath req)
    | .unreadable cause => .error ("failed to inspect backup: " ++ cause)
    | _ => .ok ()

def ensureDockerVolume (host : Host Storage Archive Entry) (volume : String) :
    Except String Unit := do
  require (isSafeDockerVolumeName volume) "invalid volume name"
  match host.volumeCreate volume with
  | some cause => .error cause
  | none => .ok ()

section

variable (host : Host Storage Archive Entry) (req : BackupRequest Storage)

/-- The volume exists; the result says whether it was created. -/
def provideVolume : Except String Bool :=
  let name := fullBackupVolumeName host.sha256Hex req
  match host.volumeInspect name with
  | none => .ok false
  | some _ =>
    if req.externalVolume then .error s!"external volume {name} does not exist"
    else
      match ensureDockerVolume host name with
      | .error cause => .error ("failed to ensure volume exists: " ++ cause)
      | .ok () => .ok true

/-- The container has the volume at `/target` and the backup directory at `/backup`. -/
def restoreContainer (content : List Entry) : Container Archive Entry where
  vars := fun _ => none
  target := host.target
  content := content
  file := fun path =>
    if hasPrefix path "/backup/" then
      host.file (backupDirectory req ++ String.ofList ((chars path).drop "/backup".length))
    else .missing

def runRestore (content : List Entry) : Result (Container Archive Entry) :=
  exec (runCommand host.tools) true (restoreScript (backupFileName req.volume req.backupID)) []
    (restoreContainer host req content)

def restoreVolumeBackup (volumes : Volumes Entry) : Except String Unit × Volumes Entry :=
  match checkRestore host req with
  | .error cause => (.error cause, volumes)
  | .ok () =>
    match provideVolume host req with
    | .error cause => (.error cause, volumes)
    | .ok created =>
      let name := fullBackupVolumeName host.sha256Hex req
      let provided := if created then volumes.set name (volumes.content name) else volumes
      match host.containerStart with
      | some cause => (.error ("failed to restore backup: " ++ cause), provided)
      | none =>
        let r := runRestore host req (volumes.content name)
        (if r.status = 0 then .ok ()
          else .error s!"failed to restore backup: exit status {r.status}",
          provided.set name r.state.content)

end

theorem expand_shellQuote :
    expand .bare (chars ("/backup/" ++ shellQuote value)) = some (chars ("/backup/" ++ value)) := by
  have hplain : ∀ c ∈ "/backup/".toList, isPlain c := all_eq_true.mp (by decide +kernel)
  unfold shellQuote
  simp only [chars_eq_toList, String.toList_append, String.toList_ofList]
  rw [expand_plain hplain, cons_append, expand]
  rw [expand_quoteChars]
  simp [expand]

section Script

variable (tools : Tools Archive Entry) (input : List String) (c : Container Archive Entry)

theorem exec_assignBackupPath (backupFile : String) :
    exec (runCommand tools) true (assignBackupPath backupFile) input c =
      ⟨{ c with vars := Function.update c.vars "backupPath" (some ("/backup/" ++ backupFile)) },
        [], 0, false⟩ := by
  have hvalue : String.ofList (chars ("/backup/" ++ backupFile)) = "/backup/" ++ backupFile := by
    rw [chars_eq_toList, String.ofList_toList]
  simp only [assignBackupPath, exec, runCommand, expand_shellQuote, hvalue, Result.stopIf]
  rfl

theorem exec_refuseTarget : exec (runCommand tools) true refuseTarget input c =
      if c.target = .directory then ⟨c, [], 0, false⟩ else ⟨c, [], 1, true⟩ := by
  cases h : c.target <;>
    simp [refuseTarget, exec, runCommand, Result.stopIf, Result.after, withWord, Container.word,
      Container.test, h]

variable {c} (hpath : c.vars "backupPath" = some path)
include hpath

theorem exec_refuseMissingBackup : exec (runCommand tools) true refuseMissingBackup input c =
      if (c.file path).isRegular then ⟨c, [], 0, false⟩ else ⟨c, [], 1, true⟩ := by
  cases h : (c.file path).isRegular <;>
    simp [refuseMissingBackup, exec, runCommand, Result.stopIf, Result.after, withWord,
      Container.word, Container.test, hpath, h]

/-- The status of the listing is not seen. -/
theorem exec_refuseUnsafeEntries (hfile : c.file path = .regular archive) :
    exec (runCommand tools) true refuseUnsafeEntries input c =
      if (tools.list archive).1.any unsafeEntry then ⟨c, [], 1, true⟩ else ⟨c, [], 0, false⟩ := by
  cases h : (tools.list archive).1.any unsafeEntry <;>
    simp [refuseUnsafeEntries, exec, runCommand, Result.stopIf, withWord, Container.word, hpath,
      hfile, h]

theorem exec_replaceContent (hfile : c.file path = .regular archive)
    (hremove : tools.remove c.content = ([], 0)) :
    (exec (runCommand tools) true replaceContent input c).state.content =
      (tools.extract archive []).1 := by
  simp [replaceContent, exec, runCommand, Result.stopIf, withWord, Container.word, hpath, hfile,
    hremove]

end Script

def withBackupPath (c : Container Archive Entry) (backupFile : String) : Container Archive Entry :=
  { c with vars := Function.update c.vars "backupPath" (some ("/backup/" ++ backupFile)) }

theorem exec_restoreChecks (tools : Tools Archive Entry)
    (hfile : c.file ("/backup/" ++ backupFile) = .regular archive) :
    exec (runCommand tools) true (restoreChecks backupFile) [] c =
      if c.target = .directory ∧ (tools.list archive).1.any unsafeEntry = false then
        ⟨withBackupPath c backupFile, [], 0, false⟩
      else ⟨withBackupPath c backupFile, [], 1, true⟩ := by
  have hset : (exec (runCommand tools) true (.simple .setOptions) [] c) = ⟨c, [], 0, false⟩ := by
    simp [exec, runCommand, Result.stopIf]
  have hpath : (withBackupPath c backupFile).vars "backupPath" =
      some ("/backup/" ++ backupFile) := by
    simp [withBackupPath]
  have hassign := exec_assignBackupPath tools [] c backupFile
  change _ = (⟨withBackupPath c backupFile, [], 0, false⟩ : Result _) at hassign
  have hregular : ((withBackupPath c backupFile).file ("/backup/" ++ backupFile)).isRegular := by
    simp [withBackupPath, hfile, FileState.isRegular]
  unfold restoreChecks
  rw [exec_seq_done (by rw [hset]), hset, exec_seq_done (by rw [hassign]), hassign]
  simp only [Result.after]
  by_cases htarget : c.target = .directory
  · have hkind : (withBackupPath c backupFile).target = .directory := htarget
    have htest := exec_refuseTarget tools [] (withBackupPath c backupFile)
    rw [if_pos hkind] at htest
    have hmissing := exec_refuseMissingBackup tools [] hpath
    rw [if_pos hregular] at hmissing
    rw [exec_seq_done (by rw [htest]), htest, exec_seq_done (by rw [hmissing]), hmissing,
      exec_refuseUnsafeEntries tools [] hpath hfile]
    cases h : (tools.list archive).1.any unsafeEntry <;> simp [htarget, Result.after]
  · have hkind : (withBackupPath c backupFile).target ≠ .directory := htarget
    have htest := exec_refuseTarget tools [] (withBackupPath c backupFile)
    rw [if_neg hkind] at htest
    rw [exec_seq_exited (by rw [htest]), htest]
    simp [htarget]

section Content

variable {host : Host Storage Archive Entry}

theorem restoreContainer_target : (restoreContainer host req content).target = host.target := rfl

theorem restoreContainer_file (hfile : host.file (backupFullPath req) = .regular archive)
    (content : List Entry) :
    (restoreContainer host req content).file
      ("/backup/" ++ backupFileName req.volume req.backupID) =
      .regular archive := by
  have hdrop : (chars ("/backup/" ++ backupFileName req.volume req.backupID)).drop
      "/backup".length =
      '/' :: chars (backupFileName req.volume req.backupID) := by
    simp only [chars_eq_toList, String.toList_append]
    rfl
  have hmounted : hasPrefix ("/backup/" ++ backupFileName req.volume req.backupID) "/backup/" := by
    unfold hasPrefix
    simp
  unfold restoreContainer
  simp only [hmounted, if_true, hdrop]
  rw [← hfile, backupFullPath, String.append_assoc]
  congr 2
  simp

def Passes (host : Host Storage Archive Entry) (archive : Archive) : Prop :=
  host.target = .directory ∧ (host.tools.list archive).1.any unsafeEntry = false

theorem runRestore_refused (hfile : host.file (backupFullPath req) = .regular archive)
    (hpasses : ¬ Passes host archive) : (runRestore host req content).state.content = content := by
  have hchecks := exec_restoreChecks host.tools (restoreContainer_file hfile content)
  rw [restoreContainer_target, if_neg (show ¬ (_ ∧ _) from hpasses)] at hchecks
  unfold runRestore restoreScript
  rw [exec_seq_exited (by rw [hchecks]), hchecks]
  rfl

theorem runRestore_passed (hfile : host.file (backupFullPath req) = .regular archive)
    (hpasses : Passes host archive) (hremove : host.tools.remove content = ([], 0)) :
    (runRestore host req content).state.content = (host.tools.extract archive []).1 := by
  have hcont := restoreContainer_file hfile content
  have hchecks := exec_restoreChecks host.tools hcont
  rw [restoreContainer_target, if_pos (show _ ∧ _ from hpasses)] at hchecks
  unfold runRestore restoreScript
  rw [exec_seq_done (by rw [hchecks]), hchecks]
  exact exec_replaceContent host.tools [] (by simp [withBackupPath]) hcont hremove

def Starts (host : Host Storage Archive Entry) (req : BackupRequest Storage) : Prop :=
  checkRestore host req = .ok () ∧ (∃ created, provideVolume host req = .ok created) ∧
    host.containerStart = none

section

variable (volumes : Volumes Entry) (name : String)

theorem content_set_self : (volumes.set name content).content name = content := by
  simp [Volumes.content, Volumes.set]

theorem content_provided (created : Bool) :
    (if created then volumes.set name (volumes.content name) else volumes).content name =
      volumes.content name := by
  cases created with
  | false => rfl
  | true => exact content_set_self volumes name

end

theorem restoreVolumeBackup_started (hstarts : Starts host req) (volumes : Volumes Entry) :
    let name := fullBackupVolumeName host.sha256Hex req
    (restoreVolumeBackup host req volumes).2.content name =
      (runRestore host req (volumes.content name)).state.content := by
  intro name
  obtain ⟨hcheck, ⟨created, hprovide⟩, hrun⟩ := hstarts
  unfold restoreVolumeBackup
  simp only [hcheck, hprovide, hrun]
  exact content_set_self _ _

theorem restoreVolumeBackup_not_started (hstarts : ¬ Starts host req) (volumes : Volumes Entry) :
    let name := fullBackupVolumeName host.sha256Hex req
    (restoreVolumeBackup host req volumes).2.content name = volumes.content name := by
  intro name
  unfold restoreVolumeBackup
  cases hcheck : checkRestore host req with
  | error => rfl
  | ok =>
    cases hprovide : provideVolume host req with
    | error => rfl
    | ok created =>
      cases hrun : host.containerStart with
      | some => exact content_provided volumes name created
      | none => exact absurd ⟨hcheck, ⟨created, hprovide⟩, hrun⟩ hstarts

/-- The property: the content of the volume is the one before if listing the archive fails or
prints an unsafe entry. -/
def KeepsUnreadable (host : Host Storage Archive Entry) (req : BackupRequest Storage)
    (archive : Archive) (volumes : Volumes Entry) : Prop :=
  let name := fullBackupVolumeName host.sha256Hex req
  ((host.tools.list archive).2 ≠ 0 ∨ ∃ line ∈ (host.tools.list archive).1, unsafeEntry line) →
    (restoreVolumeBackup host req volumes).2.content name = volumes.content name

theorem unreadable_replaced (hfile : host.file (backupFullPath req) = .regular archive)
    (hstarts : Starts host req) (hpasses : Passes host archive)
    (hremove : ∀ entries, host.tools.remove entries = ([], 0)) :
    (restoreVolumeBackup host req volumes).2.content (fullBackupVolumeName host.sha256Hex req) =
      (host.tools.extract archive []).1 :=
  (restoreVolumeBackup_started hstarts volumes).trans (runRestore_passed hfile hpasses (hremove _))

/-- Once the restore gets to the script, the content of every volume survives an unreadable or
unsafe archive if the listing succeeds or prints an unsafe entry; and only then, where `find`
removes what it finds. -/
theorem restore_keeps_unreadable_iff [Nonempty Entry]
    (hfile : host.file (backupFullPath req) = .regular archive) :
    let readable := Starts host req ∧ host.target = .directory → (host.tools.list archive).2 = 0 ∨
      ∃ line ∈ (host.tools.list archive).1, unsafeEntry line
    (readable → ∀ volumes, KeepsUnreadable host req archive volumes) ∧
      ((∀ entries, host.tools.remove entries = ([], 0)) →
        (∀ volumes, KeepsUnreadable host req archive volumes) → readable) := by
  intro readable
  have hany : (host.tools.list archive).1.any unsafeEntry = false ↔
      ¬ ∃ line ∈ (host.tools.list archive).1, unsafeEntry line := by
    rw [← any_eq_true, Bool.not_eq_true]
  constructor
  · intro hreadable volumes hunreadable
    by_cases hstarts : Starts host req
    · rw [restoreVolumeBackup_started hstarts]
      apply runRestore_refused hfile
      rintro ⟨htarget, hsafe⟩
      have hnone := hany.mp hsafe
      rcases hreadable ⟨hstarts, htarget⟩ with hlisted | hprinted
      · exact hunreadable.elim (fun hfailed => hfailed hlisted) hnone
      · exact hnone hprinted
    · exact restoreVolumeBackup_not_started hstarts volumes
  · intro hremove hkeeps ⟨hstarts, htarget⟩
    by_contra hbad
    obtain ⟨hfailed, hnone⟩ := not_or.mp hbad
    -- The script leaves the same content whatever was there, so two contents cannot both survive.
    obtain ⟨entry⟩ := ‹Nonempty Entry›
    have hsame : ∀ content : List Entry, content = (host.tools.extract archive []).1 := by
      intro content
      have hkept := hkeeps ⟨fun _ => some content⟩ (.inl hfailed)
      rw [unreadable_replaced hfile hstarts ⟨htarget, hany.mpr hnone⟩ hremove] at hkept
      exact hkept.symm
    have hcontra := (hsame []).trans (hsame [entry]).symm
    cases hcontra

end Content

end Restore

def restoreRequest : BackupRequest Unit where
  project := "shop"
  environment := "production"
  volume := "data"
  dockerVolume := ""
  externalVolume := false
  backupID := "20240101-120000"
  retentionDays := 0
  storage := none

/-- A node on which everything works, with one archive and the given listing of it; the
extraction of it fails. -/
def hostListing (listing : List String × ℕ) : Host Unit Unit String where
  validateBackupStorage := fun _ => .ok ()
  sha256Hex := fun _ => "0000000000000000000000000000000000000000000000000000000000000000"
  ctxErr := none
  file := fun _ => .regular ()
  volumeInspect := fun _ => none
  volumeCreate := fun _ => none
  containerStart := none
  target := .directory
  tools := ⟨fun _ => listing, fun _ entries => (entries, 1), fun _ => ([], 0)⟩

theorem hostListing_starts : Starts (hostListing listing) restoreRequest := by
  have hvalid : validateBackupRequest (fun _ : Unit => .ok ()) restoreRequest true true =
      .ok () := by
    decide +kernel
  refine ⟨?_, ⟨false, rfl⟩, rfl⟩
  exact bind_eq_ok.mpr ⟨(), hvalid, rfl⟩

/-- A listing that prints an unsafe entry before it fails leaves every volume alone. -/
theorem restore_keeps_unreadable_unsafe : unsafeEntry "../etc/passwd" ∧
    ∀ volumes, KeepsUnreadable (hostListing (["./notes", "../etc/passwd"], 1)) restoreRequest
      () volumes := by
  have hclimbs : unsafeEntry "../etc/passwd" := by decide +kernel
  exact ⟨hclimbs, (restore_keeps_unreadable_iff rfl).1 fun _ =>
    .inr ⟨"../etc/passwd", mem_cons_of_mem _ mem_cons_self, hclimbs⟩⟩

/-- An archive that cannot even be listed: the volume is emptied before the extraction fails. -/
theorem unlistable_archive_empties_volume : let host := hostListing ([], 1)
    let name := fullBackupVolumeName host.sha256Hex restoreRequest
    let before : Volumes String := ⟨fun _ => some ["orders.db"]⟩
    (host.tools.list ()).2 ≠ 0 ∧ before.content name = ["orders.db"] ∧
      (restoreVolumeBackup host restoreRequest before).2.content name = [] := by
  refine ⟨by decide, rfl, ?_⟩
  exact unreadable_replaced rfl hostListing_starts ⟨rfl, rfl⟩ (fun _ => rfl)

end VolumeRestore
