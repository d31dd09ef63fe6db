import ZReader.Lib.Faults
import ZReader.Lib.Files
import ZReader.Lib.LexicalPath
import ZReader.Storage.Records

namespace ZReader.Backup

open Lib.Utf8 Lib.Faults Lib.Files Lib.LexicalPath
open Storage (Time ascii)

/-- The parts of a cleaned absolute path. Where the code looks for an empty string there is
none. -/
abbrev Path := List Bytes

abbrev Disk := FileSystem Bytes UInt8

/-- How an operation goes: it fails where `ok` is false, a copy after `written` bytes.
`name` is the random part of a temporary name. -/
structure Turn where
  ok : Bool
  written : Nat
  name : Bytes

inductive Failure
  /-- An error of the operating system or of a library. -/
  | system
  | message (text : String)
  | about (text : String) (path : Path)
  | context (text : String) (cause : Failure)

abbrev Program := Faulty Turn Disk Failure

structure Manifest where
  createdAt : Time
  /-- The map in the order of an iteration. -/
  files : List (Bytes × Bytes)

/-- What comes from other libraries: JSON, SHA-256 in hexadecimal, and whether bbolt opens
a file read-only. -/
structure Libraries where
  marshal : Manifest → Bytes
  unmarshal : Bytes → Option Manifest
  sha256 : Bytes → Bytes
  opens : Bytes → Bool

/-! ## Operations on files -/

/-- A call of the operating system, which does nothing when it fails. -/
def call {α : Type} (f : Turn → Disk → Option (α × Disk)) : Program α :=
  .operation fun w fs =>
    match w.ok, f w fs with
    | true, some (a, fs') => (.ok a, fs')
    | _, _ => (.error .system, fs)

def fileAt (fs : Disk) (p : Path) : Option Bytes :=
  match fs.node p with
  | some (.file content) => some content
  | _ => none

/-- A part of the way to the path is a file. -/
def blocked (fs : Disk) (p : Path) : Bool := p.inits.any fun q => q ≠ p && (fileAt fs q).isSome

def lstat (p : Path) : Program (Option (Node UInt8)) :=
  call fun _ fs => if blocked fs p then none else some (fs.node p, fs)

def readFile (p : Path) : Program Bytes := call fun _ fs => (fileAt fs p).map (·, fs)

def openFile (p : Path) : Program Unit :=
  call fun _ fs => if h : fs.CanPut p then some ((), fs.put p (.file []) h) else none

/-- Fills an open file. A failure leaves the beginning. -/
def copy (content : Bytes) (p : Path) : Program Unit :=
  .operation fun w fs =>
    if h : fs.CanPut p then
      if w.ok then (.ok (), fs.put p (.file content) h)
      else (.error .system, fs.put p (.file (content.take w.written)) h)
    else (.error .system, fs)

def close : Program Unit := call fun _ fs => some ((), fs)

def writeFile (p : Path) (content : Bytes) : Program Unit := do
  openFile p
  copy content p
  close

def mkdir (p : Path) : Program Unit :=
  call fun _ fs =>
    if fs.node p = some .dir then some ((), fs)
    else if h : fs.node p = none ∧ fs.CanPut p then some ((), fs.put p .dir h.2)
    else none

def mkdirAll (p : Path) : Program Unit := .fold (fun _ q => mkdir q) () p.inits

/-- `os.CreateTemp` and `os.MkdirTemp` -/
def createTemp (node : Node UInt8) (dir : Path) (pattern : Bytes) : Program Path :=
  call fun w fs =>
    let p := dir ++ [pattern ++ w.name]
    if h : fs.node p = none ∧ fs.CanPut p then some (p, fs.put p node h.2) else none

def rename (p q : Path) : Program Unit :=
  call fun _ fs =>
    if p = q ∧ fs.node p ≠ none then some ((), fs)
    else if h : fs.CanRename p q then some ((), fs.rename p q h)
    else none

/-- The entries of a directory, with whether each is a directory. -/
def readDir (p : Path) : Program (List (Bytes × Bool)) :=
  call fun _ fs =>
    if fs.node p = some .dir then
      some ((fs.children p).map fun name => (name, decide (fs.node (p ++ [name]) = some .dir)), fs)
    else none

/-- No path has more parts than bytes. -/
def maxDepth : Nat := 4096

def walk {α : Type} (fn : α → Path → Bool → Program α) : Nat → α → Path → Bool → Program α
  | 0, _, _, _ => .raise .system
  | n + 1, a, p, isDir => do
      let a ← fn a p isDir
      if isDir then
        let entries ← readDir p
        .fold (fun a entry => walk fn n a (p ++ [entry.1]) entry.2) a entries
      else return a

def walkDir {α : Type} (root : Path) (fn : α → Path → Bool → Program α) (a : α) : Program α := do
  match ← lstat root with
  | some node => walk fn maxDepth a root (node = .dir)
  | none => .raise .system

/-! ## The package -/

def manifestName : Bytes := ascii "manifest.json"

def dataName : Bytes := ascii "data.db"

def sessionsName : Bytes := ascii "data.db.sessions"

def uploadsName : Bytes := ascii "uploads"

/-- `Clean` of the path is neither the current directory nor above it. -/
def safeRelativePath (path : Bytes) : Bool :=
  if path = [] ∨ isAbs path then false
  else cleanParts path ≠ [] && (cleanParts path).head? ≠ some dotDot

/-- The parts below the root, put together. -/
def relative (root p : Path) : Bytes := [slash].intercalate (p.drop root.length)

def copyFile (source destination : Path) : Program Unit := do
  let input ← readFile source
  openFile destination
  copy input destination
  close

def copyEntry (source destination : Path) (p : Path) (isDir : Bool) : Program Unit :=
  if p = source then return
  else if safeRelativePath (relative source p) = false then .raise (.about "unsafe upload path" p)
  else
    let target := destination ++ p.drop source.length
    if isDir then mkdirAll target else copyFile p target

def copyTree (source destination : Path) : Program Unit := do
  mkdirAll destination
  walkDir source (fun _ p isDir => copyEntry source destination p isDir) ()

section

variable (lib : Libraries)

def fileSHA256 (p : Path) : Program Bytes := lib.sha256 <$> readFile p

def manifestEntry (root : Path) (files : List (Bytes × Bytes)) (p : Path) (isDir : Bool) :
    Program (List (Bytes × Bytes)) :=
  if isDir then return files
  else if safeRelativePath (relative root p) = false then .raise (.about "unsafe backup path" p)
  else do
    let digest ← fileSHA256 lib p
    return files ++ [(relative root p, digest)]

def buildManifest (root : Path) (createdAt : Time) : Program Manifest := do
  let files ← walkDir root (manifestEntry lib root) []
  return ⟨createdAt, files⟩

def checkEntry (path : Path) (entry : Bytes × Bytes) : Program Unit := do
  if safeRelativePath entry.1 = false then .raise (.about "unsafe manifest path" [entry.1])
  else
    let actual ← fileSHA256 lib (path ++ cleanParts entry.1)
    if actual ≠ entry.2 then .raise (.about "checksum mismatch for" [entry.1]) else return

def openSnapshot (path : Path) (name : Bytes) : Program Unit := do
  let content ← (readFile (path ++ [name])).context (.context "open snapshot")
  if lib.opens content = false then .raise (.context "open snapshot" .system) else close

def verify (path : Path) : Program Unit := do
  let data ← readFile (path ++ [manifestName])
  match lib.unmarshal data with
  | none => .raise .system
  | some manifest =>
      if manifest.createdAt = .zero ∨ manifest.files = [] then
        .raise (.message "invalid backup manifest")
      else
        .fold (fun _ entry => checkEntry lib path entry) () manifest.files
        .fold (fun _ name => openSnapshot lib path name) () [dataName, sessionsName]

structure Config where
  dir : Path
  uploadDir : Path
  retentionDays : Int

/-- The entries of the backup directory that are older than the cutoff. -/
def removeExpired (expired : Bytes → Bool) (root : Path) (retentionDays : Int) : Program Unit :=
  if retentionDays ≤ 0 then return
  else do
    let entries ← readDir root
    let old := entries.filter fun entry =>
      entry.2 && (ascii "backup-").isPrefixOf entry.1 && expired entry.1
    .fold (fun _ entry => call fun _ fs => some ((), fs.removeAll (root ++ [entry.1]))) () old

/-- `main` and `sessions` are the snapshots of the two databases, `createdAt` is the time of
the call and `name` its name as a backup. -/
def create (config : Config) (main sessions : Bytes) (createdAt : Time) (name : Bytes)
    (expired : Bytes → Bool) : Program Path := do
  if config.dir = [] then .raise (.message "backup directory is required")
  else if config.uploadDir = [] then .raise (.message "upload directory is required")
  else
    mkdirAll config.dir
    let temporaryDir ← createTemp .dir config.dir (ascii "." ++ name ++ ascii "-")
    Faulty.deferring (·.removeAll temporaryDir) do
      (writeFile (temporaryDir ++ [dataName]) main).context (.context "snapshot main database")
      (writeFile (temporaryDir ++ [sessionsName]) sessions).context
        (.context "snapshot session database")
      (copyTree config.uploadDir (temporaryDir ++ [uploadsName])).context (.context "copy uploads")
      let manifest ← buildManifest lib temporaryDir createdAt
      writeFile (temporaryDir ++ [manifestName]) (lib.marshal manifest)
      (verify lib temporaryDir).context (.context "verify created backup")
      let finalDir := config.dir ++ [name]
      rename temporaryDir finalDir
      removeExpired expired config.dir config.retentionDays
      return finalDir

structure RestoreConfig where
  dbPath : Path
  uploadDir : Path

def RestoreConfig.sessionDBPath (config : RestoreConfig) : Path :=
  config.dbPath.dropLast ++ [config.dbPath.getLastD [] ++ ascii ".sessions"]

def requireAbsent (p : Path) : Program Unit := do
  match ← lstat p with
  | none => return
  | some _ => .raise (.about "restore target already exists" p)

/-- The end of `Restore`, with the temporary files at hand. -/
def install (source : Path) (config : RestoreConfig) (mainTemp sessionTemp uploadTemp : Path) :
    Program Unit := do
  (copyFile (source ++ [dataName]) mainTemp).context (.context "restore main database")
  (copyFile (source ++ [sessionsName]) sessionTemp).context (.context "restore session database")
  (copyTree (source ++ [uploadsName]) uploadTemp).context (.context "restore uploads")
  rename mainTemp config.dbPath
  (rename sessionTemp config.sessionDBPath).onError (·.remove config.dbPath)
  (rename uploadTemp config.uploadDir).onError
    fun fs => (fs.remove config.dbPath).remove config.sessionDBPath

/-- The clean-up removals are taken to succeed. -/
def restore (source : Path) (config : RestoreConfig) : Program Unit := do
  if config.dbPath = [] then .raise (.message "database path is required")
  else if config.uploadDir = [] then .raise (.message "upload directory is required")
  else
    (verify lib source).context (.context "verify backup before restore")
    .fold (fun _ p => requireAbsent p) () [config.dbPath, config.sessionDBPath, config.uploadDir]
    mkdirAll config.dbPath.dropLast
    mkdirAll config.uploadDir.dropLast
    let mainTemp ← createTemp (.file []) config.dbPath.dropLast (ascii ".restore-data-")
    close.onError (·.remove mainTemp)
    Faulty.deferring (·.remove mainTemp) do
      let sessionTemp ← createTemp (.file []) config.sessionDBPath.dropLast
        (ascii ".restore-sessions-")
      close.onError (·.remove sessionTemp)
      Faulty.deferring (·.remove sessionTemp) do
        let uploadTemp ← createTemp .dir config.uploadDir.dropLast (ascii ".restore-uploads-")
        Faulty.deferring (·.removeAll uploadTemp) (install source config mainTemp sessionTemp uploadTemp)

end

end ZReader.Backup
