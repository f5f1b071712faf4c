import PathTemplate.Digest
import PathTemplate.Packed.Routine

/-!
Routines kept as files, one for each key. A file that cannot be read, is damaged, or was made for
something else counts as missing. Times are in milliseconds.
-/

namespace PathTemplate.Cache

structure Artifact where
  version : Nat
  key : ContentHash
  /-- Hash of the template. -/
  source : ContentHash
  routine : Routine

namespace Artifact

def currentVersion : Nat := 1

def packed (a : Artifact) : List UInt8 :=
  Packed.uint 4 a.version ++ Packed.word a.key.bits.toNat ++ Packed.word a.source.bits.toNat ++
    Packed.routine a.routine

/-- Reads an artifact; bytes after it do not matter. -/
def read? (bytes : List UInt8) : Option Artifact := do
  let (version, bytes) ← Packed.readUint 4 bytes
  let (key, bytes) ← Packed.readWord bytes
  let (source, bytes) ← Packed.readWord bytes
  let (routine, _) ← Packed.readRoutine bytes
  return ⟨version, ⟨key.toUInt64⟩, ⟨source.toUInt64⟩, routine⟩

end Artifact

structure File where
  key : ContentHash
  /-- Nothing for an entry that is not a file and can be neither read nor replaced. -/
  content : Option (List UInt8)
  lastAccess : Nat

inductive StoreError where
  | unavailable
  | notAFile (key : ContentHash)
  deriving DecidableEq, Repr

/-- At most one file for a key. -/
structure Store where
  files : List File

namespace Store

def empty : Store := ⟨[]⟩

def size (s : Store) : Nat := s.files.length

def file? (s : Store) (key : ContentHash) : Option File := s.files.find? (·.key == key)

def artifact? (s : Store) (key source : ContentHash) : Option Artifact := do
  let file ← s.file? key
  let content ← file.content
  let artifact ← Artifact.read? content
  if artifact.version = Artifact.currentVersion ∧ artifact.key = key ∧ artifact.source = source then
    return artifact
  else none

def load (s : Store) (now : Nat) (key source : ContentHash) : Option (Routine × Store) :=
  match s.artifact? key source with
  | none => none
  | some a =>
    let touched := s.files.map fun f => if f.key = key then { f with lastAccess := now } else f
    some (a.routine, ⟨touched⟩)

/-- Stores a routine in place of the file of its key. What is not a file stays as it is. -/
def save (s : Store) (now : Nat) (key source : ContentHash) (routine : Routine) : Store :=
  let content := (Artifact.mk Artifact.currentVersion key source routine).packed
  match s.file? key with
  | none => ⟨s.files ++ [⟨key, some content, now⟩]⟩
  | some ⟨_, none, _⟩ => s
  | some _ => ⟨s.files.map fun f => if f.key = key then ⟨key, some content, now⟩ else f⟩

/-- Removes expired files and counts them, up to the first expired entry that is not a file. -/
def removeExpired (expired : File → Bool) : List File → Except StoreError Nat × List File
  | [] => (.ok 0, [])
  | f :: rest =>
    if expired f then
      match f.content with
      | none => (.error (.notAFile f.key), f :: rest)
      | some _ =>
        let (removed, rest) := removeExpired expired rest
        (removed.map (· + 1), rest)
    else
      let (removed, rest) := removeExpired expired rest
      (removed, f :: rest)

def sweep (s : Store) (ttl : Option Nat) (now : Nat) : Except StoreError Nat × Store :=
  match ttl with
  | none => (.ok 0, s)
  | some ttl =>
    let (removed, files) := removeExpired (fun f => ttl < now - f.lastAccess) s.files
    (removed, ⟨files⟩)

end Store

end PathTemplate.Cache
