import Mathlib.Logic.Function.Basic
import Zevory.Interaction.Errexit

/-!
# What the fetch scripts work on

The scripts in `scripts/` give commands to other programs: `mkdir`, `gpg`, `curl`,
`xz`, `tar` and `rm`.  A `Disk` is what these read and write: the keyring of every
GnuPG home, the files and the directories.  A file is known by how it was made, so
that a signature is one of a certain file by a certain key.

`tools keys` is what the commands do when `keys` are the keys that locating or
importing delivers.  What a download delivers is left open.
-/

namespace Zevory.Fetch

open Interaction

/-- A member of an archive: a file with its data, in a top-level folder. -/
structure Entry where
  folder : String
  name : String
  data : List UInt8
  deriving DecidableEq

inductive Packing
  | xz
  | bzip2
  | gzip
  deriving DecidableEq

/-- The content of a file: bytes, an archive, a packed content, or a signature of a content. -/
inductive Content
  | bytes (b : List UInt8)
  | archive (entries : List Entry)
  | packed (how : Packing) (of : Content)
  | signature (fingerprint : String) (of : Content)

/-- The members `tar -x` finds in a content, which it unpacks by itself if it is packed. -/
def Content.entries : Content → Option (List Entry)
  | .archive entries => some entries
  | .packed _ of => of.entries
  | _ => none

structure Disk where
  keyring : String → List String
  files : String → Option Content
  dirs : List String

namespace Disk

def empty : Disk := ⟨fun _ => [], fun _ => none, []⟩

def addKeys (d : Disk) (home : String) (keys : List String) : Disk :=
  { d with keyring := Function.update d.keyring home (d.keyring home ++ keys) }

def put (d : Disk) (path : String) (content : Option Content) : Disk :=
  { d with files := Function.update d.files path content }

def mkdir (d : Disk) (paths : List String) : Disk :=
  { d with dirs := paths ++ d.dirs }

def remove (d : Disk) (paths : List String) : Disk :=
  { d with files := fun path => if path ∈ paths then none else d.files path }

/-- The disk after the members of an archive are written under a directory. -/
def unpack (d : Disk) (into : String) : List Entry → Disk
  | [] => d
  | e :: rest =>
      ((d.mkdir [into ++ "/" ++ e.folder]).put (into ++ "/" ++ e.folder ++ "/" ++ e.name)
        (some (.bytes e.data))).unpack into rest

/-- The file at `sig` is a good signature of the file at `path` by one of the keys. -/
def SignedBy (d : Disk) (keys : List String) (sig path : String) : Prop :=
  ∃ key ∈ keys, ∃ content,
    d.files sig = some (.signature key content) ∧ d.files path = some content

variable (d : Disk)

@[simp] theorem addKeys_keyring (home : String) (keys : List String) :
    (d.addKeys home keys).keyring home = d.keyring home ++ keys :=
  Function.update_self ..

@[simp] theorem put_files (path : String) (content : Option Content) :
    (d.put path content).files path = content :=
  Function.update_self ..

theorem put_files_other {path other : String} (content : Option Content)
    (distinct : other ≠ path) : (d.put path content).files other = d.files other :=
  Function.update_of_ne distinct ..

@[simp] theorem mkdir_dirs (paths : List String) : (d.mkdir paths).dirs = paths ++ d.dirs := rfl

/-- A good signature by one of some keys is one by one of more keys. -/
theorem SignedBy.subset {d : Disk} {keys keys' : List String} {sig path : String}
    (h : d.SignedBy keys sig path) (sub : ∀ key ∈ keys, key ∈ keys') :
    d.SignedBy keys' sig path := by
  obtain ⟨key, known, content, signed, whole⟩ := h
  exact ⟨key, sub key known, content, signed, whole⟩

theorem not_signedBy {d : Disk} {keys : List String} {sig path key : String} {content : Content}
    (made : d.files sig = some (.signature key content)) (other : key ∉ keys) :
    ¬ d.SignedBy keys sig path := by
  rintro ⟨key', known, content', signed, -⟩
  rw [made] at signed
  cases signed
  exact other known

end Disk

/-- The commands that the scripts give. `xzDecompress stem` is `xz -dk stem.xz`. -/
inductive Cmd
  | mkdir (paths : List String)
  | chmod (mode path : String)
  | isDir (path : String)
  | gpgLocateKeys (home : String) (addresses : List String)
  | gpgImport (home file : String)
  | gpgListKeys (home fingerprint : String)
  | curl (out url : String)
  | xzDecompress (stem : String)
  | gpgVerify (home sig file : String)
  | tar (file into : String)
  | rm (files : List String)
  deriving DecidableEq

/-- `part` may be what a `tar` that is cut off has written of `entries`: every file in it is the
beginning of a member. -/
def Partly (entries part : List Entry) : Prop :=
  ∀ e ∈ part, ∃ whole ∈ entries,
    e.folder = whole.folder ∧ e.name = whole.name ∧ e.data <+: whole.data

/-- What a command that succeeds has done. A test succeeds exactly if what it tests holds; `xz`
keeps its input and does not write over a file that is there. -/
def Done (keys : List String) (d : Disk) : Cmd → Disk → Prop
  | .mkdir paths, d' => d' = d.mkdir paths
  | .chmod _ _, d' => d' = d
  | .isDir path, d' => path ∈ d.dirs ∧ d' = d
  | .gpgLocateKeys home _, d' => d' = d.addKeys home keys
  | .gpgImport home _, d' => d' = d.addKeys home keys
  | .gpgListKeys home fingerprint, d' => fingerprint ∈ d.keyring home ∧ d' = d
  | .curl out _, d' => ∃ content, d' = d.put out (some content)
  | .xzDecompress stem, d' =>
      ∃ content, d.files (stem ++ ".xz") = some (.packed .xz content) ∧
        d.files stem = none ∧ d' = d.put stem (some content)
  | .gpgVerify home sig file, d' => d.SignedBy (d.keyring home) sig file ∧ d' = d
  | .tar file into, d' =>
      ∃ entries, (d.files file).bind Content.entries = some entries ∧ d' = d.unpack into entries
  | .rm files, d' => d' = d.remove files

/-- What a command that fails may leave behind, which is any part of what it was to do. -/
def Fails (keys : List String) (d : Disk) : Cmd → Disk → Prop
  | .mkdir paths, d' => ∃ part, part ⊆ paths ∧ d' = d.mkdir part
  | .chmod _ _, d' => d' = d
  | .isDir path, d' => path ∉ d.dirs ∧ d' = d
  | .gpgLocateKeys home _, d' => ∃ part, part ⊆ keys ∧ d' = d.addKeys home part
  | .gpgImport home _, d' => ∃ part, part ⊆ keys ∧ d' = d.addKeys home part
  | .gpgListKeys home fingerprint, d' => fingerprint ∉ d.keyring home ∧ d' = d
  | .curl out _, d' => ∃ content, d' = d.put out content
  | .xzDecompress stem, d' => d' = d ∨ d.files stem = none ∧ ∃ b, d' = d.put stem (some (.bytes b))
  | .gpgVerify home sig file, d' => ¬ d.SignedBy (d.keyring home) sig file ∧ d' = d
  | .tar file into, d' =>
      d' = d ∨ ∃ entries part, (d.files file).bind Content.entries = some entries ∧
        Partly entries part ∧ d' = d.unpack into part
  | .rm files, d' => ∃ part, part ⊆ files ∧ d' = d.remove part

/-- The commands of the scripts, when `keys` are the keys that locating or importing delivers. -/
def tools (keys : List String) : Tools Cmd Disk := ⟨Done keys, Fails keys⟩

end Zevory.Fetch
