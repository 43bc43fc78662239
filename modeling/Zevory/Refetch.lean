import Zevory.Fetch
import Zevory.Interaction.Attempts

/-!
# Fetching again

The fetch scripts take a target folder that is there for a tree that was fetched.  Every run
works on what the runs before it have left, wherever they were cut off; `Sources` is the disk
with what has verified on it and whether an archive was ever unpacked to the end.
-/

namespace Zevory.Fetch

open Interaction Sh

/-! ## What is unpacked over what -/

/-- The path a member is written to when its archive is unpacked into `into`. -/
def Entry.path (into : String) (e : Entry) : String := into ++ "/" ++ e.folder ++ "/" ++ e.name

/-- The files of an archive that is unpacked where nothing was, by path. -/
def tree (into : String) (entries : List Entry) (path : String) : Option Content :=
  (Disk.empty.unpack into entries).files path

section Unpack

variable {d d' : Disk} {into path : String} {entries : List Entry}

theorem unpack_dirs (d : Disk) (into : String) (entries : List Entry) :
    d.dirs ⊆ (d.unpack into entries).dirs := by
  induction entries generalizing d with
  | nil => exact List.Subset.refl _
  | cons e rest ih =>
      intro dir member
      exact ih _ (List.mem_cons_of_mem _ member)

/-- After an archive was unpacked the folder of every member is there. -/
theorem unpack_folder {e : Entry} (member : e ∈ entries) :
    into ++ "/" ++ e.folder ∈ (d.unpack into entries).dirs := by
  induction entries generalizing d with
  | nil => cases member
  | cons e' rest ih =>
      rw [Disk.unpack]
      rcases List.mem_cons.mp member with rfl | later
      · exact unpack_dirs _ _ _ List.mem_cons_self
      · exact ih later

/-- A path that is not that of a member holds what it held before. -/
theorem unpack_other (other : ∀ e ∈ entries, path ≠ e.path into) :
    (d.unpack into entries).files path = d.files path := by
  induction entries generalizing d with
  | nil => rfl
  | cons e rest ih =>
      rw [Disk.unpack, ih fun e' member => other e' (List.mem_cons_of_mem _ member)]
      exact Disk.put_files_other _ _ (other e List.mem_cons_self)

/-- If one disk has nothing at a path, or the same as another one, that is still so after the same
archive is unpacked on both. -/
theorem unpack_same (same : d.files path = none ∨ d.files path = d'.files path) :
    (d.unpack into entries).files path = none ∨
      (d.unpack into entries).files path = (d'.unpack into entries).files path := by
  induction entries generalizing d d' with
  | nil => exact same
  | cons e rest ih =>
      rw [Disk.unpack, Disk.unpack]
      apply ih
      by_cases here : path = into ++ "/" ++ e.folder ++ "/" ++ e.name
      · rw [here, Disk.put_files, Disk.put_files]
        exact .inr rfl
      · rw [Disk.put_files_other _ _ here, Disk.put_files_other _ _ here]
        exact same

/-- After an archive was unpacked to its end, all of its tree is there, whatever was there before.
-/
theorem tree_unpacked {content : Content} (holds : tree into entries path = some content) :
    (d.unpack into entries).files path = some content := by
  have either : tree into entries path = none ∨
      tree into entries path = (d.unpack into entries).files path :=
    unpack_same (.inl rfl)
  rcases either with absent | same
  · cases absent.symm.trans holds
  · exact same.symm.trans holds

theorem tree_member {content : Content} (holds : tree into entries path = some content) :
    ∃ e ∈ entries, path = e.path into := by
  by_contra noMember
  have nothing : tree into entries path = none := by
    apply unpack_other
    intro e member same
    exact noMember ⟨e, member, same⟩
  cases nothing.symm.trans holds

end Unpack

/-! ## The scripts with what has verified -/

/-- The disk, the contents whose signature has verified, newest first, and whether an archive was
ever unpacked to its end. -/
@[ext]
structure Sources where
  disk : Disk
  verified : List Content
  unpacked : Bool

namespace Sources

/-- A disk with nothing on it, and nothing verified or unpacked yet. -/
def empty : Sources := ⟨Disk.empty, [], false⟩

/-- The contents that have verified after a command that has succeeded. -/
def verifies (s : Sources) : Cmd → List Content
  | .gpgVerify _ _ file => (s.disk.files file).toList ++ s.verified
  | _ => s.verified

end Sources

def Cmd.unpacks : Cmd → Bool
  | .tar _ _ => true
  | _ => false

/-- The commands of the scripts, with the record of what has verified and of what was unpacked. -/
def recording (keys : List String) : Tools Cmd Sources where
  done s c s' := Done keys s.disk c s'.disk ∧ s'.verified = s.verifies c ∧
    s'.unpacked = (s.unpacked || c.unpacks)
  fails s c s' := Fails keys s.disk c s'.disk ∧ s'.verified = s.verified ∧
    s'.unpacked = s.unpacked

/-- What a command that is cut off leaves behind: nothing of what it does, a part of it, or all of
it. -/
def CutOff (keys : List String) (s : Sources) (c : Cmd) (s' : Sources) : Prop :=
  (s'.disk = s.disk ∨ Done keys s.disk c s'.disk ∨ Fails keys s.disk c s'.disk) ∧
    s'.verified = s.verified ∧ s'.unpacked = s.unpacked

/-! ## Where the scripts unpack -/

namespace Upstream

variable (root version : String)

/-- The path of the target folder, `SRC_DIR` or `OUT_DIR`. -/
def target : Upstream → String
  | kernel => kernelDir root version
  | busybox => (Fetch.busybox root version).target
  | limine => (Fetch.limine root version).target

/-- The path of the folder that `tar` unpacks into. -/
def into : Upstream → String
  | kernel => root ++ "/sources"
  | busybox => (Fetch.busybox root version).into
  | limine => (Fetch.limine root version).into

end Upstream

/-- The archive has members, and unpacked into `into` all of them are in the folder `target`. -/
def Within (target into : String) (entries : List Entry) : Prop :=
  into = target ∨ entries ≠ [] ∧ ∀ e ∈ entries, into ++ "/" ++ e.folder = target

/-- The target folder is there, and holds the complete content of an archive whose signature
has verified. -/
def Complete (target into : String) (s : Sources) : Prop :=
  target ∈ s.disk.dirs ∧ ∃ content ∈ s.verified, ∃ entries, content.entries = some entries ∧
    Within target into entries ∧
    ∀ path whole, tree into entries path = some whole → s.disk.files path = some whole

/-- All archives among the contents that have verified unpack to the target. -/
def AllWithin (target into : String) (s : Sources) : Prop :=
  ∀ content ∈ s.verified, ∀ entries, content.entries = some entries → Within target into entries

/-- The path is not one in the folder `target`. -/
def Outside (target path : String) : Prop := ∀ rest, path ≠ target ++ "/" ++ rest

/-- The guard of the scripts: a command other than `tar` writes outside of the target, and a `tar`
unpacks an archive that has verified where none was unpacked to its end. -/
def Careful (target into : String) : Cmd → Sources → Prop
  | .curl out _, _ => Outside target out
  | .xzDecompress stem, _ => Outside target stem
  | .rm files, _ => ∀ file ∈ files, Outside target file
  | .tar file into', s => into' = into ∧ into ∈ s.disk.dirs ∧
      (AllWithin target into s → s.unpacked = false) ∧
      ∃ content ∈ s.verified, s.disk.files file = some content
  | _, _ => True

section Kept

variable {keys : List String} {target into : String} {s s' : Sources} {c : Cmd} {ok : Bool}

/-- What an archive within the target unpacks is inside of the target. -/
theorem inside_of_within {entries : List Entry} {path : String} {whole : Content}
    (within : Within target into entries) (holds : tree into entries path = some whole) :
    ¬ Outside target path := by
  obtain ⟨e, member, rfl⟩ := tree_member holds
  intro outside
  rcases within with rfl | ⟨-, folders⟩
  · apply outside (e.folder ++ "/" ++ e.name)
    simp only [Entry.path, String.append_assoc]
  · apply outside e.name
    rw [Entry.path, folders e member]

/-- From `d` to `d'` nothing was changed inside the target. -/
structure Untouched (target : String) (d d' : Disk) : Prop where
  dirs : d.dirs ⊆ d'.dirs
  files : ∀ path, ¬ Outside target path → d'.files path = d.files path

theorem Complete.untouched (complete : Complete target into s)
    (untouched : Untouched target s.disk s'.disk) (verified : s.verified ⊆ s'.verified) :
    Complete target into s' := by
  obtain ⟨there, content, member, entries, archive, within, holds⟩ := complete
  refine ⟨untouched.dirs there, content, verified member, entries, archive, within, ?_⟩
  intro path whole tree
  rw [untouched.files path (inside_of_within within tree)]
  exact holds path whole tree

theorem AllWithin.before (all : AllWithin target into s') (verified : s.verified ⊆ s'.verified) :
    AllWithin target into s :=
  fun content member => all content (verified member)

theorem untouched_put {d : Disk} {path : String} {content : Option Content}
    (outside : Outside target path) : Untouched target d (d.put path content) := by
  refine ⟨List.Subset.refl _, fun other inside => Disk.put_files_other _ _ ?_⟩
  rintro rfl
  exact inside outside

theorem untouched_remove {d : Disk} {paths : List String}
    (outside : ∀ path ∈ paths, Outside target path) : Untouched target d (d.remove paths) := by
  refine ⟨List.Subset.refl _, fun other inside => if_neg ?_⟩
  intro member
  exact inside (outside other member)

theorem untouched_mkdir {d : Disk} {paths : List String} : Untouched target d (d.mkdir paths) :=
  ⟨List.subset_append_right _ _, fun _ _ => rfl⟩

theorem untouched_keys {d : Disk} {home : String} {keys : List String} :
    Untouched target d (d.addKeys home keys) :=
  ⟨List.Subset.refl _, fun _ _ => rfl⟩

theorem untouched_same {d : Disk} : Untouched target d d := ⟨List.Subset.refl _, fun _ _ => rfl⟩

/-- A careful command other than `tar` changes nothing inside the target, whether it succeeds or
fails. -/
theorem untouched_of_careful (noTar : c.unpacks = false) (careful : Careful target into c s)
    {d : Disk} (after : Done keys s.disk c d ∨ Fails keys s.disk c d) :
    Untouched target s.disk d := by
  cases c with
  | mkdir paths =>
      rcases after with rfl | ⟨part, -, rfl⟩
      · exact untouched_mkdir
      · exact untouched_mkdir
  | chmod mode path =>
      rcases after with rfl | rfl
      · exact untouched_same
      · exact untouched_same
  | isDir path =>
      rcases after with ⟨-, rfl⟩ | ⟨-, rfl⟩
      · exact untouched_same
      · exact untouched_same
  | gpgLocateKeys home addresses =>
      rcases after with rfl | ⟨part, -, rfl⟩
      · exact untouched_keys
      · exact untouched_keys
  | gpgImport home file =>
      rcases after with rfl | ⟨part, -, rfl⟩
      · exact untouched_keys
      · exact untouched_keys
  | gpgListKeys home fingerprint =>
      rcases after with ⟨-, rfl⟩ | ⟨-, rfl⟩
      · exact untouched_same
      · exact untouched_same
  | curl out url =>
      rcases after with ⟨content, rfl⟩ | ⟨content, rfl⟩
      · exact untouched_put careful
      · exact untouched_put careful
  | xzDecompress stem =>
      rcases after with ⟨content, -, -, rfl⟩ | rfl | ⟨-, b, rfl⟩
      · exact untouched_put careful
      · exact untouched_same
      · exact untouched_put careful
  | gpgVerify home sig file =>
      rcases after with ⟨-, rfl⟩ | ⟨-, rfl⟩
      · exact untouched_same
      · exact untouched_same
  | tar file into' => cases noTar
  | rm files =>
      rcases after with rfl | ⟨part, inside, rfl⟩
      · exact untouched_remove careful
      · exact untouched_remove fun path member => careful path (inside member)

/-- If an archive was unpacked to its end the target is complete, provided that all archives that
have verified unpack to it. -/
def Whole (target into : String) (s : Sources) : Prop :=
  AllWithin target into s → s.unpacked = true → Complete target into s

theorem Whole.untouched (whole : Whole target into s) (untouched : Untouched target s.disk s'.disk)
    (verified : s.verified ⊆ s'.verified) (unpacked : s'.unpacked = s.unpacked) :
    Whole target into s' := by
  intro all done
  rw [unpacked] at done
  exact (whole (all.before verified) done).untouched untouched verified

/-- A careful `tar` is the first one, so that after one that was not recorded no archive was
unpacked to its end. -/
theorem whole_of_tar {file into' : String} (careful : Careful target into (.tar file into') s)
    (verified : s'.verified = s.verified) (unpacked : s'.unpacked = s.unpacked) :
    Whole target into s' := by
  intro all done
  have first := careful.2.2.1 (all.before (by rw [verified]; exact List.Subset.refl _))
  rw [unpacked, first] at done
  cases done

theorem verifies_grows (s : Sources) (c : Cmd) : s.verified ⊆ s.verifies c := by
  cases c <;> first | exact List.subset_append_right _ _ | exact List.Subset.refl _

/-- The target is complete after an archive that has verified was unpacked to its end. -/
theorem complete_of_unpacked {d : Disk} {entries : List Entry} {content : Content}
    (disk : s.disk = d.unpack into entries) (made : into ∈ d.dirs)
    (within : Within target into entries) (member : content ∈ s.verified)
    (archive : content.entries = some entries) : Complete target into s := by
  refine ⟨?_, content, member, entries, archive, within, ?_⟩
  · rw [disk]
    rcases within with rfl | ⟨nonempty, folders⟩
    · exact unpack_dirs _ _ _ made
    · obtain ⟨e, first⟩ := List.exists_mem_of_ne_nil entries nonempty
      rw [← folders e first]
      exact unpack_folder first
  · intro path whole holds
    rw [disk]
    exact tree_unpacked holds

/-- A careful command keeps `Whole`, whether it succeeds or fails. -/
theorem Whole.kept (whole : Whole target into s) (careful : Careful target into c s)
    (answer : (recording keys).sem.answer s c ok s') : Whole target into s' := by
  cases ok with
  | false =>
      obtain ⟨fails, verified, unpacked⟩ : (recording keys).fails s c s' := answer
      cases noTar : c.unpacks with
      | false =>
          refine whole.untouched (untouched_of_careful noTar careful (.inr fails)) ?_ unpacked
          rw [verified]
          exact List.Subset.refl _
      | true =>
          cases c with
          | tar file into' => exact whole_of_tar careful verified unpacked
          | _ => cases noTar
  | true =>
      obtain ⟨done, verified, unpacked⟩ : (recording keys).done s c s' := answer
      cases noTar : c.unpacks with
      | false =>
          rw [noTar, Bool.or_false] at unpacked
          refine whole.untouched (untouched_of_careful noTar careful (.inl done)) ?_ unpacked
          rw [verified]
          exact verifies_grows s c
      | true =>
          cases c with
          | tar file into' =>
              obtain ⟨rfl, made, -, content, member, held⟩ := careful
              obtain ⟨entries, archive, disk⟩ := done
              rw [held, Option.bind_some] at archive
              intro all _
              have within := all content (by rw [verified]; exact member) entries archive
              exact complete_of_unpacked disk made within (by rw [verified]; exact member) archive
          | _ => cases noTar

/-- A careful command that is cut off keeps `Whole` as well. -/
theorem Whole.cut (whole : Whole target into s) (careful : Careful target into c s)
    (cut : CutOff keys s c s') : Whole target into s' := by
  obtain ⟨after, verified, unpacked⟩ := cut
  have grows : s.verified ⊆ s'.verified := by
    rw [verified]
    exact List.Subset.refl _
  cases noTar : c.unpacks with
  | false =>
      rcases after with same | after
      · refine whole.untouched ?_ grows unpacked
        rw [same]
        exact untouched_same
      · exact whole.untouched (untouched_of_careful noTar careful after) grows unpacked
  | true =>
      cases c with
      | tar file into' => exact whole_of_tar careful verified unpacked
      | _ => cases noTar

end Kept

/-! ## The scripts, command by command -/

/-- The condition on what a run leaves that did not exit 0: the target folder is there only if an
archive was unpacked to its end. -/
def Timely (target : String) (s : Sources) : Prop :=
  target ∈ s.disk.dirs → s.unpacked = true

/-- No archive was unpacked to its end yet, provided that all archives that have verified unpack to
the target. -/
def First (target into : String) (s : Sources) : Prop :=
  AllWithin target into s → s.unpacked = false

/-- A script that stops has a nonzero exit status, or an archive was unpacked to its end. -/
def Stops (n : ℕ) (s : Sources) : Prop := n = 0 → s.unpacked = true

section Steps

variable {keys : List String} {target into home : String} {P Q : Sources → Prop}
  {s s' : Sources} {c : Cmd}

/-- The rule for one careful command under `set -e`. -/
theorem steps (c : Cmd) (careful : ∀ s, P s → Careful target into c s)
    (done : ∀ s s', P s → (recording keys).done s c s' → Q s') :
    Sh.Triple (recording keys) (Careful target into) P (cmd c) (fun _ => Q) Stops :=
  Sh.Triple.cmd careful done fun _ _ _ _ stops => by cases stops

theorem First.kept (first : First target into s) (noTar : c.unpacks = false)
    (done : (recording keys).done s c s') : First target into s' := by
  obtain ⟨-, verified, unpacked⟩ := done
  rw [noTar, Bool.or_false] at unpacked
  intro all
  rw [unpacked]
  apply first
  apply all.before
  rw [verified]
  exact verifies_grows s c

/-- A command that is given before the archive is unpacked, and does not unpack. -/
theorem prepares (c : Cmd) (noTar : c.unpacks = false) (careful : ∀ s, Careful target into c s) :
    Sh.Triple (recording keys) (Careful target into) (First target into) (cmd c)
      (fun _ => First target into) Stops :=
  steps c (fun s _ => careful s) fun _ _ first done => first.kept noTar done

/-- A test that leaves the disk and the record alone changes nothing. -/
theorem test_same (disk : s'.disk = s.disk) (verified : s'.verified = s.verified)
    (unpacked : s'.unpacked = s.unpacked) : s' = s :=
  Sources.ext disk verified unpacked

/-- What is known at the beginning of a run: the target folder is only there when an archive was
unpacked to its end, and is complete then. -/
def Begun (target into : String) (s : Sources) : Prop := Whole target into s ∧ Timely target s

theorem begun_mkdir {paths : List String} (fresh : target ∉ paths) (begun : Begun target into s)
    (done : (recording keys).done s (.mkdir paths) s') : Begun target into s' := by
  obtain ⟨whole, timely⟩ := begun
  obtain ⟨disk, verified, unpacked⟩ := done
  have made : s'.disk = s.disk.mkdir paths := disk
  constructor
  · refine whole.untouched ?_ ?_ (unpacked.trans (Bool.or_false _))
    · rw [made]
      exact untouched_mkdir
    · rw [verified]
      exact verifies_grows s _
  · intro there
    rw [unpacked.trans (Bool.or_false _)]
    rw [made] at there
    exact timely ((List.mem_append.mp there).resolve_left fresh)

/-- The beginning of every script, from there on. -/
theorem starts {dl : String} {rest : Sh Cmd Unit} (fresh : target ∉ [dl, home])
    (last : Sh.Triple (recording keys) (Careful target into) (First target into) rest
      (fun _ s => s.unpacked = true) Stops) :
    Sh.Triple (recording keys) (Careful target into) (Begun target into)
      (do
        cmd (.mkdir [dl, home])
        cmd (.chmod "700" home)
        exitIf (.isDir target) 0
        rest)
      (fun _ s => s.unpacked = true) Stops := by
  refine Sh.Triple.bind (steps (.mkdir [dl, home]) (fun _ _ => trivial)
    fun s s' begun done => begun_mkdir fresh begun done) fun _ => ?_
  refine Sh.Triple.bind (steps (.chmod "700" home) (Q := Begun target into) (fun _ _ => trivial) ?_)
    fun _ => ?_
  · rintro s s' begun ⟨disk, verified, unpacked⟩
    rw [test_same disk verified (unpacked.trans (Bool.or_false _))]
    exact begun
  refine Sh.Triple.bind (Sh.Triple.exitIf (fun _ _ => trivial) ?_ ?_) fun _ => last
  · rintro s s' ⟨-, timely⟩ ⟨⟨there, -⟩, -, unpacked⟩ -
    rw [unpacked, timely there]
    rfl
  · rintro s s' ⟨whole, -⟩ ⟨⟨absent, disk⟩, verified, unpacked⟩ all
    rw [test_same disk verified unpacked] at all ⊢
    by_contra done
    rw [Bool.not_eq_false] at done
    exact absent (whole all done).1

/-- The content of the file has verified. -/
def Verified (file : String) (s : Sources) : Prop :=
  ∃ content ∈ s.verified, s.disk.files file = some content

/-- The end of every script, from the check of the signature on. -/
theorem finishes {sig file : String} {files : List String}
    (outside : ∀ file ∈ files, Outside target file) :
    Sh.Triple (recording keys) (Careful target into) (First target into)
      (do
        cmd (.gpgVerify home sig file)
        cmd (.mkdir [into])
        cmd (.tar file into)
        cmd (.rm files))
      (fun _ s => s.unpacked = true) Stops := by
  refine Sh.Triple.bind (steps (.gpgVerify home sig file)
    (Q := fun s => First target into s ∧ Verified file s) (fun _ _ => trivial) ?_) fun _ => ?_
  · intro s s' first done
    refine ⟨first.kept rfl done, ?_⟩
    obtain ⟨⟨⟨key, -, content, -, whole⟩, disk⟩, verified, -⟩ := done
    refine ⟨content, ?_, by rw [disk, whole]⟩
    rw [verified, Sources.verifies, whole]
    exact List.mem_cons_self
  refine Sh.Triple.bind (steps (.mkdir [into])
    (Q := fun s => First target into s ∧ Verified file s ∧ into ∈ s.disk.dirs)
    (fun _ _ => trivial) ?_) fun _ => ?_
  · rintro s s' ⟨first, content, member, held⟩ done
    refine ⟨first.kept rfl done, ⟨content, ?_, ?_⟩, ?_⟩
    · rw [done.2.1]
      exact member
    · rw [show s'.disk = s.disk.mkdir [into] from done.1]
      exact held
    · rw [show s'.disk = s.disk.mkdir [into] from done.1]
      exact List.mem_cons_self
  refine Sh.Triple.bind (steps (.tar file into) (Q := fun s => s.unpacked = true) ?_ ?_) fun _ => ?_
  · rintro s ⟨first, verified, made⟩
    exact ⟨rfl, made, first, verified⟩
  · rintro s s' - ⟨-, -, unpacked⟩
    rw [unpacked, Cmd.unpacks, Bool.or_true]
  · refine steps (.rm files) (fun _ _ => outside) ?_
    rintro s s' done ⟨-, -, unpacked⟩
    rw [unpacked, done]
    rfl

end Steps

/-- The row of `gpg --list-keys` changes nothing. -/
theorem looksFor {keys : List String} {target into : String} (home : String) (fprs : List String) :
    Sh.Triple (recording keys) (Careful target into) (First target into)
      (each (fun fpr => orExit (.gpgListKeys home fpr) 1) fprs) (fun _ => First target into)
      Stops := by
  have looked : Sh.Triple (recording keys) (Careful target into) (First target into)
      (each (fun fpr => orExit (.gpgListKeys home fpr) 1) fprs)
      (fun _ s => First target into s ∧ ∀ fpr ∈ fprs, True) Stops := by
    apply Sh.Triple.each (c := Cmd.gpgListKeys home)
    · exact fun _ _ _ => trivial
    · rintro fpr s s' - ⟨⟨-, disk⟩, verified, unpacked⟩
      exact ⟨test_same disk verified (unpacked.trans (Bool.or_false _)), trivial⟩
    · intro fpr s s' first fails stops
      cases stops
  refine Interaction.Triple.post looked fun r s after => ?_
  cases r with
  | ok => exact after.1
  | error => exact after

/-- The paths of the downloads are outside of every target folder. -/
theorem outside_dl {root version : String} (name rest : String) (long : 9 < name.toList.length)
    (part : name.toList[9]? ≠ some '_') : Outside (root ++ name ++ version) (dlDir root ++ rest) := by
  intro inside same
  have here : ("/sources/_dl" ++ rest).toList[9]? = some '_' := by
    rw [String.toList_append, List.getElem?_append_left (by decide)]
    rfl
  have apart : root ++ name ++ (version ++ ("/" ++ inside)) ≠ root ++ ("/sources/_dl" ++ rest) :=
    path_ne 9 long (by rw [here]; exact part)
  rw [dlDir] at same
  simp only [String.append_assoc] at same apart
  exact apart same.symm

section Scripts

variable (root version : String) (keys : List String)

theorem fetchKernel_whole :
    Sh.Triple (recording keys) (Careful (kernelDir root version) (root ++ "/sources"))
      (Begun (kernelDir root version) (root ++ "/sources")) (fetchKernel root version)
      (fun _ s => s.unpacked = true) Stops := by
  have outside : ∀ rest, Outside (kernelDir root version) (kernelTar root version ++ rest) := by
    intro rest
    rw [kernelTar, String.append_assoc, String.append_assoc, String.append_assoc]
    exact outside_dl "/sources/linux-" _ (by decide) (by decide)
  have outside' : Outside (kernelDir root version) (kernelTar root version) := by
    rw [← String.append_empty (s := kernelTar root version)]
    exact outside ""
  apply starts (kernelDir_fresh root version)
  refine Sh.Triple.bind (prepares (.gpgLocateKeys _ _) rfl fun _ => trivial) fun _ => ?_
  refine Sh.Triple.bind (looksFor _ _) fun _ => ?_
  refine Sh.Triple.bind (prepares (.curl _ _) rfl fun _ => outside _) fun _ => ?_
  refine Sh.Triple.bind (prepares (.curl _ _) rfl fun _ => outside _) fun _ => ?_
  refine Sh.Triple.bind (prepares (.xzDecompress _) rfl fun _ => outside') fun _ => ?_
  apply finishes
  intro file member
  rw [List.mem_singleton.mp member]
  exact outside'

theorem Vendored.fetch_whole (v : Vendored) (tar : Outside v.target v.tar)
    (sig : Outside v.target v.sig) :
    Sh.Triple (recording keys) (Careful v.target v.into) (Begun v.target v.into) v.fetch
      (fun _ s => s.unpacked = true) Stops := by
  apply starts v.target_fresh
  refine Sh.Triple.bind (prepares (.gpgImport _ _) rfl fun _ => trivial) fun _ => ?_
  refine Sh.Triple.bind (Sh.Triple.orExit (fun _ _ => trivial)
    (fun _ _ first done => first.kept rfl done) fun _ _ _ _ stops => by cases stops) fun _ => ?_
  refine Sh.Triple.bind (prepares (.curl _ _) rfl fun _ => tar) fun _ => ?_
  refine Sh.Triple.bind (prepares (.curl _ _) rfl fun _ => sig) fun _ => ?_
  apply finishes
  intro file member
  rcases List.mem_cons.mp member with rfl | other
  · exact tar
  · rw [List.mem_singleton.mp other]
    exact sig

/-- The triple of every script, from what a run may begin with to the whole tree. -/
theorem script_whole (u : Upstream) :
    Sh.Triple (recording keys) (Careful (u.target root version) (u.into root version))
      (Begun (u.target root version) (u.into root version)) (u.script root version)
      (fun _ s => s.unpacked = true) Stops := by
  cases u with
  | kernel => exact fetchKernel_whole root version keys
  | busybox =>
      apply Vendored.fetch_whole keys
      · show Outside _ (dlDir root ++ "/busybox-" ++ version ++ ".tar.bz2")
        rw [String.append_assoc, String.append_assoc]
        exact outside_dl "/sources/busybox-" _ (by decide) (by decide)
      · show Outside _ (dlDir root ++ "/busybox-" ++ version ++ ".tar.bz2" ++ ".sig")
        rw [String.append_assoc, String.append_assoc, String.append_assoc]
        exact outside_dl "/sources/busybox-" _ (by decide) (by decide)
  | limine =>
      apply Vendored.fetch_whole keys
      · exact outside_dl "/sources/limine-" _ (by decide) (by decide)
      · show Outside _ (dlDir root ++ "/limine-binary.tar.gz" ++ ".sig")
        rw [String.append_assoc]
        exact outside_dl "/sources/limine-" _ (by decide) (by decide)

end Scripts

/-! ## Runs in which all goes well -/

namespace Vendored

/-- The disk of a run in which everything went well up to the `tar`. -/
def ready (v : Vendored) (keys : List String) (content : Content) (s : Sources) : Sources :=
  let start := (s.disk.mkdir [v.dl, v.home]).addKeys v.home keys
  let fetched := (start.put v.tar (some content)).put v.sig (some (.signature v.fpr content))
  ⟨fetched.mkdir [v.into], content :: s.verified, s.unpacked⟩

/-- The disk of a run in which everything went well up to its end. -/
def unpacked (v : Vendored) (entries : List Entry) (s : Sources) : Sources :=
  ⟨(s.disk.unpack v.into entries).remove [v.tar, v.sig], s.verified, true⟩

variable {keys : List String} {s : Sources}

theorem ready_tar (v : Vendored) (content : Content) :
    (v.ready keys content s).disk.files v.tar = some content :=
  (Disk.put_files_other _ _ v.tar_ne_sig).trans (Disk.put_files _ _ _)

theorem fetch_ready (v : Vendored) (content : Content) (held : v.fpr ∈ keys)
    (absent : v.target ∉ s.disk.dirs) :
    Reaches (recording keys).sem ⟨v.fetch.status, s⟩
      ⟨(do
        cmd (.tar v.tar v.into)
        cmd (.rm [v.tar, v.sig]) : Sh Cmd Unit).status, v.ready keys content s⟩ := by
  let made := s.disk.mkdir [v.dl, v.home]
  let start := made.addKeys v.home keys
  let half := start.put v.tar (some content)
  let fetched := half.put v.sig (some (.signature v.fpr content))
  have ring : v.fpr ∈ start.keyring v.home := by
    rw [Disk.addKeys_keyring]
    exact List.mem_append_right _ held
  have whole : fetched.files v.tar = some content := v.ready_tar content
  have signed : fetched.SignedBy (fetched.keyring v.home) v.sig v.tar :=
    ⟨v.fpr, ring, content, Disk.put_files _ _ _, whole⟩
  have absent' : v.target ∉ made.dirs := by
    rw [Disk.mkdir_dirs]
    exact fun there => (List.mem_append.mp there).elim v.target_fresh absent
  let before : Disk → Sources := fun d => ⟨d, s.verified, s.unpacked⟩
  have makes : (recording keys).done s (.mkdir [v.dl, v.home]) (before made) :=
    ⟨rfl, rfl, (Bool.or_false _).symm⟩
  have modes : (recording keys).done (before made) (.chmod "700" v.home) (before made) :=
    ⟨rfl, rfl, (Bool.or_false _).symm⟩
  have goesOn : (recording keys).fails (before made) (.isDir v.target) (before made) :=
    ⟨⟨absent', rfl⟩, rfl, rfl⟩
  have imports : (recording keys).done (before made) (.gpgImport v.home v.keyFile) (before start) :=
    ⟨rfl, rfl, (Bool.or_false _).symm⟩
  have finds : (recording keys).done (before start) (.gpgListKeys v.home v.fpr) (before start) :=
    ⟨⟨ring, rfl⟩, rfl, (Bool.or_false _).symm⟩
  have downloads : (recording keys).done (before start) (.curl v.tar v.tarUrl) (before half) :=
    ⟨⟨content, rfl⟩, rfl, (Bool.or_false _).symm⟩
  have downloads' : (recording keys).done (before half) (.curl v.sig v.sigUrl) (before fetched) :=
    ⟨⟨_, rfl⟩, rfl, (Bool.or_false _).symm⟩
  have verifies : (recording keys).done (before fetched) (.gpgVerify v.home v.sig v.tar)
      ⟨fetched, content :: s.verified, s.unpacked⟩ := by
    refine ⟨⟨signed, rfl⟩, ?_, (Bool.or_false _).symm⟩
    rw [Sources.verifies, whole]
    rfl
  have folder : (recording keys).done ⟨fetched, content :: s.verified, s.unpacked⟩ (.mkdir [v.into])
      (v.ready keys content s) := ⟨rfl, rfl, (Bool.or_false _).symm⟩
  apply cmd_goes_on makes
  apply cmd_goes_on modes
  apply exitIf_goes_on goesOn
  apply cmd_goes_on imports
  apply orExit_goes_on finds
  apply cmd_goes_on downloads
  apply cmd_goes_on downloads'
  apply cmd_goes_on verifies
  exact cmd_goes_on folder .refl

/-- From the `tar` on the run goes to its end, if the downloaded file is an archive. -/
theorem unpacks_reaches_end (v : Vendored) {content : Content} {entries : List Entry}
    (archive : content.entries = some entries) (held : s.disk.files v.tar = some content) :
    Reaches (recording keys).sem
      ⟨(do
        cmd (.tar v.tar v.into)
        cmd (.rm [v.tar, v.sig]) : Sh Cmd Unit).status, s⟩
      ⟨.ret 0, v.unpacked entries s⟩ := by
  let after : Sources := ⟨s.disk.unpack v.into entries, s.verified, true⟩
  have unpacks : (recording keys).done s (.tar v.tar v.into) after := by
    refine ⟨⟨entries, ?_, rfl⟩, rfl, (Bool.or_true _).symm⟩
    rw [held, Option.bind_some, archive]
  have removes : (recording keys).done after (.rm [v.tar, v.sig]) (v.unpacked entries s) :=
    ⟨rfl, rfl, rfl⟩
  apply cmd_goes_on unpacks
  exact Reaches.call (S := Commands Cmd) true removes .refl

/-- A run that finds the target folder exits 0 at once. -/
theorem stops_there (v : Vendored) (there : v.target ∈ s.disk.dirs) :
    Reaches (recording keys).sem ⟨v.fetch.status, s⟩
      ⟨.ret 0, { s with disk := s.disk.mkdir [v.dl, v.home] }⟩ := by
  let made : Sources := { s with disk := s.disk.mkdir [v.dl, v.home] }
  have makes : (recording keys).done s (.mkdir [v.dl, v.home]) made :=
    ⟨rfl, rfl, (Bool.or_false _).symm⟩
  have modes : (recording keys).done made (.chmod "700" v.home) made :=
    ⟨rfl, rfl, (Bool.or_false _).symm⟩
  have stops : (recording keys).done made (.isDir v.target) made :=
    ⟨⟨List.mem_append_right _ there, rfl⟩, rfl, (Bool.or_false _).symm⟩
  apply cmd_goes_on makes
  apply cmd_goes_on modes
  rw [status_exitIf]
  exact Reaches.call (S := Commands Cmd) true stops .refl

end Vendored

/-! ## Sequences of runs -/

namespace Upstream

/-- What any number of runs may leave behind, each with keys of its own, if each run that does not
exit 0 leaves a world of `left`. -/
abbrev Attempted (u : Upstream) (root version : String) (left : Sources → Prop)
    (s : Sources) : Prop :=
  Attempts recording CutOff (u.script root version).status left Sources.empty s

/-- A run from `s` that exits 0 leaves `s'`. -/
abbrev Exits (u : Upstream) (root version : String) (keys : List String)
    (s s' : Sources) : Prop :=
  Reaches (recording keys).sem ⟨(u.script root version).status, s⟩ ⟨.ret 0, s'⟩

end Upstream

/-- **A run that exits 0 has the whole tree** if every run before it was cut off, or stopped at a
command that failed, before the target folder was there or after `tar` was done, and what has
verified unpacks to the target folder. -/
theorem whole_tree_fetched (u : Upstream) {root version : String} {keys : List String}
    {s s' : Sources}
    (attempted : u.Attempted root version (Timely (u.target root version)) s)
    (exits : u.Exits root version keys s s')
    (within : AllWithin (u.target root version) (u.into root version) s') :
    Complete (u.target root version) (u.into root version) s' := by
  have triple : ∀ keys, Sh.Triple (recording keys)
      (Careful (u.target root version) (u.into root version))
      (Begun (u.target root version) (u.into root version)) (u.script root version)
      (fun _ s => s.unpacked = true) Stops :=
    fun keys => script_whole root version keys u
  have safe : ∀ keys w, Whole (u.target root version) (u.into root version) w →
      Timely (u.target root version) w →
      Safe (recording keys).sem (Careful (u.target root version) (u.into root version))
        (u.script root version).status (fun n w => n = 0 → w.unpacked = true) w := by
    intro keys w whole timely
    refine ((triple keys).safe ⟨whole, timely⟩).mono fun n w' ends done => ?_
    rcases ends with ⟨-, -, unpacked⟩ | stops
    · exact unpacked
    · exact stops done
  have begun : Begun (u.target root version) (u.into root version) s :=
    attempted.invariant (fun _ done => by cases done) (fun there => by cases there)
      (fun keys w whole timely =>
        (safe keys w whole timely).mono fun n w' unpacked done _ => unpacked done)
      (fun keys c ok w w' whole careful answer => whole.kept careful answer)
      fun keys c w w' whole careful cut => whole.cut careful cut
  have safe' := safe keys s begun.1 begun.2
  have unpacked : s'.unpacked = true :=
    Safe.returned (Q := fun n w => n = 0 → w.unpacked = true) (c := ⟨_, s⟩) safe' exits rfl
  have whole : Whole (u.target root version) (u.into root version) s' :=
    Safe.invariant (c := ⟨_, s⟩) safe' begun.1 (undisturbed _)
      (fun _ _ _ _ whole careful answer => whole.kept careful answer) exits
  exact whole within unpacked

/-- An archive with one member, and the same archive as it is downloaded. -/
def oneMember : List Entry := [⟨"busybox-1.38.0", "Makefile", [1, 2]⟩]

def oneMemberArchive : Content := .packed .bzip2 (.archive oneMember)

theorem within_oneMember {s : Sources} (only : ∀ content ∈ s.verified, content = oneMemberArchive) :
    AllWithin (busybox "/zevory" "1.38.0").target (busybox "/zevory" "1.38.0").into s := by
  intro content member entries archive
  rw [only content member] at archive
  cases archive
  exact .inr ⟨by decide, by decide⟩

/-- The first run is killed right before it unpacks, and the second one goes through: the whole tree
is there. -/
theorem whole_tree_fetched_after_a_kill :
    let v := busybox "/zevory" "1.38.0"
    let s := v.ready [busyboxFpr] oneMemberArchive Sources.empty
    Complete v.target v.into (v.unpacked oneMember (v.ready [busyboxFpr] oneMemberArchive s)) := by
  intro v s
  have absent : v.target ∉ s.disk.dirs := by decide
  have attempted : Upstream.busybox.Attempted "/zevory" "1.38.0" (Timely v.target) s := by
    refine .stopped .none (v.fetch_ready oneMemberArchive List.mem_cons_self ?_)
      fun there => absurd there absent
    exact List.not_mem_nil
  have exits : Upstream.busybox.Exits "/zevory" "1.38.0" [busyboxFpr] s _ :=
    (v.fetch_ready oneMemberArchive List.mem_cons_self absent).trans
      (v.unpacks_reaches_end rfl (v.ready_tar oneMemberArchive))
  refine whole_tree_fetched .busybox attempted exits (within_oneMember fun content member => ?_)
  rcases List.mem_cons.mp member with rfl | again
  · rfl
  · exact List.mem_singleton.mp again

/-- The first run is cut off in the middle of `tar`, and the next one exits 0 with half of the tree.
-/
theorem half_a_tree_is_taken_for_a_whole_one :
    ∃ s s', Upstream.busybox.Attempted "/zevory" "1.38.0" (fun _ => True) s ∧
      Upstream.busybox.Exits "/zevory" "1.38.0" [busyboxFpr] s s' ∧
      AllWithin (busybox "/zevory" "1.38.0").target (busybox "/zevory" "1.38.0").into s' ∧
      s'.disk.files "/zevory/sources/busybox-1.38.0/Makefile" = some (.bytes [1]) ∧
      ¬ Complete (busybox "/zevory" "1.38.0").target (busybox "/zevory" "1.38.0").into s' := by
  let v := busybox "/zevory" "1.38.0"
  let ready := v.ready [busyboxFpr] oneMemberArchive Sources.empty
  let half : Sources :=
    ⟨ready.disk.unpack v.into [⟨"busybox-1.38.0", "Makefile", [1]⟩], ready.verified, ready.unpacked⟩
  have cut : CutOff [busyboxFpr] ready (.tar v.tar v.into) half := by
    refine ⟨.inr (.inr (.inr ⟨oneMember, _, ?_, ?_, rfl⟩)), rfl, rfl⟩
    · rw [v.ready_tar]
      rfl
    · intro e member
      rw [List.mem_singleton.mp member]
      exact ⟨_, List.mem_cons_self, rfl, rfl, by decide⟩
  have attempted : Upstream.busybox.Attempted "/zevory" "1.38.0" (fun _ => True) half := by
    have held : v.fpr ∈ [busyboxFpr] := List.mem_cons_self
    have reach := v.fetch_ready (s := Sources.empty) oneMemberArchive held List.not_mem_nil
    rw [status_cmd] at reach
    exact .cutOff .none reach cut trivial
  have there : v.target ∈ half.disk.dirs := by decide
  have file : half.disk.files "/zevory/sources/busybox-1.38.0/Makefile" = some (.bytes [1]) := by
    have path : v.into ++ "/" ++ "busybox-1.38.0" ++ "/" ++ "Makefile" =
        "/zevory/sources/busybox-1.38.0/Makefile" := by decide
    rw [← path]
    exact Disk.put_files _ _ _
  refine ⟨half, _, attempted, v.stops_there there, ?_, file, ?_⟩
  · exact within_oneMember fun content member => List.mem_singleton.mp member
  · rintro ⟨-, content, member, entries, archive, -, holds⟩
    rw [List.mem_singleton.mp member] at archive
    cases archive
    have whole := holds _ (.bytes [1, 2]) (Disk.put_files _ _ _)
    have path : v.into ++ "/" ++ "busybox-1.38.0" ++ "/" ++ "Makefile" =
        "/zevory/sources/busybox-1.38.0/Makefile" := by decide
    rw [path] at whole
    cases file.symm.trans whole

end Zevory.Fetch
