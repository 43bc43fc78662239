import Zevory.Harvest

/-!
# Mounting twice

`mount_all` on a kernel that keeps a stack of filesystems at every target.  Which calls fail,
and how, is given for each run; all else follows from the rules of the kernel: a `mount` of
the very filesystem on top of the target is EBUSY, and any other covers the target.
The README promises that "a second run changes nothing".
-/

namespace Zevory

open Interaction

/-! ## The tree -/

/-- A filesystem: the only one of its type, one with a number of its own, or the folder of
the root filesystem under a target. -/
inductive Instance
  | only (fstype : String)
  | own (fstype : String) (number : ℕ)
  | under (target : String)
  deriving DecidableEq, Repr

/-- The type of a filesystem that was mounted; a folder of the root filesystem has none. -/
def Instance.fstype : Instance → Option String
  | .only fstype => some fstype
  | .own fstype _ => some fstype
  | .under _ => none

/-- The filesystem a mount creates or finds: the only one of its type, or the one with the given
number. -/
def Instance.numbered (single : String → Bool) (fstype : String) (number : ℕ) : Instance :=
  if single fstype then .only fstype else .own fstype number

/-- The state of the mounts: the folders that are there, the filesystems mounted at every target,
topmost first, the files in each of them, and the number of the next one. -/
structure Tree where
  folder : String → Bool
  mounts : String → List Instance
  files : Instance → List String
  next : ℕ
  numbered : ∀ target fstype n, .own fstype n ∈ mounts target → n < next
  empty : ∀ fstype n, next ≤ n → files (.own fstype n) = []
  mounted : ∀ target, mounts target ≠ [] → folder target

namespace Tree

/-- The filesystem on top of the target, or the folder under it if nothing is mounted there. -/
def top (t : Tree) (target : String) : Instance := (t.mounts target).headD (.under target)

/-- The filesystem that is visible at the target, if the target is there. -/
def visible (t : Tree) (target : String) : Option Instance :=
  if t.folder target then some (t.top target) else none

/-- The tree in which the folder is there, with nothing mounted on it. -/
def mkdir (t : Tree) (path : String) : Tree where
  folder := Function.update t.folder path true
  mounts := t.mounts
  files := t.files
  next := t.next
  numbered := t.numbered
  empty := t.empty
  mounted target some := by
    by_cases same : target = path
    · rw [same, Function.update_self]
    · rw [Function.update_of_ne same]
      exact t.mounted target some

/-- The tree in which the folder is there: the same one, or the one in which it was made. -/
def ensure (t : Tree) (path : String) : Tree := if t.folder path then t else t.mkdir path

@[simp] theorem ensure_same (t : Tree) (path : String) : (t.ensure path).folder path = true := by
  unfold ensure
  split
  · assumption
  · exact Function.update_self _ _ _

theorem ensure_other (t : Tree) {path target : String} (other : target ≠ path) :
    (t.ensure path).folder target = t.folder target := by
  unfold ensure
  split
  · rfl
  · exact Function.update_of_ne other _ _

@[simp] theorem ensure_mounts (t : Tree) (path : String) : (t.ensure path).mounts = t.mounts := by
  unfold ensure
  split <;> rfl

@[simp] theorem ensure_files (t : Tree) (path : String) : (t.ensure path).files = t.files := by
  unfold ensure
  split <;> rfl

@[simp] theorem ensure_next (t : Tree) (path : String) : (t.ensure path).next = t.next := by
  unfold ensure
  split <;> rfl

/-- The filesystem that a mount of `fstype` puts on its target: the only one of its type, or a new
and empty one. -/
def mountee (single : String → Bool) (t : Tree) (fstype : String) : Instance :=
  .numbered single fstype t.next

/-- The tree in which the target is covered by the filesystem of a mount of `fstype`. -/
def cover (single : String → Bool) (t : Tree) (target fstype : String) (there : t.folder target) :
    Tree where
  folder := t.folder
  mounts := Function.update t.mounts target (t.mountee single fstype :: t.mounts target)
  files := t.files
  next := t.next + 1
  numbered target' fstype' n member := by
    by_cases same : target' = target
    · rw [same, Function.update_self, mountee, Instance.numbered] at member
      rcases List.mem_cons.mp member with new | old
      · split at new
        · cases new
        · cases new
          exact Nat.lt_succ_self _
      · exact Nat.lt_succ_of_lt (t.numbered _ _ _ old)
    · rw [Function.update_of_ne same] at member
      exact Nat.lt_succ_of_lt (t.numbered _ _ _ member)
  empty fstype' n later := t.empty fstype' n (Nat.le_of_succ_le later)
  mounted target' some := by
    by_cases same : target' = target
    · rw [same]
      exact there
    · rw [Function.update_of_ne same] at some
      exact t.mounted target' some

theorem top_mem {t : Tree} {target fstype : String} {n : ℕ} (top : t.top target = .own fstype n) :
    .own fstype n ∈ t.mounts target := by
  rw [Tree.top] at top
  cases stack : t.mounts target with
  | nil =>
      rw [stack] at top
      cases top
  | cons i rest =>
      rw [stack] at top
      obtain rfl : i = .own fstype n := top
      exact List.mem_cons_self

/-- Nothing has changed from `t` to `t'` but for files that were made. -/
structure Grew (t t' : Tree) : Prop where
  folder : t'.folder = t.folder
  mounts : t'.mounts = t.mounts
  next : t'.next = t.next
  files : ∀ i, t.files i ⊆ t'.files i

/-- The tree in which a file was made in the filesystem on top of the target. -/
def touch (t : Tree) (target file : String) : Tree where
  folder := t.folder
  mounts := t.mounts
  files := Function.update t.files (t.top target) (file :: t.files (t.top target))
  next := t.next
  numbered := t.numbered
  mounted := t.mounted
  empty fstype n later := by
    have other : .own fstype n ≠ t.top target := by
      intro same
      exact absurd (t.numbered _ _ _ (top_mem same.symm)) (Nat.not_lt.mpr later)
    rw [Function.update_of_ne other]
    exact t.empty fstype n later

theorem grew_touch (t : Tree) (target file : String) : t.Grew (t.touch target file) := by
  refine ⟨rfl, rfl, rfl, fun i => ?_⟩
  by_cases same : i = t.top target
  · show t.files i ⊆ Function.update t.files (t.top target) _ i
    rw [same, Function.update_self]
    exact List.subset_cons_self _ _
  · show t.files i ⊆ Function.update t.files (t.top target) _ i
    rw [Function.update_of_ne same]
    exact List.Subset.refl _

end Tree

/-! ## The kernel -/

/-- The calls that fail in a run, by their path or target. None of the `mount`s among them fails
with EBUSY, which is left to the rules of the kernel. -/
structure Faults where
  mkdir : String → Option IoError
  mount : String → Option Errno
  notBusy : ∀ target e, mount target = some e → e.code ≠ EBUSY

/-- The state of the kernel: the tree, and the calls that fail in this run. -/
structure Mounting where
  tree : Tree
  faults : Faults

namespace Mounting

/-- How `create_dir_all` is answered: the folder is there already, or it cannot be made, or it is
made. -/
def createDirAll (k : Mounting) (path : String) (r : Except IoError Unit) (k' : Mounting) : Prop :=
  if k.tree.folder path then r = .ok () ∧ k' = k
  else match k.faults.mkdir path with
    | some e => r = .error e ∧ k' = k
    | none => r = .ok () ∧ k' = ⟨k.tree.mkdir path, k.faults⟩

/-- How a `mount` is answered: there is no such target, or it fails, or it is EBUSY, or it covers
the target. -/
def mount (single : String → Bool) (k : Mounting) (o : MountOpts) (r : Ret) (k' : Mounting) : Prop :=
  if there : k.tree.folder o.target then
    match k.faults.mount o.target with
    | some e => r = ⟨-1, e⟩ ∧ k' = k
    | none =>
        if k.tree.top o.target = k.tree.mountee single o.fstype then
          r.rc = -1 ∧ r.errno.code = EBUSY ∧ k' = k
        else r.rc = 0 ∧ k' = ⟨k.tree.cover single o.target o.fstype there, k.faults⟩
  else r.rc = -1 ∧ r.errno.code ≠ EBUSY ∧ k' = k

def answer (single : String → Bool) (k : Mounting) : (s : Syscall) → s.Res → Mounting → Prop
  | .createDirAll path, r, k' => k.createDirAll path r k'
  | .mount o, r, k' => k.mount single o r k'
  | s, r, k' => Promised (.sys s) r ∧ k' = k

end Mounting

/-- The kernel in which `single` says of which types there is a single filesystem. -/
def mounting (single : String → Bool) : Kernel Mounting where
  others _ _ := False
  answer := Mounting.answer single
  reads _ _ := True
  time _ := 0
  promised {k s r k'} h := by
    cases s with
    | createDirAll => trivial
    | mount => trivial
    | _ => exact h.1

/-! ## One entry -/

namespace Mount

/-- After the attempt to mount the entry its target is there, because it was there before or could
be made. -/
def reaches (t : Tree) (f : Faults) (v : Vfs) : Bool :=
  t.folder v.target || (f.mkdir v.target).isNone

/-- The attempt to mount the entry does not fail: its target is there, and its `mount` succeeds or
is EBUSY. -/
def succeeds (t : Tree) (f : Faults) (v : Vfs) : Bool :=
  reaches t f v && (f.mount v.target).isNone

/-- The tree after the `mount` of an entry whose target is there. -/
def mountAt (single : String → Bool) (f : Faults) (t : Tree) (v : Vfs) : Tree :=
  if there : (f.mount v.target).isNone ∧ t.folder v.target then
    if t.top v.target = t.mountee single v.fstype then t
    else t.cover single v.target v.fstype there.2
  else t

/-- The tree after the attempt to mount an entry, which is left alone if its target is not there. -/
def entry (single : String → Bool) (f : Faults) (t : Tree) (v : Vfs) : Tree :=
  if reaches t f v then mountAt single f (t.ensure v.target) v else t

/-- The tree after a run of `mount_all`, entry by entry. -/
def all (single : String → Bool) (f : Faults) (t : Tree) : Tree := TABLE.foldl (entry single f) t

section Entry

variable {single : String → Bool} {f : Faults} {t t' : Tree} {v : Vfs} {target : String}

/-- The entry's type has a single filesystem, and that is on top of its target already. -/
def onTop (single : String → Bool) (t : Tree) (v : Vfs) : Bool :=
  single v.fstype && t.top v.target == .only v.fstype

/-- The filesystem that a mount would get with a number not yet given is on top of the target
exactly if it is the only one of its type. -/
theorem top_numbered {n : ℕ} (later : t.next ≤ n) :
    t.top v.target = .numbered single v.fstype n ↔ onTop single t v = true := by
  rw [onTop, Bool.and_eq_true, beq_iff_eq, Instance.numbered]
  split
  · rename_i one
    exact ⟨fun top => ⟨one, top⟩, fun both => both.2⟩
  · rename_i many
    refine ⟨fun top => ?_, fun both => absurd both.1 many⟩
    exact absurd (t.numbered _ _ _ (Tree.top_mem top)) (Nat.not_lt.mpr later)

/-- The filesystem a mount would put on the target is on top of it already exactly if it is the only
one of its type. -/
theorem top_mountee : t.top v.target = t.mountee single v.fstype ↔ onTop single t v = true :=
  top_numbered (Nat.le_refl _)

/-- What the attempt to mount an entry comes to at its own target. -/
structure Ran (single : String → Bool) (f : Faults) (v : Vfs) (t t' : Tree) : Prop where
  folder : t'.folder v.target = reaches t f v
  mounts : ∃ n, t.next ≤ n ∧ t'.mounts v.target =
    if succeeds t f v ∧ ¬ onTop single t v then
      .numbered single v.fstype n :: t.mounts v.target
    else t.mounts v.target

/-- What the attempt to mount an entry leaves alone at other targets. -/
structure Spares (target : String) (t t' : Tree) : Prop where
  folder : t'.folder target = t.folder target
  mounts : t'.mounts target = t.mounts target

theorem mountAt_spares (other : target ≠ v.target) : Spares target t (mountAt single f t v) := by
  unfold mountAt
  split
  · split
    · exact ⟨rfl, rfl⟩
    · exact ⟨rfl, Function.update_of_ne other _ _⟩
  · exact ⟨rfl, rfl⟩

theorem entry_spares (other : target ≠ v.target) : Spares target t (entry single f t v) := by
  unfold entry
  split
  · have spares : Spares target (t.ensure v.target) (mountAt single f (t.ensure v.target) v) :=
      mountAt_spares other
    exact ⟨spares.folder.trans (t.ensure_other other),
      spares.mounts.trans (congrFun (t.ensure_mounts v.target) target)⟩
  · exact ⟨rfl, rfl⟩

theorem mountAt_files : (mountAt single f t v).files = t.files := by
  unfold mountAt
  split
  · split <;> rfl
  · rfl

theorem entry_files : (entry single f t v).files = t.files := by
  unfold entry
  split
  · rw [mountAt_files, Tree.ensure_files]
  · rfl

theorem mountAt_next : t.next ≤ (mountAt single f t v).next := by
  unfold mountAt
  split
  · split
    · exact Nat.le_refl _
    · exact Nat.le_succ _
  · exact Nat.le_refl _

theorem entry_next : t.next ≤ (entry single f t v).next := by
  unfold entry
  split
  · have grows : (t.ensure v.target).next ≤ (mountAt single f (t.ensure v.target) v).next :=
      mountAt_next
    rwa [Tree.ensure_next] at grows
  · exact Nat.le_refl _

/-- What the `mount` of an entry does to its target when that is there. -/
theorem mountAt_ran (single : String → Bool) (f : Faults) (there : t.folder v.target) :
    (mountAt single f t v).folder v.target = true ∧
    (mountAt single f t v).mounts v.target =
      if (f.mount v.target).isNone ∧ ¬ onTop single t v then
        .numbered single v.fstype t.next :: t.mounts v.target
      else t.mounts v.target := by
  unfold mountAt
  by_cases fine : (f.mount v.target).isNone
  · rw [dif_pos ⟨fine, there⟩]
    by_cases busy : onTop single t v
    · rw [if_pos (top_mountee.mpr busy), if_neg (fun both => both.2 busy)]
      exact ⟨there, rfl⟩
    · rw [if_neg (fun same => busy (top_mountee.mp same)), if_pos ⟨fine, busy⟩]
      exact ⟨there, Function.update_self _ _ _⟩
  · rw [dif_neg (fun both => fine both.1), if_neg (fun both => fine both.1)]
    exact ⟨there, rfl⟩

theorem entry_ran : Ran single f v t (entry single f t v) := by
  unfold entry
  by_cases reached : reaches t f v
  · rw [if_pos reached]
    obtain ⟨folder, mounts⟩ := mountAt_ran single f (t.ensure_same v.target)
    have top : onTop single (t.ensure v.target) v = onTop single t v := by
      rw [onTop, onTop, Tree.top, Tree.top, Tree.ensure_mounts]
    have success : succeeds t f v = (f.mount v.target).isNone := by
      rw [succeeds, reached, Bool.true_and]
    refine ⟨folder.trans reached.symm, t.next, Nat.le_refl _, ?_⟩
    rw [mounts, top, Tree.ensure_mounts, Tree.ensure_next, success]
  · rw [if_neg reached]
    have unreached : reaches t f v = false := Bool.eq_false_iff.mpr reached
    have missing : t.folder v.target = false := by
      rw [reaches, Bool.or_eq_false_iff] at unreached
      exact unreached.1
    refine ⟨missing.trans unreached.symm, t.next, Nat.le_refl _, ?_⟩
    rw [succeeds, unreached, if_neg (fun both => Bool.noConfusion both.1)]

end Entry

/-! ## All entries -/

section All

variable {single : String → Bool} {f : Faults} {t t' : Tree} {v : Vfs} {target : String}

theorem targets_nodup : (TABLE.map Vfs.target).Nodup := by decide

theorem Ran.after {t₀ : Tree} (ran : Ran single f v t t') (spared : Spares v.target t₀ t)
    (grew : t₀.next ≤ t.next) : Ran single f v t₀ t' := by
  obtain ⟨n, later, mounts⟩ := ran.mounts
  have top : onTop single t v = onTop single t₀ v := by
    rw [onTop, onTop, Tree.top, Tree.top, spared.mounts]
  have reached : reaches t f v = reaches t₀ f v := by rw [reaches, reaches, spared.folder]
  refine ⟨ran.folder.trans reached, n, Nat.le_trans grew later, ?_⟩
  rw [mounts, top, succeeds, succeeds, reached, spared.mounts]

theorem Ran.before (ran : Ran single f v t t') {t'' : Tree} (spared : Spares v.target t' t'') :
    Ran single f v t t'' := by
  obtain ⟨n, later, mounts⟩ := ran.mounts
  exact ⟨spared.folder.trans ran.folder, n, later, spared.mounts.trans mounts⟩

theorem foldl_spares {table : List Vfs} (others : ∀ v ∈ table, target ≠ v.target) :
    Spares target t (table.foldl (entry single f) t) := by
  induction table generalizing t with
  | nil => exact ⟨rfl, rfl⟩
  | cons v rest ih =>
      have here : Spares target t (entry single f t v) := entry_spares (others v List.mem_cons_self)
      have later :
          Spares target (entry single f t v) (rest.foldl (entry single f) (entry single f t v)) :=
        ih fun v' member => others v' (List.mem_cons_of_mem _ member)
      exact ⟨later.folder.trans here.folder, later.mounts.trans here.mounts⟩

/-- In a run over the table every entry is attempted, whatever becomes of the others. -/
theorem foldl_ran {table : List Vfs} (distinct : (table.map Vfs.target).Nodup) (member : v ∈ table) :
    Ran single f v t (table.foldl (entry single f) t) := by
  induction table generalizing t with
  | nil => cases member
  | cons v' rest ih =>
      rw [List.map_cons, List.nodup_cons] at distinct
      have apart : ∀ u ∈ rest, v'.target ≠ u.target := by
        intro u there same
        exact distinct.1 (same ▸ List.mem_map_of_mem there)
      rcases List.mem_cons.mp member with rfl | later
      · exact entry_ran.before (foldl_spares apart)
      · exact (ih distinct.2 later).after (entry_spares (apart v later).symm) entry_next

theorem all_ran (single : String → Bool) (f : Faults) (t : Tree) (member : v ∈ TABLE) :
    Ran single f v t (all single f t) :=
  foldl_ran targets_nodup member

theorem all_files (single : String → Bool) (f : Faults) (t : Tree) :
    (all single f t).files = t.files := by
  suffices h : ∀ table : List Vfs, (table.foldl (entry single f) t).files = t.files from h TABLE
  intro table
  induction table generalizing t with
  | nil => rfl
  | cons v rest ih => exact (ih _).trans entry_files

/-- An entry whose attempt does not fail has a filesystem of its type on top of its target. -/
theorem Ran.mounted (ran : Ran single f v t t') (success : succeeds t f v) :
    ∃ i, t'.visible v.target = some i ∧ i.fstype = some v.fstype := by
  obtain ⟨n, -, mounts⟩ := ran.mounts
  have reached : reaches t f v := by
    rw [succeeds, Bool.and_eq_true] at success
    exact success.1
  refine ⟨t'.top v.target, by rw [Tree.visible, ran.folder, if_pos reached], ?_⟩
  rw [Tree.top, mounts]
  by_cases busy : onTop single t v
  · rw [if_neg (fun both => both.2 busy)]
    rw [onTop, Bool.and_eq_true, beq_iff_eq] at busy
    rw [← Tree.top, busy.2]
    rfl
  · rw [if_pos ⟨success, busy⟩, List.headD_cons, Instance.numbered]
    split <;> rfl

/-- The attempt changes nothing at the target exactly if the folder is neither there nor made, or
it is there and the mount fails, with EBUSY or otherwise. -/
theorem Ran.unchanged (ran : Ran single f v t t') :
    t'.visible v.target = t.visible v.target ↔
      if t.folder v.target then (f.mount v.target).isSome ∨ onTop single t v
      else (f.mkdir v.target).isSome := by
  obtain ⟨n, later, mounts⟩ := ran.mounts
  have folder := ran.folder
  rw [reaches] at folder
  rw [Tree.visible, Tree.visible, folder]
  cases there : t.folder v.target with
  | false =>
      cases f.mkdir v.target with
      | none => simp
      | some => simp
  | true =>
      rw [succeeds, reaches, there] at mounts
      simp only [Bool.true_or, if_true, Option.some.injEq]
      rw [Tree.top, mounts]
      cases fault : f.mount v.target with
      | some => simp [Tree.top]
      | none =>
          by_cases busy : onTop single t v
          · simp [Tree.top, busy]
          · rw [if_pos ⟨rfl, busy⟩, List.headD_cons]
            refine ⟨fun same => ?_, fun failed => ?_⟩
            · exact absurd ((top_numbered later).mp same.symm) busy
            · rcases failed with failed | busy'
              · cases failed
              · exact absurd busy' busy

end All

/-! ## Two runs -/

/-- The second run changes nothing at the target of the entry: the first could not even make its
folder, and neither can the second; or the second cannot mount it, or it is the only filesystem
of its type, and was on top before or was mounted by the first. -/
def repeats (single : String → Bool) (first second : Faults) (t : Tree) (v : Vfs) : Bool :=
  if reaches t first v then
    (second.mount v.target).isSome || single v.fstype && (onTop single t v || succeeds t first v)
  else (second.mkdir v.target).isSome

/-- What is visible at every target of the table, and the files in it, are as they were. -/
def Unchanged (t t' : Tree) : Prop :=
  ∀ v ∈ TABLE, t'.visible v.target = t.visible v.target ∧
    ∀ i, t.visible v.target = some i → t'.files i = t.files i

/-- Every entry whose own attempt does not fail has a filesystem of its type on its target. -/
def AllMounted (t : Tree) (f : Faults) (t' : Tree) : Prop :=
  ∀ v ∈ TABLE, succeeds t f v → ∃ i, t'.visible v.target = some i ∧ i.fstype = some v.fstype

theorem allMounted (single : String → Bool) (f : Faults) (t : Tree) :
    AllMounted t f (all single f t) :=
  fun _ member success => (all_ran single f t member).mounted success

section Twice

variable {single : String → Bool} {first second : Faults} {t t₁ t₂ t₃ : Tree} {v : Vfs}

theorem onTop_after (ran : Ran single first v t t₁) (grew : t₁.Grew t₂) :
    onTop single t₂ v = (single v.fstype && (onTop single t v || succeeds t first v)) := by
  obtain ⟨n, -, mounts⟩ := ran.mounts
  rw [onTop, Tree.top, grew.mounts, mounts]
  cases one : single v.fstype with
  | false => rfl
  | true =>
      rw [Bool.true_and, Bool.true_and]
      by_cases covered : succeeds t first v ∧ ¬ onTop single t v
      · rw [if_pos covered, covered.1, List.headD_cons, Instance.numbered, if_pos one, Bool.or_true,
          beq_self_eq_true]
      · rw [if_neg covered]
        have same : onTop single t v = (t.top v.target == .only v.fstype) := by
          rw [onTop, one, Bool.true_and]
        rw [← Tree.top, ← same]
        cases busy : onTop single t v with
        | true => rfl
        | false =>
            cases success : succeeds t first v with
            | true => exact absurd ⟨success, by rw [busy]; exact Bool.false_ne_true⟩ covered
            | false => rfl

/-- The second run leaves what is visible at the target of one entry as it was exactly if it repeats
the entry. -/
theorem visible_again (ran : Ran single first v t t₁) (grew : t₁.Grew t₂)
    (again : Ran single second v t₂ t₃) :
    t₃.visible v.target = t₂.visible v.target ↔ repeats single first second t v := by
  rw [again.unchanged, grew.folder, ran.folder, onTop_after ran grew, repeats]
  split
  · rw [Bool.or_eq_true]
  · exact Iff.rfl

theorem unchanged_iff (ran : ∀ v ∈ TABLE, Ran single first v t t₁) (grew : t₁.Grew t₂)
    (again : ∀ v ∈ TABLE, Ran single second v t₂ t₃) (files : t₃.files = t₂.files) :
    Unchanged t₂ t₃ ↔ ∀ v ∈ TABLE, repeats single first second t v := by
  constructor
  · intro unchanged v member
    exact (visible_again (ran v member) grew (again v member)).mp (unchanged v member).1
  · intro repeated v member
    refine ⟨(visible_again (ran v member) grew (again v member)).mpr (repeated v member), ?_⟩
    intro i _
    rw [files]

end Twice

end Mount

/-! ## Executions of `mount_all` -/

section Executions

open Mount

variable {single : String → Bool} {α : Type} {c₀ : Config calls (World Mounting) α}
  {e : Execution (mounting single).semantics c₀} {n : ℕ} {w : World Mounting}

theorem mounting_alone : ∀ w w' : World Mounting, ¬ (mounting single).semantics.interfere w w' :=
  Kernel.alone fun _ _ impossible => impossible

/-- What the answer to `create_dir_all` means for the target of an entry. -/
theorem makes_folder {k k' : Mounting} {v : Vfs} {r : Except IoError Unit}
    (made : k.createDirAll v.target r k') :
    reaches k.tree k.faults v = true ∧ r = .ok () ∧ k' = ⟨k.tree.ensure v.target, k.faults⟩ ∨
      reaches k.tree k.faults v = false ∧ (∃ e, r = .error e) ∧ k' = k := by
  unfold Mounting.createDirAll at made
  rw [reaches, Tree.ensure]
  split at made
  · rename_i there
    obtain ⟨rfl, rfl⟩ := made
    exact .inl ⟨by rw [there]; rfl, rfl, by rw [if_pos there]⟩
  · rename_i missing
    rw [if_neg missing, Bool.eq_false_iff.mpr missing]
    split at made
    · rename_i e fault
      obtain ⟨rfl, rfl⟩ := made
      exact .inr ⟨by rw [fault]; rfl, ⟨e, rfl⟩, rfl⟩
    · rename_i fine
      obtain ⟨rfl, rfl⟩ := made
      exact .inl ⟨by rw [fine]; rfl, rfl, rfl⟩

/-- What the answer to the `mount` of an entry whose target is there means for the tree. -/
theorem makes_mount {k k' : Mounting} {v : Vfs} {o : MountOpts} {r : Ret}
    (target : o.target = v.target) (fstype : o.fstype = v.fstype) (there : k.tree.folder v.target)
    (made : k.mount single o r k') : k' = ⟨mountAt single k.faults k.tree v, k.faults⟩ := by
  obtain ⟨source, _, _, flags, data⟩ := o
  obtain rfl := target
  obtain rfl := fstype
  unfold Mounting.mount at made
  unfold mountAt
  rw [dif_pos there] at made
  split at made
  · rename_i e fault
    rw [dif_neg (by rw [fault]; exact fun both => Bool.noConfusion both.1)]
    exact made.2
  · rename_i fine
    rw [dif_pos ⟨by rw [fine]; rfl, there⟩]
    split at made
    · rename_i busy
      rw [if_pos busy]
      exact made.2.2
    · rename_i free
      rw [if_neg free]
      exact made.2

/-- The calls of the log leave the tree as it is. -/
theorem log_spares_mounts {k k' : Mounting} {s : Syscall} {r : s.Res} (log : (Call.sys s).isLog)
    (answer : (mounting single).answer k s r k') : k' = k := by
  cases s with
  | openPath | write => exact answer.2
  | _ => cases log

/-- The arguments of the `mount` that `mount_one` makes for an entry. -/
def Mount.Vfs.opts (v : Vfs) : MountOpts :=
  { source := v.source, target := v.target, fstype := v.fstype, flags := v.flags, data := v.data }

theorem table_plain : ∀ v ∈ TABLE, Sys.mountStrings v.opts = .ok v.opts := by decide

/-- In every execution `mount_one` does to the tree what `entry` says, whatever it returns. -/
theorem mountOne_follows {v : Vfs} (plain : Sys.mountStrings v.opts = .ok v.opts)
    {f : Except IoError Unit → Pid1 α} (here : e.conf n = ⟨(mountOne v).bind f, w⟩) :
    ∃ m r w', e.conf m = ⟨f r, w'⟩ ∧
      w'.kern = ⟨entry single w.kern.faults w.kern.tree v, w.kern.faults⟩ := by
  simp only [mountOne, Sys.mount, Prog.bind_eq, Prog.pure_eq, Prog.bind_assoc] at here
  obtain ⟨made, w₁, -, answer, there⟩ := Execution.call_alone mounting_alone
    (S := calls) (o := Call.sys (.createDirAll v.target)) ⟨(.ok () : Except IoError Unit)⟩ here
  cases answer with
  | sys answer =>
      rcases makes_folder answer with ⟨reached, rfl, rfl⟩ | ⟨unreached, ⟨error, rfl⟩, rfl⟩
      · rw [← Vfs.opts, plain] at there
        simp only [Prog.bind_assoc, Prog.ret_bind] at there
        obtain ⟨r, w₂, -, answer, there⟩ := Execution.call_alone mounting_alone
          (S := calls) (o := Call.sys (.mount v.opts)) ⟨(⟨0, ⟨0, ""⟩⟩ : Ret)⟩ there
        cases answer with
        | @sys _ _ kern answer =>
            have mounted : kern = ⟨entry single w.kern.faults w.kern.tree v, w.kern.faults⟩ := by
              rw [entry, if_pos reached]
              exact makes_mount rfl rfl (Tree.ensure_same _ _) answer
            simp only [Prog.ret_bind] at there
            cases checked : Sys.check r with
            | ok =>
                simp only [checked, Prog.ret_bind] at there
                exact ⟨_, _, _, there, mounted⟩
            | error err =>
                simp only [checked] at there
                split at there
                · exact ⟨_, _, _, there, mounted⟩
                · exact ⟨_, _, _, there, mounted⟩
      · refine ⟨_, _, _, there, ?_⟩
        rw [entry, if_neg (by rw [unreached]; exact Bool.false_ne_true)]
        rfl

/-- In every execution the loop of `mount_all` does to the tree what `entry` says for each entry. By
induction on the table. -/
theorem mountEach_follows {table : List Vfs}
    (plain : ∀ v ∈ table, Sys.mountStrings v.opts = .ok v.opts) {failed : ℕ} {f : ℕ → Pid1 α}
    (here : e.conf n = ⟨(mountEach failed table).bind f, w⟩) :
    ∃ m failed' w', e.conf m = ⟨f failed', w'⟩ ∧
      w'.kern = ⟨table.foldl (entry single w.kern.faults) w.kern.tree, w.kern.faults⟩ := by
  induction table generalizing failed n w with
  | nil => exact ⟨n, failed, w, here, rfl⟩
  | cons v rest ih =>
      have plain' : ∀ v ∈ rest, Sys.mountStrings v.opts = .ok v.opts :=
        fun v' member => plain v' (List.mem_cons_of_mem _ member)
      simp only [mountEach, Prog.bind_eq, Prog.bind_assoc] at here
      obtain ⟨m, r, w₁, next, kern⟩ := mountOne_follows (plain v List.mem_cons_self) here
      cases r with
      | ok =>
          obtain ⟨m', failed', w', there, kern'⟩ := ih plain' next
          rw [kern] at kern'
          exact ⟨m', failed', w', there, kern'⟩
      | error err =>
          simp only [Prog.bind_assoc] at next
          obtain ⟨m₁, -, w₂, warned, same, -⟩ :=
            emit_logs.passes mounting_alone log_spares_mounts next
          obtain ⟨m', failed', w', there, kern'⟩ := ih plain' warned
          rw [same, kern] at kern'
          exact ⟨m', failed', w', there, kern'⟩

end Executions

theorem Mount.mountAll_follows {single : String → Bool} {w : World Mounting}
    (e : Execution (mounting single).semantics ⟨mountAll, w⟩) :
    ∃ n failed w', e.conf n = ⟨.ret failed, w'⟩ ∧
      w'.kern = ⟨all single w.kern.faults w.kern.tree, w.kern.faults⟩ := by
  have here : e.conf 0 = ⟨(mountEach 0 TABLE).bind .ret, w⟩ := by
    rw [Prog.bind_ret]
    exact e.start
  exact mountEach_follows table_plain here

/-! ## The README's promise -/

open Mount in
/-- **A second run changes nothing exactly if it repeats every entry.**  Whatever fails, `mount_all`
returns with every entry mounted that can be; and if only files were made since, a second
`mount_all` leaves what is visible at the targets as it was exactly if every entry `repeats`. -/
theorem second_run_changes_nothing_iff (single : String → Bool) (w : World Mounting)
    (e : Execution (mounting single).semantics ⟨mountAll, w⟩) :
    ∃ n failed w₁, e.conf n = ⟨.ret failed, w₁⟩ ∧
      AllMounted w.kern.tree w.kern.faults w₁.kern.tree ∧
      ∀ (w₂ : World Mounting) (again : Execution (mounting single).semantics ⟨mountAll, w₂⟩),
        w₁.kern.tree.Grew w₂.kern.tree →
          ∃ n₂ failed₂ w₃, again.conf n₂ = ⟨.ret failed₂, w₃⟩ ∧
            AllMounted w₂.kern.tree w₂.kern.faults w₃.kern.tree ∧
            (Unchanged w₂.kern.tree w₃.kern.tree ↔
              ∀ v ∈ TABLE, repeats single w.kern.faults w₂.kern.faults w.kern.tree v) := by
  obtain ⟨n, failed, w₁, returned, kern⟩ := mountAll_follows e
  refine ⟨n, failed, w₁, returned, ?_, ?_⟩
  · rw [kern]
    exact allMounted single _ _
  intro w₂ again grew
  obtain ⟨n₂, failed₂, w₃, returned₂, kern₂⟩ := mountAll_follows again
  refine ⟨n₂, failed₂, w₃, returned₂, ?_, ?_⟩
  · rw [kern₂]
    exact allMounted single _ _
  rw [kern] at grew
  rw [kern₂]
  exact unchanged_iff (fun _ member => all_ran single _ _ member) grew
    (fun _ member => all_ran single _ _ member) (all_files single _ _)

/-- This kernel answers every call that comes back. -/
theorem mounting_answers (single : String → Bool) (w : World Mounting) (c : Call)
    (comesBack : Nonempty c.Res) : ∃ r w', (mounting single).Answers w c r w' := by
  obtain ⟨r⟩ := comesBack
  cases c with
  | mem o =>
      have reads : (mounting single).reads w.kern 0 := trivial
      exact ⟨_, _, .mem reads⟩
  | sys s =>
      have answered : ∃ (r : s.Res) (kern : Mounting), (mounting single).answer w.kern s r kern := by
        obtain ⟨r', promised⟩ := promised_result r
        cases s with
        | createDirAll path =>
            show ∃ r kern, w.kern.createDirAll path r kern
            unfold Mounting.createDirAll
            split
            · exact ⟨_, _, rfl, rfl⟩
            · split <;> exact ⟨_, _, rfl, rfl⟩
        | mount o =>
            show ∃ r kern, w.kern.mount single o r kern
            unfold Mounting.mount
            split
            · split
              · exact ⟨_, _, rfl, rfl⟩
              · split
                · exact ⟨⟨-1, ⟨EBUSY, ""⟩⟩, _, rfl, rfl, rfl⟩
                · exact ⟨⟨0, ⟨0, ""⟩⟩, _, rfl, rfl⟩
            · exact ⟨⟨-1, ⟨0, ""⟩⟩, _, rfl, by decide, rfl⟩
        | _ => exact ⟨r', w.kern, promised, rfl⟩
      obtain ⟨r, kern, answer⟩ := answered
      exact ⟨r, _, .sys answer⟩

/-- The folders of a root filesystem, with nothing mounted. -/
def Tree.bare : Tree where
  folder _ := true
  mounts _ := []
  files _ := []
  next := 0
  numbered _ _ _ member := absurd member List.not_mem_nil
  empty _ _ _ := rfl
  mounted _ some := absurd rfl some

/-- The run in which no call fails. -/
def Faults.none : Faults := ⟨fun _ => .none, fun _ => .none, fun _ _ fault => by cases fault⟩

/-- The types of the table of which there is a single filesystem.  `proc` is not one of them:
every mount of it is an instance of its own since Linux 5.8. -/
def isSingle (fstype : String) : Bool := fstype == "sysfs" || fstype == "devtmpfs"

theorem mounting_exists (single : String → Bool) (w : World Mounting) :
    Nonempty (Execution (mounting single).semantics ⟨Mount.mountAll, w⟩) :=
  Execution.exists_of_answers (M := (mounting single).semantics) (mounting_answers single) _

open Mount in
/-- Nothing fails, and a file is made in `/tmp` after the first run: the second run covers it with
an empty filesystem. -/
theorem second_run_hides_a_file :
    ∃ (e : Execution (mounting isSingle).semantics
        ⟨mountAll, World.boot ⟨Tree.bare, Faults.none⟩⟩)
      (n failed : ℕ) (w₁ : World Mounting), e.conf n = ⟨.ret failed, w₁⟩ ∧
      ∃ (again : Execution (mounting isSingle).semantics
          ⟨mountAll, World.boot ⟨w₁.kern.tree.touch "/tmp" "note", Faults.none⟩⟩)
        (n₂ failed₂ : ℕ) (w₃ : World Mounting), again.conf n₂ = ⟨.ret failed₂, w₃⟩ ∧
        w₁.kern.tree.Grew (w₁.kern.tree.touch "/tmp" "note") ∧
        (∃ i, (w₁.kern.tree.touch "/tmp" "note").visible "/tmp" = some i ∧
          "note" ∈ (w₁.kern.tree.touch "/tmp" "note").files i) ∧
        (∃ i, w₃.kern.tree.visible "/tmp" = some i ∧ "note" ∉ w₃.kern.tree.files i) ∧
        ¬ Unchanged (w₁.kern.tree.touch "/tmp" "note") w₃.kern.tree := by
  obtain ⟨e⟩ := mounting_exists isSingle (World.boot ⟨Tree.bare, Faults.none⟩)
  obtain ⟨n, failed, w₁, returned, kern⟩ := mountAll_follows e
  obtain ⟨again⟩ := mounting_exists isSingle
    (World.boot ⟨w₁.kern.tree.touch "/tmp" "note", Faults.none⟩)
  obtain ⟨n₂, failed₂, w₃, returned₂, kern₂⟩ := mountAll_follows again
  refine ⟨e, n, failed, w₁, returned, again, n₂, failed₂, w₃, returned₂,
    Tree.grew_touch _ _ _, ?_⟩
  have once : w₁.kern.tree = all isSingle Faults.none Tree.bare := congrArg Mounting.tree kern
  have twice : w₃.kern.tree = all isSingle Faults.none
      ((all isSingle Faults.none Tree.bare).touch "/tmp" "note") := by
    rw [← once]
    exact congrArg Mounting.tree kern₂
  rw [once, twice]
  refine ⟨⟨.own "tmpfs" 4, by decide +kernel, by decide +kernel⟩,
    ⟨.own "tmpfs" 7, by decide +kernel, by decide +kernel⟩, fun unchanged => ?_⟩
  have tmp : ⟨"tmpfs", "/tmp", "tmpfs", TMPFS, none⟩ ∈ TABLE := by decide
  exact absurd (unchanged _ tmp).1 (by decide +kernel)

/-- The run in which the mounts that would make a new instance are not permitted. -/
def Faults.notPermitted : Faults where
  mkdir _ := .none
  mount target :=
    if target ∈ ["/proc", "/run", "/tmp"] then some ⟨1, "Operation not permitted"⟩ else .none
  notBusy target e fault := by
    split at fault
    · cases fault
      decide
    · cases fault

open Mount in
/-- A second run that may not mount `/proc`, `/run` and `/tmp` again, and finds `/sys` and `/dev`
busy, repeats every entry and leaves the file in `/tmp` visible. -/
theorem second_run_changes_nothing_when_not_permitted :
    ∃ (e : Execution (mounting isSingle).semantics
        ⟨mountAll, World.boot ⟨Tree.bare, Faults.none⟩⟩)
      (n failed : ℕ) (w₁ : World Mounting), e.conf n = ⟨.ret failed, w₁⟩ ∧
      ∃ (again : Execution (mounting isSingle).semantics
          ⟨mountAll, World.boot ⟨w₁.kern.tree.touch "/tmp" "note", Faults.notPermitted⟩⟩)
        (n₂ failed₂ : ℕ) (w₃ : World Mounting), again.conf n₂ = ⟨.ret failed₂, w₃⟩ ∧
        (∀ v ∈ TABLE, repeats isSingle Faults.none Faults.notPermitted Tree.bare v) ∧
        Unchanged (w₁.kern.tree.touch "/tmp" "note") w₃.kern.tree := by
  have repeated : ∀ v ∈ TABLE, repeats isSingle Faults.none Faults.notPermitted Tree.bare v := by
    decide +kernel
  obtain ⟨e⟩ := mounting_exists isSingle (World.boot ⟨Tree.bare, Faults.none⟩)
  obtain ⟨n, failed, w₁, returned, -, second⟩ := second_run_changes_nothing_iff isSingle _ e
  obtain ⟨again⟩ := mounting_exists isSingle
    (World.boot ⟨w₁.kern.tree.touch "/tmp" "note", Faults.notPermitted⟩)
  obtain ⟨n₂, failed₂, w₃, returned₂, -, exact_⟩ := second _ again (Tree.grew_touch _ _ _)
  exact ⟨e, n, failed, w₁, returned, again, n₂, failed₂, w₃, returned₂, repeated,
    exact_.mpr repeated⟩

end Zevory
