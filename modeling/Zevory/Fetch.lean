import Zevory.Disk

/-!
# Fetching from upstream

`fetch-kernel.sh`, `fetch-busybox.sh` and `fetch-limine.sh` download an archive and
its signature, check the one against the other with a keyring of their own, and
unpack.  The README says that what is fetched is "checked against pinned PGP
fingerprints".  The pinned fingerprints are looked up in the keyring; the signature
is then checked against the whole keyring.  `only_pinned_archives` says what follows:
a script unpacks archives signed by a pinned key only, if and only if nothing but
pinned keys is in its keyring when the signature is checked, or it stops before.
-/

namespace Zevory.Fetch

open Interaction Sh

/-- `DL_DIR` of the scripts. -/
def dlDir (root : String) : String := root ++ "/sources/_dl"

/-! ## fetch-kernel.sh -/

/-- `LINUS_KEY` -/
def linusKey : String := "ABAF11C65A2970B130ABE3C479BE3E4300411886"

/-- `GREG_KEY` -/
def gregKey : String := "647F28654894E3BD457199BE38DBBDC86092693E"

/-- `GNUPGHOME` of fetch-kernel.sh. -/
def kernelHome (root : String) : String := root ++ "/sources/.gnupg-kernel"

/-- `SRC_DIR` of fetch-kernel.sh. -/
def kernelDir (root version : String) : String := root ++ "/sources/linux-" ++ version

/-- `SERIES` of fetch-kernel.sh. -/
def series (version : String) : String := "v" ++ (version.splitOn ".").headD "" ++ ".x"

/-- `BASE_URL` of fetch-kernel.sh. -/
def kernelUrl (version : String) : String :=
  "https://cdn.kernel.org/pub/linux/kernel/" ++ series version

/-- The path of the kernel archive without its `.xz`. -/
def kernelTar (root version : String) : String := dlDir root ++ "/linux-" ++ version ++ ".tar"

def kernelSig (root version : String) : String := kernelTar root version ++ ".sign"

def fetchKernel (root version : String) : Sh Cmd Unit := do
  cmd (.mkdir [dlDir root, kernelHome root])
  cmd (.chmod "700" (kernelHome root))
  exitIf (.isDir (kernelDir root version)) 0
  cmd (.gpgLocateKeys (kernelHome root) ["torvalds@kernel.org", "gregkh@kernel.org"])
  each (fun fpr => orExit (.gpgListKeys (kernelHome root) fpr) 1) [linusKey, gregKey]
  cmd (.curl (kernelTar root version ++ ".xz")
    (kernelUrl version ++ "/linux-" ++ version ++ ".tar.xz"))
  cmd (.curl (kernelSig root version) (kernelUrl version ++ "/linux-" ++ version ++ ".tar.sign"))
  cmd (.xzDecompress (kernelTar root version))
  cmd (.gpgVerify (kernelHome root) (kernelSig root version) (kernelTar root version))
  cmd (.mkdir [root ++ "/sources"])
  cmd (.tar (kernelTar root version) (root ++ "/sources"))
  cmd (.rm [kernelTar root version])

/-! ## fetch-busybox.sh and fetch-limine.sh -/

/-- What fetch-busybox.sh and fetch-limine.sh, the two scripts with a vendored key, differ in. -/
structure Vendored where
  dl : String
  home : String
  target : String
  keyFile : String
  fpr : String
  tar : String
  sig : String
  tarUrl : String
  sigUrl : String
  into : String
  target_fresh : target ∉ [dl, home]
  tar_ne_sig : tar ≠ sig

def Vendored.fetch (v : Vendored) : Sh Cmd Unit := do
  cmd (.mkdir [v.dl, v.home])
  cmd (.chmod "700" v.home)
  exitIf (.isDir v.target) 0
  cmd (.gpgImport v.home v.keyFile)
  orExit (.gpgListKeys v.home v.fpr) 1
  cmd (.curl v.tar v.tarUrl)
  cmd (.curl v.sig v.sigUrl)
  cmd (.gpgVerify v.home v.sig v.tar)
  cmd (.mkdir [v.into])
  cmd (.tar v.tar v.into)
  cmd (.rm [v.tar, v.sig])

/-- Two paths under one root that differ at a character before the version are different, whatever
the version. -/
theorem path_ne {root a b version : String} (n : ℕ) (short : n < a.toList.length)
    (part : a.toList[n]? ≠ b.toList[n]?) : root ++ a ++ version ≠ root ++ b := by
  intro same
  rw [String.append_assoc, String.append_right_inj] at same
  have chars := congrArg (fun s => s.toList[n]?) same
  simp only [String.toList_append, List.getElem?_append_left short] at chars
  exact part chars

theorem suffix_ne (stem : String) {suffix : String} (long : 0 < suffix.length) :
    stem ≠ stem ++ suffix := by
  intro same
  have lengths := congrArg String.length same
  rw [String.length_append] at lengths
  omega

/-- `FPR` of fetch-busybox.sh. -/
def busyboxFpr : String := "C9E9416F76E610DBD09D040F47B70C55ACC9965B"

/-- `FPR` of fetch-limine.sh. -/
def limineFpr : String := "05D29860D0A0668AAEFB9D691F3C021BECA23821"

/-- fetch-busybox.sh -/
def busybox (root version : String) : Vendored where
  dl := dlDir root
  home := root ++ "/sources/.gnupg-busybox"
  target := root ++ "/sources/busybox-" ++ version
  keyFile := root ++ "/busybox/signing-key.asc"
  fpr := busyboxFpr
  tar := dlDir root ++ "/busybox-" ++ version ++ ".tar.bz2"
  sig := dlDir root ++ "/busybox-" ++ version ++ ".tar.bz2" ++ ".sig"
  tarUrl := "https://busybox.net/downloads/busybox-" ++ version ++ ".tar.bz2"
  sigUrl := "https://busybox.net/downloads/busybox-" ++ version ++ ".tar.bz2.sig"
  into := root ++ "/sources"
  target_fresh := by
    simp only [List.mem_cons, List.not_mem_nil, or_false, not_or]
    exact ⟨path_ne 9 (by decide) (by decide), path_ne 9 (by decide) (by decide)⟩
  tar_ne_sig := suffix_ne _ (by decide)

/-- fetch-limine.sh -/
def limine (root version : String) : Vendored where
  dl := dlDir root
  home := root ++ "/sources/.gnupg-limine"
  target := root ++ "/sources/limine-" ++ version
  keyFile := root ++ "/boot/limine/signing-key.asc"
  fpr := limineFpr
  tar := dlDir root ++ "/limine-binary.tar.gz"
  sig := dlDir root ++ "/limine-binary.tar.gz" ++ ".sig"
  tarUrl := "https://github.com/limine-bootloader/limine/releases/download/v" ++ version ++
    "/limine-binary.tar.gz"
  sigUrl := "https://github.com/limine-bootloader/limine/releases/download/v" ++ version ++
    "/limine-binary.tar.gz.sig"
  into := root ++ "/sources/limine-" ++ version
  target_fresh := by
    simp only [List.mem_cons, List.not_mem_nil, or_false, not_or]
    exact ⟨path_ne 9 (by decide) (by decide), path_ne 9 (by decide) (by decide)⟩
  tar_ne_sig := suffix_ne _ (by decide)

/-! ## What is unpacked -/

/-- The guard of the scripts: an archive is unpacked only if the file at `sig` is a signature of it
by a pinned key. -/
def Unpackable (pinned : List String) (sig : String) : Cmd → Disk → Prop
  | .tar file _, d => d.SignedBy pinned sig file
  | _, _ => True

section Triples

variable {keys pinned : List String} {sig home file : String} {P Q : Disk → Prop}

/-- A command other than `tar`, which the guard lets pass. -/
theorem passes (c : Cmd) (other : ∀ d, Unpackable pinned sig c d)
    (done : ∀ d d', P d → Done keys d c d' → Q d') :
    Sh.Triple (tools keys) (Unpackable pinned sig) P (cmd c) (fun _ => Q) fun _ _ => True :=
  Sh.Triple.cmd (fun d _ => other d) done fun _ _ _ _ => trivial

/-- A download that keeps what is known of the disk, whatever it delivers. -/
theorem downloads {out url : String} (kept : ∀ d content, P d → P (d.put out content)) :
    Sh.Triple (tools keys) (Unpackable pinned sig) P (cmd (.curl out url)) (fun _ => P)
      fun _ _ => True := by
  apply passes (.curl out url) fun _ => trivial
  rintro d d' hP ⟨content, rfl⟩
  exact kept d _ hP

/-- A row of `gpg --list-keys`, one for each pinned key: afterwards the keyring holds all of them.
-/
theorem looks :
    Sh.Triple (tools keys) (Unpackable pinned sig) P
      (each (fun fpr => orExit (.gpgListKeys home fpr) 1) pinned)
      (fun _ d => P d ∧ ∀ fpr ∈ pinned, fpr ∈ d.keyring home) fun _ _ => True := by
  apply Sh.Triple.each (c := Cmd.gpgListKeys home)
  · exact fun _ _ _ => trivial
  · rintro fpr d d' - ⟨known, rfl⟩
    exact ⟨rfl, known⟩
  · exact fun _ _ _ _ _ => trivial

/-- The beginning of every script: it makes its directories, and goes on if the target is not there.
-/
theorem begins {dl target : String} {rest : Sh Cmd Unit}
    (kept : ∀ d paths, P d → P (d.mkdir paths))
    (last : Sh.Triple (tools keys) (Unpackable pinned sig) P rest (fun _ _ => True)
      fun _ _ => True) :
    Sh.Triple (tools keys) (Unpackable pinned sig) (fun d => target ∈ d.dirs ∨ P d)
      (do
        cmd (.mkdir [dl, home])
        cmd (.chmod "700" home)
        exitIf (.isDir target) 0
        rest)
      (fun _ _ => True) fun _ _ => True := by
  refine Sh.Triple.bind (passes (.mkdir [dl, home]) (fun _ => trivial)
    (Q := fun d => target ∈ d.dirs ∨ P d) ?_) fun _ => ?_
  · rintro d d' start rfl
    exact start.imp (List.mem_append_right _) (kept d _)
  refine Sh.Triple.bind (passes (.chmod "700" home) (fun _ => trivial)
    (Q := fun d => target ∈ d.dirs ∨ P d) ?_) fun _ => ?_
  · rintro d d' start rfl
    exact start
  refine Sh.Triple.bind (Sh.Triple.exitIf (fun _ _ => trivial) (fun _ _ _ _ => trivial) ?_)
    fun _ => last
  rintro d d' start ⟨absent, rfl⟩
  exact start.resolve_left absent

/-- The end of a script: verify with a keyring that holds pinned keys only, make a directory,
unpack. -/
theorem unpacks {into : String} {rest : Sh Cmd Unit}
    (last : Sh.Triple (tools keys) (Unpackable pinned sig) (fun _ => True) rest
      (fun _ _ => True) fun _ _ => True) :
    Sh.Triple (tools keys) (Unpackable pinned sig) (fun d => d.keyring home ⊆ pinned)
      (do
        cmd (.gpgVerify home sig file)
        cmd (.mkdir [into])
        cmd (.tar file into)
        rest)
      (fun _ _ => True) fun _ _ => True := by
  refine Sh.Triple.bind (passes (.gpgVerify home sig file)
    (Q := fun d => d.SignedBy pinned sig file) (fun _ => trivial) ?_) fun _ => ?_
  · rintro d d' only ⟨signed, rfl⟩
    exact signed.subset only
  refine Sh.Triple.bind (passes (.mkdir [into])
    (Q := fun d => d.SignedBy pinned sig file) (fun _ => trivial) ?_) fun _ => ?_
  · rintro d d' signed rfl
    exact signed
  refine Sh.Triple.bind (Sh.Triple.cmd (Q := fun _ => True) (fun _ signed => signed) ?_ ?_)
    fun _ => last
  · exact fun _ _ _ _ => trivial
  · exact fun _ _ _ _ => trivial

end Triples

/-- The condition on a script with a vendored key: it stops before it checks the signature, or its
keyring then holds the pinned key only. -/
def Vendored.Fit (v : Vendored) (keys : List String) (d : Disk) : Prop :=
  v.target ∈ d.dirs ∨ ¬ [v.fpr] ⊆ d.keyring v.home ++ keys ∨
    d.keyring v.home ++ keys ⊆ [v.fpr]

theorem Vendored.fetch_triple (v : Vendored) (keys : List String) :
    Sh.Triple (tools keys) (Unpackable [v.fpr] v.sig) (v.Fit keys) v.fetch
      (fun _ _ => True) fun _ _ => True := by
  apply begins fun _ _ start => start
  refine Sh.Triple.bind (passes (.gpgImport v.home v.keyFile) (fun _ => trivial)
    (Q := fun d => ¬ [v.fpr] ⊆ d.keyring v.home ∨ d.keyring v.home ⊆ [v.fpr]) ?_) fun _ => ?_
  · rintro d d' start rfl
    rwa [Disk.addKeys_keyring]
  refine Sh.Triple.bind (Sh.Triple.orExit (fun _ _ => trivial)
    (Q := fun d => d.keyring v.home ⊆ [v.fpr]) ?_ fun _ _ _ _ => trivial) fun _ => ?_
  · rintro d d' start ⟨known, rfl⟩
    exact start.resolve_left fun missing => missing (List.cons_subset.2 ⟨known, List.nil_subset _⟩)
  refine Sh.Triple.bind (downloads fun _ _ only => only) fun _ => ?_
  refine Sh.Triple.bind (downloads fun _ _ only => only) fun _ => ?_
  exact unpacks (passes (.rm [v.tar, v.sig]) (fun _ => trivial) fun _ _ _ _ => trivial)

theorem kernelSig_ne (root version : String) : kernelTar root version ≠ kernelSig root version :=
  suffix_ne _ (by decide)

theorem kernelDir_fresh (root version : String) :
    kernelDir root version ∉ [dlDir root, kernelHome root] := by
  simp only [List.mem_cons, List.not_mem_nil, or_false, not_or]
  exact ⟨path_ne 9 (by decide) (by decide), path_ne 9 (by decide) (by decide)⟩

theorem kernelXz_ne (root version : String) :
    kernelTar root version ≠ kernelTar root version ++ ".xz" :=
  suffix_ne _ (by decide)

theorem kernelXz_ne_sig (root version : String) :
    kernelTar root version ++ ".xz" ≠ kernelSig root version := by
  unfold kernelSig
  rw [Ne, String.append_right_inj]
  decide

/-- The condition on fetch-kernel.sh, which also stops if an unpacked archive is in the way of `xz`.
-/
def KernelFit (root version : String) (keys : List String) (d : Disk) : Prop :=
  kernelDir root version ∈ d.dirs ∨ ¬ [linusKey, gregKey] ⊆ d.keyring (kernelHome root) ++ keys ∨
    d.files (kernelTar root version) ≠ none ∨
    d.keyring (kernelHome root) ++ keys ⊆ [linusKey, gregKey]

theorem fetchKernel_triple (root version : String) (keys : List String) :
    Sh.Triple (tools keys) (Unpackable [linusKey, gregKey] (kernelSig root version))
      (KernelFit root version keys) (fetchKernel root version) (fun _ _ => True)
      fun _ _ => True := by
  have kept : ∀ (d : Disk) path (content : Option Content), kernelTar root version ≠ path →
      d.files (kernelTar root version) ≠ none ∨
        d.keyring (kernelHome root) ⊆ [linusKey, gregKey] →
      (d.put path content).files (kernelTar root version) ≠ none ∨
        (d.put path content).keyring (kernelHome root) ⊆ [linusKey, gregKey] := by
    intro d path content distinct start
    rwa [Disk.put_files_other d content distinct]
  apply begins fun _ _ start => start
  refine Sh.Triple.bind (passes (.gpgLocateKeys (kernelHome root) _) (fun _ => trivial)
    (Q := fun d => ¬ [linusKey, gregKey] ⊆ d.keyring (kernelHome root) ∨
      d.files (kernelTar root version) ≠ none ∨
      d.keyring (kernelHome root) ⊆ [linusKey, gregKey]) ?_) fun _ => ?_
  · rintro d d' start rfl
    rwa [Disk.addKeys_keyring]
  refine Sh.Triple.bind looks fun _ => ?_
  refine Sh.Triple.bind (Sh.Triple.pre (downloads fun d content =>
    kept d _ content (kernelXz_ne root version)) ?_) fun _ => ?_
  · rintro d ⟨start, known⟩
    exact start.resolve_left fun missing => missing known
  refine Sh.Triple.bind (downloads fun d content =>
    kept d _ content (kernelSig_ne root version)) fun _ => ?_
  refine Sh.Triple.bind (passes (.xzDecompress (kernelTar root version)) (fun _ => trivial)
    (Q := fun d => d.keyring (kernelHome root) ⊆ [linusKey, gregKey]) ?_) fun _ => ?_
  · rintro d d' start ⟨content, -, nothing, rfl⟩
    exact start.resolve_left fun there => there nothing
  exact unpacks (passes (.rm [kernelTar root version]) (fun _ => trivial) fun _ _ _ _ => trivial)

/-! ## What else is unpacked -/

/-- The disk with a download and its signature that the holder of `key` has forged. -/
def forge (d : Disk) (key tar sig : String) (packing : Content → Content) : Disk :=
  (d.put tar (some (packing (.archive [])))).put sig (some (.signature key (.archive [])))

section Forged

variable {keys pinned : List String} {home key : String} {d d' : Disk}
  {goal : Config (Commands Cmd) Disk ℕ}

theorem forge_sig {tar sig : String} {packing : Content → Content} :
    (forge d key tar sig packing).files sig = some (.signature key (.archive [])) :=
  Disk.put_files _ _ _

theorem forge_other {tar sig path : String} {packing : Content → Content} (notSig : path ≠ sig)
    (notTar : path ≠ tar) : (forge d key tar sig packing).files path = d.files path :=
  (Disk.put_files_other _ _ notSig).trans (Disk.put_files_other _ _ notTar)

theorem forge_tar {tar sig : String} {packing : Content → Content} (distinct : tar ≠ sig) :
    (forge d key tar sig packing).files tar = some (packing (.archive [])) :=
  (Disk.put_files_other _ _ distinct).trans (Disk.put_files _ _ _)

theorem begins_reaches {dl target : String} {rest : Sh Cmd Unit} (absent : target ∉ d.dirs)
    (fresh : target ∉ [dl, home])
    (reach : Reaches (tools keys).sem ⟨rest.status, d.mkdir [dl, home]⟩ goal) :
    Reaches (tools keys).sem
      ⟨(do
        cmd (.mkdir [dl, home])
        cmd (.chmod "700" home)
        exitIf (.isDir target) 0
        rest : Sh Cmd Unit).status, d⟩ goal := by
  apply cmd_goes_on (T := tools keys) (c := .mkdir [dl, home]) rfl
  apply cmd_goes_on (T := tools keys) (c := .chmod "700" home) rfl
  refine exitIf_goes_on (T := tools keys) (c := .isDir target) ⟨?_, rfl⟩ reach
  exact fun there => (List.mem_append.1 there).elim fresh absent

/-- An archive whose signature verifies with the keyring is unpacked. -/
theorem unpacks_reaches (keys : List String) {sig file : String} (into : String)
    (rest : Sh Cmd Unit)
    (signed : d.SignedBy (d.keyring home) sig file) :
    ∃ k, Reaches (tools keys).sem
      ⟨(do
        cmd (.gpgVerify home sig file)
        cmd (.mkdir [into])
        cmd (.tar file into)
        rest : Sh Cmd Unit).status, d⟩
      ⟨.call (.tar file into) k, d.mkdir [into]⟩ := by
  refine ⟨fun ok => if ok then rest.status else .ret 1, ?_⟩
  apply cmd_goes_on (T := tools keys) (c := .gpgVerify home sig file) ⟨signed, rfl⟩
  apply cmd_goes_on (T := tools keys) (c := .mkdir [into]) rfl
  rw [status_cmd]

end Forged

/-- A keyring that is not a part of the pinned keys holds a key that is not pinned. -/
theorem exists_unpinned {ring pinned : List String} (others : ¬ ring ⊆ pinned) :
    ∃ key ∈ ring, key ∉ pinned := by
  simpa only [List.subset_def, not_forall, exists_prop] using others

theorem Vendored.forged (v : Vendored) {keys : List String} {d : Disk} (unfit : ¬ v.Fit keys d) :
    ∃ k d', Reaches (tools keys).sem ⟨v.fetch.status, d⟩ ⟨.call (.tar v.tar v.into) k, d'⟩ ∧
      ¬ d'.SignedBy [v.fpr] v.sig v.tar := by
  simp only [Vendored.Fit, not_or, not_not] at unfit
  obtain ⟨absent, held, others⟩ := unfit
  obtain ⟨key, inside, unpinned⟩ := exists_unpinned others
  let start := (d.mkdir [v.dl, v.home]).addKeys v.home keys
  let forged := forge start key v.tar v.sig id
  have ring : start.keyring v.home = d.keyring v.home ++ keys := Disk.addKeys_keyring _ _ _
  have made : forged.files v.sig = some (.signature key (.archive [])) := forge_sig
  have whole : forged.files v.tar = some (.archive []) := forge_tar v.tar_ne_sig
  have signed : forged.SignedBy (forged.keyring v.home) v.sig v.tar := by
    refine ⟨key, ?_, _, made, whole⟩
    show key ∈ start.keyring v.home
    rw [ring]
    exact inside
  obtain ⟨k, last⟩ := unpacks_reaches keys v.into (cmd (.rm [v.tar, v.sig])) signed
  refine ⟨k, forged.mkdir [v.into], begins_reaches absent v.target_fresh ?_, ?_⟩
  · have imported :
        (tools keys).done (d.mkdir [v.dl, v.home]) (.gpgImport v.home v.keyFile) start := rfl
    have found : (tools keys).done start (.gpgListKeys v.home v.fpr) start := by
      rw [← ring] at held
      exact ⟨held List.mem_cons_self, rfl⟩
    apply cmd_goes_on imported
    apply orExit_goes_on found
    apply cmd_goes_on (T := tools keys) (c := .curl v.tar v.tarUrl) ⟨_, rfl⟩
    apply cmd_goes_on (T := tools keys) (c := .curl v.sig v.sigUrl) ⟨_, rfl⟩
    exact last
  · exact Disk.not_signedBy made unpinned

theorem kernel_forged (root version : String) {keys : List String} {d : Disk}
    (unfit : ¬ KernelFit root version keys d) :
    ∃ into k d', Reaches (tools keys).sem ⟨(fetchKernel root version).status, d⟩
        ⟨.call (.tar (kernelTar root version) into) k, d'⟩ ∧
      ¬ d'.SignedBy [linusKey, gregKey] (kernelSig root version) (kernelTar root version) := by
  simp only [KernelFit, not_or, not_not] at unfit
  obtain ⟨absent, held, nothing, others⟩ := unfit
  obtain ⟨key, inside, unpinned⟩ := exists_unpinned others
  let start := (d.mkdir [dlDir root, kernelHome root]).addKeys (kernelHome root) keys
  let fetched := forge start key (kernelTar root version ++ ".xz") (kernelSig root version)
    (.packed .xz)
  let forged := fetched.put (kernelTar root version) (some (.archive []))
  have ring : start.keyring (kernelHome root) = d.keyring (kernelHome root) ++ keys :=
    Disk.addKeys_keyring _ _ _
  have made : forged.files (kernelSig root version) = some (.signature key (.archive [])) := by
    rw [Disk.put_files_other _ _ (kernelSig_ne root version).symm, forge_sig]
  have signed : forged.SignedBy (forged.keyring (kernelHome root)) (kernelSig root version)
      (kernelTar root version) := by
    refine ⟨key, ?_, _, made, Disk.put_files _ _ _⟩
    show key ∈ start.keyring (kernelHome root)
    rw [ring]
    exact inside
  have unpacked : (tools keys).done fetched (.xzDecompress (kernelTar root version)) forged := by
    refine ⟨.archive [], ?_, ?_, rfl⟩
    · exact forge_tar (kernelXz_ne_sig root version)
    · exact (forge_other (kernelSig_ne root version) (kernelXz_ne root version)).trans nothing
  obtain ⟨k, last⟩ := unpacks_reaches keys (root ++ "/sources")
    (cmd (.rm [kernelTar root version])) signed
  refine ⟨_, k, forged.mkdir [root ++ "/sources"],
    begins_reaches absent (kernelDir_fresh root version) ?_, Disk.not_signedBy made unpinned⟩
  have located : (tools keys).done (d.mkdir [dlDir root, kernelHome root])
      (.gpgLocateKeys (kernelHome root) ["torvalds@kernel.org", "gregkh@kernel.org"]) start := rfl
  have found : ∀ fpr ∈ [linusKey, gregKey],
      (tools keys).done start (.gpgListKeys (kernelHome root) fpr) start := by
    rw [← ring] at held
    exact fun fpr pinned => ⟨held pinned, rfl⟩
  apply cmd_goes_on located
  apply each_goes_on found
  apply cmd_goes_on (T := tools keys) (c := .curl (kernelTar root version ++ ".xz") _) ⟨_, rfl⟩
  apply cmd_goes_on (T := tools keys) (c := .curl (kernelSig root version) _) ⟨_, rfl⟩
  apply cmd_goes_on unpacked
  exact last

/-! ## The three scripts -/

inductive Upstream
  | kernel
  | busybox
  | limine

namespace Upstream

variable (root version : String)

def script : Upstream → Sh Cmd Unit
  | kernel => fetchKernel root version
  | busybox => (Fetch.busybox root version).fetch
  | limine => (Fetch.limine root version).fetch

/-- The fingerprints that are pinned in the script. -/
def pinned : Upstream → List String
  | kernel => [linusKey, gregKey]
  | busybox => [busyboxFpr]
  | limine => [limineFpr]

/-- The path of the signature that the script downloads. -/
def sig : Upstream → String
  | kernel => kernelSig root version
  | busybox => (Fetch.busybox root version).sig
  | limine => (Fetch.limine root version).sig

/-- Whatever the downloads deliver and whichever commands fail, the script only unpacks an archive
that the signature it has downloaded is one of, by a pinned key. -/
def OnlyPinned (u : Upstream) (keys : List String) (d : Disk) : Prop :=
  ∀ file into k d', Reaches (tools keys).sem ⟨(u.script root version).status, d⟩
      ⟨.call (.tar file into) k, d'⟩ → d'.SignedBy u.pinned (u.sig root version) file

/-- The script stops before it checks the signature, or checks it with a keyring that
holds pinned keys only. -/
def Fit : Upstream → List String → Disk → Prop
  | kernel => KernelFit root version
  | busybox => (Fetch.busybox root version).Fit
  | limine => (Fetch.limine root version).Fit

end Upstream

/-- **What is unpacked is signed by a pinned key exactly if the keyring holds no other key.** The
condition is on what the key source delivers and on the disk before the run. -/
theorem only_pinned_archives (u : Upstream) (root version : String) (keys : List String)
    (d : Disk) : u.OnlyPinned root version keys d ↔ u.Fit root version keys d := by
  constructor
  · intro only
    by_cases fit : u.Fit root version keys d
    · exact fit
    cases u with
    | kernel =>
        obtain ⟨into, k, d', reach, forged⟩ := kernel_forged root version fit
        exact absurd (only _ _ _ _ reach) forged
    | busybox =>
        obtain ⟨k, d', reach, forged⟩ := (busybox root version).forged fit
        exact absurd (only _ _ _ _ reach) forged
    | limine =>
        obtain ⟨k, d', reach, forged⟩ := (limine root version).forged fit
        exact absurd (only _ _ _ _ reach) forged
  · intro fit file into k d' reach
    cases u with
    | kernel => exact (fetchKernel_triple root version keys).guarded fit reach
    | busybox => exact ((busybox root version).fetch_triple keys).guarded fit reach
    | limine => exact ((limine root version).fetch_triple keys).guarded fit reach

/-- With a third key beside the two pinned ones in the keyring, fetch-kernel.sh unpacks an archive
that this third key has signed. -/
theorem forged_kernel_is_unpacked :
    ¬ Upstream.kernel.OnlyPinned "/zevory" "6.12.1"
      [linusKey, gregKey, "0123456789ABCDEF0123456789ABCDEF01234567"] Disk.empty := by
  intro only
  have unfit : ¬ KernelFit "/zevory" "6.12.1"
      [linusKey, gregKey, "0123456789ABCDEF0123456789ABCDEF01234567"] Disk.empty := by
    rintro (there | missing | blocked | others)
    · exact nomatch there
    · revert missing
      decide
    · exact blocked rfl
    · revert others
      decide
  obtain ⟨into, k, d', reach, forged⟩ := kernel_forged "/zevory" "6.12.1" unfit
  exact forged (only _ _ _ _ reach)

end Zevory.Fetch
