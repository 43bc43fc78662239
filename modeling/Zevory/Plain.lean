import Zevory.Main

/-!
# Lines without the marker

Up to its first shell pid 1 writes nothing that contains `READY_MARKER`, and neither do its
children, as long as no text of an error does.  The test is for the `OK` of the marker: a
text is `Plain` if no `O` in it stands before a `K` or at the end, so that a text put
together from plain ones is plain.
-/

namespace Zevory

open Interaction

/-! ## Plain texts -/

/-- The byte `O` stands nowhere right before a `K` and not at the end, so that no two such texts
form the marker together. -/
def plainBytes : List UInt8 → Bool
  | [] => true
  | [b] => b != 79
  | b :: b' :: rest => !(b == 79 && b' == 75) && plainBytes (b' :: rest)

def Plain (s : String) : Prop := plainBytes (asBytes s)

instance (s : String) : Decidable (Plain s) := inferInstanceAs (Decidable (_ = true))

theorem plainBytes_append {xs ys : List UInt8} (left : plainBytes xs) (right : plainBytes ys) :
    plainBytes (xs ++ ys) := by
  induction xs with
  | nil => exact right
  | cons x xs ih =>
      cases xs with
      | nil =>
          have notO : (x == 79) = false := by simpa [plainBytes] using left
          cases ys with
          | nil => exact left
          | cons y ys => simpa [plainBytes, notO] using right
      | cons x' xs =>
          rw [plainBytes, Bool.and_eq_true] at left
          rw [List.cons_append, List.cons_append, plainBytes, Bool.and_eq_true]
          exact ⟨left.1, ih left.2⟩

theorem Plain.append {a b : String} (left : Plain a) (right : Plain b) : Plain (a ++ b) := by
  unfold Plain
  rw [asBytes_append]
  exact plainBytes_append left right

/-- The decimal digits of a number contain no letters. -/
theorem plain_number (n : ℕ) : Plain (toString n) := by
  have digit : ∀ m < 10, Plain m.repr := by
    decide
  induction n using Nat.strongRecOn with
  | ind n ih =>
      by_cases small : n < 10
      · exact digit n small
      · have split : toString n = (n / 10).repr ++ (n % 10).repr :=
          Nat.repr_eq_repr_append_repr (Nat.le_of_not_lt small)
        rw [split]
        exact (ih (n / 10) (by omega)).append (digit (n % 10) (Nat.mod_lt _ (by decide)))

theorem not_plain_of_marker {xs ys : List UInt8} : plainBytes (xs ++ 79 :: 75 :: ys) = false := by
  induction xs with
  | nil => simp [plainBytes]
  | cons x xs ih =>
      cases xs with
      | nil =>
          rw [List.nil_append] at ih
          rw [List.cons_append, List.nil_append, plainBytes, ih, Bool.and_false]
      | cons x' xs =>
          rw [List.cons_append] at ih
          rw [List.cons_append, List.cons_append, plainBytes, ih, Bool.and_false]

/-- The bytes contain the marker that `diagnose-boot.sh` looks for. -/
def saysReady (bytes : List UInt8) : Prop := asBytes READY_MARKER <:+: bytes

theorem not_ready_of_plain {bytes : List UInt8} (plain : plainBytes bytes) : ¬ saysReady bytes := by
  rintro ⟨before, after, rfl⟩
  have marker : asBytes READY_MARKER =
      asBytes "bootstrap " ++ 79 :: 75 :: asBytes ", shell ready" := by
    decide
  rw [marker, List.append_assoc, List.append_assoc, List.cons_append, List.cons_append,
    ← List.append_assoc, not_plain_of_marker] at plain
  cases plain

/-! ## Errors -/

/-- If the result is an error, its text is plain. -/
def PlainError {α : Type} (r : Except IoError α) : Prop := ∀ e, r = .error e → Plain (toString e)

/-- The results of calls in which the texts of all errors are plain, as those of `strerror` are. -/
def Texts : (c : calls.Op) → calls.Res c → Prop
  | .sys (.mount _), r => Plain r.errno.text
  | .sys (.mknod _ _ _), r => Plain r.errno.text
  | .sys (.openPath _ _), r => Plain r.errno.text
  | .sys (.dup2 _ _), r => Plain r.errno.text
  | .sys (.close _), r => Plain r.errno.text
  | .sys .setsid, r => Plain r.errno.text
  | .sys (.setCtty _ _), r => Plain r.errno.text
  | .sys .pause, r => Plain r.errno.text
  | .sys (.reboot _), r => Plain r.errno.text
  | .sys (.poll _ _), r => Plain r.errno.text
  | .sys (.kill _ _), r => Plain r.errno.text
  | .sys .sync, r => Plain r.errno.text
  | .sys (.execv _ _), r => Plain r.errno.text
  | .sys .fork, r => Plain r.errno.text
  | .sys .waitpid, r => Plain r.1.errno.text
  | .sys (.sigprocmask _ _), r => Plain r.errno.text
  | .sys (.signalfd _ _ _), r => Plain r.errno.text
  | .sys (.read _), r => Plain r.1.errno.text
  | .sys (.write _ _), r => Plain r.errno.text
  | .sys (.createDirAll _), r => PlainError r
  | .sys (.fsWrite _ _), r => PlainError r
  | _, _ => True

theorem plain_os {e : Errno} (plain : Plain e.text) : Plain (toString (IoError.os e)) :=
  ((plain.append (show Plain " (os error " by decide)).append (plain_number e.code)).append
    (show Plain ")" by decide)

theorem plainError_check {r : Ret} (plain : Plain r.errno.text) : PlainError (Sys.check r) := by
  intro e failed
  unfold Sys.check at failed
  split at failed
  · cases failed
  · cases failed
    exact plain_os plain

theorem plainError_checkFd {r : Ret} (plain : Plain r.errno.text) : PlainError (Sys.checkFd r) := by
  intro e failed
  unfold Sys.checkFd at failed
  split at failed
  · cases failed
    exact plain_os plain
  · cases failed

theorem PlainError.map {α β : Type} {r : Except IoError α} (plain : PlainError r) (f : α → β) :
    PlainError (r.map f) := by
  intro e failed
  cases r with
  | ok => cases failed
  | error e' =>
      cases failed
      exact plain _ rfl

theorem plainError_cstr (s : String) : PlainError (Sys.cstr s) := by
  intro e failed
  unfold Sys.cstr at failed
  split at failed
  · cases failed
    decide
  · cases failed

/-! ## What pid 1 does before its first shell -/

/-- The calls of pid 1 other than those that start a shell; no write among them contains the marker.
-/
def Modest : Call → Prop
  | .sys .fork => False
  | .sys (.execv _ _) => False
  | .sys (.write _ bytes) => ¬ saysReady bytes
  | .mem (.track _ _ _) => False
  | .mem (.rescueNew r) => r.usable ⊆ CANDIDATES
  | _ => True

/-- The modest calls that write nothing. -/
def Silent (c : Call) : Prop := Modest c ∧ ∀ fd bytes, c ≠ .sys (.write fd bytes)

section Modest

theorem writeFd_modest {fd : Int} {bytes : List UInt8} (quiet : ¬ saysReady bytes) :
    Only Modest Texts (Sys.writeFd fd bytes) fun _ => True := by
  refine Only.iterate (fun _ => True) trivial fun done _ => ?_
  simp only [Sys.writeRound, Prog.bind_eq, Prog.pure_eq]
  split
  · split
    · refine Only.bind (T := fun _ => True) (Only.perform ?_ fun _ _ => trivial) fun n _ => ?_
      · intro ready
        exact quiet (ready.trans (List.drop_suffix done bytes).isInfix)
      · split <;> exact Only.ret trivial
    · exact ⟨trivial, nofun⟩
  · exact Only.ret trivial

theorem openAppend_silent {path : String} :
    Only Silent Texts (Sys.openAppend path) fun _ => True := by
  simp only [Sys.openAppend, Prog.bind_eq, Prog.pure_eq]
  split
  · exact Only.ret trivial
  · exact Only.bind (T := fun _ => True) (Only.perform ⟨trivial, nofun⟩ fun _ _ => trivial)
      fun _ _ => Only.ret trivial

theorem kmsg_silent : Only Silent Texts Log.kmsg fun _ => True := by
  simp only [Log.kmsg, Prog.bind_eq, Prog.pure_eq]
  refine Only.bind (T := fun _ => True) (Only.perform ⟨trivial, nofun⟩ fun _ _ => trivial)
    fun known _ => ?_
  split
  · exact Only.ret trivial
  · refine Only.bind openAppend_silent fun fd? _ => ?_
    split
    · exact Only.ret trivial
    · exact Only.bind (T := fun _ => True) (Only.perform ⟨trivial, nofun⟩ fun _ _ => trivial)
        fun _ _ => Only.ret trivial

theorem plain_line (level : Log.Level) {msg : String} (plain : Plain msg) :
    Plain (Log.lineFor level msg) ∧ Plain (Log.stderrLine msg) := by
  have front : Plain "zevinit: " := by decide
  have end_ : Plain "\n" := by decide
  have priority : Plain (("<" ++ toString level.priority) ++ ">zevinit: ") :=
    ((show Plain "<" by decide).append (plain_number _)).append (by decide)
  exact ⟨(priority.append plain).append end_, (front.append plain).append end_⟩

/-- A plain message is logged in lines that do not contain the marker. -/
theorem emit_modest {level : Log.Level} {msg : String} (plain : Plain msg) :
    Only Modest Texts (Log.emit level msg) fun _ => True := by
  obtain ⟨line, stderrLine⟩ := plain_line level plain
  simp only [Log.emit, Log.writeToKmsg, Prog.bind_eq, Prog.pure_eq]
  refine Only.bind (T := fun _ => True) 
    (Only.bind (kmsg_silent.subset fun _ silent => silent.1) fun fd _ => ?_) fun sent _ => ?_
  · split
    · exact Only.ret trivial
    · exact writeFd_modest (not_ready_of_plain line)
  · split
    · exact Only.ret trivial
    · exact Only.bind (writeFd_modest (not_ready_of_plain stderrLine)) fun _ _ => Only.ret trivial

theorem toConsole_modest {msg : String} (plain : Plain msg) :
    Only Modest Texts (Log.toConsole msg) fun _ => True := by
  simp only [Log.toConsole, Prog.bind_eq, Prog.pure_eq]
  exact Only.bind (writeFd_modest (not_ready_of_plain plain)) fun _ _ => Only.ret trivial

theorem park_modest {α : Type} {why : String} {Q : α → Prop} (plain : Plain why) :
    Only Modest Texts (park why) Q := by
  have line : Plain (why ++ ", so there is nothing left to do. parked") :=
    plain.append (by decide)
  have text : ∀ enabled, Plain (parkText why enabled) := by
    intro enabled
    have front : Plain ("\nzevinit: " ++ why ++ ", so there is nothing left to do.\n") :=
      ((show Plain "\nzevinit: " by decide).append plain).append (by decide)
    have out : Plain (wayOut enabled) := by cases enabled <;> decide
    exact (front.append out).append (by decide)
  simp only [park, Sys.enableCtrlAltDel, Prog.bind_eq, Prog.pure_eq]
  refine Only.bind (T := fun _ => True)
    (Only.bind (T := fun _ => True) (Only.perform trivial fun _ _ => trivial)
      fun _ _ => Only.ret trivial) fun enabled _ => ?_
  refine Only.bind (emit_modest line) fun _ _ => Only.bind (toConsole_modest (text _)) fun _ _ => ?_
  refine Only.iterate (fun _ => True) trivial fun _ _ => ?_
  simp only [Prog.bind_eq, Prog.pure_eq]
  exact Only.bind (T := fun _ => True) (Only.perform trivial fun _ _ => trivial)
    fun _ _ => Only.ret trivial

/-- A call whose result is only checked for an error returns a plain error. -/
theorem check_modest {s : Syscall} (modest : Modest (.sys s)) {f : s.Res → Except IoError α}
    (plain : ∀ r, Texts (.sys s) r → PlainError (f r)) :
    Only Modest Texts ((sys s).bind fun r => .ret (f r)) PlainError :=
  Only.bind (T := fun r => Texts (.sys s) r) (Only.perform modest fun _ given => given)
    fun r given => Only.ret (plain r given)

/-! ### Coming up -/

theorem mountStrings_plain (o : MountOpts) : PlainError (Sys.mountStrings o) := by
  have nul : ∀ s, Sys.cstr s = .error (.invalidInput "nul byte in string") ∨ Sys.cstr s = .ok s := by
    intro s
    unfold Sys.cstr
    split
    · exact .inl rfl
    · exact .inr rfl
  intro e failed
  have text : e = .invalidInput "nul byte in string" := by
    rcases nul o.source with one | one <;> rcases nul o.target with two | two <;>
      rcases nul o.fstype with three | three <;> cases data : o.data with
      | none => simp_all [Sys.mountStrings, bind, Except.bind, pure, Except.pure]
      | some d =>
          rcases nul d with four | four <;>
            simp_all [Sys.mountStrings, bind, Except.bind, pure, Except.pure, Functor.map, Except.map]
  rw [text]
  decide

theorem mountOne_modest (v : Mount.Vfs) : Only Modest Texts (Mount.mountOne v) PlainError := by
  simp only [Mount.mountOne, Sys.mount, Prog.bind_eq, Prog.pure_eq]
  refine Only.bind (T := PlainError) (Only.perform trivial fun _ given => given) fun made plain => ?_
  split
  · exact Only.ret plain
  · refine Only.bind (T := PlainError) ?_ fun r plain => ?_
    · split
      · rename_i e failed
        refine Only.ret fun e' same => ?_
        cases same
        exact mountStrings_plain _ e failed
      · exact check_modest (by trivial) fun _ => plainError_check
    · split
      · exact Only.ret nofun
      · rename_i e
        split
        · exact Only.ret nofun
        · refine Only.ret fun e' same => ?_
          cases same
          exact plain e rfl

theorem mountEach_modest (table : List Mount.Vfs)
    (plain : ∀ v ∈ table, Plain v.target ∧ Plain v.fstype)
    (failed : ℕ) : Only Modest Texts (Mount.mountEach failed table) fun _ => True := by
  induction table generalizing failed with
  | nil => exact Only.ret trivial
  | cons v rest ih =>
      have later := ih fun v member => plain v (List.mem_cons_of_mem _ member)
      obtain ⟨target, fstype⟩ := plain v List.mem_cons_self
      simp only [Mount.mountEach, Prog.bind_eq]
      refine Only.bind (mountOne_modest v) fun r text => ?_
      split
      · exact later failed
      · rename_i e
        have line : Plain s!"could not mount {v.target} as {v.fstype}: {e}" :=
          (((((show Plain "could not mount " by decide).append target).append
            (show Plain " as " by decide)).append fstype).append
              (show Plain ": " by decide)).append (text e rfl)
        exact Only.bind (emit_modest line) fun _ _ => later (failed + 1)

theorem keepEveryMessage_modest : Only Modest Texts Log.keepEveryMessage fun _ => True := by
  simp only [Log.keepEveryMessage, Prog.bind_eq, Prog.pure_eq]
  refine Only.bind (T := PlainError) (Only.perform trivial fun _ given => given) fun r plain => ?_
  split
  · exact Only.ret trivial
  · rename_i e
    refine emit_modest ?_
    exact ((show Plain "/proc/sys/kernel/printk_devkmsg is not writable (" by decide).append
      (plain e rfl)).append (show Plain "), the kernel will drop our log lines in bursts" by decide)

theorem ensureEach_modest (nodes : List Console.Node) (plain : ∀ n ∈ nodes, Plain n.path) :
    Only Modest Texts (Console.ensureEach nodes) fun _ => True := by
  induction nodes with
  | nil => exact Only.ret trivial
  | cons n rest ih =>
      have later := ih fun n member => plain n (List.mem_cons_of_mem _ member)
      simp only [Console.ensureEach, Sys.mknodChar, Prog.bind_eq, Prog.pure_eq]
      refine Only.bind (T := fun _ => True) (Only.perform trivial fun _ _ => trivial) fun there _ => ?_
      split
      · exact later
      · refine Only.bind (T := PlainError) ?_ fun r text => ?_
        · split
          · rename_i e failed
            refine Only.ret fun e' same => ?_
            cases same
            exact plainError_cstr _ e failed
          · exact check_modest (by trivial) fun _ => plainError_check
        · split
          · exact later
          · rename_i e
            have line : Plain s!"could not create {n.path}: {e}" :=
              (((show Plain "could not create " by decide).append
                (plain n List.mem_cons_self)).append (show Plain ": " by decide)).append (text e rfl)
            exact Only.bind (emit_modest line) fun _ _ => later

theorem dup2Over_modest (fd : Int) (targets : List Int) :
    Only Modest Texts (Sys.dup2Over fd targets) PlainError := by
  induction targets with
  | nil => exact Only.ret nofun
  | cons target rest ih =>
      simp only [Sys.dup2Over, Prog.bind_eq, Prog.pure_eq]
      refine Only.bind (T := fun r : Ret => Plain r.errno.text)
        (Only.perform trivial fun _ given => given) fun r text => ?_
      split
      · refine Only.ret fun e same => ?_
        cases same
        exact plain_os text
      · exact ih

theorem attachStdio_modest : Only Modest Texts Console.attachStdio PlainError := by
  simp only [Console.attachStdio, Sys.openRw, Sys.dup2Stdio, Prog.bind_eq, Prog.pure_eq]
  refine Only.bind (T := PlainError) ?_ fun fd? text => ?_
  · split
    · rename_i e failed
      refine Only.ret fun e' same => ?_
      cases same
      exact plainError_cstr _ e failed
    · exact check_modest (by trivial) fun _ => plainError_checkFd
  · split
    · rename_i e
      refine Only.ret fun e' same => ?_
      cases same
      exact text e rfl
    · refine Only.bind (dup2Over_modest _ _) fun r text => ?_
      split
      · rename_i e
        refine Only.ret fun e' same => ?_
        cases same
        exact text e rfl
      · split
        · exact Only.bind (T := fun _ => True) (Only.perform trivial fun _ _ => trivial)
            fun _ _ => Only.ret nofun
        · exact Only.ret nofun

theorem openConsole_modest : Only Modest Texts openConsole fun _ => True := by
  simp only [openConsole, Console.takeCtty, Sys.takeCtty, Sys.newSession, Sys.setCtty,
    Prog.bind_eq, Prog.pure_eq]
  refine Only.bind attachStdio_modest fun r text => ?_
  split
  · refine Only.bind (T := PlainError) ?_ fun r text => ?_
    · exact Only.bind (T := fun _ => True)
        (Only.bind (T := fun _ => True) (Only.perform trivial fun _ _ => trivial)
          fun _ _ => Only.ret trivial)
        fun _ _ => check_modest (by trivial) fun _ => plainError_check
    · split
      · exact Only.ret trivial
      · rename_i e
        exact emit_modest (((show Plain "no controlling terminal (" by decide).append
          (text e rfl)).append (show Plain "), job control stays off" by decide))
  · rename_i e
    exact emit_modest (((show Plain "no console (" by decide).append (text e rfl)).append
      (show Plain "), carrying on without one" by decide))

theorem watchSignals_modest : Only Modest Texts watchSignals fun _ => True := by
  simp only [watchSignals, Signal.install, Sys.blockSignals, Sys.signalFd, Prog.bind_eq,
    Prog.pure_eq]
  refine Only.bind (T := PlainError) ?_ fun r text => ?_
  · refine Only.bind (check_modest (by trivial) fun _ => plainError_check) fun r text => ?_
    split
    · rename_i e
      refine Only.ret fun e' same => ?_
      cases same
      exact text e rfl
    · refine Only.bind (check_modest (by trivial) fun _ => plainError_checkFd) fun r text => ?_
      exact Only.ret (text.map _)
  · split
    · exact Only.ret trivial
    · rename_i e
      exact park_modest (((show Plain "cannot watch for signals (" by decide).append
        (text e rfl)).append (show Plain ")" by decide))

theorem takeCtrlAltDel_modest : Only Modest Texts takeCtrlAltDel fun _ => True := by
  simp only [takeCtrlAltDel, Sys.disableCtrlAltDel, Prog.bind_eq, Prog.pure_eq]
  refine Only.bind (check_modest (by trivial) fun _ => plainError_check) fun r text => ?_
  split
  · exact Only.ret trivial
  · rename_i e
    exact emit_modest (((show Plain "ctrl+alt+del stays with the kernel (" by decide).append
      (text e rfl)).append (show Plain "), it will reboot on the spot" by decide))

theorem banner_modest (failed : ℕ) : Only Modest Texts (banner failed) fun _ => True := by
  simp only [banner, Prog.bind_eq, Prog.pure_eq]
  refine Only.bind (toConsole_modest (by decide)) fun _ _ => ?_
  split
  · exact toConsole_modest (((show Plain "  " by decide).append (plain_number failed)).append
      (show Plain " filesystem(s) did not mount, look above for which\n\n" by decide))
  · exact Only.ret trivial

theorem bringUp_modest : Only Modest Texts bringUp fun _ => True := by
  simp only [bringUp, Mount.mountAll, Console.ensureNodes, Prog.bind_eq, Prog.pure_eq]
  refine Only.bind (mountEach_modest _ (by decide) 0) fun failed _ => ?_
  refine Only.bind keepEveryMessage_modest fun _ _ => ?_
  refine Only.bind (ensureEach_modest _ (by decide)) fun _ _ => ?_
  refine Only.bind openConsole_modest fun _ _ => ?_
  refine Only.bind watchSignals_modest fun signals _ => ?_
  refine Only.bind takeCtrlAltDel_modest fun _ _ => ?_
  exact Only.bind (banner_modest failed) fun _ _ => Only.ret trivial

theorem available_modest (candidates : List Spec) :
    Only Modest Texts (available candidates) fun usable => usable ⊆ candidates := by
  induction candidates with
  | nil => exact Only.ret (List.nil_subset _)
  | cons spec rest ih =>
      simp only [available, Prog.bind_eq, Prog.pure_eq]
      refine Only.bind (T := fun _ => True) (Only.perform trivial fun _ _ => trivial) fun there _ => ?_
      refine Only.bind ih fun usable fewer => Only.ret ?_
      split
      · exact List.cons_subset_cons spec fewer
      · exact List.subset_cons_of_subset spec fewer

theorem newRescue_modest : Only Modest Texts (newRescue CANDIDATES) fun _ => True := by
  simp only [newRescue, Prog.bind_eq]
  refine Only.bind (available_modest CANDIDATES) fun usable fewer => ?_
  split
  · rename_i rescue is
    refine Only.perform ?_ fun _ _ => trivial
    rw [Rescue.over_fresh is]
    exact fewer
  · exact park_modest (by decide)

end Modest

end Zevory
