import Zevory.Protocol

/-!
# What logging and coming up stay inside

Every function of `log.rs` makes calls of the log only, and none of them offers
Ctrl+Alt+Del on the console; the functions of `mount.rs` and `console.rs` add
the calls of the bring-up.  Nothing here panics, whatever the results, as long
as they are `Given`.
-/

namespace Zevory

open Interaction

/-- The results that pid 1 is given as long as the cached descriptor is not the console's. -/
def Given : (c : calls.Op) → calls.Res c → Prop
  | .mem .kmsgLoad, fd => fd ≠ STDOUT_FILENO
  | c, r => Promised c r

/-- A call of the log, which may offer Ctrl+Alt+Del only under the condition `offering`. -/
def LogCall (offering : Prop) (c : Call) : Prop :=
  c.isLog ∧ (c.offers → offering) ∧ c ≠ .mem (.kmsgStore STDOUT_FILENO)

/-- A call of the log that offers nothing, or another call of the bring-up that sets up no rescue
machine. -/
def EarlyCall (c : Call) : Prop :=
  LogCall False c ∨ c.isBringUp ∧ ∀ r, c ≠ .mem (.rescueNew r)

theorem LogCall.weaken {offering offering' : Prop} (h : offering → offering') {c : Call}
    (log : LogCall offering c) : LogCall offering' c :=
  ⟨log.1, h ∘ log.2.1, log.2.2⟩

/-! ## Texts that offer nothing -/

/-- A text that ends in `b` does not end in the offer when neither `b` nor the offer is a suffix of
the other. -/
theorem not_offer_of_tail {a b : String}
    (tail : ¬ (offerLine <:+ asBytes b ∨ asBytes b <:+ offerLine)) :
    ¬ offerLine <:+ asBytes (a ++ b) := by
  rw [asBytes_append]
  intro offer
  exact tail (List.suffix_or_suffix_of_suffix offer (List.suffix_append _ _))

/-! ## `log.rs` -/

section Log

variable {offering : Prop}

/-- One round of `write_fd` stays in range: the write before took no more than it was given. -/
theorem writeRound_only {fd : Int} {bytes : List UInt8} {done : ℕ}
    (silent : fd = STDOUT_FILENO → offerLine <:+ bytes → offering) (le : done ≤ bytes.length) :
    Only (LogCall offering) Given (Sys.writeRound fd bytes done)
      (Sum.elim (fun done => done ≤ bytes.length) fun _ => True) := by
  simp only [Sys.writeRound, if_pos le, Prog.bind_eq, Prog.pure_eq]
  split
  · refine Only.bind (T := fun n : Ret => n.rc ≤ (bytes.drop done).length)
      (Only.perform ⟨rfl, ?_, nofun⟩ fun n given => given) fun n written => ?_
    · rintro ⟨console, offer⟩
      exact silent console (offer.trans (List.drop_suffix done bytes))
    · split
      · exact Only.ret trivial
      · refine Only.ret (show done + n.rc.toNat ≤ bytes.length from ?_)
        rw [List.length_drop] at written
        omega
  · exact Only.ret trivial

theorem writeFd_only {fd : Int} {bytes : List UInt8}
    (silent : fd = STDOUT_FILENO → offerLine <:+ bytes → offering) :
    Only (LogCall offering) Given (Sys.writeFd fd bytes) fun _ => True :=
  Only.iterate (fun done => done ≤ bytes.length) (Nat.zero_le _) fun _ le =>
    writeRound_only silent le

theorem openAppend_only {path : String} :
    Only (LogCall offering) Given (Sys.openAppend path) fun fd? =>
      ∀ fd, fd? = .ok fd → fd ≠ STDOUT_FILENO := by
  simp only [Sys.openAppend, Prog.bind_eq, Prog.pure_eq]
  split
  · exact Only.ret nofun
  · refine Only.bind (T := fun r => r.rc < 0 ∨ STDERR_FILENO < r.rc)
      (Only.perform ⟨rfl, nofun, nofun⟩ fun r given => given) fun r high => Only.ret ?_
    intro fd opened
    unfold Sys.checkFd at opened
    split at opened
    · cases opened
    · cases opened
      simp only [STDERR_FILENO, STDOUT_FILENO] at high ⊢
      omega

theorem kmsg_only : Only (LogCall offering) Given Log.kmsg fun fd => fd ≠ STDOUT_FILENO := by
  simp only [Log.kmsg, Prog.bind_eq, Prog.pure_eq]
  refine Only.bind (T := fun fd => fd ≠ STDOUT_FILENO)
    (Only.perform ⟨rfl, nofun, nofun⟩ fun _ given => given) fun known notConsole => ?_
  split
  · exact Only.ret notConsole
  · refine Only.bind openAppend_only fun fd? high => ?_
    split
    · exact Only.ret (by decide)
    · refine Only.bind (T := fun _ => True) (Only.perform ⟨rfl, nofun, ?_⟩ fun _ _ => trivial)
        fun _ _ => Only.ret (high _ rfl)
      rintro ⟨⟩
      exact high _ rfl rfl

theorem emit_only {level : Log.Level} {msg : String} :
    Only (LogCall offering) Given (Log.emit level msg) fun _ => True := by
  simp only [Log.emit, Log.writeToKmsg, Prog.bind_eq, Prog.pure_eq]
  refine Only.bind (T := fun _ => True) (Only.bind kmsg_only fun fd notConsole => ?_)
    fun sent _ => ?_
  · split
    · exact Only.ret trivial
    · exact writeFd_only fun console => absurd console notConsole
  · split
    · exact Only.ret trivial
    · exact Only.bind (writeFd_only nofun) fun _ _ => Only.ret trivial

theorem error_only {msg : String} :
    Only (LogCall offering) Given (Log.error msg) fun _ => True := emit_only

theorem warn_only {msg : String} :
    Only (LogCall offering) Given (Log.warn msg) fun _ => True := emit_only

theorem info_only {msg : String} :
    Only (LogCall offering) Given (Log.info msg) fun _ => True := emit_only

theorem toConsole_only {msg : String} (silent : offerLine <:+ asBytes msg → offering) :
    Only (LogCall offering) Given (Log.toConsole msg) fun _ => True := by
  simp only [Log.toConsole, Prog.bind_eq, Prog.pure_eq]
  exact Only.bind (writeFd_only fun _ => silent) fun _ _ => Only.ret trivial

theorem parkText_only {why : String} {enabled : Bool} (offered : enabled = true → offering) :
    Only (LogCall offering) Given (Log.toConsole (parkText why enabled)) fun _ => True := by
  refine toConsole_only fun offer => ?_
  cases enabled with
  | true => exact offered rfl
  | false =>
      rw [parkText, String.append_assoc] at offer
      exact absurd offer (not_offer_of_tail (by decide))

theorem logDeparted_only {gone : Departed} :
    Only (LogCall offering) Given (Signal.logDeparted gone) fun _ => True := by
  unfold Signal.logDeparted
  split
  · exact info_only
  · exact warn_only
  · exact Only.ret trivial

end Log

/-! ## `mount.rs`, `console.rs` and the start of `main.rs` -/

section Early

theorem early_of_log {α : Type} {p : Pid1 α} {Q : α → Prop}
    (h : Only (LogCall False) Given p Q) : Only EarlyCall Given p Q :=
  h.subset fun _ log => .inl log

/-- One system call of the bring-up. -/
theorem sys_early {s : Syscall} (early : (Call.sys s).isBringUp) :
    Only EarlyCall Given (sys s) fun _ => True :=
  Only.perform (.inr ⟨early, nofun⟩) fun _ _ => trivial

theorem mountOne_early (v : Mount.Vfs) :
    Only EarlyCall Given (Mount.mountOne v) fun _ => True := by
  simp only [Mount.mountOne, Sys.mount, Prog.bind_eq, Prog.pure_eq]
  refine Only.bind (sys_early rfl) fun r _ => ?_
  split
  · exact Only.ret trivial
  · refine Only.bind (T := fun _ => True) ?_ fun r _ => ?_
    · split
      · exact Only.ret trivial
      · exact Only.bind (sys_early rfl) fun _ _ => Only.ret trivial
    · split
      · exact Only.ret trivial
      · split <;> exact Only.ret trivial

theorem mountEach_early (table : List Mount.Vfs) (failed : ℕ) :
    Only EarlyCall Given (Mount.mountEach failed table) fun _ => True := by
  induction table generalizing failed with
  | nil => exact Only.ret trivial
  | cons v rest ih =>
      simp only [Mount.mountEach, Prog.bind_eq]
      refine Only.bind (mountOne_early v) fun r _ => ?_
      split
      · exact ih failed
      · exact Only.bind (early_of_log warn_only) fun _ _ => ih (failed + 1)

theorem keepEveryMessage_early : Only EarlyCall Given Log.keepEveryMessage fun _ => True := by
  simp only [Log.keepEveryMessage, Prog.bind_eq, Prog.pure_eq]
  refine Only.bind (sys_early rfl) fun r _ => ?_
  split
  · exact Only.ret trivial
  · exact early_of_log warn_only

theorem ensureEach_early (nodes : List Console.Node) :
    Only EarlyCall Given (Console.ensureEach nodes) fun _ => True := by
  induction nodes with
  | nil => exact Only.ret trivial
  | cons n rest ih =>
      simp only [Console.ensureEach, Sys.mknodChar, Prog.bind_eq, Prog.pure_eq]
      refine Only.bind (sys_early rfl) fun there _ => ?_
      split
      · exact ih
      · refine Only.bind (T := fun _ => True) ?_ fun r _ => ?_
        · split
          · exact Only.ret trivial
          · exact Only.bind (sys_early rfl) fun _ _ => Only.ret trivial
        · split
          · exact ih
          · exact Only.bind (early_of_log warn_only) fun _ _ => ih

theorem dup2Over_early (fd : Int) (targets : List Int) :
    Only EarlyCall Given (Sys.dup2Over fd targets) fun _ => True := by
  induction targets with
  | nil => exact Only.ret trivial
  | cons target rest ih =>
      simp only [Sys.dup2Over, Prog.bind_eq, Prog.pure_eq]
      refine Only.bind (sys_early rfl) fun r _ => ?_
      split
      · exact Only.ret trivial
      · exact ih

theorem attachStdio_early : Only EarlyCall Given Console.attachStdio fun _ => True := by
  simp only [Console.attachStdio, Sys.openRw, Sys.dup2Stdio, Prog.bind_eq, Prog.pure_eq]
  refine Only.bind (T := fun _ => True) ?_ fun fd? _ => ?_
  · split
    · exact Only.ret trivial
    · exact Only.bind (T := fun _ => True)
        (Only.perform (.inl ⟨rfl, nofun, nofun⟩) fun _ _ => trivial)
        fun _ _ => Only.ret trivial
  · split
    · exact Only.ret trivial
    · refine Only.bind (dup2Over_early _ _) fun r _ => ?_
      split
      · exact Only.ret trivial
      · split
        · exact Only.bind (sys_early rfl) fun _ _ => Only.ret trivial
        · exact Only.ret trivial

theorem openConsole_early : Only EarlyCall Given openConsole fun _ => True := by
  simp only [openConsole, Console.takeCtty, Sys.takeCtty, Sys.newSession, Sys.setCtty,
    Prog.bind_eq, Prog.pure_eq]
  refine Only.bind attachStdio_early fun r _ => ?_
  split
  · refine Only.bind (T := fun _ => True) ?_ fun r _ => ?_
    · exact Only.bind (T := fun _ => True)
        (Only.bind (sys_early rfl) fun _ _ => Only.ret trivial)
        fun _ _ => Only.bind (sys_early rfl) fun _ _ => Only.ret trivial
    · split
      · exact Only.ret trivial
      · exact early_of_log warn_only
  · exact early_of_log error_only

theorem install_early (signals : List Int) :
    Only EarlyCall Given (Signal.install signals) fun _ => True := by
  simp only [Signal.install, Sys.blockSignals, Sys.signalFd, Prog.bind_eq, Prog.pure_eq]
  refine Only.bind (T := fun _ => True)
    (Only.bind (sys_early rfl) fun _ _ => Only.ret trivial) fun r _ => ?_
  split
  · exact Only.ret trivial
  · exact Only.bind (T := fun _ => True)
      (Only.bind (sys_early rfl) fun _ _ => Only.ret trivial) fun _ _ => Only.ret trivial

theorem takeCtrlAltDel_early : Only EarlyCall Given takeCtrlAltDel fun _ => True := by
  simp only [takeCtrlAltDel, Sys.disableCtrlAltDel, Prog.bind_eq, Prog.pure_eq]
  refine Only.bind (T := fun _ => True)
    (Only.bind (sys_early rfl) fun _ _ => Only.ret trivial) fun r _ => ?_
  split
  · exact Only.ret trivial
  · exact early_of_log warn_only

theorem banner_early (failed : ℕ) : Only EarlyCall Given (banner failed) fun _ => True := by
  simp only [banner, Prog.bind_eq, Prog.pure_eq]
  refine Only.bind (early_of_log (toConsole_only (by decide))) fun _ _ => ?_
  split
  · exact early_of_log (toConsole_only fun offer => not_offer_of_tail (by decide) offer)
  · exact Only.ret trivial

theorem available_early (candidates : List Spec) :
    Only EarlyCall Given (available candidates) fun _ => True := by
  induction candidates with
  | nil => exact Only.ret trivial
  | cons spec rest ih =>
      simp only [available, Prog.bind_eq, Prog.pure_eq]
      exact Only.bind (sys_early rfl) fun _ _ => Only.bind ih fun _ _ => Only.ret trivial

end Early

end Zevory
