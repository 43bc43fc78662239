import Zevory.Interaction.Past
import Zevory.Mounts

/-!
# The texts of pid 1 and their grounds

Everything that pid 1 writes is a remark, for the log or for standard error, or a notice, for the
console.  `Remark` and `Notice` list the texts, each with the calls and results that must be in
the past before it may be written: which call has failed, what `waitpid` has handed over, what was
read off the signalfd.  What `log.rs` and the functions up to the first shell write is such a text.
-/

namespace Zevory

open Interaction Signal Power Log

/-- The call `c` was made and returned `r`. -/
def Happened (h : Past calls) (c : Call) (r : c.Res) : Prop := (⟨c, r⟩ : Did calls) ∈ h

theorem Happened.later {h h' : Past calls} {c : Call} {r : c.Res} (happened : Happened h c r)
    (since : h <:+ h') : Happened h' c r :=
  since.subset happened

/-! ## Grounds -/

/-- Entry `v` of the mount table has failed with this error: its target could not be created, or
`mount` refused it with anything but `EBUSY`. -/
inductive NotMounted (h : Past calls) (v : Mount.Vfs) : IoError → Prop
  | noTarget {e : IoError} : Happened h (.sys (.createDirAll v.target)) (.error e) → NotMounted h v e
  | refused {r : Ret} {e : IoError} : Happened h (.sys (.mount v.opts)) r → Sys.check r = .error e →
      e.rawOsError ≠ some EBUSY → NotMounted h v e

/-- `mount` has taken entry `v` of the mount table, or has refused it with `EBUSY` because it is
mounted already. -/
def IsMounted (h : Past calls) (v : Mount.Vfs) : Prop :=
  ∃ r, Happened h (.sys (.mount v.opts)) r ∧
    (Sys.check r = .ok () ∨ ∃ e, Sys.check r = .error e ∧ e.rawOsError = some EBUSY)

/-- Of the entries `vs` of the mount table as many as `failed` have failed, and all others are
mounted. -/
def Tally (h : Past calls) (vs : List Mount.Vfs) (failed : ℕ) : Prop :=
  ∃ bad : List Mount.Vfs, bad.Sublist vs ∧ bad.length = failed ∧ (∀ v ∈ bad, ∃ e, NotMounted h v e) ∧
    ∀ v ∈ vs, v ∉ bad → IsMounted h v

/-- `install` has failed with this error: the watched signals could not be blocked, or there is no
signalfd for them. -/
inductive Unwatched (h : Past calls) : IoError → Prop
  | notBlocked {r : Ret} {e : IoError} :
      Happened h (.sys (.sigprocmask .block (some WATCHED))) r → Sys.check r = .error e →
      Unwatched h e
  | noFd {r : Ret} {e : IoError} : Happened h (.sys (.signalfd (-1) WATCHED SFD_CLOEXEC)) r →
      Sys.checkFd r = .error e → Unwatched h e

/-- `Signals::wait` has failed with this error: its `poll`, or its `read`, or the `read` was
short. -/
inductive Lost (h : Past calls) : IoError → Prop
  | polling {fd millis : Int} {r : Ret} : Happened h (.sys (.poll fd millis)) r → r.rc = -1 →
      Lost h (Sys.lastOsError r)
  | reading {fd : Int} {r : Ret × Int} : Happened h (.sys (.read fd)) r → r.1.rc < 0 →
      Lost h (Sys.lastOsError r.1)
  | short {fd : Int} {r : Ret × Int} : Happened h (.sys (.read fd)) r → r.1.rc ≠ Sys.SIGINFO_SIZE →
      Lost h (.unexpectedEof "short read from signalfd")

/-- A whole record was read off a signalfd, and `signal` was in it. -/
def Arrived (h : Past calls) (signal : Int) : Prop :=
  ∃ fd r, Happened h (.sys (.read fd)) r ∧ r.1.rc = Sys.SIGINFO_SIZE ∧ r.2 = signal

/-- A signal that asks for the shutdown action was read off the signalfd. -/
def Requested (h : Past calls) (action : Action) : Prop :=
  ∃ signal, Arrived h signal ∧ classify signal = .shutdown action

/-- `waitpid` has handed over the child `pid` with its status. -/
def HandedOver (h : Past calls) (pid : Int) (status : Status) : Prop :=
  ∃ r, Happened h (.sys .waitpid) r ∧ Sys.reapedOf r = .child pid status

/-- The table has recorded the exit of a child whose time, taken in whole seconds, was below
`RESPAWN_IS_TOO_FAST`. -/
def DiedAtOnce (h : Past calls) : Prop :=
  ∃ pid status gone, HandedOver h pid status ∧
    Happened h (.mem (.recordExit pid status)) (some gone) ∧ gone.ranFor < RESPAWN_IS_TOO_FAST

/-- `signal` was sent to everyone, after that the clock was read twice, and the second reading is
`secs` or more above the first; both are whole seconds, so less than `secs` seconds may lie
between them.  In between a `waitpid` came back without a child and without `ECHILD`: it found
children that still run, or it failed in another way. -/
def Outlasted (h : Past calls) (signal : Int) (secs : ℕ) : Prop :=
  ∃ (sent : Ret) (r : Ret × Status) (since now : ℕ),
    Sys.reapedOf r = .stillRunning ∧ since + secs ≤ now ∧
    List.Sublist [(⟨.sys .clockGettime, now⟩ : Did calls), ⟨.sys .waitpid, r⟩,
      ⟨.sys .clockGettime, since⟩, ⟨.sys (.kill (-1) signal), sent⟩] h

/-- The reasons pid 1 may give when it parks, each with the calls it rests on. -/
inductive Hopeless (candidates : List Spec) (h : Past calls) : String → Prop
  | unwatched {e : IoError} : Unwatched h e →
      Hopeless candidates h s!"cannot watch for signals ({e})"
  | noShell : (∀ spec ∈ candidates, Happened h (.sys (.pathExists spec.path)) false) →
      Hopeless candidates h "no shell in the initramfs"
  | noFork {r : Ret} {shell : Spec} : Happened h (.sys .fork) r → r.rc = -1 →
      Happened h (.mem .rescueShell) (some shell) →
      Hopeless candidates h s!"cannot start {shell.path} ({Sys.lastOsError r})"
  | lost {e : IoError} : Lost h e → e.isInterrupted = false →
      Hopeless candidates h s!"lost the signal stream ({e})"
  | outOfOptions {dying : Spec} : Happened h (.mem .rescueShell) (some dying) →
      Happened h (.mem .failed) (some .outOfOptions) → DiedAtOnce h →
      Hopeless candidates h
        s!"every shell we know about dies on startup, {dying.path} was the last one"
  | refused {action : Action} {r : Ret} : Requested h action →
      Happened h (.sys (.reboot action.kernelCommand)) r →
      Hopeless candidates h s!"the kernel refused to {action.name} ({Sys.lastOsError r})"

section Later

variable {candidates : List Spec} {h h' : Past calls}

theorem NotMounted.later {v : Mount.Vfs} {e : IoError} (failed : NotMounted h v e)
    (since : h <:+ h') : NotMounted h' v e := by
  cases failed with
  | noTarget made => exact .noTarget (made.later since)
  | refused made failed other => exact .refused (made.later since) failed other

theorem IsMounted.later {v : Mount.Vfs} (mounted : IsMounted h v) (since : h <:+ h') :
    IsMounted h' v := by
  obtain ⟨r, made, fine⟩ := mounted
  exact ⟨r, made.later since, fine⟩

theorem Tally.later {vs : List Mount.Vfs} {failed : ℕ} (tally : Tally h vs failed)
    (since : h <:+ h') : Tally h' vs failed := by
  obtain ⟨bad, few, length, failing, mounted⟩ := tally
  refine ⟨bad, few, length, fun v member => ?_, fun v member fine => ?_⟩
  · obtain ⟨e, failed⟩ := failing v member
    exact ⟨e, failed.later since⟩
  · exact (mounted v member fine).later since

theorem Unwatched.later {e : IoError} (unwatched : Unwatched h e) (since : h <:+ h') :
    Unwatched h' e := by
  cases unwatched with
  | notBlocked made failed => exact .notBlocked (made.later since) failed
  | noFd made failed => exact .noFd (made.later since) failed

theorem Lost.later {e : IoError} (lost : Lost h e) (since : h <:+ h') : Lost h' e := by
  cases lost with
  | polling made failed => exact .polling (made.later since) failed
  | reading made failed => exact .reading (made.later since) failed
  | short made failed => exact .short (made.later since) failed

theorem Arrived.later {signal : Int} (arrived : Arrived h signal) (since : h <:+ h') :
    Arrived h' signal := by
  obtain ⟨fd, r, made, whole⟩ := arrived
  exact ⟨fd, r, made.later since, whole⟩

theorem Requested.later {action : Action} (requested : Requested h action) (since : h <:+ h') :
    Requested h' action := by
  obtain ⟨signal, arrived, asks⟩ := requested
  exact ⟨signal, arrived.later since, asks⟩

theorem HandedOver.later {pid : Int} {status : Status} (handed : HandedOver h pid status)
    (since : h <:+ h') : HandedOver h' pid status := by
  obtain ⟨r, made, reaped⟩ := handed
  exact ⟨r, made.later since, reaped⟩

theorem DiedAtOnce.later (died : DiedAtOnce h) (since : h <:+ h') : DiedAtOnce h' := by
  obtain ⟨pid, status, gone, handed, made, quick⟩ := died
  exact ⟨pid, status, gone, handed.later since, made.later since, quick⟩

theorem Outlasted.later {signal : Int} {secs : ℕ} (outlasted : Outlasted h signal secs)
    (since : h <:+ h') : Outlasted h' signal secs := by
  obtain ⟨sent, r, start, now, still, passed, order⟩ := outlasted
  exact ⟨sent, r, start, now, still, passed, order.trans since.sublist⟩

theorem Hopeless.later {why : String} (hopeless : Hopeless candidates h why) (since : h <:+ h') :
    Hopeless candidates h' why := by
  cases hopeless with
  | unwatched unwatched => exact .unwatched (unwatched.later since)
  | noShell looked => exact .noShell fun spec member => (looked spec member).later since
  | noFork made failed shell => exact .noFork (made.later since) failed (shell.later since)
  | lost lost real => exact .lost (lost.later since) real
  | outOfOptions dying verdict died =>
      exact .outOfOptions (dying.later since) (verdict.later since) (died.later since)
  | refused requested made => exact .refused (requested.later since) (made.later since)

end Later

/-! ## Writing it -/

section Writing

variable {candidates : List Spec} {h : Past calls}

end Writing

/-! ## Up to the first shell -/

section BringUp

variable {candidates : List Spec} {h : Past calls}

/-- What the result of mounting an entry says about the calls made. -/
def Attempted (h : Past calls) (v : Mount.Vfs) : Except IoError Unit → Prop
  | .ok () => IsMounted h v
  | .error e => NotMounted h v e

end BringUp

end Zevory
