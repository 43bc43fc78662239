import Zevory.Holdings
import Zevory.Script

/-!
# The descriptors

The table of open descriptors of pid 1 under the rules of the kernel: `open` and `signalfd`
return the lowest free number, `dup2` replaces its target and clears close-on-exec, and any of
them may fail.  The table agrees with the record of `Holdings.lean` in every state, and so what
pid 1 holds, and what the shells inherit, is read off the record.
-/

namespace Zevory

open Interaction

/-! ## The kernel -/

/-- What a descriptor refers to. `given` is what the runtime sees to at 0, 1 and 2 before `main`. -/
inductive OpenFile
  | given
  | file (path : String)
  | signals
  deriving DecidableEq, Repr

structure Descriptor where
  file : OpenFile
  cloexec : Bool
  deriving DecidableEq, Repr

/-- The table of open descriptors, among which are always 0, 1 and 2. -/
structure Descriptors where
  held : Int → Option Descriptor
  nonneg : ∀ n, held n ≠ none → 0 ≤ n
  stdio : ∀ n, 0 ≤ n → n ≤ STDERR_FILENO → held n ≠ none

namespace Descriptors

variable {k k' : Descriptors} {d : Descriptor} {r : Ret} {n : Int}

def lowestFree (k : Descriptors) (n : Int) : Prop :=
  0 ≤ n ∧ k.held n = none ∧ ∀ m < n.toNat, k.held m ≠ none

instance (k : Descriptors) (n : Int) : Decidable (k.lowestFree n) :=
  inferInstanceAs (Decidable (_ ∧ _ ∧ _))

/-- How a call that opens a descriptor is answered: it fails, or the descriptor is the lowest free
number. -/
def opens (k : Descriptors) (d : Descriptor) (r : Ret) (k' : Descriptors) : Prop :=
  r.rc = -1 ∧ k' = k ∨
    k.lowestFree r.rc ∧ k'.held = Function.update k.held r.rc (some d)

/-- How `dup2` is answered: it fails, or the target becomes what `fd` is, without close-on-exec. -/
def dup2 (k : Descriptors) (fd target : Int) (r : Ret) (k' : Descriptors) : Prop :=
  r.rc = -1 ∧ k' = k ∨
    r.rc = target ∧ ∃ d, k.held fd = some d ∧
      k'.held = if fd = target then k.held
        else Function.update k.held target (some ⟨d.file, false⟩)

/-- How `close` is answered: what is not open stays closed, and what is open is closed whatever the
result says. -/
def close (k : Descriptors) (fd : Int) (r : Ret) (k' : Descriptors) : Prop :=
  k.held fd = none ∧ r.rc = -1 ∧ k' = k ∨
    k.held fd ≠ none ∧ k'.held = Function.update k.held fd none

def answer (k : Descriptors) : (s : Syscall) → s.Res → Descriptors → Prop
  | .openPath path flags, r, k' => k.opens ⟨.file path, flags &&& O_CLOEXEC != 0⟩ r k'
  | .signalfd _ _ flags, r, k' => k.opens ⟨.signals, flags &&& SFD_CLOEXEC != 0⟩ r k'
  | .dup2 fd target, r, k' => k.dup2 fd target r k'
  | .close fd, r, k' => k.close fd r k'
  | s, r, k' => Promised (.sys s) r ∧ k' = k

/-- A free number lies above the standard descriptors. -/
theorem high_of_free (free : k.lowestFree n) : STDERR_FILENO < n := by
  by_contra low
  exact k.stdio n free.1 (by omega) free.2.1

theorem opens_cases (opens : k.opens d r k') :
    r.rc < 0 ∧ k' = k ∨
      ¬ r.rc < 0 ∧ STDERR_FILENO < r.rc ∧ k.held r.rc = none ∧
        k'.held = Function.update k.held r.rc (some d) := by
  rcases opens with ⟨failed, same⟩ | ⟨free, held⟩
  · exact .inl ⟨by omega, same⟩
  · have high := high_of_free free
    have nonneg := free.1
    exact .inr ⟨by omega, high, free.2.1, held⟩

end Descriptors

/-- The kernel that keeps the table of open descriptors of pid 1. -/
def descriptors : Kernel Descriptors where
  others _ _ := False
  answer := Descriptors.answer
  reads _ _ := True
  time _ := 0
  promised {k s r k'} h := by
    cases s with
    | openPath path flags =>
        rcases Descriptors.opens_cases h with ⟨failed, -⟩ | ⟨-, high, -⟩
        · exact .inl failed
        · exact .inr high
    | signalfd | dup2 | close => trivial
    | _ => exact h.1

/-! ## The table agrees with the record -/

namespace Holdings

/-- The record lists the descriptor, as that of `/dev/kmsg`, of the console or as the signalfd. -/
def lists (b : Holdings) (n : Int) : Prop :=
  b.kmsg.fd = some n ∨ b.stage.console = some n ∨ b.stage.signals = some n

/-- What the record says a number above the standard descriptors refers to. -/
def entry (b : Holdings) (n : Int) : Option Descriptor :=
  if b.kmsg.fd = some n then some ⟨.file "/dev/kmsg", true⟩
  else if b.stage.console = some n then some ⟨.file "/dev/console", false⟩
  else if b.stage.signals = some n then some ⟨.signals, true⟩
  else none

variable {b : Holdings} {n : Int}

theorem entry_eq_none : b.entry n = none ↔ ¬ b.lists n := by
  unfold entry lists
  split
  · simp [*]
  · split
    · simp [*]
    · split <;> simp [*]

theorem entry_opened (empty : b.kmsg = .empty) :
    Holdings.entry { b with kmsg := .opened n } =
      Function.update b.entry n (some ⟨.file "/dev/kmsg", true⟩) := by
  funext m
  rw [Function.update_apply, entry, entry, empty]
  by_cases same : m = n
  · simp [Cache.fd, same]
  · simp [Cache.fd, same, Ne.symm same]

theorem entry_console (unlisted : ¬ b.lists n) (vacant : b.stage.console = none) :
    Holdings.entry { b with stage.console := some n } =
      Function.update b.entry n (some ⟨.file "/dev/console", false⟩) := by
  funext m
  rw [Function.update_apply, entry, entry, vacant]
  by_cases same : m = n
  · have apart : b.kmsg.fd ≠ some n := fun lists => unlisted (.inl lists)
    simp [same, apart]
  · simp [same, Ne.symm same]

theorem entry_signals (unlisted : ¬ b.lists n) (vacant : b.stage.signals = none) :
    Holdings.entry { b with stage.signals := some n } =
      Function.update b.entry n (some ⟨.signals, true⟩) := by
  funext m
  rw [Function.update_apply, entry, entry, vacant]
  by_cases same : m = n
  · have apart : b.kmsg.fd ≠ some n := fun lists => unlisted (.inl lists)
    have apart' : b.stage.console ≠ some n := fun lists => unlisted (.inr (.inl lists))
    simp [same, apart, apart']
  · simp [same, Ne.symm same]

theorem entry_closed (apart : b.kmsg.fd ≠ some n) (stage : b.stage = .moving n) :
    Holdings.entry { b with stage.attached := true, stage.console := none } =
      Function.update b.entry n none := by
  funext m
  rw [Function.update_apply, entry, entry, stage]
  by_cases same : m = n
  · simp [Stage.moving, same, apart]
  · simp [Stage.moving, same, Ne.symm same]

end Holdings

/-- The table of descriptors and the memory of pid 1 are as the record says. -/
structure Accords (b : Holdings) (k : Descriptors) (known : Int) : Prop where
  known : known = b.kmsg.known
  held : ∀ n, STDERR_FILENO < n → k.held n = b.entry n
  high : ∀ n, b.lists n → STDERR_FILENO < n
  apart : ∀ n, b.stage.console = some n → b.kmsg.fd ≠ some n
  late : b.stage.attached → b.stage.console.isSome = b.stage.failed

namespace Accords

variable {b : Holdings} {k k' : Descriptors} {known : Int} {r : Ret}

theorem unlisted (agree : Accords b k known) {n : Int} (high : STDERR_FILENO < n)
    (free : k.held n = none) : ¬ b.lists n := by
  rw [agree.held n high] at free
  exact Holdings.entry_eq_none.mp free

theorem updated (agree : Accords b k known) {b' : Holdings} {m : Int} {d? : Option Descriptor}
    (held : k'.held = Function.update k.held m d?) (entry : b'.entry = Function.update b.entry m d?)
    (n : Int) (above : STDERR_FILENO < n) : k'.held n = b'.entry n := by
  rw [held, entry, Function.update_apply, Function.update_apply, agree.held n above]

/-- The table is as the record says after `/dev/kmsg` was opened. -/
theorem opened (agree : Accords b k known) (empty : b.kmsg = .empty)
    (opens : k.opens ⟨.file "/dev/kmsg", true⟩ r k') :
    Accords (if r.rc < 0 then b else { b with kmsg := .opened r.rc }) k' known := by
  rcases Descriptors.opens_cases opens with ⟨failed, rfl⟩ | ⟨succeeded, high, free, held⟩
  · rw [if_pos failed]
    exact agree
  rw [if_neg succeeded]
  have unlisted := agree.unlisted high free
  refine ⟨?_, agree.updated held (Holdings.entry_opened empty), fun n lists => ?_,
    fun n console same => ?_, agree.late⟩
  · rw [agree.known, empty]
    rfl
  · rcases lists with new | old
    · cases new
      exact high
    · exact agree.high n (.inr old)
  · cases same
    exact unlisted (.inr (.inl console))

/-- The table is as the record says after that descriptor was stored. -/
theorem stored (agree : Accords b k known) {fd : Int} (opened : b.kmsg = .opened fd) :
    Accords { b with kmsg := .stored fd } k fd := by
  obtain ⟨kmsg, stage⟩ := b
  obtain rfl := opened
  exact ⟨rfl, agree.held, agree.high, agree.apart, agree.late⟩

/-- The table is as the record says after the console was opened. -/
theorem console (agree : Accords b k known) (start : b.stage = .start)
    (opens : k.opens ⟨.file "/dev/console", false⟩ r k') :
    Accords (if r.rc < 0 then { b with stage.attached := true }
      else { b with stage.console := some r.rc }) k' known := by
  have vacant : b.stage.console = none := by rw [start]; rfl
  rcases Descriptors.opens_cases opens with ⟨failed, rfl⟩ | ⟨succeeded, high, free, held⟩
  · rw [if_pos failed]
    refine ⟨agree.known, agree.held, agree.high, agree.apart, fun _ => ?_⟩
    rw [start]
    rfl
  rw [if_neg succeeded]
  have unlisted := agree.unlisted high free
  refine ⟨agree.known, agree.updated held (Holdings.entry_console unlisted vacant), fun n lists => ?_,
    fun n console same => ?_, fun late => ?_⟩
  · rcases lists with old | new | old
    · exact agree.high n (.inl old)
    · cases new
      exact high
    · exact agree.high n (.inr (.inr old))
  · cases console
    exact unlisted (.inl same)
  · rw [start] at late
    cases late

/-- The table is as the record says after the console was copied to a standard descriptor, or could
not be. -/
theorem moved (agree : Accords b k known) {fd target : Int} (stage : b.stage = .moving fd)
    (standard : 0 ≤ target ∧ target ≤ STDERR_FILENO) (moves : k.dup2 fd target r k') :
    Accords (if r.rc < 0 then { b with stage.attached := true, stage.failed := true } else b) k'
      known := by
  rcases moves with ⟨failed, rfl⟩ | ⟨succeeded, d, -, held⟩
  · rw [if_pos (by omega)]
    refine ⟨agree.known, agree.held, agree.high, agree.apart, fun _ => ?_⟩
    rw [stage]
    rfl
  · rw [if_neg (by omega)]
    refine ⟨agree.known, fun n above => ?_, agree.high, agree.apart, agree.late⟩
    rw [held, ← agree.held n above]
    split
    · rfl
    · exact Function.update_of_ne (by omega) _ _

/-- The table is as the record says after the console was closed. -/
theorem closed (agree : Accords b k known) {fd : Int} (stage : b.stage = .moving fd)
    (closes : k.close fd r k') :
    Accords { b with stage.attached := true, stage.console := none } k' known := by
  have console : b.stage.console = some fd := by rw [stage]; rfl
  have lists : b.lists fd := .inr (.inl console)
  have open_ : k.held fd ≠ none := by
    rw [agree.held fd (agree.high fd lists)]
    exact fun free => Holdings.entry_eq_none.mp free lists
  rcases closes with ⟨free, -, -⟩ | ⟨-, held⟩
  · exact absurd free open_
  refine ⟨agree.known, agree.updated held (Holdings.entry_closed (agree.apart fd console) stage),
    fun n lists => ?_, fun n console => ?_, fun _ => ?_⟩
  · rcases lists with old | impossible | old
    · exact agree.high n (.inl old)
    · cases impossible
    · exact agree.high n (.inr (.inr old))
  · cases console
  · rw [stage]
    rfl

/-- The table is as the record says after the signalfd was opened. -/
theorem signals (agree : Accords b k known) (vacant : b.stage.signals = none)
    (opens : k.opens ⟨.signals, true⟩ r k') :
    Accords (if r.rc < 0 then b else { b with stage.signals := some r.rc }) k' known := by
  rcases Descriptors.opens_cases opens with ⟨failed, rfl⟩ | ⟨succeeded, high, free, held⟩
  · rw [if_pos failed]
    exact agree
  rw [if_neg succeeded]
  have unlisted := agree.unlisted high free
  refine ⟨agree.known, agree.updated held (Holdings.entry_signals unlisted vacant), fun n lists => ?_,
    agree.apart, agree.late⟩
  rcases lists with old | old | new
  · exact agree.high n (.inl old)
  · exact agree.high n (.inr (.inl old))
  · cases new
    exact high

end Accords

/-! ## Every state -/

/-- The last call has opened `/dev/kmsg` at `fd`, which is about to be stored. -/
def justOpened (h : List Event) (fd : Int) : Prop :=
  ∃ flags r t rest, h = ⟨.sys (.openPath "/dev/kmsg" flags), r, t⟩ :: rest ∧ r.rc = fd

/-- The invariant of pid 1: the table is as the record says, and what was just opened is about to be
stored. -/
structure InHand (w : World Descriptors) : Prop where
  agree : Accords (holdings w.hist) w.kern w.mem.kmsg
  pending : ∀ fd, (holdings w.hist).kmsg = .opened fd → justOpened w.hist fd

variable {w w' : World Descriptors} {c : Call} {r : c.Res}

/-- A call that leaves the record as it is leaves the table and the cached descriptor as they are.
-/
theorem neutral_kern (neutral : c.isNeutral) (answer : descriptors.Answers w c r w') :
    w'.kern = w.kern ∧ w'.mem.kmsg = w.mem.kmsg := by
  cases answer with
  | @sys s _ _ answer =>
      refine ⟨?_, rfl⟩
      cases s with
      | openPath | signalfd | dup2 | close => cases neutral
      | _ => exact answer.2
  | mem => exact ⟨rfl, run_kmsg neutral _ _⟩

/-- The invariant when the record is settled, so that nothing is about to be stored. -/
theorem InHand.of_settled (agree : Accords (holdings w.hist) w.kern w.mem.kmsg)
    (settled : (holdings w.hist).kmsg.settled) : InHand w := by
  refine ⟨agree, fun fd opened => ?_⟩
  rw [opened] at settled
  cases settled

theorem InHand.neutral (inHand : InHand w) (neutral : c.isNeutral)
    (settled : (holdings w.hist).kmsg.settled) (answer : descriptors.Answers w c r w') :
    InHand w' := by
  obtain ⟨kern, memory⟩ := neutral_kern neutral answer
  have same : holdings w'.hist = holdings w.hist := by
    rw [answer.hist]
    exact Holdings.next_neutral neutral _ r
  apply InHand.of_settled
  · rw [same, kern, memory]
    exact inHand.agree
  · rw [same]
    exact settled

theorem InHand.opensKmsg {flags : ℕ} {r : Ret} {kern : Descriptors} {t : ℕ} (inHand : InHand w)
    (cloexec : flags &&& O_CLOEXEC ≠ 0) (empty : (holdings w.hist).kmsg = .empty)
    (opens : w.kern.opens ⟨.file "/dev/kmsg", flags &&& O_CLOEXEC != 0⟩ r kern) :
    InHand (w.called t (.openPath "/dev/kmsg" flags) r kern) := by
  have after : holdings (⟨.sys (.openPath "/dev/kmsg" flags), r, t⟩ :: w.hist) =
      if r.rc < 0 then holdings w.hist else { holdings w.hist with kmsg := .opened r.rc } := by
    rw [holdings, Holdings.next, if_neg (by decide)]
  rw [bne_iff_ne.mpr cloexec] at opens
  constructor
  · show Accords (holdings (_ :: w.hist)) kern w.mem.kmsg
    rw [after]
    exact inHand.agree.opened empty opens
  · intro fd opened
    change (holdings (_ :: w.hist)).kmsg = _ at opened
    rw [after] at opened
    split at opened
    · rw [empty] at opened
      cases opened
    · cases opened
      exact ⟨flags, r, t, w.hist, rfl, rfl⟩

theorem InHand.opensConsole {flags : ℕ} {r : Ret} {kern : Descriptors} {t : ℕ} (inHand : InHand w)
    (shared : flags &&& O_CLOEXEC = 0) (settled : (holdings w.hist).kmsg.settled)
    (stage : (holdings w.hist).stage = .start)
    (opens : w.kern.opens ⟨.file "/dev/console", flags &&& O_CLOEXEC != 0⟩ r kern) :
    InHand (w.called t (.openPath "/dev/console" flags) r kern) := by
  have after : holdings (⟨.sys (.openPath "/dev/console" flags), r, t⟩ :: w.hist) =
      if r.rc < 0 then { holdings w.hist with stage.attached := true }
      else { holdings w.hist with stage.console := some r.rc } := by
    rw [holdings, Holdings.next, if_pos rfl]
  rw [shared] at opens
  apply InHand.of_settled
  · show Accords (holdings (_ :: w.hist)) kern w.mem.kmsg
    rw [after]
    exact inHand.agree.console stage opens
  · show (holdings (_ :: w.hist)).kmsg.settled
    rw [after]
    split <;> exact settled

/-- Every call that the record allows keeps the invariant. -/
theorem InHand.kept (inHand : InHand w) (allowed : Allowed c w)
    (answer : descriptors.Answers w c r w') : InHand w' := by
  have agree := inHand.agree
  cases c with
  | mem o =>
      cases o with
      | kmsgStore fd =>
          cases answer with
          | mem => exact .of_settled (agree.stored allowed) rfl
      | _ => exact inHand.neutral rfl allowed.1 answer
  | sys s =>
      cases s with
      | openPath path flags =>
          cases answer with
          | sys answer =>
              rcases allowed with ⟨rfl, cloexec, empty⟩ | ⟨rfl, shared, settled, stage⟩
              · exact inHand.opensKmsg cloexec empty answer
              · exact inHand.opensConsole shared settled stage answer
      | dup2 fd target =>
          obtain ⟨settled, stage, standard⟩ := allowed
          cases answer with
          | sys answer =>
              refine .of_settled (agree.moved stage standard answer) ?_
              show (Holdings.next (holdings w.hist) (.sys (.dup2 fd target)) r).kmsg.settled
              rw [Holdings.next]
              split <;> exact settled
      | close fd =>
          obtain ⟨settled, stage⟩ := allowed
          cases answer with
          | sys answer => exact .of_settled (agree.closed stage answer) settled
      | signalfd fd signals flags =>
          obtain ⟨settled, rfl, cloexec, vacant, -⟩ := allowed
          cases answer with
          | sys answer =>
              change w.kern.opens ⟨.signals, flags &&& SFD_CLOEXEC != 0⟩ r _ at answer
              rw [bne_iff_ne.mpr cloexec] at answer
              refine .of_settled (agree.signals vacant answer) ?_
              show (Holdings.next (holdings w.hist) (.sys (.signalfd (-1) signals flags)) r).kmsg.settled
              rw [Holdings.next]
              split <;> exact settled
      | _ => exact inHand.neutral rfl allowed.1 answer

/-! ## Leaks -/

namespace Event

/-- The last call of `attach_stdio`: the console cannot be opened, or a `dup2` fails, or the console
is closed again. -/
def endsAttach : Event → Bool
  | ⟨.sys (.openPath path _), r, _⟩ => path == "/dev/console" && r.rc < 0
  | ⟨.sys (.dup2 _ _), r, _⟩ => r.rc < 0
  | ⟨.sys (.close _), _, _⟩ => true
  | _ => false

def failsDup2 : Event → Bool
  | ⟨.sys (.dup2 _ _), r, _⟩ => r.rc < 0
  | _ => false

end Event

/-- `attach_stdio` has returned. -/
def attachReturned (h : List Event) : Bool := h.any Event.endsAttach

/-- Some `dup2` has failed. -/
def dup2Failed (h : List Event) : Bool := h.any Event.failsDup2

theorem holdings_ends (h : List Event) :
    (holdings h).stage.attached = attachReturned h ∧ (holdings h).stage.failed = dup2Failed h := by
  induction h with
  | nil => exact ⟨rfl, rfl⟩
  | cons e h ih =>
      obtain ⟨attached, failed⟩ := ih
      obtain ⟨c, r, t⟩ := e
      rw [attachReturned, dup2Failed, List.any_cons, List.any_cons, ← attachReturned, ← dup2Failed,
        ← attached, ← failed, holdings]
      cases c with
      | mem o => cases o <;> exact ⟨rfl, rfl⟩
      | sys s =>
          cases s with
          | openPath path flags =>
              by_cases console : path = "/dev/console"
              · by_cases fails : r.rc < 0
                · simp [Holdings.next, Event.endsAttach, Event.failsDup2, console, fails]
                · simp [Holdings.next, Event.endsAttach, Event.failsDup2, console, fails]
              · by_cases fails : r.rc < 0
                · simp [Holdings.next, Event.endsAttach, Event.failsDup2, console, fails]
                · simp [Holdings.next, Event.endsAttach, Event.failsDup2, console, fails]
          | dup2 fd target =>
              by_cases fails : r.rc < 0
              · simp [Holdings.next, Event.endsAttach, Event.failsDup2, fails]
              · simp [Holdings.next, Event.endsAttach, Event.failsDup2, fails]
          | signalfd fd signals flags =>
              by_cases fails : r.rc < 0
              · simp [Holdings.next, Event.endsAttach, Event.failsDup2, fails]
              · simp [Holdings.next, Event.endsAttach, Event.failsDup2, fails]
          | _ => exact ⟨rfl, rfl⟩

/-- The descriptors that a program inherits when pid 1 or its child calls `execv`: those without
close-on-exec. -/
def Descriptors.inherited (k : Descriptors) (n : Int) : Prop :=
  ∃ d, k.held n = some d ∧ d.cloexec = false

/-- A program that is exec'd inherits the standard descriptors only. -/
def SealedOff (k : Descriptors) : Prop := ∀ n, k.inherited n → n ≤ STDERR_FILENO

/-- Pid 1 holds the standard descriptors, the one of `/dev/kmsg`, stored or about to be, and
one signalfd, and no other. -/
structure NoLeak (w : World Descriptors) : Prop where
  only : ∀ n d, w.kern.held n = some d →
    n ≤ STDERR_FILENO ∨ n = w.mem.kmsg ∨ justOpened w.hist n ∨ d.file = .signals
  single : ∀ n n' d d', STDERR_FILENO < n → STDERR_FILENO < n' → w.kern.held n = some d →
    w.kern.held n' = some d' → d.file = .signals → d'.file = .signals → n = n'

section Leaks

variable {b : Holdings} {k : Descriptors} {known : Int}

/-- When a `dup2` has failed, the console is still open above the standard descriptors, and it is
not close-on-exec. -/
theorem Accords.leak (agree : Accords b k known) (attached : b.stage.attached)
    (failed : b.stage.failed = true) :
    ∃ n, STDERR_FILENO < n ∧ b.kmsg.fd ≠ some n ∧ k.held n = some ⟨.file "/dev/console", false⟩ := by
  have held := agree.late attached
  rw [failed] at held
  obtain ⟨n, console⟩ := Option.isSome_iff_exists.mp held
  have high := agree.high n (.inr (.inl console))
  have apart := agree.apart n console
  refine ⟨n, high, apart, ?_⟩
  rw [agree.held n high, Holdings.entry, if_neg apart, if_pos console]

/-- When no `dup2` has failed, the descriptors above the standard ones are that of the log and the
signalfd. -/
theorem Accords.rest (agree : Accords b k known) (attached : b.stage.attached)
    (failed : b.stage.failed = false) {n : Int} {d : Descriptor} (high : STDERR_FILENO < n)
    (held : k.held n = some d) :
    b.kmsg.fd = some n ∧ d = ⟨.file "/dev/kmsg", true⟩ ∨
      b.stage.signals = some n ∧ d = ⟨.signals, true⟩ := by
  have vacant := agree.late attached
  rw [failed, Option.isSome_eq_false_iff, Option.isNone_iff_eq_none] at vacant
  rw [agree.held n high, Holdings.entry, vacant] at held
  split at held
  · rename_i kmsg
    cases held
    exact .inl ⟨kmsg, rfl⟩
  · split at held
    · contradiction
    · split at held
      · rename_i signals
        cases held
        exact .inr ⟨signals, rfl⟩
      · cases held

theorem Accords.sealedOff_iff (agree : Accords b k known) (attached : b.stage.attached) :
    SealedOff k ↔ b.stage.failed = false := by
  constructor
  · intro sealedOff
    by_contra failed
    rw [Bool.not_eq_false] at failed
    obtain ⟨n, high, -, held⟩ := agree.leak attached failed
    have low := sealedOff n ⟨_, held, rfl⟩
    omega
  · rintro failed n ⟨d, held, shared⟩
    by_contra high
    rcases agree.rest attached failed (by omega) held with ⟨-, rfl⟩ | ⟨-, rfl⟩
    · cases shared
    · cases shared

end Leaks

section InHand

variable {w : World Descriptors}

theorem InHand.cached (inHand : InHand w) (opened : w.mem.kmsg ≠ Log.NOT_OPEN_YET) :
    (holdings w.hist).kmsg = .stored w.mem.kmsg := by
  have known := inHand.agree.known
  cases cache : (holdings w.hist).kmsg with
  | empty =>
      rw [cache] at known
      exact absurd known opened
  | opened fd =>
      rw [cache] at known
      exact absurd known opened
  | stored fd =>
      rw [cache] at known
      rw [known]
      rfl

/-- A descriptor of `/dev/kmsg` that was just opened is the one in the record. -/
theorem justOpened_fd {n : Int} (opened : justOpened w.hist n) (real : 0 ≤ n) :
    (holdings w.hist).kmsg = .opened n := by
  obtain ⟨flags, r, t, rest, hist, rfl⟩ := opened
  have succeeded : ¬ r.rc < 0 := by omega
  rw [hist, holdings, Holdings.next, if_neg (by decide)]
  exact congrArg Holdings.kmsg (if_neg succeeded)

/-- When a `dup2` has failed, a descriptor is leaked. -/
theorem InHand.leaks (inHand : InHand w) (attached : (holdings w.hist).stage.attached)
    (failed : (holdings w.hist).stage.failed = true) : ¬ NoLeak w := by
  intro noLeak
  obtain ⟨n, high, apart, held⟩ := inHand.agree.leak attached failed
  have above : 2 < n := high
  rcases noLeak.only n _ held with low | stored | opened | signals
  · omega
  · have cached := inHand.cached (by rw [← stored]; show n ≠ -1; omega)
    rw [cached, ← stored] at apart
    exact apart rfl
  · rw [justOpened_fd opened (by omega)] at apart
    exact apart rfl
  · cases signals

/-- The descriptor of `/dev/kmsg` in the record is the one that is stored or was just opened. -/
theorem InHand.kmsg_known (inHand : InHand w) {n : Int} (kmsg : (holdings w.hist).kmsg.fd = some n) :
    n = w.mem.kmsg ∨ justOpened w.hist n := by
  have known := inHand.agree.known
  cases cache : (holdings w.hist).kmsg with
  | empty =>
      rw [cache] at kmsg
      cases kmsg
  | opened fd =>
      rw [cache] at kmsg
      cases kmsg
      exact .inr (inHand.pending _ cache)
  | stored fd =>
      rw [cache] at kmsg known
      cases kmsg
      exact .inl known.symm

theorem InHand.noLeak_iff (inHand : InHand w) (attached : (holdings w.hist).stage.attached) :
    NoLeak w ↔ (holdings w.hist).stage.failed = false := by
  have agree := inHand.agree
  constructor
  · intro noLeak
    by_contra failed
    rw [Bool.not_eq_false] at failed
    exact inHand.leaks attached failed noLeak
  · intro failed
    constructor
    · intro n d held
      by_cases low : n ≤ STDERR_FILENO
      · exact .inl low
      rcases agree.rest attached failed (by omega) held with ⟨kmsg, -⟩ | ⟨-, rfl⟩
      · rcases inHand.kmsg_known kmsg with stored | opened
        · exact .inr (.inl stored)
        · exact .inr (.inr (.inl opened))
      · exact .inr (.inr (.inr rfl))
    · intro n n' d d' high high' held held' signals signals'
      rcases agree.rest attached failed high held with ⟨-, rfl⟩ | ⟨listed, -⟩
      · cases signals
      rcases agree.rest attached failed high' held' with ⟨-, rfl⟩ | ⟨listed', -⟩
      · cases signals'
      rw [listed] at listed'
      exact Option.some.inj listed'

end InHand

/-! ## Every run -/

section Runs

variable {α : Type} {candidates : List Spec} {c c' : Config calls (World Descriptors) α}
  {Q : α → World Descriptors → Prop}

theorem descriptors_stable (P : World Descriptors → Prop) : Stable descriptors.semantics P :=
  fun _ _ _ others => absurd others (Kernel.alone (fun _ _ impossible => impossible) _ _)

theorem inHand_everywhere (safe : Safe descriptors.semantics Allowed c.prog Q c.world)
    (inHand : InHand c.world) (reach : Reaches descriptors.semantics c c') : InHand c'.world :=
  safe.invariant inHand (descriptors_stable _)
    (fun _ _ _ _ inHand allowed answer => inHand.kept allowed answer) reach

/-- The stored descriptor stays the same in everything that is reachable. -/
theorem stored_kept (safe : Safe descriptors.semantics Allowed c.prog Q c.world)
    (inHand : InHand c.world) (stored : c.world.mem.kmsg ≠ Log.NOT_OPEN_YET)
    (reach : Reaches descriptors.semantics c c') : c'.world.mem.kmsg = c.world.mem.kmsg := by
  have kept := safe.invariant (J := fun w => InHand w ∧ w.mem.kmsg = c.world.mem.kmsg)
    ⟨inHand, rfl⟩ (descriptors_stable _) ?_ reach
  · exact kept.2
  rintro o r w w' ⟨inHand, same⟩ allowed answer
  refine ⟨inHand.kept allowed answer, ?_⟩
  cases answer with
  | sys => exact same
  | @mem o =>
      cases o with
      | kmsgStore fd =>
          have cached := inHand.cached (by rwa [same])
          rw [show (holdings w.hist).kmsg = .opened fd from allowed] at cached
          cases cached
      | _ => exact same

/-- After `attach_stdio` has returned there is no further `dup2`, so that whether one has failed is
settled. -/
theorem late_kept (safe : Safe descriptors.semantics Allowed c.prog Q c.world)
    (attached : (holdings c.world.hist).stage.attached)
    (reach : Reaches descriptors.semantics c c') :
    (holdings c'.world.hist).stage.attached ∧
      (holdings c'.world.hist).stage.failed = (holdings c.world.hist).stage.failed := by
  refine safe.invariant (J := fun w => (holdings w.hist).stage.attached ∧
      (holdings w.hist).stage.failed = (holdings c.world.hist).stage.failed)
    ⟨attached, rfl⟩ (descriptors_stable _) ?_ reach
  rintro o r w w' ⟨attached, same⟩ allowed answer
  rw [answer.hist, holdings]
  cases o with
  | mem o => cases o <;> exact ⟨attached, same⟩
  | sys s =>
      cases s with
      | openPath path flags =>
          rcases allowed with ⟨rfl, -, -⟩ | ⟨-, -, -, start⟩
          · rw [Holdings.next, if_neg (by decide)]
            split <;> exact ⟨attached, same⟩
          · rw [start] at attached
            cases attached
      | dup2 fd target =>
          rw [allowed.2.1] at attached
          cases attached
      | close fd =>
          rw [allowed.2] at attached
          cases attached
      | signalfd fd signals flags =>
          rw [Holdings.next]
          split <;> exact ⟨attached, same⟩
      | _ => exact ⟨attached, same⟩

end Runs

namespace Descriptors

/-- The table of descriptors that the runtime starts pid 1 with. -/
def boot : Descriptors where
  held n := if 0 ≤ n ∧ n ≤ STDERR_FILENO then some ⟨.given, false⟩ else none
  nonneg n held := by
    by_contra negative
    exact held (if_neg fun both => negative both.1)
  stdio n nonneg low := by
    rw [if_pos ⟨nonneg, low⟩]
    exact Option.some_ne_none _

end Descriptors

theorem accords_boot : Accords .start Descriptors.boot Log.NOT_OPEN_YET := by
  refine ⟨rfl, fun n high => if_neg fun both => ?_, fun n lists => ?_, fun n console => ?_,
    fun late => ?_⟩
  · omega
  · rcases lists with kmsg | console | signals
    · cases kmsg
    · cases console
    · cases signals
  · cases console
  · cases late

variable {candidates : List Spec} {conf : Config calls (World Descriptors) Unit}

theorem boot_allowed (candidates : List Spec) :
    Safe descriptors.semantics Allowed (boot candidates Descriptors.boot).prog (fun _ _ => True)
      (boot candidates Descriptors.boot).world := by
  refine main_keeps candidates _ ⟨rfl, rfl, rfl, ?_⟩
  exact Cache.noConfusion

theorem boot_inHand (candidates : List Spec) :
    InHand (boot candidates Descriptors.boot).world :=
  .of_settled accords_boot rfl

theorem allowed_of_next {call : Call}
    (reach : Reaches descriptors.semantics (boot candidates Descriptors.boot) conf)
    (next : conf.prog.next = some call) : Allowed call conf.world := by
  obtain ⟨prog, w⟩ := conf
  obtain ⟨rest, rfl⟩ := Prog.next_eq next
  exact (boot_allowed candidates).guarded reach

/-- Up to its `execv` the child of a fork would pass on the standard descriptors only, exactly if no
`dup2` has failed. -/
theorem child_sealedOff {w : World Descriptors} {spec : Spec}
    {child : Config calls (World Descriptors) Unit} (inHand : InHand w)
    (settled : (holdings w.hist).kmsg.settled) (attached : (holdings w.hist).stage.attached)
    (reach : Reaches descriptors.semantics ⟨Proc.childMain spec, w⟩ child) :
    SealedOff child.world.kern ↔ dup2Failed w.hist = false := by
  have safe : Safe descriptors.semantics Allowed (Proc.childMain spec : Pid1 Unit)
      (fun _ => Settled (holdings w.hist).stage) w := by
    refine childMain_keeps attached w ⟨rfl, settled, inHand.agree.known, fun stored => ?_⟩
    have high := inHand.agree.high _ (.inl (congrArg Cache.fd stored))
    exact absurd high (by decide)
  obtain ⟨late, same⟩ := late_kept (c := ⟨_, w⟩) safe attached reach
  have inHand' := inHand_everywhere (c := ⟨_, w⟩) safe inHand reach
  rw [inHand'.agree.sealedOff_iff late, same, (holdings_ends w.hist).2]

/-- **No descriptor is leaked or passed on exactly if no `dup2` has failed.**  In every state of
pid 1, whatever fails, the stored descriptor names `/dev/kmsg` and goes on doing so, and nothing
below 3 is closed.  Once `attach_stdio` has returned, nothing is leaked exactly if no `dup2` has
failed; and at every fork, and in the child up to its exec, what is above the standard
descriptors is closed on exec exactly if no `dup2` has failed. -/
theorem descriptors_in_hand_iff
    (reach : Reaches descriptors.semantics (boot candidates Descriptors.boot) conf) :
    (conf.world.mem.kmsg ≠ Log.NOT_OPEN_YET →
      conf.world.kern.held conf.world.mem.kmsg = some ⟨.file "/dev/kmsg", true⟩ ∧
        ∀ conf', Reaches descriptors.semantics conf conf' →
          conf'.world.mem.kmsg = conf.world.mem.kmsg) ∧
      (∀ fd, conf.prog.next = some (Call.sys (.close fd)) → STDERR_FILENO < fd) ∧
      (attachReturned conf.world.hist →
        (NoLeak conf.world ↔ dup2Failed conf.world.hist = false)) ∧
      (conf.prog.next = some (Call.sys .fork) →
        (SealedOff conf.world.kern ↔ dup2Failed conf.world.hist = false) ∧
        ∀ spec r child, Reaches descriptors.semantics
            ⟨(Proc.childMain spec : Pid1 Unit), conf.world.called 0 .fork r conf.world.kern⟩ child →
          ∀ path argv, child.prog.next = some (Call.sys (.execv path argv)) →
            (SealedOff child.world.kern ↔ dup2Failed conf.world.hist = false)) := by
  have safe := (boot_allowed candidates).reaches reach
  have inHand := inHand_everywhere (boot_allowed candidates) (boot_inHand candidates) reach
  have agree := inHand.agree
  obtain ⟨attached, failed⟩ := holdings_ends conf.world.hist
  refine ⟨fun stored => ⟨?_, fun conf' later => ?_⟩, fun fd closes => ?_, fun returned => ?_,
    fun forks => ?_⟩
  · have cached : (holdings conf.world.hist).kmsg.fd = some conf.world.mem.kmsg := by
      rw [inHand.cached stored]
      rfl
    rw [agree.held _ (agree.high _ (.inl cached)), Holdings.entry, if_pos cached]
  · exact stored_kept safe inHand stored later
  · have allowed := allowed_of_next reach closes
    exact agree.high fd (.inr (.inl (congrArg Stage.console allowed.2)))
  · rw [← failed]
    exact inHand.noLeak_iff (attached.trans returned)
  · obtain ⟨settled, late⟩ := allowed_of_next reach forks
    refine ⟨?_, fun spec r child descends path argv _ => ?_⟩
    · rw [← failed]
      exact agree.sealedOff_iff (late rfl)
    · exact child_sealedOff (w := conf.world.called 0 .fork r conf.world.kern)
        (.of_settled agree settled) settled (late rfl) descends

/-! ## Runs up to the first shell -/

namespace Descriptors

variable {k k' : Descriptors} {d : Descriptor} {r : Ret} {n fd target : Int}

/-- The table in which the number refers to `d`. -/
def put (k : Descriptors) (d : Descriptor) (n : Int) (nonneg : 0 ≤ n) : Descriptors where
  held := Function.update k.held n (some d)
  nonneg m held := by
    by_cases same : m = n
    · omega
    · rw [Function.update_of_ne same] at held
      exact k.nonneg m held
  stdio m nonneg low := by
    by_cases same : m = n
    · rw [same, Function.update_self]
      exact Option.some_ne_none _
    · rw [Function.update_of_ne same]
      exact k.stdio m nonneg low

/-- The table in which the number is free again. -/
def drop (k : Descriptors) (n : Int) (high : STDERR_FILENO < n) : Descriptors where
  held := Function.update k.held n none
  nonneg m held := by
    by_cases same : m = n
    · rw [same, Function.update_self] at held
      exact absurd rfl held
    · rw [Function.update_of_ne same] at held
      exact k.nonneg m held
  stdio m nonneg low := by
    rw [Function.update_of_ne (by omega)]
    exact k.stdio m nonneg low

/-- The result of opening a descriptor, if one of the given numbers is the lowest free one. -/
def openAt (k : Descriptors) (d : Descriptor) : List Int → Option (Ret × Descriptors)
  | [] => none
  | n :: rest =>
      if free : k.lowestFree n then some (⟨n, ⟨0, ""⟩⟩, k.put d n free.1) else k.openAt d rest

theorem openAt_opens {numbers : List Int} (opened : k.openAt d numbers = some (r, k')) :
    k.opens d r k' := by
  induction numbers with
  | nil => cases opened
  | cons n rest ih =>
      rw [openAt] at opened
      split at opened
      · rename_i free
        cases opened
        exact .inr ⟨free, rfl⟩
      · exact ih opened

/-- The result of a `dup2` that succeeds, if `fd` is open. -/
def dupTo (k : Descriptors) (fd target : Int) : Option (Ret × Descriptors) :=
  match k.held fd with
  | none => none
  | some d =>
      if fine : fd ≠ target ∧ 0 ≤ target then
        some (⟨target, ⟨0, ""⟩⟩, k.put ⟨d.file, false⟩ target fine.2)
      else none

theorem dupTo_dup2 (moved : k.dupTo fd target = some (r, k')) : k.dup2 fd target r k' := by
  unfold dupTo at moved
  split at moved
  · cases moved
  · rename_i d held
    split at moved
    · rename_i fine
      cases moved
      exact .inr ⟨rfl, d, held, (if_neg fine.1).symm⟩
    · cases moved

/-- The result of a `close` that succeeds, for a number above the standard descriptors. -/
def closeAt (k : Descriptors) (fd : Int) : Option (Ret × Descriptors) :=
  if fine : k.held fd ≠ none ∧ STDERR_FILENO < fd then some (⟨0, ⟨0, ""⟩⟩, k.drop fd fine.2) else none

theorem closeAt_close (closed : k.closeAt fd = some (r, k')) : k.close fd r k' := by
  unfold closeAt at closed
  split at closed
  · rename_i fine
    cases closed
    exact .inr ⟨fine.1, rfl⟩
  · cases closed

end Descriptors

/-- The script in which everything succeeds but the `dup2`s to the targets that `fails` names. -/
def untilTheShell (fails : Int → Bool) : Script descriptors where
  before w _ := w.kern
  answer w
    | .openPath path flags => w.kern.openAt ⟨.file path, flags &&& O_CLOEXEC != 0⟩ [3, 4, 5]
    | .signalfd _ _ flags => w.kern.openAt ⟨.signals, flags &&& SFD_CLOEXEC != 0⟩ [3, 4, 5]
    | .dup2 fd target =>
        if fails target then some (⟨-1, ⟨EINTR, ""⟩⟩, w.kern) else w.kern.dupTo fd target
    | .close fd => w.kern.closeAt fd
    | s => s.smooth.map fun r => (r, w.kern)
  clock _ := 0
  others := Script.still
  answers {w s r kern} h := by
    cases s with
    | openPath => exact Descriptors.openAt_opens h
    | signalfd => exact Descriptors.openAt_opens h
    | dup2 =>
        dsimp only at h
        split at h
        · cases h
          exact .inl ⟨rfl, rfl⟩
        · exact Descriptors.dupTo_dup2 h
    | close => exact Descriptors.closeAt_close h
    | _ => exact Syscall.smoothly h
  reads _ := trivial

/-- Pid 1 about to fork its first shell. -/
def firstFork (fails : Int → Bool) : Config calls (World Descriptors) Unit :=
  (untilTheShell fails).driver.run (fun c => c.prog.next == some (Call.sys .fork)) 400
    (boot CANDIDATES Descriptors.boot)

theorem firstFork_reachable (fails : Int → Bool) :
    Reaches descriptors.semantics (boot CANDIDATES Descriptors.boot) (firstFork fails) :=
  (untilTheShell fails).driver.reaches _ _ _

/-- Nothing fails: nothing is leaked at the first fork, and the shell inherits the standard
descriptors only. -/
theorem descriptors_in_hand_at_the_first_fork :
    NoLeak (firstFork fun _ => false).world ∧ SealedOff (firstFork fun _ => false).world.kern := by
  have holds := descriptors_in_hand_iff (firstFork_reachable fun _ => false)
  have fine : dup2Failed (firstFork fun _ => false).world.hist = false := by decide +kernel
  exact ⟨(holds.2.2.1 (by decide +kernel)).mpr fine, (holds.2.2.2 (by decide +kernel)).1.mpr fine⟩

/-- The second `dup2` fails: the console stays open at 3, and the first shell inherits it. -/
theorem first_shell_inherits_the_console :
    let forking := firstFork fun target => target == STDOUT_FILENO
    Reaches descriptors.semantics (boot CANDIDATES Descriptors.boot) forking ∧
      forking.prog.next = some (Call.sys .fork) ∧ attachReturned forking.world.hist = true ∧
      forking.world.kern.held 3 = some ⟨.file "/dev/console", false⟩ ∧
      ¬ NoLeak forking.world ∧ ¬ SealedOff forking.world.kern := by
  intro forking
  have held : forking.world.kern.held 3 = some ⟨.file "/dev/console", false⟩ := by decide +kernel
  refine ⟨firstFork_reachable _, by decide +kernel, by decide +kernel, held, ?_, ?_⟩
  · have inHand := inHand_everywhere (boot_allowed CANDIDATES) (boot_inHand CANDIDATES)
      (firstFork_reachable fun target => target == STDOUT_FILENO)
    have failed : (holdings forking.world.hist).stage.failed = true := by decide +kernel
    intro noLeak
    rw [(inHand.noLeak_iff (by decide +kernel)).mp noLeak] at failed
    cases failed
  · intro sealedOff
    exact absurd (sealedOff 3 ⟨_, held, rfl⟩) (by decide)

end Zevory
