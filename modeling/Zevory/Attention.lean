import Zevory.Children
import Zevory.Rounds

/-!
# Signals taken in an execution

When a pending signal is read off the signalfd, in an execution on the kernel of processes.
Two conditions on the execution are named here: if something is always pending and pid 1
polls again and again, then signals are taken (`Hears`); and those taken are not from some
turn on all lower than the one in question (the negation of `Starves`).
-/

namespace Zevory

open Interaction Signal Power Processes

section Attention

variable {candidates : List Spec} {e : Execution kernel.semantics (boot candidates Processes.boot)}
  {n m : ℕ} {p q : Place}

theorem star_others {P : Processes → Prop} (stable : ∀ m m', P m → Others m m' → P m')
    {w v : World Processes} (star : Relation.ReflTransGen kernel.semantics.interfere w v)
    (here : P w.kern) : P v.kern := by
  refine Stable.star (P := fun w => P w.kern) ?_ here star
  rintro w v here ⟨kern, others, rfl⟩
  exact stable _ _ here others

/-- What the others keep still holds after a turn, or the turn is a system call that the kernel
answers in a state where it holds. -/
theorem kernel_turn {P : Processes → Prop} (stable : ∀ m m', P m → Others m m' → P m')
    (here : P (e.conf n).world.kern) :
    P (e.conf (n + 1)).world.kern ∨ ∃ (s : Syscall) (r : s.Res) (kern : Processes),
      e.did n = some ⟨.sys s, r⟩ ∧ P kern ∧ Answer kern s r (e.conf (n + 1)).world.kern := by
  have keeps := @star_others P stable
  have turn := e.goes n
  generalize e.did n = did at turn
  generalize e.conf n = c at turn here
  generalize e.conf (n + 1) = c' at turn
  cases turn with
  | unroll star => exact .inl (keeps star here)
  | returned star => exact .inl (keeps star here)
  | gone _ star => exact .inl (keeps star here)
  | answer star answer =>
      have there := keeps star here
      cases answer with
      | mem => exact .inl there
      | sys answer => exact .inr ⟨_, _, _, rfl, there, answer⟩

/-- What every turn keeps unless `Q` happens at it still holds later, if `Q` never happens. -/
theorem stays_unless {P Q : ℕ → Prop} (turn : ∀ i, P i → P (i + 1) ∨ Q i) (here : P n)
    (never : ∀ i, n ≤ i → i < m → ¬ Q i) (later : n ≤ m) : P m := by
  induction m, later using Nat.le_induction with
  | base => exact here
  | succ m later ih =>
      have there := ih fun i from_ before => never i from_ (Nat.lt_succ_of_lt before)
      exact (turn m there).resolve_right (never m later (Nat.lt_succ_self m))

theorem Here.told (here : Here e n p) : Told p (e.conf n).world.kern :=
  (sound_everywhere (e.reaches n) here).told

/-- A turn with a system call: the others first lead the kernel to some state, and the kernel
answers in it. -/
theorem turn_kernel {s : Syscall} {r : s.Res} (here : Here e n p)
    (did : e.did n = some ⟨.sys s, r⟩) :
    ∃ kern after, Relation.ReflTransGen Others (e.conf n).world.kern kern ∧ Told p kern ∧
      Answer kern s r after ∧ (e.conf (n + 1)).world.kern = after := by
  obtain ⟨v, -, -, star, answer⟩ := turn_answered did
  have reached : Relation.ReflTransGen Others (e.conf n).world.kern v.kern :=
    star_others (P := fun m => Relation.ReflTransGen Others (e.conf n).world.kern m)
      (fun _ _ reached others => reached.tail others) star .refl
  have told := star_others (fun _ _ told others => told.others others) star here.told
  generalize (e.conf (n + 1)).world = w at answer
  cases answer with
  | sys answer => exact ⟨v.kern, _, reached, told, answer, rfl⟩

/-- The `n`-th turn is a read of the signalfd that takes the signal. -/
def Takes (e : Execution kernel.semantics (boot candidates Processes.boot)) (n : ℕ)
    (signal : Int) : Prop :=
  ∃ fd errno, e.did n = some ⟨.sys (.read fd), (⟨Sys.SIGINFO_SIZE, errno⟩, signal)⟩

/-- Pid 1 polls again and again in this execution. -/
def PollsForever (e : Execution kernel.semantics (boot candidates Processes.boot)) : Prop :=
  ∀ i, ∃ m fd millis r, i ≤ m ∧ e.did m = some ⟨.sys (.poll fd millis), r⟩

/-- If something is always pending from some turn on and pid 1 polls again and again, some signal is
taken: waits neither fail nor time out for ever. -/
def Hears (e : Execution kernel.semantics (boot candidates Processes.boot)) : Prop :=
  ∀ n, (∀ m, n ≤ m → (e.conf m).world.kern.pending.Nonempty) → PollsForever e →
    ∃ m signal, n ≤ m ∧ Takes e m signal

/-- From some turn on signals are taken again and again, but only lower ones than `signal`,
and none of them asks for a shutdown. -/
def Starves (e : Execution kernel.semantics (boot candidates Processes.boot)) (signal : Int) :
    Prop :=
  (∃ n, ∀ m other, n ≤ m → Takes e m other →
    other < signal ∧ ∀ action, classify other ≠ .shutdown action) ∧
  ∀ i, ∃ m other, i ≤ m ∧ Takes e m other

/-- If a signal is pending whatever the others do, the one that is taken is no higher. -/
theorem takes_lowest {signal other : Int} (takes : Takes e n other)
    (pending : ∀ kern, Relation.ReflTransGen Others (e.conf n).world.kern kern →
      signal ∈ kern.pending) : other ≤ signal := by
  obtain ⟨fd, errno, did⟩ := takes
  obtain ⟨p, here, -⟩ := exists_here e n
  obtain ⟨kern, after, others, -, answer, -⟩ := turn_kernel here did
  cases answer with
  | read _ lowest => exact lowest signal (pending kern others)
  | noRead short => exact absurd rfl short
  | plain plain => cases plain

/-- Where pid 1 is after it has taken a signal: `supervise` acts on it, and a wait for silence goes
on to the next harvest. -/
theorem takes_leads {signal : Int} (here : Here e n p) (takes : Takes e n signal) :
    (p = .readable ∧ Here e (n + 1) (Place.afterSignal signal)) ∨
      ∃ action killed deadline, Here e (n + 1) (.reaping (.silence action killed deadline) none) := by
  obtain ⟨fd, errno, did⟩ := takes
  obtain ⟨f, move, next⟩ := here.move did
  cases move with
  | log log => cases log
  | bringUp early => cases early
  | read => exact .inl ⟨rfl, next⟩
  | watchRead => exact .inr ⟨_, _, _, next⟩

end Attention

end Zevory
