import Zevory.Attention

/-!
# Lulls

Executions of `main` on the kernel of processes in which nothing happens any more: a shell
lives, nothing is pending, and every `poll` is interrupted.  Pid 1 goes round in `supervise`
and never does anything else.  Such an execution goes on from every reachable
configuration of that kind, and shows that what is said about pid 1 that never gives up is
said about something.
-/

namespace Zevory

open Interaction Signal Power Processes

/-- The places at which pid 1 may wait for ever beside a running shell, and those on the way from
one such wait to the next. -/
def Place.isLull : Place → Bool
  | .reaping .supervising none => true
  | .harvested .supervising none true => true
  | .loopHead => true
  | .waiting millis => millis == UNTIL_SOMETHING_ARRIVES
  | _ => false

section Lull

variable {candidates : List Spec} {kern : Processes} {c : Config calls (World Processes) Unit}

/-- Pid 1 is at such a place, there is a shell in its table, and the kernel is in the state it was
in at first. -/
structure Lull (candidates : List Spec) (kern : Processes)
    (c : Config calls (World Processes) Unit) : Prop where
  reach : Reaches kernel.semantics (boot candidates Processes.boot) c
  place : ∃ p, Path c.world.hist p ∧ p.isLull
  shell : c.world.mem.table.shells ≠ []
  same : c.world.kern = kern

theorem log_answered {call : Call} (log : call.isLog) (w : World Processes) :
    ∃ r w', kernel.Answers w call r w' ∧ w'.mem.table = w.mem.table ∧ w'.kern = w.kern := by
  cases call with
  | sys s =>
      cases s with
      | openPath => exact ⟨⟨-1, ⟨0, ""⟩⟩, _, .sys (.plain rfl (.inl (by decide))), rfl, rfl⟩
      | write => exact ⟨⟨0, ⟨0, ""⟩⟩, _, .sys (.plain rfl (Int.natCast_nonneg _)), rfl, rfl⟩
      | _ => cases log
  | mem o =>
      cases o with
      | kmsgLoad | kmsgStore => exact ⟨_, _, .mem (show kernel.reads w.kern 0 from trivial), rfl, rfl⟩
      | _ => cases log

/-- At such a place the kernel can answer without a change of its state, in a way that leads to such
a place. -/
theorem Lull.answered {w : World Processes} {p : Place} {call : Call} {f : call.Res → Place}
    (noZombie : ¬ w.kern.HasZombie) (child : w.kern.HasChild) (shell : w.mem.table.shells ≠ [])
    (move : Moves p call f) (lull : p.isLull) :
    ∃ r w', kernel.Answers w call r w' ∧ (f r).isLull ∧ w'.mem.table.shells ≠ [] ∧
      w'.kern = w.kern := by
  cases move with
  | log log =>
      obtain ⟨r, w', answer, table, same⟩ := log_answered log w
      exact ⟨r, w', answer, lull, by rwa [table], same⟩
  | running =>
      refine ⟨_, _, .mem (show kernel.reads w.kern 0 from trivial), ?_, shell, rfl⟩
      have running : w.mem.table.running ≠ 0 := by
        rw [Table.running_eq]
        exact Nat.ne_of_gt (List.length_pos_iff.mpr shell)
      show (if w.mem.table.running = 0 then Place.idle
        else .waiting UNTIL_SOMETHING_ARRIVES).isLull
      rw [if_neg running]
      rfl
  | poll =>
      exact ⟨⟨-1, ⟨EINTR, ""⟩⟩, _, .sys (.poll (fun zero => absurd zero (by decide))
        fun positive => absurd positive (by decide)), rfl, shell, rfl⟩
  | @waitpid why shortestLife =>
      refine ⟨(⟨0, ⟨0, ""⟩⟩, 0), _, .sys (.noZombie noZombie child), ?_, shell, rfl⟩
      cases why with
      | supervising =>
          cases shortestLife with
          | none => rfl
          | some => cases lull
      | _ => cases lull
  | @forgetFinished why shortestLife childrenLeft =>
      refine ⟨_, _, .mem (show kernel.reads w.kern 0 from trivial), ?_, ?_, rfl⟩
      · cases why with
        | supervising =>
            cases shortestLife with
            | none => rfl
            | some => cases lull
        | _ => cases lull
      · show w.mem.table.forgetFinished.shells ≠ []
        rwa [Table.shells_forgetFinished]
  | _ => cases lull

theorem Lull.goes (lull : Lull candidates kern c) (noZombie : ¬ kern.HasZombie)
    (child : kern.HasChild) :
    ∃ did c', TakesTurn kernel.semantics c did c' ∧ Lull candidates kern c' := by
  obtain ⟨reach, ⟨p, path, lull⟩, shell, rfl⟩ := lull
  obtain ⟨prog, w⟩ := c
  cases prog with
  | ret a => exact absurd reach never_returns
  | loop body s k =>
      have turn : TakesTurn kernel.semantics ⟨.loop body s k, w⟩ none _ := .unroll .refl
      exact ⟨none, _, turn, reach.trans turn.reaches, ⟨p, path, lull⟩, shell, rfl⟩
  | call o k =>
      obtain ⟨q, f, path', -, move⟩ :=
        expected_of_next reach (show Prog.next (.call o k) = some o from rfl)
      cases path.unique path'
      obtain ⟨r, w', answer, lull', shell', same⟩ := Lull.answered noZombie child shell move lull
      have turn : TakesTurn kernel.semantics ⟨.call o k, w⟩ (some ⟨o, r⟩) ⟨k r, w'⟩ :=
        .answer .refl answer
      refine ⟨_, _, turn, reach.trans turn.reaches, ⟨f r, ?_, lull'⟩, shell', same⟩
      rw [answer.hist]
      exact path.move move

theorem lull_of_poll {p : Place} {fd : Int} {f : Ret → Place}
    (move : Moves p (.sys (.poll fd UNTIL_SOMETHING_ARRIVES)) f) : p.isLull := by
  generalize unlimited : UNTIL_SOMETHING_ARRIVES = millis at move
  cases move with
  | log log => cases log
  | bringUp early => cases early
  | poll =>
      subst unlimited
      rfl
  | watch => cases unlimited

/-- A poll without a limit, beside a shell, is made at such a place. -/
theorem Lull.of_next {fd : Int} (reach : Reaches kernel.semantics (boot candidates Processes.boot) c)
    (next : c.prog.next = some (Call.sys (.poll fd UNTIL_SOMETHING_ARRIVES)))
    (shell : c.world.mem.table.shells ≠ []) : Lull candidates c.world.kern c := by
  obtain ⟨p, f, path, -, move⟩ := expected_of_next reach next
  exact ⟨reach, ⟨p, path, lull_of_poll move⟩, shell, rfl⟩

/-- From such a place there is an execution that stays at such places for ever. -/
theorem Lull.exists_execution {c₁ : Config calls (World Processes) Unit}
    (turns₁ : Turns kernel.semantics (boot candidates Processes.boot) c₁)
    (turns₂ : Turns kernel.semantics c₁ c) (lull : Lull candidates kern c)
    (noZombie : ¬ kern.HasZombie) (child : kern.HasChild) :
    ∃ (e : Execution kernel.semantics (boot candidates Processes.boot)) (n₁ n : ℕ),
      e.conf n₁ = c₁ ∧ e.conf n = c ∧ ∀ m, n ≤ m → Lull candidates kern (e.conf m) := by
  obtain ⟨e, always⟩ := Execution.exists_forever
    (P := Lull candidates kern) (fun c lull => lull.goes noZombie child) lull
  obtain ⟨e₂, n₂, same₂⟩ := Execution.exists_after turns₂ e
  obtain ⟨e₁, n₁, same₁⟩ := Execution.exists_after turns₁ e₂
  have from_ : ∀ m, e₁.conf (n₁ + n₂ + m) = e.conf m := fun m => by
    rw [Nat.add_assoc, same₁, same₂]
  refine ⟨e₁, n₁, n₁ + n₂, ?_, ?_, fun m later => ?_⟩
  · rw [← Nat.add_zero n₁, same₁, e₂.start]
  · rw [← Nat.add_zero (n₁ + n₂), from_, e.start]
  · rw [← Nat.add_sub_cancel' later, from_]
    exact always _

/-! ## What a lull is good for -/

variable {e : Execution kernel.semantics (boot candidates Processes.boot)} {n m : ℕ}

theorem Lull.here (lull : Lull candidates kern (e.conf m)) : ∃ p, Here e m p ∧ p.isLull :=
  lull.place

section Onwards

variable (lulls : ∀ m, n ≤ m → Lull candidates kern (e.conf m))

include lulls

theorem lull_calm : ¬ ReapsForever e := by
  rintro ⟨⟨i, handed⟩, more⟩
  obtain ⟨m, r, later, did⟩ := more (max n i)
  obtain ⟨pid, status, child⟩ := handed m r (by omega) did
  -- a child that was handed over leads out of the lull
  obtain ⟨p, here, -⟩ := (lulls m (by omega)).here
  obtain ⟨f, move, next⟩ := here.move did
  obtain ⟨q, there, lull⟩ := (lulls (m + 1) (by omega)).here
  cases there.unique next
  cases move with
  | log log => cases log
  | bringUp early => cases early
  | waitpid =>
      unfold Place.afterWaitpid at lull
      rw [child] at lull
      cases lull

theorem lull_clock : ClockMovesOn e := by
  refine fun _ _ _ => ⟨n, fun m later from_ did => ?_⟩
  obtain ⟨p, here, lull⟩ := (lulls m from_).here
  obtain ⟨f, move, -⟩ := here.move did
  cases move with
  | log log => cases log
  | bringUp early => cases early
  | idle | failing | deadline | check => cases lull

theorem lull_hears (quiet : kern.pending = ∅) : Hears e := by
  intro i pending _
  have nonempty := pending (max n i) (Nat.le_max_right n i)
  rw [(lulls (max n i) (Nat.le_max_left n i)).same, quiet] at nonempty
  exact absurd nonempty Finset.not_nonempty_empty

theorem lull_heard (signal : Int) : ¬ Starves e signal := by
  rintro ⟨-, more⟩
  obtain ⟨m, other, later, fd, errno, did⟩ := more n
  obtain ⟨p, here, lull⟩ := (lulls m later).here
  obtain ⟨f, move, -⟩ := here.move did
  cases move with
  | log log => cases log
  | bringUp early => cases early
  | read | watchRead => cases lull

theorem lull_stays (early : ∀ event ∈ (e.conf n).world.hist, event.call.givesUp = false) :
    StaysUp e := by
  intro m call r did
  rcases Nat.lt_or_ge m n with before | after
  · obtain ⟨t, member⟩ := did_in_hist did before
    exact early _ member
  · obtain ⟨p, here, lull⟩ := (lulls m after).here
    obtain ⟨f, move, -⟩ := here.move did
    cases move with
    | log log =>
        cases call with
        | sys s => cases s <;> first | rfl | cases log
        | mem => rfl
    | running | poll | waitpid | forgetFinished => rfl
    | _ => cases lull

end Onwards

end Lull

end Zevory
