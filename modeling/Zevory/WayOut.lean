import Zevory.Refinement
import Zevory.Script

/-!
# Never exiting

Pid 1 on a kernel that gives any results and keeps whether Ctrl+Alt+Del is enabled, which
nobody but pid 1 changes.  `main` never returns, and what it tells the console about
Ctrl+Alt+Del when it parks is what the kernel has.
-/

namespace Zevory

open Interaction Signal Power

/-- Whether Ctrl+Alt+Del is enabled after a call: only a `reboot` with one of its two commands
changes that, if it succeeds. -/
def cadAfter (enabled : Bool) : (s : Syscall) → s.Res → Bool
  | .reboot command, r =>
      if (r : Ret).rc ≠ 0 then enabled
      else if command = RB_ENABLE_CAD then true
      else if command = RB_DISABLE_CAD then false
      else enabled
  | _, _ => enabled

/-- The kernel that knows whether Ctrl+Alt+Del is enabled, with any results. -/
def cadKernel : Kernel Bool where
  others _ _ := False
  answer enabled s r after := Promised (.sys s) r ∧ after = cadAfter enabled s r
  reads _ _ := True
  time _ := 0
  promised h := h.1

/-- The command by which an event enables or disables Ctrl+Alt+Del. -/
def Event.cad : Event → Option Int
  | ⟨.sys (.reboot command), _, _⟩ =>
      if command = RB_ENABLE_CAD ∨ command = RB_DISABLE_CAD then some command else none
  | _ => none

/-- The last command of the history that was to enable or disable Ctrl+Alt+Del. -/
def lastCad (h : List Event) : Option Int :=
  h.findSome? Event.cad

/-- The calls that end the process. -/
def Call.ends : Call → Bool
  | .sys (.panic _) => true
  | .sys (.processExit _) => true
  | .sys (.exitChild _) => true
  | _ => false

inductive Phase
  | bringUp
  | supervising
  | goingDown
  | handedOver
  | parked
  deriving DecidableEq, Repr

/-- The phase a place belongs to. -/
def Place.phase : Place → Option Phase
  | .bringUp => some .bringUp
  | .asking first => some (if first then .bringUp else .supervising)
  | .chosen first _ => some (if first then .bringUp else .supervising)
  | .forked first _ _ => some (if first then .bringUp else .supervising)
  | .noFork => some .supervising
  | .up => some .bringUp
  | .loopHead => some .supervising
  | .idle => some .supervising
  | .due _ => some .supervising
  | .waiting _ => some .supervising
  | .readable => some .supervising
  | .reaping .supervising _ => some .supervising
  | .reaping _ _ => some .goingDown
  | .crediting .supervising _ _ _ => some .supervising
  | .crediting _ _ _ _ => some .goingDown
  | .harvested .supervising _ _ => some .supervising
  | .harvested _ _ _ => some .goingDown
  | .surviving => some .supervising
  | .failing => some .supervising
  | .backingOff _ => some .supervising
  | .dying => some .supervising
  | .striking => some .supervising
  | .listing _ => some .goingDown
  | .hangingUp _ _ => some .goingDown
  | .continuing _ => some .goingDown
  | .timing _ _ => some .goingDown
  | .checking _ _ _ => some .goingDown
  | .watching _ _ _ => some .goingDown
  | .watched _ _ _ => some .goingDown
  | .killing _ => some .goingDown
  | .silent _ => some .goingDown
  | .synced _ => some .handedOver
  | .parking => some .parked
  | .parked _ => some .parked
  | .lost => none

theorem Place.phase_of_found {p : Place} (found : p ≠ .lost) : ∃ phase, p.phase = some phase := by
  cases p with
  | reaping why | crediting why | harvested why => cases why <;> exact ⟨_, rfl⟩
  | lost => exact absurd rfl found
  | _ => exact ⟨_, rfl⟩

/-- No move of the protocol is a call that ends the process. -/
theorem Moves.goes_on {p : Place} {c : Call} {f : c.Res → Place} (move : Moves p c f) :
    c.ends = false := by
  cases move with
  | log log => cases c with
    | sys s => cases s <;> first | rfl | cases log
    | mem o => rfl
  | bringUp early => cases c with
    | sys s => cases s <;> first | rfl | cases early
    | mem o => rfl
  | _ => rfl

theorem cad_of_log {e : Event} (log : e.call.isLog) : e.cad = none := by
  obtain ⟨c, r, t⟩ := e
  cases c with
  | sys s => cases s <;> first | rfl | cases log
  | mem o => rfl

/-- To get parked pid 1 enables Ctrl+Alt+Del, and once it is parked it only logs and pauses. -/
theorem Moves.into_parked {p : Place} {c : Call} {f : c.Res → Place} (move : Moves p c f)
    {r : c.Res} {enabled : Bool} (parked : f r = .parked enabled) :
    (p = .parked enabled ∧ (c.isLog ∨ c = .sys .pause)) ∨
      ∃ r' : Ret, enabled = decide (r'.rc = 0) ∧
        (⟨c, r, 0⟩ : Event) = ⟨.sys (.reboot RB_ENABLE_CAD), r', 0⟩ := by
  cases move with
  | log log => exact .inl ⟨parked, .inl log⟩
  | giveUpEarly =>
      cases parked
      exact .inr ⟨r, rfl, rfl⟩
  | park =>
      cases parked
      exact .inr ⟨r, rfl, rfl⟩
  | pause => exact .inl ⟨parked, .inr rfl⟩
  | fork =>
      dsimp only at parked
      split at parked
      · cases parked
      · split at parked <;> cases parked
  | ask | noFork | dying | recordExit => cases r <;> cases parked
  | @track first => cases first <;> cases parked
  | running | due | watch =>
      dsimp only at parked
      split at parked <;> cases parked
  | poll =>
      unfold Place.afterPoll at parked
      split at parked
      · split at parked <;> cases parked
      · split at parked <;> cases parked
  | read =>
      unfold Place.afterRead Place.afterSignal at parked
      split at parked
      · split at parked <;> cases parked
      · split at parked
        · cases parked
        · split at parked <;> cases parked
  | waitpid =>
      unfold Place.afterWaitpid at parked
      split at parked <;> cases parked
  | @forgetFinished why shortestLife childrenLeft =>
      cases why with
      | supervising =>
          cases shortestLife with
          | none => cases parked
          | some ranFor =>
              simp only [Place.afterHarvest] at parked
              split at parked <;> cases parked
      | stopping => cases childrenLeft <;> cases parked
      | silence => cases childrenLeft <;> cases parked
  | failed =>
      unfold Place.afterVerdict at parked
      split at parked <;> cases parked
  | check =>
      unfold Place.afterCheck at parked
      split at parked
      · split at parked <;> cases parked
      · cases parked
  | _ => cases parked

/-- When pid 1 is parked, the last of these commands was the one that enables Ctrl+Alt+Del. -/
theorem Path.parked_enabled {h : List Event} {p : Place} (path : Path h p) {enabled : Bool}
    (parked : p = .parked enabled) : lastCad h = some RB_ENABLE_CAD := by
  induction path generalizing enabled with
  | boot => cases parked
  | @move h q c f r t before move ih =>
      rcases move.into_parked parked with ⟨was, log | pause⟩ | ⟨r', -, same⟩
      · have last := ih was
        rwa [lastCad, List.findSome?_cons, cad_of_log log]
      · subst pause
        exact ih was
      · cases same
        rfl

variable {candidates : List Spec} {cad : Bool} {conf : Config calls (World Bool) Unit}

/-- If the place of a parked pid 1 says that Ctrl+Alt+Del is enabled, the kernel has it enabled. -/
theorem cad_kept {p : Place} {c : Call} {f : c.Res → Place} {r : c.Res} {w w' : World Bool}
    (told : ∀ enabled, p = .parked enabled → enabled = true → w.kern = true) (move : Moves p c f)
    (answer : cadKernel.Answers w c r w') {enabled : Bool} (parked : f r = .parked enabled)
    (yes : enabled = true) : w'.kern = true := by
  rcases move.into_parked parked with ⟨was, quiet⟩ | ⟨r', is, same⟩
  · have before := told enabled was yes
    cases answer with
    | mem => exact before
    | @sys s r kern answer =>
        obtain ⟨-, rfl⟩ := answer
        rcases quiet with log | pause
        · cases s <;> first | exact before | cases log
        · cases pause
          exact before
  · cases same
    cases answer with
    | sys answer =>
        obtain ⟨-, rfl⟩ := answer
        rw [yes] at is
        have success : r'.rc = 0 := of_decide_eq_true is.symm
        simp [World.called, cadAfter, success]

theorem cad_everywhere (reach : Reaches cadKernel.semantics (boot candidates cad) conf)
    (path : Path conf.world.hist (.parked true)) : conf.world.kern = true := by
  refine at_every_place (I := fun p w => ∀ enabled, p = .parked enabled → enabled = true →
    w.kern = true) ?_ ?_ ?_ reach path true rfl rfl
  · intro enabled parked
    cases parked
  · rintro p w w' told ⟨kern, ⟨⟩, rfl⟩
  · intro p c f r w w' told move answer enabled parked yes
    exact cad_kept told move answer parked yes

/-- **Pid 1 never exits and always leaves a true way out.**  Whatever the calls return:
`main` does not return; the next call is no panic and no exit, and one that belongs to the
place pid 1 is at, which is in one of five phases; parked, it has tried to enable
Ctrl+Alt+Del since it last disabled it; and it offers Ctrl+Alt+Del on the console only
while the kernel has it enabled. -/
theorem never_exits (reach : Reaches cadKernel.semantics (boot candidates cad) conf) :
    (∀ a, conf.prog ≠ .ret a) ∧
      (∀ call, conf.prog.next = some call → call.ends = false ∧
        ∃ p phase, Path conf.world.hist p ∧ p.phase = some phase ∧ p.makes call) ∧
      (∃ p phase, Path conf.world.hist p ∧ p.phase = some phase) ∧
      (∀ enabled, Path conf.world.hist (.parked enabled) →
        lastCad conf.world.hist = some RB_ENABLE_CAD) ∧
      ∀ bytes, conf.prog.next = some (Call.sys (.write STDOUT_FILENO bytes)) →
        offerLine <:+ bytes → conf.world.kern = true := by
  refine ⟨fun a returned => ?_, fun call next => ?_, ?_, fun enabled path => ?_,
    fun bytes next offer => ?_⟩
  · obtain ⟨prog, w⟩ := conf
    cases returned
    exact never_returns reach
  · obtain ⟨p, f, path, found, move⟩ := expected_of_next reach next
    obtain ⟨phase, is⟩ := Place.phase_of_found found
    exact ⟨move.goes_on, p, phase, path, is, f, move⟩
  · obtain ⟨p, path, found⟩ := exists_path reach
    obtain ⟨phase, is⟩ := Place.phase_of_found found
    exact ⟨p, phase, path, is⟩
  · exact path.parked_enabled rfl
  · obtain ⟨p, f, path, -, move⟩ := expected_of_next reach next
    cases move with
    | log log offers =>
        have parked := offers ⟨rfl, offer⟩
        subst parked
        exact cad_everywhere reach path
    | bringUp early => cases early

/-- The script in which nothing can be mounted and no shell exists. -/
def nothingThere : Script cadKernel where
  before w _ := w.kern
  answer w
    | .mount _ => some (⟨-1, ⟨19, "No such device"⟩⟩, w.kern)
    | .pathExists _ => some (false, w.kern)
    | .pause => some (⟨-1, ⟨EINTR, ""⟩⟩, w.kern)
    | s => s.smooth.map fun r => (r, cadAfter w.kern s r)
  clock _ := 0
  others := Script.still
  answers {w s r kern} h := by
    cases s with
    | mount => cases h; exact ⟨trivial, rfl⟩
    | pathExists => cases h; exact ⟨trivial, rfl⟩
    | pause => cases h; exact ⟨trivial, rfl⟩
    | _ => exact Syscall.smoothly h
  reads _ := trivial

/-- Pid 1 about to tell the console how to get out. -/
def offering : Config calls (World Bool) Unit :=
  nothingThere.driver.run (fun c => c.prog.next ==
    some (Call.sys (.write STDOUT_FILENO (asBytes (parkText "no shell in the initramfs" true)))))
    2000 (boot CANDIDATES true)

theorem offering_reachable : Reaches cadKernel.semantics (boot CANDIDATES true) offering :=
  nothingThere.driver.reaches _ _ _

theorem never_exits_without_a_shell : offering.world.kern = true := by
  have next : offering.prog.next =
      some (Call.sys (.write STDOUT_FILENO (asBytes (parkText "no shell in the initramfs" true)))) := by
    decide +kernel
  have offer : offerLine <:+ asBytes (parkText "no shell in the initramfs" true) := by
    decide +kernel
  exact (never_exits offering_reachable).2.2.2.2 _ next offer

end Zevory
