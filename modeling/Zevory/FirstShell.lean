import Zevory.Course

/-!
# The first shell

What `main` needs to come to its first shell, in every execution on any kernel: the
watched signals blocked, a descriptor to read them from, and a candidate whose path
exists.  Nothing else that goes wrong on the way keeps it from asking for a child: no
mount, no node, no console, no line of the log, nor Ctrl+Alt+Del.  Without them it parks.
-/

namespace Zevory

open Interaction Signal Power

section FirstShell

variable {K : Type} {k : Kernel K} {candidates : List Spec} {kern : K}
  {e : Execution k.semantics (boot candidates kern)} {n m : ℕ} {w : World K}

/-- Pid 1 calls `fork` at some turn. -/
def Forks (e : Execution k.semantics (boot candidates kern)) : Prop :=
  ∃ n r, e.did n = some ⟨.sys .fork, r⟩

/-- Pid 1 gives Ctrl+Alt+Del back to the kernel at some turn, with which `park` begins. -/
def Parks (e : Execution k.semantics (boot candidates kern)) : Prop :=
  ∃ n r, e.did n = some ⟨.sys (.reboot RB_ENABLE_CAD), r⟩

/-- What the first shell needs: the signals are blocked, the signalfd is opened, and after that a
candidate is found to exist. -/
structure CanStart (e : Execution k.semantics (boot candidates kern)) : Prop where
  blocks : ∃ n r, e.did n = some ⟨.sys (.sigprocmask .block (some WATCHED)), r⟩ ∧ Ret.rc r = 0
  watches : ∃ n r, e.did n = some ⟨.sys (.signalfd (-1) WATCHED SFD_CLOEXEC), r⟩ ∧ 0 ≤ Ret.rc r
  finds : ∃ n m r, n < m ∧ e.did n = some ⟨.sys (.signalfd (-1) WATCHED SFD_CLOEXEC), r⟩ ∧
    ∃ spec ∈ candidates, e.did m = some ⟨.sys (.pathExists spec.path), true⟩

/-! ## On the way -/

/-- The calls that `CanStart` and `Forks` are about, other than the lookups of the candidates. -/
def Call.tells : Call → Bool
  | .sys .fork => true
  | c => c.watches

theorem Call.quiet_of_comingUp {c : Call} (early : c.isComingUp) : c.tells = false := by
  cases c with
  | sys s => cases s <;> first | rfl | cases early
  | mem => rfl

/-- What happens from a call of `watch_signals` on: it blocks the signals and opens the signalfd, or
parks if one of these fails. -/
theorem watchSignals_goes {f : Signals → Pid1 Unit}
    (here : e.conf n = ⟨watchSignals.bind f, w⟩) :
    ∃ r, e.did n = some ⟨.sys (.sigprocmask .block (some WATCHED)), r⟩ ∧
      ((Ret.rc r ≠ 0 ∧ ∃ why w', e.conf (n + 1) = ⟨(park why).bind f, w'⟩) ∨
        (Ret.rc r = 0 ∧ ∃ r',
          e.did (n + 1) = some ⟨.sys (.signalfd (-1) WATCHED SFD_CLOEXEC), r'⟩ ∧
            ((Ret.rc r' < 0 ∧ ∃ why w', e.conf (n + 2) = ⟨(park why).bind f, w'⟩) ∨
              (0 ≤ Ret.rc r' ∧ ∃ w', e.conf (n + 2) = ⟨f ⟨Ret.rc r'⟩, w'⟩)))) := by
  simp only [watchSignals, install, Sys.blockSignals, Sys.signalFd, Prog.bind_eq, Prog.bind_assoc,
    Prog.pure_eq, Prog.ret_bind] at here
  obtain ⟨r, w₁, blocked, next⟩ := turn_sys rfl here
  refine ⟨r, blocked, ?_⟩
  by_cases ok : r.rc = 0
  · right
    simp only [Sys.check, ok, if_true, Prog.bind_assoc] at next
    obtain ⟨r', w₂, watched, next⟩ := turn_sys rfl next
    refine ⟨ok, r', watched, ?_⟩
    by_cases failed : r'.rc < 0
    · left
      simp only [Prog.ret_bind, Sys.checkFd, if_pos failed] at next
      exact ⟨failed, _, w₂, next⟩
    · right
      simp only [Prog.ret_bind, Sys.checkFd, if_neg failed] at next
      exact ⟨Int.not_lt.mp failed, w₂, next⟩
  · left
    simp only [Sys.check, if_neg ok, Prog.ret_bind] at next
    exact ⟨ok, _, w₁, next⟩

/-- `park` begins by giving Ctrl+Alt+Del back. -/
theorem park_goes {α : Type} {why : String} {f : α → Pid1 Unit}
    (here : e.conf n = ⟨(park why).bind f, w⟩) :
    ∃ r, e.did n = some ⟨.sys (.reboot RB_ENABLE_CAD), r⟩ := by
  simp only [park, Sys.enableCtrlAltDel, Prog.bind_eq, Prog.bind_assoc] at here
  obtain ⟨r, -, did, -⟩ := turn_sys rfl here
  exact ⟨r, did⟩

theorem looked_up {a b : String} {x y : Bool}
    (same : (some ⟨.sys (.pathExists a), x⟩ : Option (Did calls)) = some ⟨.sys (.pathExists b), y⟩) :
    a = b ∧ x = y := by
  cases same
  exact ⟨rfl, rfl⟩

/-- `available` looks the candidates up one after the other, and returns some exactly if one of
these lookups has found its path. -/
theorem available_goes {f : List Spec → Pid1 Unit} (specs : List Spec) {n : ℕ} {w : World K}
    (here : e.conf n = ⟨(available specs).bind f, w⟩) :
    ∃ usable w', e.conf (n + specs.length) = ⟨f usable, w'⟩ ∧
      (usable ≠ [] ↔ ∃ i, n ≤ i ∧ i < n + specs.length ∧
        ∃ spec ∈ specs, e.did i = some ⟨.sys (.pathExists spec.path), true⟩) ∧
      ∀ i, n ≤ i → i < n + specs.length →
        ∃ spec ∈ specs, ∃ r, e.did i = some ⟨.sys (.pathExists spec.path), r⟩ := by
  induction specs generalizing f n w with
  | nil =>
      refine ⟨[], w, here, ⟨fun finds => absurd rfl finds, ?_⟩, fun i from_ before => ?_⟩
      · rintro ⟨i, -, -, spec, member, -⟩
        cases member
      · exact absurd before (Nat.not_lt.mpr from_)
  | cons spec rest ih =>
      simp only [available, Prog.bind_eq, Prog.bind_assoc, Prog.pure_eq, Prog.ret_bind] at here
      obtain ⟨found, w₁, did, next⟩ := turn_sys rfl here
      obtain ⟨usable, w₂, there, finds, looks⟩ := ih next
      have later : n + 1 + rest.length = n + (spec :: rest).length := by
        rw [List.length_cons]
        omega
      rw [later] at there finds looks
      refine ⟨_, w₂, there, ?_, fun i from_ before => ?_⟩
      · cases found with
        | true =>
            exact ⟨fun _ => ⟨n, Nat.le_refl n, by omega, spec, List.mem_cons_self, did⟩,
              fun _ => List.cons_ne_nil _ _⟩
        | false =>
            refine finds.trans ⟨?_, ?_⟩
            · rintro ⟨i, after, before, other, member, found⟩
              exact ⟨i, by omega, before, other, List.mem_cons_of_mem _ member, found⟩
            · rintro ⟨i, from_, before, other, -, found⟩
              rcases Nat.eq_or_lt_of_le from_ with rfl | after
              · cases (looked_up (did.symm.trans found)).2
              · obtain ⟨looked, member, r, did'⟩ := looks i after before
                obtain ⟨-, rfl⟩ := looked_up (did'.symm.trans found)
                exact ⟨i, after, before, looked, member, did'⟩
      · rcases Nat.eq_or_lt_of_le from_ with rfl | after
        · exact ⟨spec, List.mem_cons_self, _, did⟩
        · obtain ⟨looked, member, r, did'⟩ := looks i after before
          exact ⟨looked, List.mem_cons_of_mem _ member, r, did'⟩

theorem ComesUp.leads {α : Type} {p : Pid1 α} {Q : α → Prop} (h : ComesUp p Q) {f : α → Pid1 Unit}
    (here : e.conf n = ⟨p.bind f, w⟩) :
    e.Leads (fun c _ => c.isComingUp) n fun m => ∃ a w', Q a ∧ e.conf m = ⟨f a, w'⟩ :=
  Halts.leads (fun _ _ _ did => did_promised did)
    (fun _ early => Call.comes_back (prompt_of_comingUp early)) h here

/-- `main` comes to watch its signals, whatever happens to the mounts, the nodes and the
console. -/
theorem comes_to_watch (e : Execution k.semantics (boot candidates kern)) :
    e.Leads (fun c _ => c.isComingUp) 0 fun m => ∃ failed w,
      e.conf m = ⟨watchSignals.bind fun signals => takeCtrlAltDel.bind fun _ =>
        (banner failed).bind fun _ => run candidates signals, w⟩ := by
  have here := e.start
  simp only [boot, mainWith, Prog.bind_eq] at here
  obtain ⟨pid, w₁, asked, next⟩ := turn_sys rfl here
  have first : pid = 1 := did_promised asked
  rw [if_neg (not_not.mpr first)] at next
  simp only [bringUp, Mount.mountAll, Console.ensureNodes, Prog.bind_eq, Prog.bind_assoc,
    Prog.pure_eq, Prog.ret_bind] at next
  refine .next ?_ ?_
  · intro c r did
    cases asked.symm.trans did
    rfl
  refine ((mountEach_comesUp _ _).leads next).trans fun m₁ _ mounted => ?_
  obtain ⟨failed, w₁, -, next⟩ := mounted
  refine (keepEveryMessage_comesUp.leads next).trans fun m₂ _ kept => ?_
  obtain ⟨-, w₂, -, next⟩ := kept
  refine ((ensureEach_comesUp _).leads next).trans fun m₃ _ ensured => ?_
  obtain ⟨-, w₃, -, next⟩ := ensured
  refine (openConsole_comesUp.leads next).mono (fun _ _ early => early) fun m₄ _ opened => ?_
  obtain ⟨-, w₄, -, next⟩ := opened
  exact ⟨failed, w₄, next⟩

/-- The calls that `main` makes between `watch_signals` and `available`. -/
def Call.isSettling (c : Call) : Bool :=
  c.isLog || c == .sys (.reboot RB_DISABLE_CAD)

theorem settling_of_log {c : Call} (log : c.isLog) : c.isSettling := by
  rw [Call.isSettling, log, Bool.true_or]

/-- `p` returns after finitely many such calls. -/
abbrev Settles {α : Type} (p : Pid1 α) : Prop :=
  Halts (S := calls) (fun c => c.isSettling) Promised p fun _ => True

theorem OnlyLogs.settles {α : Type} {p : Pid1 α} (logs : OnlyLogs Promised p) : Settles p :=
  Halts.subset (fun _ log => settling_of_log log) logs

theorem takeCtrlAltDel_settles : Settles takeCtrlAltDel := by
  simp only [takeCtrlAltDel, Sys.disableCtrlAltDel, Prog.bind_eq, Prog.bind_assoc, Prog.pure_eq,
    Prog.ret_bind]
  refine Halts.bind (T := fun _ => True) (Halts.perform rfl fun _ _ => trivial) fun r _ => ?_
  split
  · exact Halts.ret trivial
  · exact emit_logs.settles

theorem banner_settles {failed : ℕ} : Settles (banner failed) := by
  simp only [banner, Prog.bind_eq, Prog.pure_eq]
  refine Halts.bind toConsole_logs.settles fun _ _ => ?_
  split
  · exact toConsole_logs.settles
  · exact Halts.ret trivial

theorem Settles.leads {α : Type} {p : Pid1 α} (h : Settles p) {f : α → Pid1 Unit}
    (here : e.conf n = ⟨p.bind f, w⟩) :
    e.Leads (fun c _ => c.isSettling) n fun m => ∃ a w', e.conf m = ⟨f a, w'⟩ := by
  refine (Halts.leads (fun _ _ _ did => did_promised did) (fun c settling => ?_) h here).mono
    (fun _ _ settling => settling) fun m _ ⟨a, w', _, there⟩ => ⟨a, w', there⟩
  rw [Call.isSettling, Bool.or_eq_true] at settling
  rcases settling with log | reboot
  · exact Call.comes_back (prompt_of_log log)
  · rw [eq_of_beq reboot]
    exact ⟨⟨0, ⟨0, ""⟩⟩⟩

/-- From where the signals are watched, `main` comes to look the candidates up. -/
theorem comes_to_look {failed : ℕ} {signals : Signals}
    (here : e.conf n = ⟨takeCtrlAltDel.bind fun _ => (banner failed).bind fun _ =>
      run candidates signals, w⟩) :
    e.Leads (fun c _ => c.isSettling) n fun m => ∃ w',
      e.conf m = ⟨run candidates signals, w'⟩ := by
  refine (takeCtrlAltDel_settles.leads here).trans fun m₁ _ ⟨_, w₁, next⟩ => ?_
  exact (banner_settles.leads next).mono (fun _ _ settling => settling) fun m₂ _ ⟨_, w₂, next⟩ =>
    ⟨w₂, next⟩

/-- From where pid 1 asks for a shell it comes to a `fork`. -/
theorem Here.asks {first : Bool} (here : Here e n (.asking first)) :
    ∃ m r, n ≤ m ∧ e.did m = some ⟨.sys .fork, r⟩ := by
  obtain ⟨m, c, r, q, goes⟩ := here.next_move
  obtain ⟨f, move, rfl⟩ := goes.move
  cases move with
  | log log => exact absurd log (Bool.eq_false_iff.mp goes.matters)
  | ask =>
      cases r with
      | none =>
          obtain ⟨q, there, found⟩ := exists_here e (m + 1)
          exact absurd (there.unique goes.to_) found
      | some spec =>
          obtain ⟨m', c, r, q, goes'⟩ := goes.to_.next_move
          obtain ⟨f, move, rfl⟩ := goes'.move
          cases move with
          | log log => exact absurd log (Bool.eq_false_iff.mp goes'.matters)
          | fork =>
              have later := goes.later
              have later' := goes'.later
              exact ⟨m', r, by omega, goes'.did⟩

/-- What happens from the call of `run` on: a candidate is found and pid 1 asks for a shell, or none
is found and it parks. -/
theorem run_goes {signals : Signals} (here : e.conf n = ⟨run candidates signals, w⟩) :
    ((∃ i, n ≤ i ∧ ∃ spec ∈ candidates, e.did i = some ⟨.sys (.pathExists spec.path), true⟩) ∧
        ∃ m, n ≤ m ∧ Here e m (.asking true) ∧
          ∀ i, n ≤ i → i < m → ∀ (c : Call) (r : c.Res), e.did i = some ⟨c, r⟩ →
            c.tells = false) ∨
      ∃ m r, n ≤ m ∧ e.did m = some ⟨.sys (.reboot RB_ENABLE_CAD), r⟩ ∧
        ∀ i, n ≤ i → i < m → ∃ path, e.did i = some ⟨.sys (.pathExists path), false⟩ := by
  simp only [run, newRescue, Prog.bind_eq, Prog.bind_assoc] at here
  obtain ⟨usable, w₁, looked, finds, looks⟩ := available_goes candidates here
  cases usable with
  | nil =>
      right
      simp only [Rescue.over, List.isEmpty_nil, if_true] at looked
      obtain ⟨r, did⟩ := park_goes looked
      refine ⟨_, r, Nat.le_add_right _ _, did, fun i from_ before => ?_⟩
      obtain ⟨spec, member, found, did⟩ := looks i from_ before
      cases found with
      | false => exact ⟨_, did⟩
      | true => exact absurd rfl (finds.mpr ⟨i, from_, before, spec, member, did⟩)
  | cons spec rest =>
      left
      obtain ⟨i, from_, -, found⟩ := finds.mp (List.cons_ne_nil spec rest)
      refine ⟨⟨i, from_, found⟩, ?_⟩
      simp only [Rescue.over, List.isEmpty_cons, Bool.false_eq_true, if_false] at looked
      obtain ⟨_, w₂, kept, next⟩ := turn_mem looked
      obtain ⟨_, w₃, made, -⟩ := turn_mem next
      obtain ⟨p, there, -⟩ := exists_here e _
      obtain ⟨f, move, asking⟩ := there.move made
      cases move with
      | log log => cases log
      | bringUp early => cases early
      | tableNew =>
          refine ⟨_, by omega, asking, fun i from_ before c r did => ?_⟩
          rcases Nat.lt_or_ge i (n + candidates.length) with looking | looked
          · obtain ⟨spec, member, r', did'⟩ := looks i from_ looking
            cases did.symm.trans did'
            rfl
          · rcases Nat.eq_or_lt_of_le looked with rfl | after
            · cases did.symm.trans kept
              rfl
            · cases Nat.le_antisymm after (Nat.lt_succ_iff.mp before)
              cases did.symm.trans made
              rfl

/-- In every execution pid 1 forks or parks. -/
theorem forks_or_parks (e : Execution k.semantics (boot candidates kern)) : Forks e ∨ Parks e := by
  obtain ⟨m, -, ⟨failed, w, here⟩, -⟩ := comes_to_watch e
  obtain ⟨r, -, ⟨-, why, w', parks⟩ | ⟨-, r', -, rest⟩⟩ := watchSignals_goes here
  · exact .inr ⟨_, park_goes parks⟩
  · rcases rest with ⟨-, why, w', parks⟩ | ⟨-, w', next⟩
    · exact .inr ⟨_, park_goes parks⟩
    · obtain ⟨m₂, -, ⟨w₂, looks⟩, -⟩ := comes_to_look next
      rcases run_goes looks with ⟨-, m₃, -, asking, -⟩ | ⟨m₃, r₃, -, parked, -⟩
      · obtain ⟨m₄, r₄, -, forks⟩ := asking.asks
        exact .inl ⟨m₄, r₄, forks⟩
      · exact .inr ⟨m₃, r₃, parked⟩

/-- The calls of `park` that follow its first one. -/
def Call.isParking (c : Call) : Bool :=
  c.isLog || c == .sys .pause || c == .sys (.reboot RB_ENABLE_CAD)

theorem parking_of_parks {r : Ret} (parks : e.did n = some ⟨.sys (.reboot RB_ENABLE_CAD), r⟩)
    {c : Call} {r' : c.Res} (later : n ≤ m) (did : e.did m = some ⟨c, r'⟩) : c.isParking := by
  rcases Nat.eq_or_lt_of_le later with rfl | after
  · cases parks.symm.trans did
    rfl
  · obtain ⟨p, here, -⟩ := exists_here e n
    obtain ⟨f, move, there⟩ := here.move parks
    have parked : ∃ enabled, f r = .parked enabled := by
      generalize command : RB_ENABLE_CAD = enable at move
      cases move with
      | log log => cases log
      | bringUp early =>
          subst command
          cases early
      | giveUpEarly | park => exact ⟨_, rfl⟩
      | @handOver action =>
          cases action <;> cases command
    obtain ⟨enabled, at_⟩ := parked
    rw [at_] at there
    obtain ⟨g, move, -⟩ := (there.parked after).move did
    cases move with
    | log log => simp only [Call.isParking, log, Bool.true_or]
    | pause => rfl

theorem Call.quiet_of_parking {c : Call} (parking : c.isParking) : c.tells = false := by
  cases c with
  | sys s => cases s <;> first | rfl | cases parking
  | mem => rfl

theorem Call.quiet_of_settling {c : Call} (settling : c.isSettling) : c.tells = false := by
  cases c with
  | sys s => cases s <;> first | rfl | cases settling
  | mem => rfl

/-- If only two consecutive calls may fork or watch signals, and neither of them is `fork`, then pid
1 never forks. -/
theorem not_forks {c c' : Call} {r : c.Res} {r' : c'.Res}
    (quiet : ∀ i, i ≠ n → i ≠ n + 1 → ∀ (c : Call) (r : c.Res),
      e.did i = some ⟨c, r⟩ → c.tells = false)
    (first : e.did n = some ⟨c, r⟩) (second : e.did (n + 1) = some ⟨c', r'⟩)
    (notFork : c ≠ .sys .fork) (notFork' : c' ≠ .sys .fork) : ¬ Forks e := by
  rintro ⟨i, r, forks⟩
  by_cases at_ : i = n
  · subst at_
    cases first.symm.trans forks
    exact notFork rfl
  · by_cases next : i = n + 1
    · subst next
      cases second.symm.trans forks
      exact notFork' rfl
    · cases quiet i at_ next _ _ forks

/-- **The first shell.**  In every execution of `main`, on any kernel, pid 1 asks for a child
exactly if the watched signals could be blocked, a descriptor for them was to be had, and one
of the candidates was found after that; otherwise it parks.  So no other failure on the way
keeps the first shell from being started. -/
theorem first_shell_exactly_when (e : Execution k.semantics (boot candidates kern)) :
    (Forks e ↔ CanStart e) ∧ (Forks e ∨ Parks e) := by
  refine ⟨?_, forks_or_parks e⟩
  obtain ⟨m, -, ⟨failed, w, here⟩, rises⟩ := comes_to_watch e
  have before : ∀ i, i < m → ∀ (c : Call) (r : c.Res), e.did i = some ⟨c, r⟩ → c.tells = false :=
    fun i early c r did => Call.quiet_of_comingUp (rises i (Nat.zero_le i) early c r did)
  obtain ⟨r, blocked, ⟨refused, why, w', parks⟩ | ⟨ok, r', watched, rest⟩⟩ := watchSignals_goes here
  · -- the signals cannot be blocked
    obtain ⟨r₁, parked⟩ := park_goes parks
    have quiet : ∀ i, i ≠ m → ∀ (c : Call) (r : c.Res), e.did i = some ⟨c, r⟩ →
        c.tells = false := by
      intro i other c r did
      rcases Nat.lt_or_gt_of_ne other with early | late
      · exact before i early c r did
      · exact Call.quiet_of_parking (parking_of_parks parked late did)
    have never : ¬ Forks e :=
      not_forks (fun i other _ => quiet i other) blocked parked nofun nofun
    refine ⟨fun forks => absurd forks never, fun can => ?_⟩
    obtain ⟨i, r', did, ok⟩ := can.blocks
    by_cases at_ : i = m
    · subst at_
      cases blocked.symm.trans did
      exact absurd ok refused
    · cases quiet i at_ _ _ did
  · rcases rest with ⟨refused, why, w', parks⟩ | ⟨watching, w', next⟩
    · -- there is no descriptor for them
      obtain ⟨r₁, parked⟩ := park_goes parks
      have quiet : ∀ i, i ≠ m → i ≠ m + 1 → ∀ (c : Call) (r : c.Res), e.did i = some ⟨c, r⟩ →
          c.tells = false := by
        intro i other other' c r did
        rcases Nat.lt_or_gt_of_ne other with early | late
        · exact before i early c r did
        · exact Call.quiet_of_parking (parking_of_parks parked (by omega) did)
      have never : ¬ Forks e := not_forks quiet blocked watched nofun nofun
      refine ⟨fun forks => absurd forks never, fun can => ?_⟩
      obtain ⟨i, r₂, did, ok'⟩ := can.watches
      by_cases at_ : i = m
      · subst at_
        cases blocked.symm.trans did
      · by_cases at' : i = m + 1
        · subst at'
          cases watched.symm.trans did
          exact absurd ok' (Int.not_le.mpr refused)
        · cases quiet i at_ at' _ _ did
    · obtain ⟨m₂, later, ⟨w₂, looks⟩, settling⟩ := comes_to_look next
      rcases run_goes looks with ⟨found, m₃, -, asking, -⟩ | ⟨m₃, r₃, later', parked, missing⟩
      · obtain ⟨i, after, spec, member, did⟩ := found
        have can : CanStart e := ⟨⟨m, r, blocked, ok⟩, ⟨m + 1, r', watched, watching⟩,
          ⟨m + 1, i, r', by omega, watched, spec, member, did⟩⟩
        obtain ⟨m₄, r₄, -, forks⟩ := asking.asks
        have forks : Forks e := ⟨m₄, r₄, forks⟩
        exact ⟨fun _ => can, fun _ => forks⟩
      · -- there is no candidate
        have quiet : ∀ i, i ≠ m → i ≠ m + 1 → ∀ (c : Call) (r : c.Res), e.did i = some ⟨c, r⟩ →
            c.tells = false := by
          intro i other other' c r did
          rcases Nat.lt_or_gt_of_ne other with early | late
          · exact before i early c r did
          rcases Nat.lt_or_ge i m₂ with settled | looking
          · exact Call.quiet_of_settling (settling i (by omega) settled c r did)
          rcases Nat.lt_or_ge i m₃ with looked | gone
          · obtain ⟨path, found⟩ := missing i looking looked
            cases found.symm.trans did
            rfl
          · exact Call.quiet_of_parking (parking_of_parks parked gone did)
        have never : ¬ Forks e := not_forks quiet blocked watched nofun nofun
        refine ⟨fun forks => absurd forks never, fun can => ?_⟩
        obtain ⟨i, j, r₂, after, did, spec, -, found⟩ := can.finds
        by_cases at_ : i = m
        · subst at_
          cases blocked.symm.trans did
        by_cases at' : i = m + 1
        · rcases Nat.lt_or_ge j m₂ with settled | looking
          · cases settling j (by omega) settled _ _ found
          rcases Nat.lt_or_ge j m₃ with looked | gone
          · obtain ⟨path, lost⟩ := missing j looking looked
            cases (looked_up (lost.symm.trans found)).2
          · cases parking_of_parks parked gone found
        · cases quiet i at_ at' _ _ did

end FirstShell

end Zevory
