import Zevory.Shutdown
import Zevory.Tidy

/-!
# What pid 1 makes of the lives of its shells

The rescue machine run over a list of lifetimes, newest first, says which shells are
started and what is made of every death.  `Books` relates it to the history of pid 1 on
any kernel, place by place, up to a request for a shutdown.
-/

namespace Zevory

open Interaction Signal

/-! ## The rescue machine over lifetimes -/

/-- What pid 1 makes of a death: a survival or a failure, with the verdict of the rescue machine. -/
inductive Account
  | survived
  | failed (verdict : Option Verdict)
  deriving DecidableEq, Repr

namespace Account

/-- The account is the failure after which no candidate is left. -/
def isLast : Account → Bool
  | .failed (some .outOfOptions) => true
  | _ => false

/-- The account is a failure with which the machine moves to the next candidate. -/
def moves : Account → Bool
  | .failed (some (.movedOn _)) => true
  | _ => false

end Account

namespace Rescue

/-- The account of one lifetime, and the machine after it. -/
def account (r : Rescue) (ranFor : ℕ) : Account × Rescue :=
  if ranFor ≥ RESPAWN_IS_TOO_FAST then (.survived, r.survived)
  else (.failed r.failed.1, r.failed.2)

/-- The machine after some lifetimes, the newest of which is first. -/
def after (r : Rescue) : List ℕ → Rescue
  | [] => r
  | ranFor :: lives => ((r.after lives).account ranFor).2

/-- The accounts of some lifetimes, newest first. -/
def accountsOf (r : Rescue) : List ℕ → List Account
  | [] => []
  | ranFor :: lives => ((r.after lives).account ranFor).1 :: r.accountsOf lives

/-- The shell that the machine names, with its index among the candidates. -/
def nextStart (r : Rescue) : List (ℕ × Spec) :=
  (r.shell.map fun spec => (r.at_, spec)).toList

/-- The shells that had these lifetimes, newest first. -/
def startsBefore (r : Rescue) : List ℕ → List (ℕ × Spec)
  | [] => []
  | _ :: lives => (r.after lives).nextStart ++ r.startsBefore lives

/-- The shells that had these lifetimes, and before them the one that is started next. -/
def startsAfter (r : Rescue) (lives : List ℕ) : List (ℕ × Spec) :=
  (r.after lives).nextStart ++ r.startsBefore lives

/-- The machine moves to the next candidate exactly with the account that says so. -/
theorem account_at (r : Rescue) (ranFor : ℕ) :
    (r.account ranFor).2.at_ = r.at_ + if (r.account ranFor).1.moves then 1 else 0 := by
  unfold account
  split
  · rfl
  · unfold failed
    dsimp only
    split
    · rfl
    · split
      · rfl
      · rename_i more
        have inRange : r.at_ + 1 < r.usable.length := Nat.lt_of_not_ge more
        simp [shell, List.getElem?_eq_getElem inRange, Account.moves]

theorem after_at (r : Rescue) (lives : List ℕ) :
    (r.after lives).at_ = r.at_ + ((r.accountsOf lives).filter Account.moves).length := by
  induction lives with
  | nil => rfl
  | cons ranFor lives ih =>
      rw [after, account_at, ih, accountsOf, List.filter_cons]
      split <;> simp [Nat.add_assoc]

end Rescue

/-! ## Reading a history -/

namespace Event

/-- The lifetime with which the exit of a shell is recorded. -/
def life : Event → Option ℕ
  | ⟨.mem (.recordExit _ _), gone, _⟩ => Option.map Departed.ranFor gone
  | _ => none

/-- The account that an event makes of a lifetime. -/
def account : Event → Option Account
  | ⟨.mem .survived, _, _⟩ => some .survived
  | ⟨.mem .failed, verdict, _⟩ => some (.failed verdict)
  | _ => none

/-- The event is a `fork` that has returned a child. -/
def forks : Event → Bool
  | ⟨.sys .fork, r, _⟩ => decide (0 < Ret.rc r)
  | _ => false

/-- The shell that the rescue machine has named in this event. -/
def shell : Event → Option Spec
  | ⟨.mem .rescueShell, spec, _⟩ => spec
  | _ => none

/-- The rescue machine that is set up in this event. -/
def sets : Event → Option Rescue
  | ⟨.mem (.rescueNew r), _, _⟩ => some r
  | _ => none

/-- The event sets the respawn time. -/
def delays : Event → Bool
  | ⟨.mem (.setRespawnAt _), _, _⟩ => true
  | _ => false

end Event

/-- The recorded lifetimes of the shells, newest first. -/
def lifetimes (h : List Event) : List ℕ := h.filterMap Event.life

/-- The accounts that were made, newest first. -/
def accounts (h : List Event) : List Account := h.filterMap Event.account

/-- The number of times that pid 1 has moved to the next candidate. -/
def moves (h : List Event) : ℕ := ((accounts h).filter Account.moves).length

/-- The shell that the rescue machine has named last. -/
def lastShell (h : List Event) : Option Spec := h.findSome? Event.shell

/-- The shells that were started, newest first, each with the number of candidates given up
by then. -/
def starts : List Event → List (ℕ × Spec)
  | [] => []
  | e :: h =>
      if e.forks then ((lastShell h).map fun spec => (moves h, spec)).toList ++ starts h
      else starts h

/-- The rescue machine pid 1 began with. -/
def firstRescue (h : List Event) : Rescue := (h.findSome? Event.sets).getD Mem.boot.rescue

/-- The number of times that the respawn time was set. -/
def delays (h : List Event) : ℕ := (h.filter Event.delays).length

/-- No shutdown was asked for. -/
def Unasked (h : List Event) : Prop := ∀ e ∈ h, e.asks = none

theorem Unasked.tail {e : Event} {h : List Event} (unasked : Unasked (e :: h)) : Unasked h :=
  fun e' member => unasked e' (List.mem_cons_of_mem _ member)

instance (h : List Event) : Decidable (Unasked h) :=
  inferInstanceAs (Decidable (∀ e ∈ h, e.asks = none))

/-! ## The books -/

namespace Place

/-- What each place says about the lifetime that is still to be accounted for. -/
def pends (pending : Option ℕ) : Place → Prop
  | .reaping _ shortestLife => pending = shortestLife
  | .crediting _ shortestLife _ _ => pending = shortestLife
  | .harvested _ shortestLife _ => pending = shortestLife
  | .surviving => ∃ ranFor, pending = some ranFor ∧ ranFor ≥ RESPAWN_IS_TOO_FAST
  | .failing => ∃ ranFor, pending = some ranFor ∧ ranFor < RESPAWN_IS_TOO_FAST
  | .backingOff _ => ∃ ranFor, pending = some ranFor ∧ ranFor < RESPAWN_IS_TOO_FAST
  | .dying => ∃ ranFor, pending = some ranFor ∧ ranFor < RESPAWN_IS_TOO_FAST
  | .striking => ∃ ranFor, pending = some ranFor ∧ ranFor < RESPAWN_IS_TOO_FAST
  | .lost => True
  | _ => pending = none

/-- The place at which a shell was started that is not in the table yet. -/
def isForked : Place → Bool
  | .forked _ _ _ => true
  | _ => false

/-- The shell that is about to be started is the one the rescue machine has named. -/
def chose (named : Option Spec) (rescue : Rescue) : Place → Prop
  | .chosen _ spec => named = some spec ∧ rescue.shell = some spec
  | _ => True

/-- The number of times the respawn time was set without a failure, at the places where it is known.
-/
def delayed : Place → Option ℕ
  | .bringUp => some 0
  | .asking first => some (if first then 0 else 1)
  | .chosen first _ => some (if first then 0 else 1)
  | .forked first _ _ => some (if first then 0 else 1)
  | .up => some 0
  | .dying => some 2
  | .striking => some 2
  | .noFork => none
  | .parking => none
  | .parked _ => none
  | .lost => none
  | _ => some 1

end Place

/-- The number of failures among some accounts. -/
def failures (as : List Account) : ℕ := (as.filter fun a => a != .survived).length

/-- A shell was started whose death is not accounted for yet. -/
def Place.begun (p : Place) (shells : List Int) (pending : Option ℕ) : Bool :=
  p.isForked || !shells.isEmpty || pending.isSome

/-- The books of pid 1: its history and memory agree with the rescue machine it has begun with,
after the lifetimes `done` that are accounted for, while `pending` is the one that is not. -/
structure Books {K : Type} (p : Place) (pending : Option ℕ) (done : List ℕ) (w : World K) :
    Prop where
  lives : lifetimes w.hist = pending.toList ++ done
  accounts : accounts w.hist = (firstRescue w.hist).accountsOf done
  rescue : w.mem.rescue = (firstRescue w.hist).after done
  starts : starts w.hist =
    if p.begun w.mem.table.shells pending then (firstRescue w.hist).startsAfter done
    else (firstRescue w.hist).startsBefore done
  pends : p.pends pending
  dead : pending.isSome → w.mem.table.shells = []
  chose : p.chose (lastShell w.hist) w.mem.rescue
  delays : ∀ extra, p.delayed = some extra →
    Zevory.delays w.hist = failures (Zevory.accounts w.hist) + extra
  early : p = .bringUp → done = []
  fresh : (firstRescue w.hist).at_ = 0 ∧ (firstRescue w.hist).strikes = 0
  last : ∀ a ∈ if p.isOver && !p.begun w.mem.table.shells pending then (Zevory.accounts w.hist).tail
    else Zevory.accounts w.hist, a.isLast = false

/-! ## Calls that are not in the books -/

/-- The calls that neither start a shell nor record the exit of one, and change neither the rescue
machine nor the respawn time nor the running entries. -/
def Call.keepsBooks : Call → Bool
  | .sys .fork => false
  | .mem .tableNew => false
  | .mem (.track _ _ _) => false
  | .mem (.recordExit _ _) => false
  | .mem (.rescueNew _) => false
  | .mem .survived => false
  | .mem .failed => false
  | .mem (.setRespawnAt _) => false
  | _ => true

variable {K : Type} {k : Kernel K} {p q : Place} {w w' : World K} {c : Call}
  {f : c.Res → Place} {r : c.Res} {pending : Option ℕ} {done : List ℕ} {h : List Event} {t : ℕ}

/-- The two histories have the same entries in the books. -/
structure SameBooks (h h' : List Event) : Prop where
  lives : lifetimes h' = lifetimes h
  accounts : accounts h' = accounts h
  starts : starts h' = starts h
  first : firstRescue h' = firstRescue h
  delays : delays h' = delays h

theorem same_books (keeps : c.keepsBooks) : SameBooks h (⟨c, r, t⟩ :: h) := by
  cases c with
  | sys s => cases s <;> first | exact ⟨rfl, rfl, rfl, rfl, rfl⟩ | cases keeps
  | mem o => cases o <;> first | exact ⟨rfl, rfl, rfl, rfl, rfl⟩ | cases keeps

theorem same_memory (answer : k.Answers w c r w') (keeps : c.keepsBooks) :
    w'.mem.rescue = w.mem.rescue ∧ w'.mem.table.shells = w.mem.table.shells := by
  cases answer with
  | sys => exact ⟨rfl, rfl⟩
  | @mem o =>
      cases o with
      | forgetFinished => exact ⟨rfl, w.mem.table.shells_forgetFinished⟩
      | _ => first | exact ⟨rfl, rfl⟩ | cases keeps

theorem keeps_of_log (log : c.isLog) : c.keepsBooks ∧ Event.shell ⟨c, r, t⟩ = none := by
  cases c with
  | sys s => cases s <;> first | exact ⟨rfl, rfl⟩ | cases log
  | mem o => cases o <;> first | exact ⟨rfl, rfl⟩ | cases log

/-- A call that makes no entry keeps the books, if its places say the same about them. -/
theorem Books.to (books : Books p pending done w) (answer : k.Answers w c r w')
    (keeps : c.keepsBooks) (forked : p.isForked = q.isForked) (pends : q.pends pending)
    (chose : q.chose (lastShell w'.hist) w.mem.rescue)
    (early : q ≠ .bringUp ∨ p = .bringUp) (delayed : q.delayed = none ∨ q.delayed = p.delayed)
    (ended : p.isOver = false ∨ q.isOver = true) : Books q pending done w' := by
  obtain ⟨rescue, shells⟩ := same_memory answer keeps
  have same : SameBooks w.hist w'.hist := answer.hist ▸ same_books keeps
  refine ⟨?_, ?_, ?_, ?_, pends, ?_, ?_, ?_, ?_, ?_, ?_⟩
  · rw [same.lives, books.lives]
  · rw [same.accounts, same.first, books.accounts]
  · rw [rescue, same.first, books.rescue]
  · rw [same.starts, same.first, books.starts, shells, Place.begun, Place.begun, forked]
  · rw [shells]
    exact books.dead
  · rw [rescue]
    exact chose
  · intro extra known
    rw [same.delays, same.accounts]
    rcases delayed with unknown | kept
    · rw [unknown] at known
      cases known
    · exact books.delays extra (kept ▸ known)
  · intro isEarly
    rcases early with late | early
    · exact absurd isEarly late
    · exact books.early early
  · rw [same.first]
    exact books.fresh
  · have begun : q.begun w'.mem.table.shells pending = p.begun w.mem.table.shells pending := by
      rw [shells, Place.begun, Place.begun, forked]
    intro a member
    have last := books.last
    rw [same.accounts, begun] at member
    rcases ended with up | ended
    · rw [up] at last
      refine last a ?_
      split at member
      · exact List.mem_of_mem_tail member
      · exact member
    · rw [ended] at member
      cases busy : p.begun w.mem.table.shells pending with
      | true =>
          rw [busy, Bool.not_true, Bool.and_false] at last
          rw [busy] at member
          exact last a member
      | false =>
          rw [busy] at last member
          split at last
          · exact last a member
          · exact last a (List.mem_of_mem_tail member)

/-- Calls of the log keep the books. -/
theorem Books.log (books : Books p pending done w) (answer : k.Answers w c r w')
    (log : c.isLog) : Books p pending done w' := by
  obtain ⟨keeps, silent⟩ := keeps_of_log (r := r) (t := k.time w.kern) log
  refine books.to answer keeps rfl books.pends ?_ ?_ (.inr rfl) ?_
  · rw [answer.hist, lastShell, List.findSome?_cons, silent]
    exact books.chose
  · exact (Decidable.em (p = .bringUp)).symm
  · cases ended : p.isOver with
    | true => exact .inr rfl
    | false => exact .inl rfl

/-! ## The entries -/

/-- When there is no shell without an account, the shells started are those of the lifetimes
accounted for. -/
theorem starts_idle (books : Books p pending done w)
    (idle : p.begun w.mem.table.shells pending = false) :
    starts w.hist = (firstRescue w.hist).startsBefore done := by
  rw [books.starts, idle]
  rfl

/-- While there is such a shell, it is one more. -/
theorem starts_busy (books : Books p pending done w)
    (busy : p.begun w.mem.table.shells pending = true) :
    starts w.hist = (firstRescue w.hist).startsAfter done := by
  rw [books.starts, if_pos busy]

/-- The number of moves to the next candidate is the index of the candidate the machine is at. -/
theorem Books.moves (books : Books p pending done w) :
    moves w.hist = ((firstRescue w.hist).after done).at_ := by
  rw [Rescue.after_at, books.fresh.1, Zevory.moves, books.accounts, Nat.zero_add]

theorem begun_of_dead {shells : List Int} {pending : Option ℕ} (dead : shells = [])
    (forked : p.isForked = false) : p.begun shells pending = pending.isSome := by
  rw [Place.begun, forked, dead]
  rfl

theorem books_rescueNew {rescue : Rescue} {r : Unit} (books : Books .bringUp pending done w)
    (early : Call.isBringUp (.mem (.rescueNew rescue))) (shells : w.mem.table.shells = [])
    (answer : k.Answers w (.mem (.rescueNew rescue)) r w') : Books .bringUp none [] w' := by
  have first : done = [] := books.early rfl
  have nothing : pending = none := books.pends
  have fresh : rescue.at_ = 0 ∧ rescue.strikes = 0 := by
    simpa [Call.isBringUp] using early
  subst first nothing
  have idle : Place.bringUp.begun w.mem.table.shells none = false := begun_of_dead shells rfl
  have before := starts_idle books idle
  cases answer with
  | mem =>
      refine ⟨books.lives, books.accounts, rfl, ?_, rfl, nofun, trivial, books.delays, fun _ => rfl,
        fresh, books.last⟩
      exact before.trans (if_neg (Bool.eq_false_iff.mp idle)).symm

theorem books_tableNew {r : Unit} (books : Books .bringUp pending done w)
    (shells : w.mem.table.shells = []) (answer : k.Answers w (.mem .tableNew) r w') :
    Books (.asking true) pending done w' := by
  have nothing : pending = none := books.pends
  subst nothing
  have before := starts_idle books (begun_of_dead shells rfl)
  cases answer with
  | mem => exact ⟨books.lives, books.accounts, books.rescue, before, rfl, nofun, trivial,
      books.delays, nofun, books.fresh, books.last⟩

theorem books_fork {first : Bool} {spec : Spec} {r : Ret}
    (books : Books (.chosen first spec) pending done w) (shells : w.mem.table.shells = [])
    (answer : k.Answers w (.sys .fork) r w') :
    Books (if r.rc = -1 then .noFork else if r.rc = 0 then .lost else .forked first spec r.rc)
      pending done w' := by
  have nothing : pending = none := books.pends
  have promised : r.rc = -1 ∨ 1 < r.rc := answer.promised
  subst nothing
  have before := starts_idle books (begun_of_dead shells rfl)
  have counted : starts w'.hist =
      if 0 < r.rc then
        ((lastShell w.hist).map fun spec => (moves w.hist, spec)).toList ++ starts w.hist
      else starts w.hist := by
    rw [answer.hist, starts]
    by_cases child : 0 < r.rc <;> simp [Event.forks, child]
  cases answer with
  | sys =>
      rcases promised with failed | parent
      · have noChild : ¬ 0 < r.rc := by omega
        rw [if_neg noChild] at counted
        rw [if_pos failed]
        refine ⟨books.lives, books.accounts, books.rescue, ?_, rfl, nofun, trivial, nofun, nofun,
          books.fresh, books.last⟩
        have idle : Place.noFork.begun w.mem.table.shells none = false := begun_of_dead shells rfl
        exact (counted.trans before).trans (if_neg (Bool.eq_false_iff.mp idle)).symm
      · have notFailed : r.rc ≠ -1 := by omega
        have notChild : r.rc ≠ 0 := by omega
        have child : 0 < r.rc := by omega
        rw [if_pos child] at counted
        rw [if_neg notFailed, if_neg notChild]
        refine ⟨books.lives, books.accounts, books.rescue, ?_, rfl, nofun, trivial, books.delays,
          nofun, books.fresh, books.last⟩
        obtain ⟨named, shell⟩ := books.chose
        rw [books.rescue] at shell
        rw [named, before, books.moves] at counted
        refine counted.trans ?_
        change _ = ((firstRescue w.hist).after done).nextStart ++ _
        rw [Rescue.nextStart, shell]
        rfl

theorem books_track {first : Bool} {spec : Spec} {pid : Int} {r : Unit}
    (books : Books (.forked first spec pid) pending done w)
    (tidy : Tidy (.forked first spec pid) w.mem.table)
    (answer : k.Answers w (.mem (.track spec.name pid spec.wantsOwnSession)) r w') :
    Books (if first then .up else .waiting BACKOFF_CHECK_MS) pending done w' := by
  have shells := (tidy_track tidy answer).1
  have nothing : pending = none := books.pends
  subst nothing
  have before := starts_busy books rfl
  cases answer with
  | mem =>
      refine ⟨books.lives, books.accounts, books.rescue, ?_, ?_, nofun, ?_, ?_, ?_, books.fresh, ?_⟩
      · rw [shells]
        cases first <;> exact before
      · cases first <;> rfl
      · cases first <;> trivial
      · cases first <;> exact books.delays
      · cases first <;> nofun
      · cases first <;> exact books.last

theorem lifetimes_recordExit (pid : Int) (status : Status) (gone : Option Departed) :
    lifetimes (⟨.mem (.recordExit pid status), gone, t⟩ :: h) =
      (gone.map Departed.ranFor).toList ++ lifetimes h := by
  cases gone <;> rfl

/-- When the exit of a running shell is recorded, no other lifetime is still to be accounted for. -/
theorem Books.alive (books : Books p pending done w) {pid : Int} {status : Status} {now : ℕ}
    {departed : Departed} (gone : (w.mem.table.recordExit pid status now).1 = some departed) :
    pid ∈ w.mem.table.shells ∧ pending = none := by
  have member : pid ∈ w.mem.table.shells := Table.recordExit_known gone
  refine ⟨member, ?_⟩
  cases pending with
  | none => rfl
  | some ranFor =>
      rw [books.dead rfl] at member
      cases member

/-- The exit of a shell makes its lifetime the pending one, and the exit of any other process
changes nothing. -/
theorem books_recordExit {shortestLife : Option ℕ} {pid : Int} {status : Status}
    {r : Option Departed}
    (books : Books (.crediting .supervising shortestLife pid status) pending done w)
    (tidy : Tidy (.crediting .supervising shortestLife pid status) w.mem.table)
    (answer : k.Answers w (.mem (.recordExit pid status)) r w') :
    ∃ pending', Books (Place.afterCredit .supervising shortestLife r) pending' done w' := by
  have same : pending = shortestLife := books.pends
  subst same
  cases answer with
  | @mem o now =>
      have lives : lifetimes (w.updated (k.time w.kern) (.recordExit pid status) now).hist =
          ((w.mem.table.recordExit pid status now).1.map Departed.ranFor).toList ++
            (pending.toList ++ done) := by
        rw [← books.lives]
        exact lifetimes_recordExit pid status _
      cases gone : (w.mem.table.recordExit pid status now).1 with
      | none =>
          have shells := Table.recordExit_unknown gone
          refine ⟨pending, ?_⟩
          simp only [MemOp.run, gone]
          refine ⟨?_, books.accounts, books.rescue, ?_, rfl, ?_, trivial, books.delays,
            Place.noConfusion, books.fresh, books.last⟩
          · refine lives.trans ?_
            rw [gone]
            rfl
          · simp only [World.updated, MemOp.run, shells]
            exact books.starts
          · simp only [World.updated, MemOp.run, shells]
            exact books.dead
      | some departed =>
          obtain ⟨member, alive⟩ := books.alive gone
          subst alive
          have empty : w.mem.table.shells.erase pid = [] := by
            have length := List.length_erase_of_mem member
            have few : w.mem.table.shells.length ≤ 1 := tidy.few
            exact List.length_eq_zero_iff.mp (by omega)
          have shells := (w.mem.table.recordExit_shells pid status now).2
          rw [empty] at shells
          refine ⟨some departed.ranFor, ?_⟩
          simp only [MemOp.run, gone]
          have busy : Place.begun (.crediting .supervising none pid status) w.mem.table.shells
              none = true := by
            cases all : w.mem.table.shells with
            | nil =>
                rw [all] at member
                cases member
            | cons => rfl
          have before := starts_busy books busy
          refine ⟨?_, books.accounts, books.rescue, ?_, rfl, fun _ => shells, trivial, books.delays,
            Place.noConfusion, books.fresh, books.last⟩
          · refine lives.trans ?_
            rw [gone]
            rfl
          · rw [if_pos (by simp [Place.begun])]
            exact before

/-- When the pending lifetime is accounted for, the shells started are those of the lifetimes
accounted for. -/
theorem starts_accounted {ranFor : ℕ} (books : Books p (some ranFor) done w) :
    starts w.hist = (firstRescue w.hist).startsBefore (ranFor :: done) :=
  starts_busy books (by simp [Place.begun])

theorem books_survived {r : Unit} (books : Books .surviving pending done w)
    (answer : k.Answers w (.mem .survived) r w') : ∃ done', Books .loopHead none done' w' := by
  obtain ⟨ranFor, rfl, long⟩ := books.pends
  have dead := books.dead rfl
  have entry : ((firstRescue w.hist).after done).account ranFor =
      (.survived, ((firstRescue w.hist).after done).survived) := if_pos long
  refine ⟨ranFor :: done, ?_⟩
  cases answer with
  | mem =>
      refine ⟨books.lives, ?_, ?_, ?_, rfl, nofun, trivial, books.delays, nofun, books.fresh, ?_⟩
      · change Account.survived :: accounts w.hist =
          (((firstRescue w.hist).after done).account ranFor).1 :: _
        rw [entry, books.accounts]
        rfl
      · change w.mem.rescue.survived = (((firstRescue w.hist).after done).account ranFor).2
        rw [entry, books.rescue]
      · have idle : Place.loopHead.begun w.mem.table.shells none = false := begun_of_dead dead rfl
        exact (starts_accounted books).trans (if_neg (Bool.eq_false_iff.mp idle)).symm
      · intro a member
        rcases List.mem_cons.mp member with rfl | old
        · rfl
        · exact books.last a old

/-- The operation that sets the respawn time keeps the books, at the start of `supervise` and before
a failure. -/
theorem books_setRespawnAt {respawnAt : ℕ} (extra : ℕ) {r : Unit} (books : Books p pending done w)
    (answer : k.Answers w (.mem (.setRespawnAt respawnAt)) r w') (settled : p.isForked = q.isForked)
    (pends : q.pends pending) (chose : q.chose (lastShell w.hist) w.mem.rescue)
    (before : p.delayed = some extra) (after : q.delayed = some (extra + 1)) (late : q ≠ .bringUp)
    (ended : p.isOver = q.isOver) : Books q pending done w' := by
  cases answer with
  | mem =>
      refine ⟨books.lives, books.accounts, books.rescue, ?_, pends, books.dead, chose, ?_,
        fun early => absurd early late, books.fresh, ?_⟩
      · have same := books.starts
        rw [Place.begun, settled] at same
        exact same
      · intro extra' known
        rw [after] at known
        cases known
        exact congrArg (· + 1) (books.delays extra before)
      · have last := books.last
        rw [ended, Place.begun, settled] at last
        exact last

theorem books_failed {r : Option Verdict} (books : Books .striking pending done w)
    (answer : k.Answers w (.mem .failed) r w') :
    ∃ done', Books (Place.afterVerdict r) none done' w' := by
  obtain ⟨ranFor, rfl, short⟩ := books.pends
  have dead := books.dead rfl
  have entry : ((firstRescue w.hist).after done).account ranFor =
      (.failed ((firstRescue w.hist).after done).failed.1,
        ((firstRescue w.hist).after done).failed.2) := if_neg (Nat.not_le.mpr short)
  refine ⟨ranFor :: done, ?_⟩
  have next : (Place.afterVerdict r).isForked = false ∧ (Place.afterVerdict r).pends none ∧
      (∀ named rescue, (Place.afterVerdict r).chose named rescue) ∧ Place.afterVerdict r ≠ .bringUp ∧
      (∀ extra, (Place.afterVerdict r).delayed = some extra → extra = 1) ∧
      ((Place.afterVerdict r).isOver = false → (Account.failed r).isLast = false) := by
    unfold Place.afterVerdict
    split <;> exact ⟨rfl, by first | rfl | trivial, fun _ _ => trivial, nofun,
      fun _ known => by cases known <;> rfl,
      fun up => by first | rfl | cases up⟩
  obtain ⟨forked, pends, chose, late, delayed, last⟩ := next
  cases answer with
  | mem =>
      have entered : accounts w.hist = (firstRescue w.hist).accountsOf done := books.accounts
      refine ⟨books.lives, ?_, ?_, ?_, pends, nofun, chose _ _, ?_, fun early => absurd early late,
        books.fresh, ?_⟩
      · change Account.failed w.mem.rescue.failed.1 :: accounts w.hist =
          (((firstRescue w.hist).after done).account ranFor).1 :: _
        rw [entry, books.rescue, entered]
        rfl
      · change w.mem.rescue.failed.2 = (((firstRescue w.hist).after done).account ranFor).2
        rw [entry, books.rescue]
      · have idle : Place.begun _ w.mem.table.shells none = false := begun_of_dead dead forked
        exact (starts_accounted books).trans (if_neg (Bool.eq_false_iff.mp idle)).symm
      · intro extra known
        have counted := books.delays 2 rfl
        rw [delayed extra known]
        change delays w.hist = failures (accounts w.hist) + 1 + 1
        rw [counted]
      · have idle : Place.begun _ w.mem.table.shells none = false := begun_of_dead dead forked
        intro a member
        change a ∈ if _ && !Place.begun _ w.mem.table.shells none then _ else _ at member
        rw [idle, Bool.not_false, Bool.and_true] at member
        split at member
        · exact books.last a member
        · rename_i up
          rcases List.mem_cons.mp member with rfl | old
          · exact last (Bool.eq_false_iff.mpr up)
          · exact books.last a old

theorem books_bringUp (books : Books .bringUp pending done w) (early : c.isBringUp)
    (shells : w.mem.table.shells = []) (answer : k.Answers w c r w') :
    ∃ pending' done', Books .bringUp pending' done' w' := by
  by_cases sets : ∃ rescue, c = .mem (.rescueNew rescue)
  · obtain ⟨rescue, rfl⟩ := sets
    exact ⟨_, _, books_rescueNew books early shells answer⟩
  · have keeps : c.keepsBooks := by
      cases c with
      | sys s => cases s <;> first | rfl | cases early
      | mem o => cases o <;> first | rfl | cases early | exact absurd ⟨_, rfl⟩ sets
    exact ⟨_, _, books.to answer keeps rfl books.pends trivial (.inr rfl) (.inr rfl) (.inl rfl)⟩

/-- The shell that the rescue machine names is the one that it is at. -/
theorem books_ask {first : Bool} {spec : Option Spec} (books : Books (.asking first) pending done w)
    (answer : k.Answers w (.mem .rescueShell) spec w') :
    Books (match spec with
      | some spec => .chosen first spec
      | none => .lost) pending done w' := by
  have named : lastShell w'.hist = spec.or (lastShell w.hist) := by
    rw [answer.hist]
    cases spec <;> rfl
  have is : w.mem.rescue.shell = spec := by
    cases answer with
    | mem => rfl
  cases spec with
  | none => exact books.to answer rfl rfl trivial trivial (.inl nofun) (.inl rfl) (.inl rfl)
  | some spec =>
      exact books.to answer rfl rfl books.pends ⟨named, is⟩ (.inl nofun) (.inr rfl) (.inl rfl)

/-- Every move before a shutdown is asked for keeps the books. -/
theorem books_kept (books : Books p pending done w) (tidy : Tidy p w.mem.table)
    (up : p.action = none) (upNext : (f r).action = none) (move : Moves p c f)
    (answer : k.Answers w c r w') : ∃ pending' done', Books (f r) pending' done' w' := by
  have pends := books.pends
  -- the ordinary move: to a place in the loop, or out of it
  have inside : ∀ {q : Place}, c.keepsBooks → p.isForked = q.isForked → q.pends pending →
      (∀ named rescue, q.chose named rescue) → q ≠ .bringUp →
      (q.delayed = none ∨ q.delayed = p.delayed) → p.isOver = false →
      ∃ pending' done', Books q pending' done' w' :=
    fun keeps forked pends chose late delayed open_ =>
      ⟨_, _, books.to answer keeps forked pends (chose _ _) (.inl late) delayed (.inl open_)⟩
  cases move with
  | log log => exact ⟨_, _, books.log answer log⟩
  | bringUp early => exact books_bringUp books early tidy.demands answer
  | giveUpEarly => exact inside rfl rfl pends (fun _ _ => trivial) Place.noConfusion (.inl rfl) rfl
  | tableNew => exact ⟨_, _, books_tableNew books tidy.demands answer⟩
  | ask =>
      have asked := books_ask books answer
      cases r <;> exact ⟨_, _, asked⟩
  | fork => exact ⟨_, _, books_fork books tidy.demands answer⟩
  | noFork =>
      cases r with
      | none => exact inside rfl rfl trivial (fun _ _ => trivial) Place.noConfusion (.inl rfl) rfl
      | some spec => exact inside rfl rfl pends (fun _ _ => trivial) Place.noConfusion (.inl rfl) rfl
  | track => exact ⟨_, _, books_track books tidy answer⟩
  | supervise =>
      exact ⟨_, _, books_setRespawnAt 0 books answer rfl pends trivial rfl rfl Place.noConfusion rfl⟩
  | running =>
      dsimp only
      split <;> exact inside rfl rfl pends (fun _ _ => trivial) Place.noConfusion (.inr rfl) rfl
  | idle => exact inside rfl rfl pends (fun _ _ => trivial) Place.noConfusion (.inr rfl) rfl
  | due =>
      dsimp only
      split <;> exact inside rfl rfl pends (fun _ _ => trivial) Place.noConfusion (.inr rfl) rfl
  | poll =>
      unfold Place.afterPoll
      split
      · split
        · exact inside rfl rfl pends (fun _ _ => trivial) Place.noConfusion (.inr rfl) rfl
        · exact inside rfl rfl pends (fun _ _ => trivial) Place.noConfusion (.inl rfl) rfl
      · split <;> exact inside rfl rfl pends (fun _ _ => trivial) Place.noConfusion (.inr rfl) rfl
  | read =>
      unfold Place.afterRead Place.afterSignal at upNext ⊢
      split
      · split
        · exact inside rfl rfl pends (fun _ _ => trivial) Place.noConfusion (.inr rfl) rfl
        · exact inside rfl rfl pends (fun _ _ => trivial) Place.noConfusion (.inl rfl) rfl
      · split
        · exact inside rfl rfl pends (fun _ _ => trivial) Place.noConfusion (.inl rfl) rfl
        · split <;> exact inside rfl rfl pends (fun _ _ => trivial) Place.noConfusion (.inr rfl) rfl
  | waitpid =>
      unfold Place.afterWaitpid
      split <;> exact inside rfl rfl pends (fun _ _ => trivial) Place.noConfusion (.inr rfl) rfl
  | @recordExit why =>
      cases why with
      | supervising =>
          obtain ⟨pending', books'⟩ := books_recordExit books tidy answer
          exact ⟨_, _, books'⟩
      | stopping => cases up
      | silence => cases up
  | @forgetFinished why shortestLife =>
      cases why with
      | supervising =>
          have same : pending = shortestLife := pends
          subst same
          cases pending with
          | none => exact inside rfl rfl rfl (fun _ _ => trivial) Place.noConfusion (.inr rfl) rfl
          | some ranFor =>
              simp only [Place.afterHarvest]
              split
              · rename_i long
                exact inside rfl rfl ⟨ranFor, rfl, long⟩ (fun _ _ => trivial) Place.noConfusion
                  (.inr rfl) rfl
              · rename_i short
                exact inside rfl rfl ⟨ranFor, rfl, Nat.lt_of_not_le short⟩ (fun _ _ => trivial)
                  Place.noConfusion (.inr rfl) rfl
      | stopping => cases up
      | silence => cases up
  | survived =>
      obtain ⟨done', books'⟩ := books_survived books answer
      exact ⟨_, _, books'⟩
  | failing => exact inside rfl rfl pends (fun _ _ => trivial) Place.noConfusion (.inr rfl) rfl
  | setRespawnAt =>
      exact ⟨_, _, books_setRespawnAt 1 books answer rfl pends trivial rfl rfl Place.noConfusion rfl⟩
  | dying =>
      cases r with
      | none => exact inside rfl rfl trivial (fun _ _ => trivial) Place.noConfusion (.inl rfl) rfl
      | some spec => exact inside rfl rfl pends (fun _ _ => trivial) Place.noConfusion (.inr rfl) rfl
  | failed =>
      obtain ⟨done', books'⟩ := books_failed books answer
      exact ⟨_, _, books'⟩
  | park =>
      exact ⟨_, _, books.to answer rfl rfl pends trivial (.inl Place.noConfusion) (.inl rfl)
        (.inr rfl)⟩
  | pause =>
      exact ⟨_, _, books.to answer rfl rfl pends trivial (.inl Place.noConfusion) (.inl rfl)
        (.inr rfl)⟩
  | _ => cases up

/-- Without a request in the history there is no shutdown under way. -/
theorem Story.unasked {p : Place} {h : List Event} (story : Story p h) (unasked : Unasked h) :
    p.action = none := by
  have asked : ∀ {action d}, ¬ Since action d h := by
    intro action d since
    obtain ⟨after, before, request, rfl, asks, -⟩ := since.split
    rw [unasked request (List.mem_append_right _ List.mem_cons_self)] at asks
    cases asks
  cases synced : p.isSynced with
  | true =>
      cases p with
      | synced =>
          obtain ⟨d, r, t, since, -⟩ := story
          exact absurd since asked
      | _ => cases synced
  | false =>
      cases going : p.action with
      | none => rfl
      | some action =>
          obtain ⟨d, since, -⟩ := (story_going synced going).mp story
          exact absurd since asked

variable {candidates : List Spec} {kern : K} {conf : Config calls (World K) Unit}

/-- The table is tidy, and until a shutdown is asked for the books are kept. -/
structure Ledger (p : Place) (w : World K) : Prop where
  path : Path w.hist p
  tidy : Tidy p w.mem.table
  books : Unasked w.hist → ∃ pending done, Books p pending done w

theorem ledger_boot (kern : K) : Ledger .bringUp (World.boot kern) :=
  ⟨.boot, tidy_boot, fun _ => ⟨none, [], rfl, rfl, rfl, rfl, rfl, nofun, trivial,
    fun _ known => by cases known; rfl, fun _ => rfl, ⟨rfl, rfl⟩, nofun⟩⟩

theorem Ledger.stable (p : Place) : Stable k.semantics (Ledger p) := by
  rintro w w' ⟨path, tidy, books⟩ ⟨kern, -, rfl⟩
  refine ⟨path, tidy, fun unasked => ?_⟩
  obtain ⟨pending, done, books⟩ := books unasked
  exact ⟨pending, done, books.lives, books.accounts, books.rescue, books.starts, books.pends,
    books.dead, books.chose, books.delays, books.early, books.fresh, books.last⟩

theorem Ledger.kept (ledger : Ledger p w) (move : Moves p c f) (answer : k.Answers w c r w') :
    Ledger (f r) w' := by
  have next : Path w'.hist (f r) := by
    rw [answer.hist]
    exact ledger.path.move move
  refine ⟨next, ledger.tidy.kept move answer, fun unasked => ?_⟩
  have before : Unasked w.hist := by
    rw [answer.hist] at unasked
    exact unasked.tail
  obtain ⟨pending, done, books⟩ := ledger.books before
  exact books_kept books ledger.tidy (ledger.path.story.unasked before)
    (next.story.unasked unasked) move answer

theorem ledger_everywhere (reach : Reaches k.semantics (boot candidates kern) conf)
    (path : Path conf.world.hist p) : Ledger p conf.world :=
  at_every_place (I := Ledger) (ledger_boot kern) Ledger.stable
    (fun _ _ _ _ _ _ ledger move answer => ledger.kept move answer) reach path

/-! ## What the lifetimes decide -/

/-- The shells started and the accounts made are those that follow from the recorded lifetimes, but
for one of each that may be still to come. -/
structure Accounted (w : World K) : Prop where
  accounts : accounts w.hist = (firstRescue w.hist).accountsOf (lifetimes w.hist) ∨
    ∃ last lives, lifetimes w.hist = last :: lives ∧
      Zevory.accounts w.hist = (firstRescue w.hist).accountsOf lives
  starts : starts w.hist = (firstRescue w.hist).startsBefore (lifetimes w.hist) ∨
    Zevory.starts w.hist = (firstRescue w.hist).startsAfter (lifetimes w.hist) ∧
      ∀ a ∈ Zevory.accounts w.hist, a.isLast = false
  rescue : ∃ lives, Zevory.accounts w.hist = (firstRescue w.hist).accountsOf lives ∧
    w.mem.rescue = (firstRescue w.hist).after lives
  /-- Only the last account may be the one after which no candidate is left. -/
  last : ∀ a ∈ (Zevory.accounts w.hist).tail, a.isLast = false

theorem Books.accounted (books : Books p pending done w) : Accounted w := by
  refine ⟨?_, ?_, ⟨done, books.accounts, books.rescue⟩, fun a member => ?_⟩
  · cases pending with
    | none =>
        have lives : lifetimes w.hist = done := books.lives
        exact .inl (lives ▸ books.accounts)
    | some ranFor => exact .inr ⟨ranFor, done, books.lives, books.accounts⟩
  · cases pending with
    | none =>
        have lives : lifetimes w.hist = done := books.lives
        rw [lives]
        cases begun : p.begun w.mem.table.shells none with
        | true =>
            have last := books.last
            rw [begun, Bool.not_true, Bool.and_false] at last
            exact .inr ⟨starts_busy books begun, last⟩
        | false => exact .inl (starts_idle books begun)
    | some ranFor =>
        have lives : lifetimes w.hist = ranFor :: done := books.lives
        rw [lives]
        exact .inl (starts_accounted books)
  · have last := books.last
    split at last
    · exact last a member
    · exact last a (List.mem_of_mem_tail member)

/-- The two lists are equal, or one of them lacks the newest element of the other. -/
def Agree {α : Type} (xs ys : List α) : Prop :=
  xs = ys ∨ (∃ y, ys = y :: xs) ∨ ∃ x, xs = x :: ys

theorem startsAfter_eq (r : Rescue) (lives : List ℕ) :
    r.startsAfter lives = r.startsBefore lives ∨
      ∃ start, r.startsAfter lives = start :: r.startsBefore lives := by
  unfold Rescue.startsAfter Rescue.nextStart
  cases (r.after lives).shell with
  | none => exact .inl rfl
  | some spec => exact .inr ⟨_, rfl⟩

theorem starts_agree {K' : Type} {w : World K} {w' : World K'} (one : Accounted w)
    (two : Accounted w') (rescue : firstRescue w.hist = firstRescue w'.hist)
    (lives : lifetimes w.hist = lifetimes w'.hist) : Agree (starts w.hist) (starts w'.hist) := by
  have more := startsAfter_eq (firstRescue w'.hist) (lifetimes w'.hist)
  have here := one.starts
  rw [rescue, lives] at here
  rcases here with before | ⟨after, -⟩ <;> rcases two.starts with before' | ⟨after', -⟩
  · exact .inl (before.trans before'.symm)
  · rw [before, after']
    rcases more with same | ⟨spec, next⟩
    · exact .inl same.symm
    · exact .inr (.inl ⟨spec, next⟩)
  · rw [after, before']
    rcases more with same | ⟨spec, next⟩
    · exact .inl same
    · exact .inr (.inr ⟨spec, next⟩)
  · exact .inl (after.trans after'.symm)

theorem accounts_agree {K' : Type} {w : World K} {w' : World K'} (one : Accounted w)
    (two : Accounted w') (rescue : firstRescue w.hist = firstRescue w'.hist)
    (lives : lifetimes w.hist = lifetimes w'.hist) :
    Agree (accounts w.hist) (accounts w'.hist) := by
  have here := one.accounts
  rw [rescue, lives] at here
  rcases here with all | ⟨last, rest, all, most⟩ <;>
    rcases two.accounts with all' | ⟨last', rest', all', most'⟩
  · exact .inl (all.trans all'.symm)
  · rw [all, most', all']
    exact .inr (.inr ⟨_, rfl⟩)
  · rw [most, all', all]
    exact .inr (.inl ⟨_, rfl⟩)
  · rw [all] at all'
    cases all'
    exact .inl (most.trans most'.symm)

/-- **Which shell pid 1 starts depends only on how long its shells lived**, on any kernel,
until a shutdown is asked for.  Every recorded life is accounted for once, in order, before
pid 1 waits again; only an account changes the rescue machine, and only a failure the
respawn time; and two runs over the same candidates with the same recorded lifetimes start
the same shells and make the same accounts, up to one that is still to come. -/
theorem same_lifetimes_same_shells (reach : Reaches k.semantics (boot candidates kern) conf)
    (unasked : Unasked conf.world.hist) :
    Accounted conf.world ∧
      (∀ fd millis, conf.prog.next = some (Call.sys (.poll fd millis)) →
        accounts conf.world.hist =
            (firstRescue conf.world.hist).accountsOf (lifetimes conf.world.hist) ∧
          delays conf.world.hist = failures (accounts conf.world.hist) + 1) ∧
      (∀ conf', Step k.semantics conf conf' →
        (conf'.world.mem.rescue ≠ conf.world.mem.rescue → ∃ o, conf.prog.next = some (Call.mem o) ∧
          (o = .survived ∨ o = .failed ∨ ∃ r, o = .rescueNew r)) ∧
        (conf'.world.mem.respawnAt ≠ conf.world.mem.respawnAt →
          ∃ v, conf.prog.next = some (Call.mem (.setRespawnAt v)))) ∧
      ∀ {K' : Type} {k' : Kernel K'} {candidates' : List Spec} {kern' : K'}
        {conf' : Config calls (World K') Unit},
        Reaches k'.semantics (boot candidates' kern') conf' → Unasked conf'.world.hist →
        (firstRescue conf.world.hist).usable = (firstRescue conf'.world.hist).usable →
        lifetimes conf.world.hist = lifetimes conf'.world.hist →
        Agree (starts conf.world.hist) (starts conf'.world.hist) ∧
          Agree (accounts conf.world.hist) (accounts conf'.world.hist) := by
  obtain ⟨p, path, -⟩ := exists_path reach
  obtain ⟨pending, done, books⟩ := (ledger_everywhere reach path).books unasked
  refine ⟨books.accounted, fun fd millis polls => ?_, fun conf' step => ?_, ?_⟩
  · obtain ⟨p, f, path, -, move⟩ := expected_of_next reach polls
    obtain ⟨pending, done, books⟩ := (ledger_everywhere reach path).books unasked
    have up := path.story.unasked unasked
    cases move with
    | log log => cases log
    | bringUp early => cases early
    | poll =>
        have nothing : pending = none := books.pends
        subst nothing
        have lives : lifetimes conf.world.hist = done := books.lives
        rw [lives]
        exact ⟨books.accounts, books.delays 1 rfl⟩
    | watch => cases up
  · cases step with
    | interfere step =>
        obtain ⟨kern, -, rfl⟩ := step
        exact ⟨fun changed => absurd rfl changed, fun changed => absurd rfl changed⟩
    | unroll => exact ⟨fun changed => absurd rfl changed, fun changed => absurd rfl changed⟩
    | @answer c cont r w w' answer =>
        cases answer with
        | sys => exact ⟨fun changed => absurd rfl changed, fun changed => absurd rfl changed⟩
        | @mem o =>
            refine ⟨fun changed => ⟨o, rfl, ?_⟩, fun changed => ?_⟩
            · cases o with
              | survived => exact .inl rfl
              | failed => exact .inr (.inl rfl)
              | rescueNew r => exact .inr (.inr ⟨r, rfl⟩)
              | _ => exact absurd rfl changed
            · cases o with
              | setRespawnAt v => exact ⟨v, rfl⟩
              | _ => exact absurd rfl changed
  · intro K' k' candidates' kern' conf' reach' unasked' usable lives
    obtain ⟨p', path', -⟩ := exists_path reach'
    obtain ⟨pending', done', books'⟩ := (ledger_everywhere reach' path').books unasked'
    have rescue : firstRescue conf.world.hist = firstRescue conf'.world.hist := by
      have one := books.fresh
      have two := books'.fresh
      cases first : firstRescue conf.world.hist with
      | mk =>
          cases second : firstRescue conf'.world.hist with
          | mk =>
              rw [first, second] at usable
              rw [first] at one
              rw [second] at two
              cases usable
              rw [Rescue.mk.injEq]
              exact ⟨rfl, one.1.trans two.1.symm, one.2.trans two.2.symm⟩
    exact ⟨starts_agree books.accounted books'.accounted rescue lives,
      accounts_agree books.accounted books'.accounted rescue lives⟩

/-- The results of a run in which every shell dies; with `noise`, a SIGHUP comes before every
SIGCHLD and an orphan after every shell. -/
def everyShellDies (noise : Bool) (w : World K) : (s : Syscall) → Option s.Res
  | .fork => some ⟨100, ⟨0, ""⟩⟩
  | .waitpid =>
      if w.mem.table.shells ≠ [] then some (⟨100, ⟨0, ""⟩⟩, 0)
      else if noise ∧ lastReap w.hist = some (.child 100 0) then some (⟨7, ⟨0, ""⟩⟩, 0)
      else some (⟨0, ⟨0, ""⟩⟩, 0)
  | .poll _ _ => some ⟨1, ⟨0, ""⟩⟩
  | .read fd =>
      let reads := (w.hist.filter fun e => e.call == .sys (.read fd)).length
      some (⟨Sys.SIGINFO_SIZE, ⟨0, ""⟩⟩, if noise ∧ reads % 2 = 0 then SIGHUP else SIGCHLD)
  | s => s.smooth

theorem everyShellDies_promised {noise : Bool} {s : Syscall} {r : s.Res}
    (h : everyShellDies noise w s = some r) : s ≠ .clockGettime ∧ Promised (.sys s) r := by
  cases s with
  | fork =>
      cases h
      exact ⟨nofun, .inr (by decide)⟩
  | waitpid => exact ⟨nofun, trivial⟩
  | poll => exact ⟨nofun, trivial⟩
  | read => exact ⟨nofun, trivial⟩
  | clockGettime => cases h
  | _ => exact ⟨nofun, Syscall.smooth_promised h⟩

/-- The script in which every shell dies at once. -/
def everyShellDiesAtOnce (noise : Bool) : Script Kernel.anything where
  before w _ := w.kern
  answer w
    | .clockGettime => if w.hist.length < 2 ^ 63 then some (w.hist.length, ()) else none
    | s => (everyShellDies noise w s).map fun r => (r, ())
  clock _ := 0
  others := Script.still
  answers {w s r kern} h := by
    by_cases clock : s = .clockGettime
    · subst clock
      obtain ⟨early, rfl⟩ := by simpa using h
      exact early
    · have answered : (everyShellDies noise w s).map (fun r => (r, ())) = some (r, kern) := by
        cases s <;> first | exact h | exact absurd rfl clock
      obtain ⟨r', dies, same⟩ := Option.map_eq_some_iff.mp answered
      cases same
      exact (everyShellDies_promised dies).2
  reads _ := trivial

/-- Pid 1 at its first `pause`, after every shell has died three times. -/
def usedUp (noise : Bool) : Config calls (World Unit) Unit :=
  (everyShellDiesAtOnce noise).driver.run (fun c => c.prog.next == some (Call.sys .pause)) 4000
    (boot CANDIDATES ())

theorem usedUp_reachable (noise : Bool) :
    Reaches Kernel.anything.semantics (boot CANDIDATES ()) (usedUp noise) :=
  (everyShellDiesAtOnce noise).driver.reaches _ _ _

theorem same_lifetimes_same_shells_when_used_up :
    ((starts (usedUp true).world.hist).map fun start => start.2.path) =
        ["/bin/busybox", "/bin/busybox", "/bin/busybox", "/bin/sh", "/bin/sh", "/bin/sh"] ∧
      Agree (starts (usedUp false).world.hist) (starts (usedUp true).world.hist) := by
  have quiet : ∀ noise, Unasked (usedUp noise).world.hist := by
    decide +kernel
  have lives : lifetimes (usedUp false).world.hist = lifetimes (usedUp true).world.hist := by
    decide +kernel
  have usable : (firstRescue (usedUp false).world.hist).usable =
      (firstRescue (usedUp true).world.hist).usable := by
    decide +kernel
  have holds := same_lifetimes_same_shells (usedUp_reachable false) (quiet false)
  exact ⟨by decide +kernel, (holds.2.2.2 (usedUp_reachable true) (quiet true) usable lives).1⟩

end Zevory
