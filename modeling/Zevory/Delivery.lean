import Zevory.Brief
import Zevory.Interaction.Record

/-!
# What becomes of a log line

`log.rs` on sinks that take what they like: an `open` gives any result, and a `write` takes
any part of the bytes it is given, or fails.  The world here is the memory of pid 1 and the
calls it has made, oldest first; the record of a program is its calls, and the descriptor
that is cached then.
-/

namespace Zevory

open Interaction Log

/-- The memory of pid 1 and the calls it has made, oldest first. -/
structure Saying where
  mem : Mem
  made : List (Did calls)

/-- What is assumed of the results: a write takes no more bytes than it is given. -/
def TakesPart : (s : Syscall) → s.Res → Prop
  | .write _ bytes, r => r.rc ≤ bytes.length
  | _, _ => True

inductive Saying.Answers (w : Saying) : (c : Call) → c.Res → Saying → Prop
  | sys {s : Syscall} {r : s.Res} :
      TakesPart s r → Answers w (.sys s) r ⟨w.mem, w.made ++ [⟨.sys s, r⟩]⟩
  | mem {o : MemOp} (now : ℕ) :
      Answers w (.mem o) (o.run now w.mem).1
        ⟨(o.run now w.mem).2, w.made ++ [⟨.mem o, (o.run now w.mem).1⟩]⟩

def sinks : Semantics calls Saying where
  interfere _ _ := False
  answer := Saying.Answers

/-- The bytes that the descriptor `fd` takes by a call. -/
def took (fd : Int) : Did calls → List UInt8
  | ⟨.sys (.write fd' bytes), r⟩ => if fd' = fd then bytes.take r.rc.toNat else []
  | _ => []

/-- The bytes that the descriptor `fd` takes by the calls, in order. -/
def taken (fd : Int) (made : List (Did calls)) : List UInt8 := made.flatMap (took fd)

/-- The call is an `open` of `/dev/kmsg` that succeeds. -/
def opensKmsg : Did calls → Bool
  | ⟨.sys (.openPath path _), r⟩ => path == "/dev/kmsg" && decide (0 ≤ r.rc)
  | _ => false

/-- Records the calls that were made, and the value of `KMSG`. -/
def said : Recorder sinks (Did calls) Int where
  trace := Saying.made
  view w := w.mem.kmsg
  still others := False.elim others

section Calls

variable {known : Int}

/-- A system call adds itself to the calls made, and leaves `KMSG` as it is. -/
theorem makes_sys (s : Syscall) :
    Makes said (sys s) known fun r made known' =>
      made = [⟨.sys s, r⟩] ∧ TakesPart s r ∧ known' = known := by
  refine Makes.perform fun w r w' here answer => ?_
  cases answer with
  | sys part => exact ⟨_, rfl, rfl, part, here⟩

theorem makes_load :
    Makes said (mem .kmsgLoad) known fun fd made known' =>
      made = [⟨.mem .kmsgLoad, fd⟩] ∧ fd = known ∧ known' = known := by
  refine Makes.perform fun w r w' here answer => ?_
  cases answer with
  | mem now => exact ⟨_, rfl, rfl, here, here⟩

theorem makes_store (fd : Int) :
    Makes said (mem (.kmsgStore fd)) known fun r made known' =>
      made = [⟨.mem (.kmsgStore fd), r⟩] ∧ known' = fd := by
  refine Makes.perform fun w r w' here answer => ?_
  cases answer with
  | mem now => exact ⟨_, rfl, rfl, rfl⟩

end Calls

/-! ## One descriptor -/

/-- `made` is an attempt to write `bytes` to `fd`: only writes to `fd`, by which it has taken a
beginning of `bytes`, and all of them exactly if `ok`. -/
structure Attempt (fd : Int) (bytes : List UInt8) (ok : Bool) (made : List (Did calls)) : Prop where
  writes : ∀ c ∈ made, ∃ rest, c.1 = .sys (.write fd rest)
  asked : bytes ≠ [] → ∃ r, ⟨.sys (.write fd bytes), r⟩ ∈ made
  inOrder : taken fd made <+: bytes
  whole : ok = true ↔ taken fd made = bytes
  failed : ok = false → ∃ rest r, ⟨.sys (.write fd rest), r⟩ ∈ made ∧ r.rc ≤ 0

/-- The calls of some rounds of `write_fd`, after which `done` of the bytes are taken. -/
structure Writing (fd : Int) (bytes : List UInt8) (done : ℕ) (made : List (Did calls)) : Prop where
  writes : ∀ c ∈ made, ∃ rest, c.1 = .sys (.write fd rest)
  asked : done ≠ 0 → ∃ r, ⟨.sys (.write fd bytes), r⟩ ∈ made
  le : done ≤ bytes.length
  so : taken fd made = bytes.take done

theorem taken_append (fd : Int) (made more : List (Did calls)) :
    taken fd (made ++ more) = taken fd made ++ taken fd more :=
  List.flatMap_append

theorem taken_write (fd : Int) (bytes : List UInt8) (r : Ret) :
    taken fd [⟨.sys (.write fd bytes), r⟩] = bytes.take r.rc.toNat := by
  simp [taken, took]

section Write

variable {fd known : Int} {bytes : List UInt8} {done : ℕ} {made : List (Did calls)} {r : Ret}

/-- One more write of what is left is still a write to `fd` only. -/
theorem Writing.writes_more (writing : Writing fd bytes done made) :
    ∀ c ∈ made ++ [⟨.sys (.write fd (bytes.drop done)), r⟩], ∃ rest, c.1 = .sys (.write fd rest) := by
  intro c member
  rcases List.mem_append.mp member with before | last
  · exact writing.writes c before
  · rw [List.mem_singleton] at last
    exact ⟨bytes.drop done, by rw [last]⟩

theorem Writing.asks (writing : Writing fd bytes done made) :
    ∃ r', ⟨.sys (.write fd bytes), r'⟩ ∈
      made ++ [(⟨.sys (.write fd (bytes.drop done)), r⟩ : Did calls)] := by
  by_cases first : done = 0
  · subst first
    exact ⟨r, List.mem_append_right _ (by simp)⟩
  · obtain ⟨r', asked⟩ := writing.asked first
    exact ⟨r', List.mem_append_left _ asked⟩

theorem Writing.takes (writing : Writing fd bytes done made) :
    taken fd (made ++ [⟨.sys (.write fd (bytes.drop done)), r⟩]) =
      bytes.take (done + r.rc.toNat) := by
  rw [taken_append, taken_write, writing.so, List.take_add]

/-- A write that fails or takes nothing ends the attempt without success. -/
theorem Writing.fails (writing : Writing fd bytes done made) (left : done < bytes.length)
    (failed : r.rc ≤ 0) :
    Attempt fd bytes false (made ++ [⟨.sys (.write fd (bytes.drop done)), r⟩]) := by
  have nothing : r.rc.toNat = 0 := Int.toNat_of_nonpos failed
  refine ⟨writing.writes_more, fun _ => writing.asks, ?_, ?_, fun _ => ?_⟩
  · rw [writing.takes]
    exact List.take_prefix _ _
  · rw [writing.takes, nothing, Nat.add_zero]
    constructor
    · intro impossible
      cases impossible
    · intro all
      have short : (bytes.take done).length = done := by
        rw [List.length_take]
        omega
      rw [all] at short
      omega
  · exact ⟨_, r, List.mem_append_right _ (List.mem_singleton_self _), failed⟩

/-- After a write that takes some bytes, that many more are taken. -/
theorem Writing.goes (writing : Writing fd bytes done made) (took : 0 < r.rc)
    (part : r.rc ≤ (bytes.drop done).length) :
    Writing fd bytes (done + r.rc.toNat)
      (made ++ [⟨.sys (.write fd (bytes.drop done)), r⟩]) := by
  refine ⟨writing.writes_more, fun _ => writing.asks, ?_, writing.takes⟩
  have le := writing.le
  rw [List.length_drop] at part
  omega

/-- When all bytes are taken the attempt has succeeded. -/
theorem Writing.ends (writing : Writing fd bytes done made) (atEnd : ¬ done < bytes.length) :
    Attempt fd bytes true made := by
  have all : taken fd made = bytes := by
    rw [writing.so]
    exact List.take_of_length_le (Nat.le_of_not_lt atEnd)
  refine ⟨writing.writes, fun moved => writing.asked ?_, ?_, ?_, fun impossible => ?_⟩
  · rintro rfl
    exact moved (List.eq_nil_of_length_eq_zero (by omega))
  · rw [all]
  · exact ⟨fun _ => all, fun _ => rfl⟩
  · cases impossible

/-- `write_fd` makes the descriptor take a beginning of the bytes, and returns true exactly if that
is all of them. -/
theorem writeFd_makes :
    Makes said (Sys.writeFd fd bytes) known fun ok made known' =>
      Attempt fd bytes ok made ∧ known' = known := by
  refine Makes.iterate (fun done made known' => Writing fd bytes done made ∧ known' = known) ?_ ?_
  · refine ⟨⟨fun c member => ?_, fun moved => absurd rfl moved, Nat.zero_le _, rfl⟩, rfl⟩
    cases member
  · rintro done made known' ⟨writing, rfl⟩
    simp only [Sys.writeRound, Prog.bind_eq, Prog.pure_eq]
    split
    · rename_i left
      rw [if_pos writing.le]
      refine Makes.bind (makes_sys _) ?_
      rintro r _ _ ⟨rfl, part, rfl⟩
      split
      · rename_i failed
        refine Makes.ret ?_
        rw [List.append_nil]
        exact ⟨writing.fails left failed, rfl⟩
      · rename_i took
        refine Makes.ret ?_
        rw [List.append_nil]
        exact ⟨writing.goes (Int.not_le.mp took) part, rfl⟩
    · rename_i atEnd
      refine Makes.ret ?_
      rw [List.append_nil]
      exact ⟨writing.ends atEnd, rfl⟩

end Write

/-! ## One message -/

/-- How `kmsg` comes to its result: from the cache, by an `open` that fails, or by one that succeeds
and is stored in the cache. -/
inductive Opens (known : Int) : List (Did calls) → Int → Int → Prop
  | cached : known ≠ NOT_OPEN_YET → Opens known [⟨.mem .kmsgLoad, known⟩] known known
  | refused {flags : ℕ} {r : Ret} : known = NOT_OPEN_YET → r.rc < 0 →
      Opens known [⟨.mem .kmsgLoad, known⟩, ⟨.sys (.openPath "/dev/kmsg" flags), r⟩]
        NOT_OPEN_YET NOT_OPEN_YET
  | opened {flags : ℕ} {r : Ret} : known = NOT_OPEN_YET → 0 ≤ r.rc →
      Opens known [⟨.mem .kmsgLoad, known⟩, ⟨.sys (.openPath "/dev/kmsg" flags), r⟩,
        ⟨.mem (.kmsgStore r.rc), ()⟩] r.rc r.rc

/-- The calls of one message: those of `kmsg`, which returns `fd`, those on that descriptor, and
those on standard error. -/
structure Message where
  opening : List (Did calls)
  fd : Int
  viaKmsg : List (Did calls)
  viaStderr : List (Did calls)

def Message.made (m : Message) : List (Did calls) := m.opening ++ m.viaKmsg ++ m.viaStderr

/-- `/dev/kmsg` takes the whole line of the message. -/
def Message.OnKmsg (m : Message) (level : Level) (msg : String) : Prop :=
  taken m.fd m.viaKmsg = asBytes (lineFor level msg)

/-- Standard error takes the whole line of the message. -/
def Message.OnStderr (m : Message) (msg : String) : Prop :=
  taken STDERR_FILENO m.viaStderr = asBytes (stderrLine msg)

/-- What happens to a message: its whole line is on `/dev/kmsg`, or it is attempted from its
beginning on standard error, where it succeeds as a whole or a write fails. -/
structure Delivered (known : Int) (level : Level) (msg : String) (m : Message) (known' : Int) :
    Prop where
  opens : Opens known m.opening m.fd known'
  unopened : m.fd = NOT_OPEN_YET → m.viaKmsg = []
  kmsgWrites : ∀ c ∈ m.viaKmsg, ∃ rest, c.1 = .sys (.write m.fd rest)
  kmsgTakes : taken m.fd m.viaKmsg <+: asBytes (lineFor level msg)
  stderrWrites : ∀ c ∈ m.viaStderr, ∃ rest, c.1 = .sys (.write STDERR_FILENO rest)
  stderrTakes : taken STDERR_FILENO m.viaStderr <+: asBytes (stderrLine msg)
  fallsBack : m.fd = NOT_OPEN_YET ∨ ¬ m.OnKmsg level msg →
    ∃ r, ⟨.sys (.write STDERR_FILENO (asBytes (stderrLine msg))), r⟩ ∈ m.viaStderr
  noNeed : ¬ (m.fd = NOT_OPEN_YET ∨ ¬ m.OnKmsg level msg) → m.viaStderr = []
  notTwice : ¬ (m.OnKmsg level msg ∧ m.OnStderr msg)
  notLost : m.OnKmsg level msg ∨ m.OnStderr msg ∨
    ∃ rest r, ⟨.sys (.write STDERR_FILENO rest), r⟩ ∈ m.viaStderr ∧ r.rc ≤ 0

section Emit

variable {known : Int} {level : Level} {msg : String}

theorem lineFor_some : asBytes (lineFor level msg) ≠ [] := by
  rw [lineFor, asBytes_append]
  intro nothing
  exact absurd (List.append_eq_nil_iff.mp nothing).2 (by decide)

theorem stderrLine_some : asBytes (stderrLine msg) ≠ [] := by
  rw [stderrLine, asBytes_append]
  intro nothing
  exact absurd (List.append_eq_nil_iff.mp nothing).2 (by decide)

theorem kmsg_makes : Makes said Log.kmsg known fun fd made known' => Opens known made fd known' := by
  simp only [Log.kmsg, Sys.openAppend, Prog.bind_eq, Prog.pure_eq]
  refine Makes.bind makes_load ?_
  rintro fd _ _ ⟨rfl, rfl, rfl⟩
  split
  · rename_i cached
    refine Makes.ret ?_
    rw [List.append_nil]
    exact .cached cached
  · rename_i unknown
    have notYet := Decidable.not_not.mp unknown
    have plain : Sys.cstr "/dev/kmsg" = .ok "/dev/kmsg" := by decide
    rw [plain]
    simp only [Prog.bind_assoc]
    refine Makes.bind (makes_sys _) ?_
    rintro r _ _ ⟨rfl, -, rfl⟩
    rw [Prog.ret_bind, Sys.checkFd]
    by_cases refused : r.rc < 0
    · rw [if_pos refused]
      refine Makes.ret ?_
      have opens : Opens _ [_, ⟨.sys (.openPath "/dev/kmsg"
          (O_WRONLY ||| O_APPEND ||| O_CLOEXEC ||| O_NOCTTY)), r⟩] NOT_OPEN_YET NOT_OPEN_YET :=
        .refused notYet refused
      rw [notYet] at opens ⊢
      exact opens
    · rw [if_neg refused]
      refine Makes.bind (makes_store r.rc) ?_
      rintro ⟨⟩ _ _ ⟨rfl, rfl⟩
      exact Makes.ret (.opened notYet (Int.not_lt.mp refused))

/-- What `write_to_kmsg` does with a line; `sent` is its result. -/
structure ToKmsg (known : Int) (line : List UInt8) (sent : Bool) (opening : List (Did calls))
    (fd : Int) (viaKmsg : List (Did calls)) (known' : Int) : Prop where
  opens : Opens known opening fd known'
  unopened : fd = NOT_OPEN_YET → viaKmsg = []
  writes : ∀ c ∈ viaKmsg, ∃ rest, c.1 = .sys (.write fd rest)
  takes : taken fd viaKmsg <+: line
  sent : sent = true ↔ taken fd viaKmsg = line

theorem writeToKmsg_makes :
    Makes said (Log.writeToKmsg level msg) known fun sent made known' => ∃ opening fd viaKmsg,
      made = opening ++ viaKmsg ∧
        ToKmsg known (asBytes (lineFor level msg)) sent opening fd viaKmsg known' := by
  simp only [Log.writeToKmsg, Prog.bind_eq, Prog.pure_eq]
  refine Makes.bind kmsg_makes ?_
  intro fd opening known' opens
  split
  · rename_i unopened
    refine Makes.ret ⟨opening, fd, [], rfl, opens, fun _ => rfl, fun c member => ?_, ?_, ?_⟩
    · cases member
    · exact List.nil_prefix
    · constructor
      · intro impossible
        cases impossible
      · intro nothing
        exact absurd nothing.symm lineFor_some
  · rename_i opened
    refine writeFd_makes.post ?_
    rintro ok made _ ⟨attempt, rfl⟩
    exact ⟨opening, fd, made, rfl, opens, fun unopened => absurd unopened opened, attempt.writes,
      attempt.inOrder, attempt.whole⟩

/-- If `write_to_kmsg` returns true, the message is on `/dev/kmsg` and nothing goes to standard
error. -/
theorem ToKmsg.delivered {opening viaKmsg : List (Did calls)} {fd known' : Int}
    (kmsg : ToKmsg known (asBytes (lineFor level msg)) true opening fd viaKmsg known') :
    Delivered known level msg ⟨opening, fd, viaKmsg, []⟩ known' := by
  have whole := kmsg.sent.mp rfl
  have notOnStderr : ¬ Message.OnStderr ⟨opening, fd, viaKmsg, []⟩ msg :=
    fun nothing => stderrLine_some nothing.symm
  refine ⟨kmsg.opens, kmsg.unopened, kmsg.writes, kmsg.takes, fun c member => ?_, List.nil_prefix,
    ?_, fun _ => rfl, fun both => notOnStderr both.2, .inl whole⟩
  · cases member
  · rintro (unopened | notOnKmsg)
    · have nothing : viaKmsg = [] := kmsg.unopened unopened
      rw [nothing] at whole
      exact absurd whole.symm lineFor_some
    · exact absurd whole notOnKmsg

/-- If `write_to_kmsg` returns false, the attempt on standard error completes the delivery of the
message. -/
theorem ToKmsg.fallsBack {opening viaKmsg viaStderr : List (Did calls)} {fd known' : Int} {ok : Bool}
    (kmsg : ToKmsg known (asBytes (lineFor level msg)) false opening fd viaKmsg known')
    (attempt : Attempt STDERR_FILENO (asBytes (stderrLine msg)) ok viaStderr) :
    Delivered known level msg ⟨opening, fd, viaKmsg, viaStderr⟩ known' := by
  have notOnKmsg : ¬ Message.OnKmsg ⟨opening, fd, viaKmsg, viaStderr⟩ level msg := by
    intro whole
    exact Bool.noConfusion (kmsg.sent.mpr whole)
  refine ⟨kmsg.opens, kmsg.unopened, kmsg.writes, kmsg.takes, attempt.writes, attempt.inOrder,
    fun _ => attempt.asked stderrLine_some, fun no => absurd (.inr notOnKmsg) no,
    fun both => notOnKmsg both.1, .inr ?_⟩
  cases ok with
  | true => exact .inl (attempt.whole.mp rfl)
  | false => exact .inr (attempt.failed rfl)

theorem emit_makes :
    Makes said (Log.emit level msg) known fun _ made known' =>
      ∃ m : Message, made = m.made ∧ Delivered known level msg m known' := by
  simp only [Log.emit, Prog.bind_eq, Prog.pure_eq]
  refine Makes.bind writeToKmsg_makes ?_
  rintro sent _ known' ⟨opening, fd, viaKmsg, rfl, kmsg⟩
  cases sent with
  | true =>
      refine Makes.ret ⟨⟨opening, fd, viaKmsg, []⟩, ?_, kmsg.delivered⟩
      rfl
  | false =>
      refine Makes.bind writeFd_makes ?_
      rintro ok viaStderr _ ⟨attempt, rfl⟩
      refine Makes.ret ⟨⟨opening, fd, viaKmsg, viaStderr⟩, ?_, kmsg.fallsBack attempt⟩
      rw [List.append_nil]
      rfl

end Emit

/-! ## Any number of calls -/

/-- A call of one of the two functions that write a line. -/
inductive Line
  | log (level : Level) (msg : String)
  | console (msg : String)
  deriving DecidableEq, Repr

def Line.say : Line → Pid1 Unit
  | .log .error msg => Log.error msg
  | .log .warn msg => Log.warn msg
  | .log .info msg => Log.info msg
  | .console msg => Log.toConsole msg

def sayAll : List Line → Pid1 Unit
  | [] => return ()
  | line :: rest => do
      line.say
      sayAll rest

/-- `made` are the calls that deliver the given lines one after the other, with `KMSG` from `known`
on. -/
inductive Delivers : Int → List Line → List (Did calls) → Int → Prop
  | nil {known : Int} : Delivers known [] [] known
  | log {known known' known'' : Int} {level : Level} {msg : String} {m : Message}
      {rest : List Line} {made : List (Did calls)} :
      Delivered known level msg m known' → Delivers known' rest made known'' →
      Delivers known (.log level msg :: rest) (m.made ++ made) known''
  | console {known known' : Int} {msg : String} {ok : Bool} {here : List (Did calls)}
      {rest : List Line} {made : List (Did calls)} :
      Attempt STDOUT_FILENO (asBytes msg) ok here → Delivers known rest made known' →
      Delivers known (.console msg :: rest) (here ++ made) known'

section Sequence

variable {known known' : Int} {fd : Int} {made : List (Did calls)}

theorem sayAll_makes (lines : List Line) :
    Makes said (sayAll lines) known fun _ made known' => Delivers known lines made known' := by
  induction lines generalizing known with
  | nil => exact Makes.ret .nil
  | cons line rest ih =>
      simp only [sayAll, Prog.bind_eq]
      cases line with
      | log level msg =>
          have makes : Makes said (Line.say (.log level msg)) known fun _ made known' =>
              ∃ m : Message, made = m.made ∧ Delivered known level msg m known' := by
            cases level <;> exact emit_makes
          refine Makes.bind makes ?_
          rintro - _ known' ⟨m, rfl, delivered⟩
          exact ih.post fun _ made _ more => .log delivered more
      | console msg =>
          have makes : Makes said (Line.say (.console msg)) known fun _ made known' =>
              ∃ ok, Attempt STDOUT_FILENO (asBytes msg) ok made ∧ known' = known := by
            simp only [Line.say, Log.toConsole, Prog.bind_eq, Prog.pure_eq]
            refine Makes.bind writeFd_makes ?_
            rintro ok made _ ⟨attempt, rfl⟩
            refine Makes.ret ⟨ok, ?_, rfl⟩
            rw [List.append_nil]
            exact attempt
          refine Makes.bind makes ?_
          rintro - here _ ⟨ok, attempt, rfl⟩
          exact ih.post fun _ made _ more => .console attempt more

theorem sayAll_logs {R : (c : Call) → c.Res → Prop} (lines : List Line) :
    OnlyLogs R (sayAll lines) := by
  induction lines with
  | nil => exact Halts.ret trivial
  | cons line rest ih =>
      simp only [sayAll, Prog.bind_eq]
      have logs : OnlyLogs R line.say := by
        cases line with
        | log level msg => cases level <;> exact emit_logs
        | console msg => exact toConsole_logs
      exact Halts.bind logs fun _ _ => ih

/-- 1 if a descriptor is cached, 0 if not. -/
def cachedOnes (known : Int) : ℕ := if known = NOT_OPEN_YET then 0 else 1

theorem opens_none_of_writes (writes : ∀ c ∈ made, ∃ rest, c.1 = .sys (.write fd rest)) :
    made.countP opensKmsg = 0 := by
  rw [List.countP_eq_zero]
  intro c member
  obtain ⟨rest, is⟩ := writes c member
  obtain ⟨o, r⟩ := c
  subst is
  exact Bool.noConfusion

/-- A successful `open` of `/dev/kmsg` happens only when none is cached, and afterwards one is. -/
theorem Opens.counted (opens : Opens known made fd known') :
    made.countP opensKmsg + cachedOnes known = cachedOnes known' := by
  cases opens with
  | cached => simp [opensKmsg]
  | refused unknown failed =>
      subst unknown
      simp [opensKmsg, failed]
  | opened unknown succeeded =>
      subst unknown
      rw [cachedOnes, cachedOnes, if_pos rfl, if_neg (by rw [NOT_OPEN_YET]; omega)]
      simp [opensKmsg, succeeded]

theorem Delivers.counted {lines : List Line} (delivers : Delivers known lines made known') :
    made.countP opensKmsg + cachedOnes known = cachedOnes known' := by
  induction delivers with
  | nil => simp
  | log delivered _ ih =>
      have here := delivered.opens.counted
      have kmsg := opens_none_of_writes delivered.kmsgWrites
      have stderr := opens_none_of_writes delivered.stderrWrites
      rw [Message.made, List.countP_append, List.countP_append, List.countP_append]
      omega
  | console attempt _ ih =>
      have here := opens_none_of_writes attempt.writes
      rw [List.countP_append]
      omega

end Sequence

/-! ## Executions -/

section Executions

variable {α : Type} {p : Pid1 α} {w : Saying}

/-- The program panics. -/
def Panics {c₀ : Config calls Saying α} (e : Execution sinks c₀) : Prop :=
  ∃ n what k w, e.conf n = ⟨.call (.sys (.panic what)) k, w⟩

/-- Sinks answer every call that comes back: a write takes nothing, and any other call gives any
result. -/
theorem sinks_answer (w : Saying) (c : Call) (comesBack : Nonempty c.Res) :
    ∃ r w', sinks.answer w c r w' := by
  obtain ⟨r⟩ := comesBack
  cases c with
  | mem o => exact ⟨_, _, .mem 0⟩
  | sys s =>
      cases s with
      | write fd bytes => exact ⟨⟨0, ⟨0, ""⟩⟩, _, .sys (Int.natCast_nonneg _)⟩
      | _ => exact ⟨r, _, .sys trivial⟩

theorem OnlyLogs.comes_to {C : α → List (Did calls) → Int → Prop} (logs : OnlyLogs (fun _ _ => True) p)
    (makes : Makes said p w.mem.kmsg C) (e : Execution sinks ⟨p, w⟩) :
    ¬ Panics e ∧ ∃ n a w' made, e.conf n = ⟨.ret a, w'⟩ ∧ w'.made = w.made ++ made ∧
      C a made w'.mem.kmsg := by
  have here : e.conf 0 = ⟨p.bind .ret, w⟩ := by
    rw [Prog.bind_ret]
    exact e.start
  obtain ⟨n, -, ⟨a, w', -, ended⟩, -⟩ := Halts.leads (fun _ _ _ _ => trivial)
    (fun _ log => Call.comes_back (prompt_of_log log)) logs here
  constructor
  · rintro ⟨m, what, k, v, panics⟩
    exact Execution.comes_back_of_returns (inferInstanceAs (IsEmpty Empty)) ⟨n, a, w', ended⟩ panics
  · have reach := e.reaches n
    rw [ended] at reach
    obtain ⟨made, more, meets⟩ := makes.returned reach
    exact ⟨n, a, w', made, ended, more, meets⟩

end Executions

/-- **A log line is delivered whole, or falls back whole.**  `write_fd` ends without a panic,
and the descriptor has taken a beginning of the bytes, all of them exactly if it returns true.
Of any lines each ends on `/dev/kmsg` or is attempted on standard error, `Delivered` says how,
and `/dev/kmsg` is opened at most once. -/
theorem lines_are_delivered_whole :
    (∀ (fd : Int) (bytes : List UInt8) (w : Saying) (e : Execution sinks ⟨Sys.writeFd fd bytes, w⟩),
      ¬ Panics e ∧ ∃ n ok w' made, e.conf n = ⟨.ret ok, w'⟩ ∧ w'.made = w.made ++ made ∧
        Attempt fd bytes ok made) ∧
    ∀ (lines : List Line) (w : Saying) (e : Execution sinks ⟨sayAll lines, w⟩),
      ¬ Panics e ∧ ∃ n w' made, e.conf n = ⟨.ret (), w'⟩ ∧ w'.made = w.made ++ made ∧
        Delivers w.mem.kmsg lines made w'.mem.kmsg ∧ made.countP opensKmsg ≤ 1 := by
  constructor
  · intro fd bytes w e
    obtain ⟨calm, n, ok, w', made, ended, more, attempt, -⟩ := writeFd_logs.comes_to writeFd_makes e
    exact ⟨calm, n, ok, w', made, ended, more, attempt⟩
  · intro lines w e
    obtain ⟨calm, n, ⟨⟩, w', made, ended, more, delivers⟩ :=
      (sayAll_logs lines).comes_to (sayAll_makes lines) e
    refine ⟨calm, n, w', made, ended, more, delivers, ?_⟩
    have counted := delivers.counted
    have most : cachedOnes w'.mem.kmsg ≤ 1 := by
      unfold cachedOnes
      split <;> decide
    omega

/-- There are such executions, of any program and after any calls. -/
theorem sinks_run {α : Type} (p : Pid1 α) (w : Saying) : Nonempty (Execution sinks ⟨p, w⟩) :=
  Execution.exists_of_answers sinks_answer _

end Zevory
