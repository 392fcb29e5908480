/-
What is seen of a run while it goes on.

A run in a shell stops at each step that prints or calls the host, lets the shell do its part, and
goes on. Nothing of that can be told from the run that is done in one go (`Session.run`), whose host
knows all readings of the clock beforehand and whose sink keeps all texts to the end.

# The argument

- A step asks the host only where it calls one of its functions (`Machine.step_congr`), and looks at
  the sink only where it prints (`Machine.step_onto`). So the steps in between are the same on
  either side, whatever the clock will show and wherever texts go (`run_runQuietly`).
- Where the clock is asked, it shows to the shell what it shows to the other run, if the two have
  been asked equally often (`Memory.Tells`). A step calls the host at most once, and the number of
  calls tells how often that was (`calls_step`).
- Where a text is printed, it is shown at once by the one and kept by the other (`stepLive_beside`).

# Runs

The two machines differ in their sinks only (`beside`). By induction on the bound of steps they end
so too, and what was shown on the way is what the other one kept (`runLive_beside`). The induction
is a strong one, because any number of quiet steps come before a step that is heard of.

# Sessions, scripts and fixtures

A run in a shell in memory prints, reports and logs what the other run leaves to see
(`Session.runLive_eq`). For a script this is all there is to its run (`Command.runScript_eq`), and a
fixture in a suite is judged as by itself (`Suite.check_eq`).
-/
import Lox.Command.Run
import Lox.Proofs.Machine.Depth
import Lox.Proofs.Machine.Output
import Lox.Shell.Memory

namespace Lox

variable {host : Host} {reading : Nat → Float} {w : Memory}

/-- The host, where its one function is a clock with these readings. -/
def Host.timed (h : Host) (reading : Nat → Float) : Host :=
  { h with functions := #[fun calls _ => .ok (.number (reading calls))] }

/-- From now on the clock of the shell shows what the readings say from call number `calls` on. -/
def Memory.Tells (w : Memory) (reading : Nat → Float) (calls : Nat) : Prop :=
  ∀ later, w.clock.reading (w.asked + later) = reading (calls + later)

/-- The shell when its clock was read so many times more and a text was printed. -/
def Memory.heard (w : Memory) (times : Nat) (text : Bytes) : Memory :=
  { w with asked := w.asked + times, printed := w.printed ++ text }

/-- The readings that a program will be told that has called the host `calls` times so far. -/
def Memory.ahead (w : Memory) (calls : Nat) : Nat → Float :=
  fun k => w.clock.reading (w.asked + (k - calls))

/-- The readings that lie ahead are those that the clock will show. -/
theorem Memory.tells_ahead (w : Memory) (calls : Nat) : w.Tells (w.ahead calls) calls := by
  intro later
  rw [ahead, Nat.add_sub_cancel_left]

/-- When the clock was read, it goes on from the next reading. -/
theorem Memory.Tells.heard {calls : Nat} (h : w.Tells reading calls) (times : Nat) (text : Bytes) :
    (w.heard times text).Tells reading (calls + times) := by
  intro later
  show w.clock.reading (w.asked + times + later) = _
  rw [Nat.add_assoc, h (times + later), Nat.add_assoc]

/-- What is heard at two moments is heard together. -/
theorem Memory.heard_heard (w : Memory) (a b : Nat) (s t : Bytes) :
    (w.heard a s).heard b t = w.heard (a + b) (s ++ t) := by
  unfold heard
  rw [Nat.add_assoc, List.append_assoc]

theorem Memory.heard_zero (w : Memory) : w.heard 0 [] = w := by
  unfold heard
  rw [Nat.add_zero, List.append_nil]

/-- The sink of a run in a shell, beside the one that takes all texts: where they are shown, it is as
it was at first. -/
def Outlet.sink (outlet : Outlet) (first last : Sink) : Sink :=
  match outlet with
  | kept => last
  | shown _ => first

/-- What is shown of a text that is printed. -/
def Outlet.shows (outlet : Outlet) (text : Bytes) : Bytes :=
  match outlet with
  | kept => []
  | shown _ => text

theorem Outlet.shows_nil (outlet : Outlet) : outlet.shows [] = [] := by
  cases outlet <;> rfl

/-- What is shown of two texts is shown one after the other. -/
theorem Outlet.shows_append (outlet : Outlet) (a b : Bytes) :
    outlet.shows (a ++ b) = outlet.shows a ++ outlet.shows b := by
  cases outlet <;> rfl

/-- What one thing after another does to the shell. -/
theorem bind_apply {α β : Type} (x : StateM Memory α) (f : α → StateM Memory β) (w : Memory) :
    (x >>= f) w = f (x w).1 (x w).2 := rfl

namespace Machine

variable {M P : Machine}

-- ==== How often the host is called

/-- Evaluating an expression does not call the host yet. -/
theorem evalStep_calls (M : Machine) (e : Expr) (env : FrameRef) :
    (M.evalStep host e env).calls = M.calls := by
  cases e with
  | literal id value => cases value <;> rfl
  | ident id name =>
      dsimp only [evalStep]
      cases readName host M.store id name env <;> rfl
  | _ => rfl

/-- Nor does stepping into a statement. -/
theorem execStep_calls (M : Machine) (s : Stmt) (env : FrameRef) :
    (M.execStep s env).calls = M.calls := by
  cases s with
  | var id name initializer => cases initializer <;> rfl
  | result id keyword value => cases value <;> rfl
  | _ => rfl

/-- What a call adds to the calls of the host: one for a function of the host that is given as many
arguments as it takes, and none for all else, also where the call fails. -/
theorem apply_calls (M : Machine) (paren : Token) (callee : Value) (args : List Value) :
    (M.apply host paren callee args).calls = M.calls + (isHostCall callee args).toNat := by
  cases callee with
  | native f =>
      dsimp only [apply, Value.arity?, isHostCall]
      split
      next hargs => rw [decide_eq_false hargs]; rfl
      next hargs => rw [decide_eq_true (Decidable.not_not.mp hargs)]; rfl
  | function f =>
      dsimp only [apply, Value.arity?, isHostCall, invoke]
      split
      · rfl
      · split
        · rfl
        · cases f.code <;> rfl
  | foreign f =>
      dsimp only [apply, Value.arity?, isHostCall]
      cases f.arity with
      | none => rfl
      | some arity =>
          dsimp only
          split <;> rfl
  | _ => rfl

/-- A step calls the host once or not at all, and whether it does can be seen before the step. A
step that calls nothing leaves the count as it is. -/
theorem calls_step (host : Host) (M : Machine) :
    (M.step host).calls = M.calls + M.asksHost.toNat := by
  cases hcall : M.calling? with
  | some call =>
      obtain ⟨paren, callee, args⟩ := call
      rw [(step_calling host hcall).1, apply_calls, asksHost, hcall]
      rfl
  | none =>
      rw [asksHost, hcall]
      obtain ⟨control, stack, store, sink, depth, calls⟩ := M
      cases control with
      | eval e env => exact evalStep_calls _ e env
      | exec s env => exact execStep_calls _ s env
      | yield v =>
          cases stack with
          | nil => rfl
          | cons p stack => cases p with
            | decide operator right env =>
                dsimp only [step, resumeStep]
                split <;> rfl
            | assign id name env =>
                dsimp only [step, resumeStep]
                cases findName host store id name env <;> rfl
            | callee id paren arguments env => cases arguments with
              | nil => cases hcall
              | cons e rest => rfl
            | argument id paren callee before rest env => cases rest with
              | nil => cases hcall
              | cons e rest => rfl
            | sequence rest env => cases rest <;> rfl
            | loopTest condition body env =>
                dsimp only [step, resumeStep]
                split <;> rfl
            | _ => rfl
      | leave v =>
          cases stack with
          | nil => rfl
          | cons p stack => cases p <;> rfl
      | fail f =>
          cases stack with
          | nil => rfl
          | cons p stack => cases p <;> rfl

-- ==== Steps that are not heard of

/-- A machine is printing if there is a text that it prints. -/
theorem isPrinting_eq (M : Machine) : M.isPrinting = M.prints?.isSome := by
  unfold isPrinting prints?
  split <;> rfl

/-- A step that does not ask the host does not depend on what its functions do. -/
theorem step_timed (reading : Nat → Float) (hasks : M.asksHost = false) :
    M.step (host.timed reading) = M.step host :=
  step_congr (fun h => absurd (hasks.symm.trans h) Bool.false_ne_true) fun _ _ => rfl

/-- Steps that are not heard of are the same for any clock and any sink, and do not call the host.
By induction on the bound: after the quiet steps, the run on the other side has as many steps
left. -/
theorem run_runQuietly (host : Host) (reading : Nat → Float) (sink : Sink) (fuel : Nat) (M : Machine) :
    let quiet := M.runQuietly host fuel
    (quiet.2.onto sink).run (host.timed reading) quiet.1 =
        (M.onto sink).run (host.timed reading) fuel ∧
      quiet.2.calls = M.calls ∧ quiet.2.sink = M.sink := by
  induction fuel generalizing M with
  | zero => exact ⟨rfl, rfl, rfl⟩
  | succ fuel ih =>
      rw [runQuietly]
      split
      · exact ⟨rfl, rfl, rfl⟩
      next hquiet =>
        obtain ⟨hdone, hprints, hasks⟩ :
            M.isDone = false ∧ M.prints? = none ∧ M.asksHost = false := by
          simp only [isHeard, isPrinting_eq, Bool.or_eq_true, not_or, Bool.not_eq_true,
            Option.isSome_eq_false_iff, Option.isNone_iff_eq_none] at hquiet
          exact ⟨hquiet.1, hquiet.2.1, hquiet.2.2⟩
        have hstep : (M.onto sink).step (host.timed reading) = (M.step host).onto sink := by
          rw [step_onto hdone hprints, step_timed reading hasks]
        have hdone' : (M.onto sink).isDone = false := hdone
        obtain ⟨hrun, hcalls, hsink⟩ := ih (M.step host)
        refine ⟨?_, ?_, ?_⟩
        · rw [hrun, run, hdone', if_neg Bool.false_ne_true, hstep]
        · rw [hcalls, calls_step, hasks]
          rfl
        · rw [hsink, sink_step hdone hprints]

-- ==== Steps that are heard of

/-- Where the host is asked, the shell reads what the other run is told. -/
theorem step_showing (h : w.Tells reading M.calls) :
    M.step (host.showing (w.clock.reading w.asked)) = M.step (host.timed reading) := by
  have hnow : w.clock.reading w.asked = reading M.calls := h 0
  refine step_congr (fun _ => ?_) fun _ _ => rfl
  funext f args
  unfold Host.call Host.showing Host.timed
  rw [hnow]
  cases f.ident with
  | zero => rfl
  | succ n => rfl

/-- A step that asks the host does not print. -/
theorem prints?_of_asksHost (h : M.asksHost = true) : M.prints? = none := by
  obtain ⟨control, stack, store, sink, depth, calls⟩ := M
  cases control with
  | yield v =>
      cases stack with
      | nil => rfl
      | cons p stack => cases p with
        | print => cases h
        | _ => rfl
  | _ => rfl

/-- The machine of a run in a shell, beside the one that keeps all texts. -/
def beside (outlet : Outlet) (first : Sink) (P : Machine) : Machine :=
  P.onto (outlet.sink first P.sink)

/-- With its own sink, the machine beside another one is that one. -/
theorem onto_beside (outlet : Outlet) (first : Sink) (P : Machine) :
    (P.beside outlet first).onto P.sink = P := by
  cases outlet <;> rfl

/-- Only the sink tells the two machines apart. -/
theorem eq_beside {outlet : Outlet} {first : Sink} {P N : Machine}
    (h : N.sink = (P.beside outlet first).sink) :
    N = (N.onto P.sink).beside outlet first := by
  cases outlet with
  | kept =>
      have hsink : N.sink = P.sink := h
      show N = N.onto P.sink
      rw [← hsink]
      rfl
  | shown level =>
      have hsink : N.sink = first := h
      show N = (N.onto P.sink).onto first
      rw [← hsink]
      rfl

/-- A step in a shell is the step of the other machine, with its text shown if that is to be. A step
asks the clock, prints, or does neither, and never both. -/
theorem stepLive_beside (host : Host) (outlet : Outlet) (first : Sink) (hdone : P.isDone = false)
    (hall : P.sink.TakesAll) (h : w.Tells reading P.calls) :
    ((P.beside outlet first).stepLive outlet host : StateM Memory Machine) w =
      ((P.step (host.timed reading)).beside outlet first,
        w.heard P.asksHost.toNat (outlet.shows P.prints?.toList.flatten)) := by
  have hasks : (P.beside outlet first).asksHost = P.asksHost := by cases outlet <;> rfl
  unfold stepLive
  rw [hasks]
  cases hcase : P.asksHost with
  | true =>
      -- the clock is read, and the step is that with the reading
      have hprints := prints?_of_asksHost hcase
      have hread : w.heard 1 [] = { w with asked := w.asked + 1 } := by
        unfold Memory.heard
        rw [List.append_nil]
      rw [hprints, Option.toList_none, List.flatten_nil, outlet.shows_nil, ← step_showing h,
        Bool.toNat_true, hread]
      cases outlet with
      | kept => rfl
      | shown level =>
          have hstep : (P.onto first).step (host.showing (w.clock.reading w.asked)) = _ :=
            step_onto hdone hprints
          exact congrArg (·, _) hstep
  | false =>
      rw [step_timed reading hcase, Bool.toNat_false]
      cases outlet with
      | kept => exact congrArg (P.step host, ·) w.heard_zero.symm
      | shown level =>
          cases hprints : P.prints? with
          | none =>
              have hprints' : (P.onto first).prints? = none := hprints
              have hstep : (P.onto first).step host = _ := step_onto hdone hprints
              dsimp only [beside, Outlet.sink]
              rw [hprints', hstep]
              exact congrArg (_, ·) w.heard_zero.symm
          | some text =>
              have hprints' : (P.onto first).prints? = some text := hprints
              have htaken : P.sink.next? = none := hall _
              dsimp only [beside, Outlet.sink]
              rw [hprints', step_prints hprints, htaken, Option.toList_some, List.flatten_singleton]
              rfl

/-- What a step prints comes after what was printed before. -/
theorem contents_step (htaken : (P.step host).sink.taken = P.prints?.toList ++ P.sink.taken) :
    (P.step host).sink.contents = P.sink.contents ++ P.prints?.toList.flatten := by
  unfold Sink.contents
  rw [htaken, List.reverse_append, List.flatten_append]
  cases P.prints? <;> rfl

/-- The calls of the host are counted up. -/
theorem calls_run (host : Host) (M : Machine) (k : Nat) : M.calls ≤ (M.run host k).calls := by
  refine run_invariant (P := fun N => M.calls ≤ N.calls) (fun N h => ?_) (Nat.le_refl _) k
  rw [calls_step]
  exact Nat.le_add_right_of_le h

/-- A run in a shell is the run that is done in one go. It ends in the same machine, up to the sink,
and what is shown on the way is what the other run prints, if it is to be shown. -/
theorem runLive_beside (host : Host) (outlet : Outlet) (first : Sink) (fuel : Nat)
    (hall : P.sink.TakesAll) (h : w.Tells reading P.calls) :
    let last := P.run (host.timed reading) fuel
    ∃ printed, last.sink.contents = P.sink.contents ++ printed ∧
      ((P.beside outlet first).runLive outlet host fuel : StateM Memory Machine) w =
        (last.beside outlet first, w.heard (last.calls - P.calls) (outlet.shows printed)) := by
  induction fuel using Nat.strongRecOn generalizing P w with
  | ind fuel ih =>
      have hquiet := run_runQuietly host reading P.sink fuel (P.beside outlet first)
      have hle := left_runQuietly host fuel (P.beside outlet first)
      rw [runLive]
      generalize (P.beside outlet first).runQuietly host fuel = quiet at hquiet hle ⊢
      obtain ⟨left, N⟩ := quiet
      obtain ⟨hrun, hcalls, hsink⟩ := hquiet
      dsimp only at hrun hcalls hsink hle ⊢
      -- the machine after the quiet steps, and the other one at that moment
      obtain ⟨Q, hQ, hN⟩ : ∃ Q, Q = N.onto P.sink ∧ N = Q.beside outlet first :=
        ⟨_, rfl, eq_beside hsink⟩
      have hdone' : N.isDone = Q.isDone := by rw [hQ]; rfl
      have hQcalls : Q.calls = P.calls := by
        rw [hQ]
        exact hcalls.trans (by cases outlet <;> rfl)
      have hQsink : Q.sink = P.sink := by rw [hQ]; rfl
      rw [← hQ, onto_beside] at hrun
      rw [← hQsink] at hall ⊢
      rw [← hQcalls] at h ⊢
      rw [← hrun, hdone', hN]
      split
      next hstop =>
        have hover : Q.run (host.timed reading) left = Q := by
          rcases hstop with rfl | hdone
          · rfl
          · exact run_of_isDone hdone left
        refine ⟨[], ?_, ?_⟩
        · rw [hover, List.append_nil]
        · rw [hover, Nat.sub_self, Outlet.shows_nil, Memory.heard_zero]
          rfl
      next hgo =>
        obtain ⟨hleft, hgoes⟩ := not_or.mp hgo
        obtain ⟨left, rfl⟩ := Nat.exists_eq_succ_of_ne_zero hleft
        have hdone := Bool.eq_false_iff.mpr hgoes
        have hstep := stepLive_beside host outlet first hdone hall h
        obtain ⟨hall', htaken⟩ := taken_step (host.timed reading) hall hdone
        have hnext := h.heard Q.asksHost.toNat (outlet.shows Q.prints?.toList.flatten)
        rw [← calls_step (host.timed reading) Q] at hnext
        have hcount := calls_run (host.timed reading) (Q.step (host.timed reading)) left
        obtain ⟨printed, hprinted, hlater⟩ := ih left (by omega) hall' hnext
        rw [run, if_neg hgoes]
        refine ⟨Q.prints?.toList.flatten ++ printed, ?_, ?_⟩
        · rw [hprinted, contents_step htaken, List.append_assoc]
        · rw [bind_apply, hstep]
          refine hlater.trans ?_
          rw [Memory.heard_heard, ← Outlet.shows_append]
          rw [calls_step] at hcount ⊢
          congr 2
          omega

end Machine

-- ==== Programs

/-- A program that is carried out in a shell ends as in one go, and leaves the same bindings. The
host is put back as it was, without the readings; the sink is the one that was printed to, or has
stayed empty. -/
theorem Interpreter.interpretLive_eq (outlet : Outlet) (fuel : Nat) (i : Interpreter)
    (program : Program) (hall : i.sink.TakesAll) (hnone : i.sink.taken = [])
    (h : w.Tells reading i.calls) :
    let ran := Interpreter.interpret fuel { i with host := i.host.timed reading } program
    (i.interpretLive outlet fuel program : StateM Memory (Ending × Interpreter)) w =
      ((ran.1, { ran.2 with host := i.host, sink := outlet.sink i.sink ran.2.sink }),
        w.heard (ran.2.calls - i.calls) (outlet.shows ran.2.sink.contents)) := by
  intro ran
  have hbeside : i.start program = (i.start program).beside outlet i.sink := by
    cases outlet <;> rfl
  obtain ⟨printed, hprinted, hlive⟩ :=
    Machine.runLive_beside (P := i.start program) i.host outlet i.sink fuel hall h
  have hcontents : (i.start program).sink.contents = [] := by
    show i.sink.taken.reverse.flatten = []
    rw [hnone]
    rfl
  rw [hcontents, List.nil_append] at hprinted
  rw [← hbeside] at hlive
  have hran : ran = conclude (i.host.timed reading)
      ((i.start program).run (i.host.timed reading) fuel) := rfl
  generalize (i.start program).run (i.host.timed reading) fuel = last at hprinted hlive hran
  have hlast : conclude i.host (last.beside outlet i.sink) =
      (ran.1, { ran.2 with host := i.host, sink := outlet.sink i.sink ran.2.sink }) := by
    rw [hran]
    obtain ⟨control, stack, store, sink, depth, calls⟩ := last
    cases control <;> cases stack <;> rfl
  have hcalls : ran.2.calls = last.calls ∧ ran.2.sink = last.sink := by
    rw [hran, Session.conclude_snd]
    exact ⟨rfl, rfl⟩
  unfold interpretLive
  rw [bind_apply, hlive]
  show ((conclude i.host (last.beside outlet i.sink), _) : (Ending × Interpreter) × Memory) = _
  rw [hlast, hcalls.1, hcalls.2, hprinted]
  rfl

-- ==== Sessions

/-- What a shell has been told of a run, when it is over and the clock was read so many times: all
of it, as far as the level of the log goes, or nothing if it was kept. -/
def Outlet.leaves (outlet : Outlet) (w : Memory) (run : Run) (times : Nat) : Memory :=
  match outlet with
  | kept => w.heard times []
  | shown level =>
    { w.heard times run.printed with
      complaints := w.complaints ++ Diagnostic.report run.reported
      records := w.records ++ LogRecord.shown level run.log }

/-- A run of which all that was shown is forgotten. -/
def Outlet.keeps (outlet : Outlet) (run : Run) : Run :=
  match outlet with
  | kept => run
  | shown _ => { run with printed := [] }

/-- The shell when diagnostics were told. -/
def Outlet.told (outlet : Outlet) (w : Memory) (reported : List Diagnostic) : Memory :=
  match outlet with
  | kept => w
  | shown _ => { w with complaints := w.complaints ++ Diagnostic.report reported }

/-- The shell when records were told. -/
def Outlet.recorded (outlet : Outlet) (w : Memory) (log : List LogRecord) : Memory :=
  match outlet with
  | kept => w
  | shown level => { w with records := w.records ++ LogRecord.shown level log }

/-- What telling diagnostics does to the shell. -/
theorem Outlet.tell_apply (outlet : Outlet) (reported : List Diagnostic) (w : Memory) :
    (outlet.tell reported : StateM Memory Unit) w = ((), outlet.told w reported) := by
  cases outlet <;> rfl

/-- Records are logged one after the other. -/
theorem forEach_log (records : List LogRecord) (w : Memory) :
    (forEach Shell.log records : StateM Memory Unit) w =
      ((), { w with records := w.records ++ records }) := by
  induction records generalizing w with
  | nil => exact congrArg ((), ·) (by rw [List.append_nil])
  | cons r rest ih =>
      refine (ih { w with records := w.records ++ [r] }).trans ?_
      rw [List.append_assoc, List.singleton_append]

/-- What telling records does to the shell. -/
theorem Outlet.record_apply (outlet : Outlet) (log : List LogRecord) (w : Memory) :
    (outlet.record log : StateM Memory Unit) w = ((), outlet.recorded w log) := by
  cases outlet with
  | kept => rfl
  | shown level => exact forEach_log _ w

/-- The log before a run, the texts, the diagnostics and the log after it come to what is told. -/
theorem Outlet.leaves_eq (outlet : Outlet) (w : Memory) (ending : Ending) (printed : Bytes)
    (log : List LogRecord) (times : Nat) :
    let run := Session.concluded ending printed log
    outlet.recorded
        (outlet.told ((outlet.recorded w log).heard times (outlet.shows printed)) run.reported)
        (Session.endRecords ending) =
      outlet.leaves w run times := by
  intro run
  have hlog : run.log = log ++ Session.endRecords ending := by cases ending <;> rfl
  have hprinted : run.printed = printed := Session.printed_concluded ending printed log
  cases outlet with
  | kept => rfl
  | shown level =>
      dsimp only [recorded, told, leaves, shows, Memory.heard]
      rw [hlog, hprinted, LogRecord.shown, LogRecord.shown, LogRecord.shown, List.filter_append,
        List.append_assoc]

namespace Session

variable {s : Session} {source : Bytes}

/-- The session, with the readings of its clock. -/
def timed (s : Session) (reading : Nat → Float) : Session :=
  { s with interpreter := { s.interpreter with host := s.interpreter.host.timed reading } }

/-- A source that is rejected prints nothing. -/
theorem reject_printed (diagnostics : List Diagnostic) (log : List LogRecord) :
    (reject diagnostics log).printed = [] := by
  unfold reject
  rw [Run.foldl_report]
  rfl

/-- A source is rejected whatever the clock shows, and the session stays as it was. -/
theorem prepare_timed_error (reading : Nat → Float) {run : Run} {next : Session}
    (h : s.prepare source = (.error run, next)) :
    run.printed = [] ∧ next.interpreter = s.interpreter ∧
      (s.timed reading).prepare source = (.error run, next.timed reading) := by
  have htimed := prepare_eq (s.timed reading) source .compact
  rw [prepare_eq] at h
  split at h
  next hfound =>
    cases h
    exact ⟨reject_printed _ _, rfl, htimed.trans (if_pos hfound)⟩
  next hfound =>
    split at h
    next hmisused =>
      cases h
      exact ⟨reject_printed _ _, rfl,
        htimed.trans ((if_neg hfound).trans (if_pos hmisused))⟩
    next => cases h

/-- A source is ready to run whatever the clock shows, with a sink that has been emptied. -/
theorem prepare_timed_ok (reading : Nat → Float) {ready : Ready} {next : Session}
    (h : s.prepare source = (.ok ready, next)) :
    ready.interpreter.sink = s.interpreter.sink.drained ∧
      ready.interpreter.calls = s.interpreter.calls ∧
      (s.timed reading).prepare source =
        (.ok { ready with interpreter :=
          { ready.interpreter with host := ready.interpreter.host.timed reading } },
          next.timed reading) := by
  have htimed := prepare_eq (s.timed reading) source .compact
  rw [prepare_eq] at h
  split at h
  next => cases h
  next hfound =>
    split at h
    next => cases h
    next hmisused =>
      cases h
      exact ⟨rfl, rfl, htimed.trans ((if_neg hfound).trans (if_neg hmisused))⟩

/-- Of a source that is rejected a shell is told the log and the diagnostics. -/
theorem leaves_rejected (outlet : Outlet) (w : Memory) {run : Run} (hrun : run.printed = []) :
    outlet.told (outlet.recorded w run.log) run.reported = outlet.leaves w run 0 ∧
      outlet.keeps run = run := by
  cases outlet with
  | kept => exact ⟨w.heard_zero.symm, rfl⟩
  | shown level =>
      refine ⟨?_, ?_⟩
      · dsimp only [Outlet.told, Outlet.recorded, Outlet.leaves]
        rw [hrun, w.heard_zero]
      · dsimp only [Outlet.keeps]
        rw [← hrun]

/-- What is kept of a program that ran is what there is if nothing was printed, or all. -/
theorem keeps_concluded (outlet : Outlet) (first last : Sink) (hnone : first.taken = [])
    (ending : Ending) (log : List LogRecord) :
    concluded ending (outlet.sink first last).contents log =
      outlet.keeps (concluded ending last.contents log) := by
  cases outlet with
  | kept => rfl
  | shown level =>
      have hcontents : first.contents = [] := by
        unfold Sink.contents
        rw [hnone]
        rfl
      show concluded ending first.contents log = _
      rw [hcontents]
      cases ending <;> rfl

/-- A run in a shell is the run that is done in one go, with the readings that the clock of the shell
will show: the shell is told all that the other run leaves to see, and the two sessions go on alike,
up to their sinks. -/
theorem runLive_eq (outlet : Outlet) (fuel : Nat) (s : Session) (source : Bytes) (w : Memory)
    (hall : s.interpreter.sink.TakesAll) :
    let reading := w.ahead s.interpreter.calls
    let ran := (s.timed reading).run fuel source
    ∃ next, (s.runLive outlet fuel source : StateM Memory (Run × Session)) w =
        ((outlet.keeps ran.1, next),
          outlet.leaves w ran.1 (ran.2.interpreter.calls - s.interpreter.calls)) ∧
      next.timed reading =
        { ran.2 with interpreter := { ran.2.interpreter with sink := next.interpreter.sink } } := by
  intro reading ran
  have hran : ran = (s.timed reading).run fuel source := rfl
  unfold run at hran
  unfold runLive
  cases hprepare : s.prepare source with
  | mk outcome next =>
      cases outcome with
      | error run =>
          obtain ⟨hprinted, hkept, htimed⟩ := prepare_timed_error reading hprepare
          obtain ⟨hleaves, hkeeps⟩ := leaves_rejected outlet w hprinted
          rw [htimed] at hran
          dsimp only at hran ⊢
          refine ⟨next, ?_, ?_⟩
          · have hnone : (next.timed reading).interpreter.calls - s.interpreter.calls = 0 := by
              rw [← hkept]
              exact Nat.sub_self _
            rw [hran, bind_apply, outlet.record_apply, bind_apply, outlet.tell_apply, hleaves, hkeeps,
              hnone]
            rfl
          · rw [hran]
            rfl
      | ok ready =>
          obtain ⟨hsink, hcalls, htimed⟩ := prepare_timed_ok reading hprepare
          rw [htimed] at hran
          dsimp only at hran ⊢
          have hall' : ready.interpreter.sink.TakesAll := by
            rw [hsink]
            exact hall
          have hnone : ready.interpreter.sink.taken = [] := by
            rw [hsink]
            rfl
          have htells : (outlet.recorded w ready.log).Tells reading ready.interpreter.calls := by
            rw [hcalls]
            cases outlet <;> exact w.tells_ahead s.interpreter.calls
          have hlive := ready.interpreter.interpretLive_eq outlet fuel ready.program hall' hnone htells
          dsimp only at hlive
          have hhost : (Interpreter.interpret fuel
              { ready.interpreter with host := ready.interpreter.host.timed reading }
              ready.program).2.host = ready.interpreter.host.timed reading := by
            rw [Interpreter.interpret, conclude_snd]
            rfl
          generalize Interpreter.interpret fuel _ ready.program = ended at hlive hran hhost
          rw [bind_apply, outlet.record_apply, bind_apply, hlive]
          dsimp only
          have hreported : ∀ run : Run, (outlet.keeps run).reported = run.reported := by
            cases outlet <;> exact fun _ => rfl
          rw [bind_apply, outlet.tell_apply, bind_apply, outlet.record_apply,
            keeps_concluded outlet _ _ hnone, hreported, outlet.leaves_eq, hran, hcalls]
          refine ⟨_, rfl, ?_⟩
          dsimp only [timed]
          rw [hhost]

end Session

-- ==== Scripts and fixtures

/-- A script that is run in a shell shows what its run leaves to see, and exits as that says. The clock
goes on from one script to the next. -/
theorem Command.runScript_eq (fuel : Nat) (level : LogLevel) {path source : Bytes}
    (hread : w.contentsOf path = .ok source) :
    let told := (Outlet.shown level).recorded w [scriptRecord path source]
    let ran := (Session.clocked .unlimited (w.ahead 0)).run fuel source
    (runScript fuel level path : StateM Memory ExitCode) w =
      (ran.1.exitCode, (Outlet.shown level).leaves told ran.1 ran.2.interpreter.calls) := by
  intro told ran
  obtain ⟨next, hlive, -⟩ :=
    Session.live.runLive_eq (.shown level) fuel source told fun _ => rfl
  have hread' : (Shell.read path : StateM Memory (Except FileFault Bytes)) w = (.ok source, w) :=
    congrArg (·, w) hread
  have htold := Outlet.record_apply (.shown level) [scriptRecord path source] w
  dsimp only [Outlet.record] at htold
  unfold runScript
  rw [bind_apply, hread']
  dsimp only
  rw [bind_apply, htold]
  dsimp only
  rw [bind_apply, hlive]
  rfl

/-- A fixture of a suite is judged as it is by itself, with the readings that the clock will show. -/
theorem Suite.check_eq (fuel : Nat) {path source : Bytes} (hread : w.contentsOf path = .ok source) :
    let ran := (Session.clocked .unlimited (w.ahead 0)).run fuel source
    (check fuel path : StateM Memory (Except Bytes Report)) w =
      (.ok ⟨path, Fixture.clockedVerdict fuel (w.ahead 0) source, w.lapse⟩,
        w.heard ran.2.interpreter.calls []) := by
  intro ran
  obtain ⟨next, hlive, -⟩ := Session.live.runLive_eq .kept fuel source w fun _ => rfl
  have hread' : (Shell.read path : StateM Memory (Except FileFault Bytes)) w = (.ok source, w) :=
    congrArg (·, w) hread
  have hlapse : ∀ w : Memory, (Shell.elapsed : StateM Memory Bytes) w = (w.lapse, w) :=
    fun _ => rfl
  unfold check
  rw [bind_apply, hread']
  dsimp only
  rw [bind_apply, hlapse, bind_apply, hlive]
  rfl

end Lox
