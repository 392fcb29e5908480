/-
The counter of calls.

# Calls in progress

The counter tells how many calls of functions with code are in progress: those whose body was
entered and that have no outcome yet (`InProgress`). It also tells how many calls the waiting work
comes back from (`Balanced`), and between the two stands the work itself: a call that is in progress
is there to be come back from (`InProgress.below`), and the later of two such calls is the higher
one (`InProgress.mono`), so each height belongs to one call (`exists_inProgress`, by induction on
the number of steps). So the calls in progress can be listed in the order in which they were made,
and there are as many as the counter says (`depth_eq_length`).

# The limit

The one step that counts up looks at the limit first (`step_cases`), so the limit is kept. A
function that is called with the right number of arguments gives up for the depth of calls exactly
at the limit (`apply_tooDeep`).

# Restored

Nothing that a machine sets out to do changes the counter for good, however it ends
(`depth_restored`), since a return and a fault count down at each call that they come back from.
This is by the count of the machine alone (`depth_alone`), which is balanced over a stack with as
many ends of calls below as the counter starts with.

# A function that does nothing but call itself

The last part follows such a function up to the limit, without running it: from one call to the next
it takes five steps and counts up by one (`Ready.run_call`), so by induction there is a moment at
which the limit is reached.
-/
import Lox.Proofs.Machine.Outcome
import Lox.Proofs.Session.Run
import Lox.Proofs.Store.Change
import Mathlib.Tactic.Choose

namespace Lox

namespace Machine

variable {host : Host} {m m' : Machine} {n j k : Nat} {paren : Token} {callee : Value}
  {args : List Value}

-- ==== Calls

/-- The next step enters the body of a function: it calls one, and does not fail. -/
def Enters (host : Host) (m : Machine) : Prop :=
  (∃ paren f args, m.calling? = some (paren, .function f, args)) ∧
    ∀ fault, (m.step host).control ≠ .fail fault

/-- The call that is made after `j` steps is in progress after `n`: the body was entered, and there
is no outcome yet for the work that the call was made for. -/
def InProgress (host : Host) (m : Machine) (n j : Nat) : Prop :=
  j < n ∧ (m.run host j).Enters host ∧
    ∀ k, j < k → k ≤ n → ¬(m.run host k).Answers (m.run host j).stack.tail

/-- The machine with the work on top taken off, as a call finds it. -/
def taken (m : Machine) : Machine := { m with control := .yield .nil, stack := m.stack.tail }

/-- A step that makes a call takes the work on top and calls. -/
theorem step_calling (host : Host) (h : m.calling? = some (paren, callee, args)) :
    m.step host = m.taken.apply host paren callee args ∧
      underWay m.stack.tail = underWay m.stack := by
  obtain ⟨control, stack, store, sink, depth, calls⟩ := m
  unfold calling? at h
  dsimp only at h
  split at h
  next v id paren' env stack =>
    cases h
    exact ⟨rfl, rfl⟩
  next v id paren' callee' before env stack =>
    cases h
    exact ⟨rfl, rfl⟩
  next => cases h

/-- The machine `m'` is about to carry out the body of a function that `m` called. The body is on
the stack, above the point where the call comes back. -/
structure Entered (m m' : Machine) : Prop where
  room : m.depth < maxDepth
  depth : m'.depth = m.depth + 1
  control : m'.control = .yield .nil
  stack : ∃ body env, m'.stack = .sequence body env :: .invoked :: m.stack

/-- A call enters the body of a function, or counts nothing. In the latter case a function fails, so
a call that succeeds without counting is one of the host. -/
theorem apply_cases (host : Host) (m : Machine) (paren : Token) (callee : Value)
    (args : List Value) :
    (∃ f, callee = .function f) ∧ Entered m (m.apply host paren callee args) ∨
      (∀ f, callee = .function f → ∃ fault, (m.apply host paren callee args).control = .fail fault) ∧
        (m.apply host paren callee args).depth = m.depth := by
  unfold apply
  cases callee.arity? with
  | none => exact .inr ⟨fun _ _ => ⟨_, rfl⟩, rfl⟩
  | some arity =>
      dsimp only
      split
      · exact .inr ⟨fun _ _ => ⟨_, rfl⟩, rfl⟩
      · cases callee with
        | function f =>
            dsimp only [invoke]
            split
            · exact .inr ⟨fun _ _ => ⟨_, rfl⟩, rfl⟩
            next hroom =>
              cases f.code with
              | none => exact .inr ⟨fun _ _ => ⟨_, rfl⟩, rfl⟩
              | some code =>
                  exact .inl ⟨⟨f, rfl⟩, Nat.lt_of_not_le hroom, rfl, rfl, code.body, _, rfl⟩
        | native f => exact .inr ⟨fun _ hf => Value.noConfusion rfl (heq_of_eq hf), rfl⟩
        | _ => exact .inr ⟨fun _ _ => ⟨_, rfl⟩, rfl⟩

/-- A function that is called with the right number of arguments gives up for the depth of calls
exactly at the limit. -/
theorem apply_tooDeep {f : Closure} (hargs : args.length = f.arity) :
    (m.apply host paren (.function f) args).control = .fail (.raised paren .tooDeep) ↔
      maxDepth ≤ m.depth := by
  have happly : m.apply host paren (.function f) args = m.invoke paren f args := by
    unfold apply
    dsimp only [Value.arity?]
    rw [if_neg fun hne => hne (congrArg Int.ofNat hargs)]
  rw [happly]
  unfold invoke
  by_cases h : maxDepth ≤ m.depth
  · rw [if_pos h]
    exact iff_of_true rfl h
  · rw [if_neg h]
    refine iff_of_false ?_ h
    intro hfail
    cases hcode : f.code with
    | none =>
        rw [hcode] at hfail
        cases hfail
    | some code =>
        rw [hcode] at hfail
        cases hfail

-- ==== A step

/-- Evaluating counts nothing. -/
theorem evalStep_depth (m : Machine) (e : Expr) (env : FrameRef) :
    (m.evalStep host e env).depth = m.depth := by
  cases e with
  | literal id value => cases value <;> rfl
  | ident id name =>
      dsimp only [evalStep]
      cases readName host m.store id name env <;> rfl
  | _ => rfl

/-- Nor does carrying out a statement. -/
theorem execStep_depth (m : Machine) (s : Stmt) (env : FrameRef) :
    (m.execStep s env).depth = m.depth := by
  cases s with
  | var id name initializer => cases initializer <;> rfl
  | result id keyword value => cases value <;> rfl
  | _ => rfl

/-- Only a call counts up. All other steps leave the counter as it is, and the end of a call, with
or without a fault, counts it down. -/
theorem depth_step_of_not_calling (h : m.calling? = none) : (m.step host).depth ≤ m.depth := by
  obtain ⟨control, stack, store, sink, depth, calls⟩ := m
  have same : depth ≤ depth := Nat.le_refl _
  cases control with
  | eval e env => exact Nat.le_of_eq (evalStep_depth _ e env)
  | exec s env => exact Nat.le_of_eq (execStep_depth _ s env)
  | yield v =>
      cases stack with
      | nil => exact same
      | cons p stack => cases p with
        | decide operator right env =>
            dsimp only [step, resumeStep]
            split <;> exact same
        | assign id name env =>
            dsimp only [step, resumeStep]
            cases findName host store id name env <;> exact same
        | callee id paren arguments env => cases arguments with
          | nil => cases h
          | cons e rest => exact same
        | argument id paren callee before rest env => cases rest with
          | nil => cases h
          | cons e rest => exact same
        | invoked => exact Nat.sub_le _ _
        | print =>
            dsimp only [step, resumeStep]
            cases sink.next? <;> exact same
        | sequence rest env => cases rest <;> exact same
        | loopTest condition body env =>
            dsimp only [step, resumeStep]
            split <;> exact same
        | _ => exact same
  | leave v =>
      cases stack with
      | nil => exact same
      | cons p stack => cases p with
        | invoked => exact Nat.sub_le _ _
        | _ => exact same
  | fail f =>
      cases stack with
      | nil => exact same
      | cons p stack => cases p with
        | invoked => exact Nat.sub_le _ _
        | _ => exact same

/-- A step enters the body of a function, with room for it, or does not count up. Which of the two
it is can be seen before the step from what is called, and after it from whether it failed. -/
theorem step_cases (host : Host) (m : Machine) :
    m.Enters host ∧ Entered m.taken (m.step host) ∨
      ¬m.Enters host ∧ (m.step host).depth ≤ m.depth := by
  cases hcall : m.calling? with
  | none =>
      refine .inr ⟨?_, depth_step_of_not_calling hcall⟩
      rintro ⟨⟨paren, f, args, hf⟩, -⟩
      rw [hcall] at hf
      cases hf
  | some call =>
      obtain ⟨paren, callee, args⟩ := call
      obtain ⟨hstep, -⟩ := step_calling host hcall
      rcases apply_cases host m.taken paren callee args with ⟨⟨f, rfl⟩, entered⟩ | ⟨fails, hdepth⟩
      · rw [← hstep] at entered
        refine .inl ⟨⟨⟨paren, f, args, hcall⟩, fun fault hfault => ?_⟩, entered⟩
        rw [entered.control] at hfault
        cases hfault
      · rw [← hstep] at fails hdepth
        refine .inr ⟨?_, Nat.le_of_eq hdepth⟩
        rintro ⟨⟨paren', f, args', hf⟩, hok⟩
        rw [hcall] at hf
        cases hf
        obtain ⟨fault, hfault⟩ := fails f rfl
        exact hok fault hfault

/-- A step that enters a function has room for it. -/
theorem Enters.entered (h : m.Enters host) :
    Entered m.taken (m.step host) ∧ underWay m.stack.tail = underWay m.stack := by
  obtain ⟨⟨paren, f, args, hcall⟩, -⟩ := id h
  rcases step_cases host m with ⟨-, entered⟩ | ⟨hnot, -⟩
  · exact ⟨entered, (step_calling host hcall).2⟩
  · exact absurd h hnot

/-- The limit is kept. -/
theorem depth_run (h : m.depth ≤ maxDepth) (n : Nat) : (m.run host n).depth ≤ maxDepth := by
  refine run_invariant (P := fun m => m.depth ≤ maxDepth) (fun m hm => ?_) h n
  rcases step_cases host m with ⟨-, entered⟩ | ⟨-, hle⟩
  · rw [entered.depth]
    exact entered.room
  · exact Nat.le_trans hle hm

-- ==== Pieces of work

/-- Calls are counted on both stretches of the work. -/
theorem underWay_append (stack T : List Pending) :
    underWay (stack ++ T) = underWay stack + underWay T := by
  induction stack with
  | nil => rw [List.nil_append, underWay, Nat.zero_add]
  | cons p stack ih =>
      cases p with
      | invoked =>
          show underWay (stack ++ T) + 1 = underWay stack + 1 + underWay T
          omega
      | _ => exact ih

theorem underWay_replicate (d : Nat) : underWay (List.replicate d .invoked) = d := by
  induction d with
  | zero => rfl
  | succ d ih =>
      show underWay (List.replicate d .invoked) + 1 = d + 1
      rw [ih]

/-- Alone, a machine counts on from where it starts. -/
theorem depth_alone (host : Host) (m : Machine) (n : Nat) :
    (m.alone.run host n).depth = underWay (m.alone.run host n).stack + m.depth := by
  -- as many calls as the counter tells at the start, put below, make the machine balanced
  obtain ⟨k, hk⟩ := run_on host m.alone (List.replicate m.depth .invoked) n
  have start : (m.alone.on (List.replicate m.depth .invoked)).Balanced := by
    show m.depth = underWay ([] ++ List.replicate m.depth .invoked)
    rw [List.nil_append, underWay_replicate]
  have balanced : (Machine.run host k _).Balanced := start.run k
  rw [hk] at balanced
  have hdepth : (m.alone.run host n).depth =
      underWay ((m.alone.run host n).stack ++ List.replicate m.depth .invoked) := balanced
  rw [hdepth, underWay_append, underWay_replicate]

/-- When it is done, the count is where it started. -/
theorem depth_alone_of_isDone (h : (m.alone.run host n).isDone = true) :
    (m.alone.run host n).depth = m.depth := by
  rw [depth_alone, stack_of_isDone h, underWay, Nat.zero_add]

/-- What a machine set out to do leaves the counter as it was, whatever the outcome. -/
theorem depth_restored (h : m.BusyFor host n) (hend : (m.run host n).Answers m.stack) :
    (m.run host n).depth = m.depth := by
  rw [run_busy h] at hend ⊢
  have hdone : (m.alone.run host n).isDone = true := answers_on_iff.mp hend
  exact depth_alone_of_isDone hdone

-- ==== Calls in progress

/-- A machine that is done does not change. -/
theorem step_of_isDone (h : m.isDone = true) : m.step host = m := by
  obtain ⟨control, stack, store, sink, depth, calls⟩ := m
  obtain rfl : stack = [] := stack_of_isDone h
  cases control with
  | eval e env => cases h
  | exec s env => cases h
  | _ => rfl

/-- The last step of a run. -/
theorem run_succ (host : Host) (m : Machine) (n : Nat) :
    m.run host (n + 1) = (m.run host n).step host := by
  rw [run_add]
  cases hdone : (m.run host n).isDone with
  | true => rw [run_of_isDone hdone, step_of_isDone hdone]
  | false => exact run_one hdone

/-- Work that waits for a call to come back is kept until the call has an outcome. -/
theorem step_above {T : List Pending} (h : ¬(m.step host).Answers T)
    (habove : ∃ above : Machine, m = above.on (.invoked :: T)) :
    ∃ above : Machine, m.step host = above.on (.invoked :: T) := by
  obtain ⟨above, rfl⟩ := habove
  cases hdone : above.isDone with
  | false => exact ⟨above.step host, step_on hdone⟩
  | true =>
      refine absurd ?_ h
      obtain ⟨control, stack, store, sink, depth, calls⟩ := above
      obtain rfl : stack = [] := stack_of_isDone hdone
      cases control with
      | eval e env => cases hdone
      | exec s env => cases hdone
      | _ => exact ⟨rfl, rfl⟩

namespace InProgress

/-- A call that is in progress was in progress before, from when it was made. -/
theorem before (h : InProgress host m n j) (hjk : j < k) (hkn : k ≤ n) : InProgress host m k j :=
  ⟨hjk, h.2.1, fun i hji hik => h.2.2 i hji (Nat.le_trans hik hkn)⟩

/-- A call that is in progress has the work below that comes back from it. -/
theorem below (h : InProgress host m n j) :
    ∃ above : Machine, m.run host n = above.on (.invoked :: (m.run host j).stack.tail) := by
  induction n with
  | zero => exact absurd h.1 (Nat.not_lt_zero j)
  | succ n ih =>
      rw [run_succ]
      rcases Nat.lt_succ_iff_lt_or_eq.mp h.1 with hlt | rfl
      · refine step_above ?_ (ih (h.before hlt (Nat.le_succ n)))
        rw [← run_succ]
        exact h.2.2 (n + 1) h.1 (Nat.le_refl _)
      · obtain ⟨entered, -⟩ := h.2.1.entered
        obtain ⟨body, env, hstack⟩ := entered.stack
        refine ⟨{ (m.run host j).step host with stack := [.sequence body env] }, ?_⟩
        show _ = { (m.run host j).step host with
          stack := .sequence body env :: .invoked :: (m.run host j).taken.stack }
        rw [← hstack]

/-- A call in progress is counted, and those below it with it. -/
theorem underWay_lt (h : InProgress host m n j) :
    underWay (m.run host j).stack < underWay (m.run host n).stack := by
  obtain ⟨above, habove⟩ := h.below
  obtain ⟨-, hunder⟩ := h.2.1.entered
  have hstack : (m.run host n).stack = above.stack ++ .invoked :: (m.run host j).stack.tail := by
    rw [habove]
    rfl
  rw [hstack, underWay_append, underWay, ← hunder]
  omega

/-- Of two calls that are in progress the later one is the higher one. -/
theorem mono (hj : InProgress host m n j) (hk : InProgress host m n k) (hjk : j < k) :
    underWay (m.run host j).stack < underWay (m.run host k).stack :=
  (hj.before hjk (Nat.le_of_lt hk.1)).underWay_lt

/-- The higher of two calls in progress is the later one. -/
theorem lt_of_underWay (hj : InProgress host m n j) (hk : InProgress host m n k)
    (h : underWay (m.run host j).stack < underWay (m.run host k).stack) : j < k := by
  rcases Nat.lt_trichotomy j k with hlt | rfl | hgt
  · exact hlt
  · exact absurd h (Nat.lt_irrefl _)
  · exact absurd h (Nat.lt_asymm (hk.mono hj hgt))

/-- At one height there is one call in progress. -/
theorem eq_of_underWay (hj : InProgress host m n j) (hk : InProgress host m n k)
    (h : underWay (m.run host j).stack = underWay (m.run host k).stack) : j = k := by
  rcases Nat.lt_trichotomy j k with hlt | heq | hgt
  · exact absurd h (Nat.ne_of_lt (hj.mono hk hlt))
  · exact heq
  · exact absurd h.symm (Nat.ne_of_lt (hk.mono hj hgt))

/-- A call below the top goes on. -/
theorem succ (h : InProgress host m n j)
    (hlt : underWay (m.run host j).stack < underWay (m.run host (n + 1)).stack) :
    InProgress host m (n + 1) j := by
  refine ⟨Nat.lt_succ_of_lt h.1, h.2.1, fun k hjk hk => ?_⟩
  rcases Nat.le_succ_iff.mp hk with hle | rfl
  · exact h.2.2 k hjk hle
  · rintro ⟨-, hstack⟩
    obtain ⟨-, hunder⟩ := h.2.1.entered
    rw [hstack, hunder] at hlt
    exact absurd hlt (Nat.lt_irrefl _)

end InProgress

/-- A call that has just been made is in progress. -/
theorem Enters.inProgress (h : (m.run host n).Enters host) : InProgress host m (n + 1) n := by
  refine ⟨Nat.lt_succ_self n, h, fun k hnk hk => ?_⟩
  obtain rfl : k = n + 1 := Nat.le_antisymm hk hnk
  obtain ⟨entered, -⟩ := h.entered
  obtain ⟨body, env, hstack⟩ := entered.stack
  rintro ⟨-, htail⟩
  rw [run_succ, hstack] at htail
  have hlength := congrArg List.length htail
  simp only [taken, List.length_cons] at hlength
  omega

/-- Each height up to the counter belongs to a call that is in progress, by induction on the steps:
the counter grows by one at a time, and the call that makes it grow has the height that is new. -/
theorem exists_inProgress (host : Host) (h : m.Balanced) (hzero : m.depth = 0) (n : Nat) :
    ∀ d < (m.run host n).depth,
      ∃ j, InProgress host m n j ∧ underWay (m.run host j).stack = d := by
  induction n with
  | zero =>
      intro d hd
      rw [run, hzero] at hd
      exact absurd hd (Nat.not_lt_zero d)
  | succ n ih =>
      intro d hd
      have hbalanced : (m.run host n).depth = underWay (m.run host n).stack := h.run n
      have hbalanced' : (m.run host (n + 1)).depth = underWay (m.run host (n + 1)).stack :=
        h.run (n + 1)
      by_cases hlt : d < (m.run host n).depth
      · obtain ⟨j, hj, rfl⟩ := ih d hlt
        exact ⟨j, hj.succ (hbalanced' ▸ hd), rfl⟩
      · -- the height is new, so the step enters the body of a function
        have hstep := run_succ host m n
        rcases step_cases host (m.run host n) with ⟨enters, entered⟩ | ⟨-, hle⟩
        · have hdepth : (m.run host (n + 1)).depth = (m.run host n).depth + 1 := by
            rw [hstep]
            exact entered.depth
          refine ⟨n, enters.inProgress, ?_⟩
          omega
        · rw [← hstep] at hle
          omega

/-- The counter tells how many calls are in progress. Each has a height of its own, calls that were
made later are higher, and all heights up to the counter occur, so the calls can be listed by
height. -/
theorem depth_eq_length (host : Host) (h : m.Balanced) (hzero : m.depth = 0) (n : Nat) :
    ∃ made : List Nat, made.Pairwise (· < ·) ∧ (∀ j, j ∈ made ↔ InProgress host m n j) ∧
      (m.run host n).depth = made.length := by
  have hbalanced : (m.run host n).depth = underWay (m.run host n).stack := h.run n
  -- the calls, by height
  choose! call hcall using exists_inProgress host h hzero n
  refine ⟨(List.range (m.run host n).depth).map call, ?_, fun j => ?_, ?_⟩
  · rw [List.pairwise_map]
    refine List.Pairwise.imp_of_mem (fun {a b} ha hb hab => ?_) List.pairwise_lt_range
    obtain ⟨hina, hheighta⟩ := hcall a (List.mem_range.mp ha)
    obtain ⟨hinb, hheightb⟩ := hcall b (List.mem_range.mp hb)
    apply hina.lt_of_underWay hinb
    rw [hheighta, hheightb]
    exact hab
  · rw [List.mem_map]
    constructor
    · rintro ⟨d, hd, rfl⟩
      exact (hcall d (List.mem_range.mp hd)).1
    · intro hj
      have hd : underWay (m.run host j).stack < (m.run host n).depth := by
        rw [hbalanced]
        exact hj.underWay_lt
      obtain ⟨hin, hheight⟩ := hcall _ hd
      exact ⟨_, List.mem_range.mpr hd, hin.eq_of_underWay hj hheight⟩
  · rw [List.length_map, List.length_range]

end Machine

-- ==== Programs

namespace Interpreter

/-- A run that has an outcome has come to its end. -/
theorem isDone_of_ended {host : Host} {m : Machine} (h : (conclude host m).1 ≠ .unfinished) :
    m.isDone = true := by
  obtain ⟨control, stack, store, sink, depth, calls⟩ := m
  cases control with
  | eval e env => cases stack <;> exact absurd rfl h
  | exec s env => cases stack <;> exact absurd rfl h
  | _ => cases stack with
    | nil => rfl
    | cons p stack => exact absurd rfl h

/-- The counter of calls is exact. At each point of a program, whatever the interpreter did before, it
tells how many calls of functions with code are in progress, and there are at most 16384. A call of a
function of the host leaves it alone, and a function that is called with the right number of arguments
gives up at the closing parenthesis exactly if 16384 calls are in progress. Each expression and each
statement leaves the counter as it found it, with a result, a fault or a return. So it is nought after
a program. -/
theorem depth_counts_calls (i : Interpreter) (program : Program) :
    (∀ n,
      let m := (i.start program).run i.host n
      ∃ made : List Nat, made.Pairwise (· < ·) ∧
        (∀ j, j ∈ made ↔ Machine.InProgress i.host (i.start program) n j) ∧
        m.depth = made.length ∧ made.length ≤ 16384 ∧
        (∀ paren f args, m.calling? = some (paren, .native f, args) →
          (m.step i.host).depth = m.depth) ∧
        ∀ paren f args, m.calling? = some (paren, .function f, args) → args.length = f.arity →
          ((m.step i.host).control = .fail (.raised paren .tooDeep) ↔ made.length = 16384)) ∧
    (∀ (m : Machine) (n : Nat), m.BusyFor i.host n → (m.run i.host n).Answers m.stack →
      (m.run i.host n).depth = m.depth) ∧
    (∀ fuel, (i.interpret fuel program).1 ≠ .unfinished → (i.interpret fuel program).2.depth = 0) ∧
    (∀ fuel e, (i.evaluate fuel e).1 ≠ .unfinished →
      (i.evaluate fuel e).2.depth = i.depth) ∧
    Cause.tooDeep.message = utf8 "Stack overflow." := by
  have start : (i.start program).Balanced := rfl
  refine ⟨?_, fun m n => Machine.depth_restored, fun fuel hend => ?_, fun fuel e hend => ?_, rfl⟩
  · intro n m
    obtain ⟨made, hsorted, hmade, hdepth⟩ := Machine.depth_eq_length i.host start rfl n
    have hlimit : m.depth ≤ Machine.maxDepth := Machine.depth_run (Nat.zero_le _) n
    refine ⟨made, hsorted, hmade, hdepth, hdepth ▸ hlimit, ?_, ?_⟩
    · intro paren f args hcall
      obtain ⟨hstep, -⟩ := Machine.step_calling i.host hcall
      rw [hstep]
      rcases Machine.apply_cases i.host m.taken paren (.native f) args with ⟨⟨g, hg⟩, -⟩ | ⟨-, h⟩
      · cases hg
      · exact h
    · intro paren f args hcall hargs
      obtain ⟨hstep, -⟩ := Machine.step_calling i.host hcall
      rw [hstep, Machine.apply_tooDeep hargs, ← hdepth]
      exact ⟨fun h => Nat.le_antisymm hlimit h, fun h => Nat.le_of_eq h.symm⟩
  · unfold interpret at hend ⊢
    rw [Session.conclude_snd]
    have balanced : ((i.start program).run i.host fuel).Balanced := start.run fuel
    have hdone := isDone_of_ended hend
    show ((i.start program).run i.host fuel).depth = 0
    rw [balanced]
    exact congrArg Machine.underWay (Machine.stack_of_isDone hdone)
  · unfold evaluate at hend ⊢
    rw [Session.conclude_snd]
    exact Machine.depth_alone_of_isDone
      (m := ⟨.eval e Store.global, [], i.store, i.sink, i.depth, i.calls⟩) (isDone_of_ended hend)

end Interpreter

-- ==== A function that does nothing but call itself

namespace Runaway

def name : Token := ⟨.identifier, utf8 "f", .nil, 1⟩

def paren : Token := ⟨.rightParen, utf8 ")", .nil, 1⟩

def call : Expr := .call 1 (.ident 0 name) paren []

/-- The function `f` has the body `f();`, and is called. -/
def program : Program :=
  [.function 3 name [] [.expression 2 call], .expression 5 call]

def host : Host := ⟨∅, #[]⟩

/-- The function is about to be called, with so many calls in progress. -/
structure Ready (d : Nat) (m : Machine) : Prop where
  control : ∃ env, m.control = .eval call env
  depth : m.depth = d
  bound : ∃ f, m.store.get Store.global name.lexeme = .ok (.function f) ∧
    f.code = some ⟨name, [], [.expression 2 call]⟩

variable {d n : Nat} {m : Machine}

/-- The function is looked up. -/
theorem Ready.run_callee (h : Ready d m) :
    ∃ f : Closure, f.code = some ⟨name, [], [.expression 2 call]⟩ ∧ ∃ env,
      m.run host 2 =
        { m with control := .yield (.function f), stack := .callee 1 paren [] env :: m.stack } := by
  obtain ⟨control, stack, store, sink, depth, calls⟩ := m
  obtain ⟨⟨env, rfl⟩, -, f, hget, hcode⟩ := h
  refine ⟨f, hcode, env, ?_⟩
  have hread : Machine.readName host store 0 name env = .ok (.function f) := hget
  show Machine.evalStep host
    ⟨.yield .nil, .callee 1 paren [] env :: stack, store, sink, depth, calls⟩ (.ident 0 name) env = _
  dsimp only [Machine.evalStep]
  rw [hread]

/-- The body of the function calls it again. Five steps lead from one such call to the next, one
level deeper: the name is looked up, the call is made, and its body comes to the call in it. -/
theorem Ready.run_call (h : Ready d m) (hroom : d < Machine.maxDepth) :
    Ready (d + 1) (m.run host 5) := by
  obtain ⟨f, hcode, env, hcallee⟩ := h.run_callee
  have harity : f.arity = 0 := by
    rw [Closure.arity, hcode]
    rfl
  have hroom : ¬Machine.maxDepth ≤ m.depth := by
    rw [h.depth]
    exact Nat.not_le_of_lt hroom
  have hinvoke : Machine.apply host { m with control := .yield .nil } paren (.function f) [] =
      { m with
        control := .yield .nil
        stack := .sequence [.expression 2 call] m.store.nextRef :: .invoked :: m.stack
        store := m.store.add (some f.env)
        depth := m.depth + 1 } := by
    unfold Machine.apply
    dsimp only [Value.arity?]
    rw [harity, if_neg (by decide)]
    unfold Machine.invoke
    rw [if_neg hroom, hcode]
    rfl
  have hrun : m.run host 5 =
      { m with
        control := .eval call m.store.nextRef
        stack := .discard :: .sequence [] m.store.nextRef :: .invoked :: m.stack
        store := m.store.add (some f.env)
        depth := m.depth + 1 } := by
    rw [Machine.run_add _ 2 3, hcallee]
    show Machine.run host 2 (Machine.apply host { m with control := .yield .nil } paren
      (.function f) []) = _
    rw [hinvoke]
    rfl
  rw [hrun]
  refine ⟨⟨_, rfl⟩, congrArg (· + 1) h.depth, ?_⟩
  obtain ⟨g, hget, hg⟩ := h.bound
  refine ⟨g, ?_, hg⟩
  unfold Store.get at hget ⊢
  rw [Store.lookup?_add]
  exact hget

/-- The calls pile up to the limit. -/
theorem Ready.exists_run (h : Ready d m) (hn : d + n ≤ Machine.maxDepth) :
    ∃ k, Ready (d + n) (m.run host k) := by
  induction n generalizing d m with
  | zero => exact ⟨0, h⟩
  | succ n ih =>
      obtain ⟨k, hk⟩ := ih (h.run_call (by omega)) (by omega)
      refine ⟨5 + k, ?_⟩
      rw [Machine.run_add, Nat.add_comm n 1, ← Nat.add_assoc]
      exact hk

end Runaway

/-- A function that does nothing but call itself overflows the stack. It comes to the greatest
depth, level by level, and there the next call fails. -/
theorem Interpreter.depth_counts_calls_runaway :
    let i := Interpreter.bare Sink.unlimited
    ∃ n,
      let m := (i.start Runaway.program).run i.host n
      m.depth = 16384 ∧ (m.step i.host).control = .fail (.raised Runaway.paren .tooDeep) := by
  intro i
  have start : Runaway.Ready 0 ((i.start Runaway.program).run Runaway.host 4) :=
    ⟨⟨Store.global, rfl⟩, rfl,
      ⟨1, some ⟨Runaway.name, [], [.expression 2 Runaway.call]⟩, 0⟩, rfl, rfl⟩
  obtain ⟨k, ready⟩ := start.exists_run (n := 16384) (Nat.le_refl _)
  obtain ⟨f, hcode, env, hcallee⟩ := ready.run_callee
  rw [← Machine.run_add, ← Machine.run_add] at hcallee
  obtain ⟨made, -, -, hdepth, -, -, htooDeep⟩ :=
    (Interpreter.depth_counts_calls i Runaway.program).1 (4 + k + 2)
  have hm : ((i.start Runaway.program).run i.host (4 + k + 2)).depth = 16384 :=
    (congrArg Machine.depth hcallee).trans ready.depth
  have hcall : ((i.start Runaway.program).run i.host (4 + k + 2)).calling? =
      some (Runaway.paren, .function f, []) :=
    congrArg Machine.calling? hcallee
  refine ⟨4 + k + 2, hm, (htooDeep Runaway.paren f [] hcall ?_).mpr (hdepth.symm.trans hm)⟩
  rw [Closure.arity, hcode]
  rfl

end Lox
