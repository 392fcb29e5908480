/-
A sink that refuses a text cuts a run off, and nothing else.

A sink may refuse any text, for any reason and after a part of it was written (`Sink.refusal?`). What
a program prints does not depend on that, up to the first text that is refused. So a run is compared
with the run of the same program where the sink takes all:

- the two take the same steps as long as the sink refuses none of the texts so far (`run_within`),
  since a step that does not print does not look at the sink (`step_onto`);
- the step that hands over the text with the number of the first refusal is where they part
  (`exists_print`); the part of the text that was written is kept, and a fault comes up
  (`step_refused`);
- from then on the work that waits is only taken off the stack, whatever it is (`run_fail`). No text
  is printed and no frame is changed on the way out (`run_refused`).

The result for sinks of any kind is `refusing_sink_cuts_off`; the sink with room for a number of texts
is a case of it.
-/
import Lox.Proofs.Machine.Framed
import Lox.Proofs.Machine.Run
import Lox.Proofs.Session.Run

namespace Lox

/-- What is written of a text is one piece at most. -/
theorem Sink.reverse_pieces (text : Bytes) (refusal? : Option Refusal) :
    (pieces text refusal?).reverse = pieces text refusal? := by
  cases refusal? with
  | none => rfl
  | some r =>
      simp only [pieces]
      split <;> rfl

/-- The sink refuses no text. -/
def Sink.TakesAll (s : Sink) : Prop := ∀ before, s.refusal? before = none

namespace Machine

variable {host : Host} {m : Machine} {sink : Sink} {n : Nat} {refusal? : Nat → Option Refusal}
  {text : Bytes}

-- ==== The sink does not matter

/-- The machine, with another sink. -/
def onto (m : Machine) (sink : Sink) : Machine := { m with sink := sink }

theorem framed_nil (m : Machine) (sink : Sink) : m.framed [] sink = m.onto sink := by
  unfold framed onto
  rw [List.append_nil]

/-- A step that does not print is the same whatever the sink is. -/
theorem step_onto (hdone : m.isDone = false) (hp : m.prints? = none) :
    (m.onto sink).step host = (m.step host).onto sink := by
  rw [← framed_nil, step_framed hdone hp, framed_nil]

-- ==== What a step does to the sink

/-- A step hands over its text or nothing, and what the sink will refuse was settled before. -/
theorem step_sink (host : Host) (hdone : m.isDone = false) :
    (m.step host).sink.refusal? = m.sink.refusal? ∧
      (m.step host).sink.offered = m.sink.offered + m.prints?.toList.length := by
  cases hp : m.prints? with
  | none =>
      rw [sink_step hdone hp]
      exact ⟨rfl, rfl⟩
  | some text =>
      rw [step_prints hp]
      exact ⟨rfl, rfl⟩

/-- What was printed before a step is still printed after it. -/
theorem suffix_step (host : Host) (hdone : m.isDone = false) :
    m.sink.taken <:+ (m.step host).sink.taken := by
  cases hp : m.prints? with
  | none => exact ⟨[], by rw [sink_step hdone hp, List.nil_append]⟩
  | some text =>
      rw [step_prints hp]
      exact List.suffix_append _ _

/-- What was printed stays printed. -/
theorem taken_run (host : Host) (k : Nat) : m.sink.taken <:+ (m.run host k).sink.taken := by
  induction k generalizing m with
  | zero => exact List.suffix_refl _
  | succ k ih =>
      rw [run]
      split
      · exact List.suffix_refl _
      next hdone => exact (suffix_step host (Bool.eq_false_iff.mpr hdone)).trans ih

/-- Texts that were handed over stay counted. -/
theorem offered_run (host : Host) (k : Nat) : m.sink.offered ≤ (m.run host k).sink.offered := by
  induction k generalizing m with
  | zero => exact Nat.le_refl _
  | succ k ih =>
      rw [run]
      split
      · exact Nat.le_refl _
      next hdone =>
        have hstep := (step_sink (m := m) host (Bool.eq_false_iff.mpr hdone)).2
        exact Nat.le_trans (by omega) ih

/-- A run that hands over more than `n` texts comes to the step that hands over the first one past
them. -/
theorem exists_print {k : Nat} (hle : m.sink.offered ≤ n)
    (hlt : n < (m.run host k).sink.offered) :
    ∃ j < k, ∃ text, (m.run host j).prints? = some text ∧ (m.run host j).sink.offered = n := by
  induction k generalizing m with
  | zero =>
      rw [run] at hlt
      omega
  | succ k ih =>
      rw [run] at hlt
      split at hlt
      · omega
      next hdone =>
        have hstep := (step_sink (m := m) host (Bool.eq_false_iff.mpr hdone)).2
        by_cases hle' : (m.step host).sink.offered ≤ n
        · obtain ⟨j, hj, hmoment⟩ := ih hle' hlt
          refine ⟨j + 1, Nat.succ_lt_succ hj, ?_⟩
          rw [run, if_neg hdone]
          exact hmoment
        · -- this step hands over a text, so it is the one
          refine ⟨0, Nat.succ_pos k, ?_⟩
          rw [run]
          cases hp : m.prints? with
          | none =>
              rw [hp] at hstep
              exact absurd (hstep ▸ hle) hle'
          | some text =>
              rw [hp, Option.toList_some, List.length_singleton] at hstep
              exact ⟨text, rfl, by omega⟩

-- ==== A sink that takes all

/-- With a sink that takes all, a step prints its text or nothing. -/
theorem taken_step (host : Host) (hall : m.sink.TakesAll) (hdone : m.isDone = false) :
    (m.step host).sink.TakesAll ∧
      (m.step host).sink.taken = m.prints?.toList ++ m.sink.taken := by
  have hrefusal := (step_sink (m := m) host hdone).1
  refine ⟨fun before => by rw [hrefusal]; exact hall before, ?_⟩
  cases hp : m.prints? with
  | none =>
      rw [sink_step hdone hp]
      rfl
  | some text =>
      rw [step_prints hp]
      show Sink.pieces text (m.sink.refusal? m.sink.offered) ++ m.sink.taken = _
      rw [hall]
      rfl

/-- With a sink that takes all, there is one piece for each text. -/
theorem length_taken_run (host : Host) (k : Nat) (hall : m.sink.TakesAll)
    (hcount : m.sink.taken.length = m.sink.offered) :
    (m.run host k).sink.TakesAll ∧
      (m.run host k).sink.taken.length = (m.run host k).sink.offered := by
  induction k generalizing m with
  | zero => exact ⟨hall, hcount⟩
  | succ k ih =>
      rw [run]
      split
      · exact ⟨hall, hcount⟩
      next hdone =>
        have hdone' := Bool.eq_false_iff.mpr hdone
        obtain ⟨hall', htaken⟩ := taken_step host hall hdone'
        refine ih hall' ?_
        rw [htaken, List.length_append, hcount, (step_sink host hdone').2, Nat.add_comm]

/-- The text of a step that prints comes right after those printed before it. -/
theorem taken_of_prints? {k fuel : Nat} (hk : k < fuel) (hall : (m.run host k).sink.TakesAll)
    (hp : (m.run host k).prints? = some text) :
    ∃ later, (m.run host fuel).sink.taken = later ++ text :: (m.run host k).sink.taken := by
  obtain ⟨d, rfl⟩ := Nat.exists_eq_add_of_lt hk
  obtain ⟨hall', htaken⟩ := taken_step host hall (isDone_of_prints? hp)
  obtain ⟨later, hlater⟩ := taken_run host d
  refine ⟨later, ?_⟩
  rw [Nat.add_assoc, run_add, run, isDone_of_prints? hp, if_neg Bool.false_ne_true, ← hlater,
    htaken, hp]
  rfl

-- ==== A sink that refuses some

/-- The machine, with a sink that has taken the same texts and may refuse others. -/
def within (refusal? : Nat → Option Refusal) (m : Machine) : Machine :=
  m.onto ⟨m.sink.taken, m.sink.offered, refusal?⟩

/-- A step whose text is not refused does not depend on what else is. -/
theorem step_within (hall : m.sink.TakesAll) (hdone : m.isDone = false)
    (hnone : ∀ before < (m.step host).sink.offered, refusal? before = none) :
    (m.within refusal?).step host = (m.step host).within refusal? := by
  have hoffered := (step_sink (m := m) host hdone).2
  cases hp : m.prints? with
  | none =>
      unfold within
      rw [step_onto hdone hp, sink_step hdone hp]
  | some text =>
      rw [hp, Option.toList_some, List.length_singleton] at hoffered
      have hp' : (m.within refusal?).prints? = some text := hp
      have hthis : refusal? m.sink.offered = none := hnone _ (by omega)
      rw [step_prints hp, step_prints hp']
      simp only [within, onto, Sink.take, Sink.next?, hthis, hall m.sink.offered]

/-- A run of which no text is refused does not depend on what else is. -/
theorem run_within {k : Nat} (hall : m.sink.TakesAll)
    (hnone : ∀ before < (m.run host k).sink.offered, refusal? before = none) :
    (m.within refusal?).run host k = (m.run host k).within refusal? := by
  induction k generalizing m with
  | zero => rfl
  | succ k ih =>
      rw [run, run, show (m.within refusal?).isDone = m.isDone from rfl]
      rw [run] at hnone
      split at hnone
      next hdone => rw [if_pos hdone, if_pos hdone]
      next hdone =>
        have hdone' := Bool.eq_false_iff.mpr hdone
        have hall' := (taken_step host hall hdone').1
        have hstep : ∀ before < (m.step host).sink.offered, refusal? before = none :=
          fun before h => hnone before (Nat.lt_of_lt_of_le h (offered_run host k))
        rw [if_neg hdone, if_neg hdone, step_within hall hdone' hstep]
        exact ih hall' hnone

/-- Where a text is refused, printing is a fault. What was written of the text is there. -/
theorem step_refused (host : Host) {r : Refusal} (hp : m.prints? = some text)
    (hr : refusal? m.sink.offered = some r) :
    (m.within refusal?).step host =
      { m with
        control := .fail (.sinkFailed r.reason)
        stack := m.stack.tail
        sink := ⟨Sink.pieces text (some r) ++ m.sink.taken, m.sink.offered + 1, refusal?⟩ } := by
  have hp' : (m.within refusal?).prints? = some text := hp
  rw [step_prints hp']
  simp only [within, onto, Sink.take, Sink.next?, hr]
  rfl

/-- A fault takes all work off the stack, and changes no frame and no sink. -/
theorem run_fail (host : Host) {f : Fault} (hcontrol : m.control = .fail f) :
    ∃ depth, m.run host m.stack.length = { m with stack := [], depth := depth } := by
  obtain ⟨control, stack, store, sink, depth, calls⟩ := m
  subst hcontrol
  induction stack generalizing depth with
  | nil => exact ⟨depth, rfl⟩
  | cons p stack ih =>
      rw [List.length_cons, run, if_neg (by simp [isDone])]
      cases p <;> exact ih _

/-- From where a text is refused a fault leads out, and leaves frames and texts as they are. -/
theorem run_refused (host : Host) {r : Refusal} (hp : m.prints? = some text)
    (hr : refusal? m.sink.offered = some r) :
    ∃ steps depth, ∀ more, (m.within refusal?).run host (steps + more) =
      ⟨.fail (.sinkFailed r.reason), [], m.store,
        ⟨Sink.pieces text (some r) ++ m.sink.taken, m.sink.offered + 1, refusal?⟩, depth,
        m.calls⟩ := by
  have hp' : (m.within refusal?).prints? = some text := hp
  have hstep := step_refused host hp hr
  obtain ⟨depth, hout⟩ := run_fail host (m := (m.within refusal?).step host) (by rw [hstep])
  rw [hstep] at hout
  refine ⟨m.stack.tail.length + 1, depth, fun more => ?_⟩
  rw [run_add, run, isDone_of_prints? hp', if_neg Bool.false_ne_true, hstep, hout,
    run_of_isDone rfl]

end Machine

-- ==== Programs

namespace Interpreter

/-- The interpreter, printing to another sink. -/
def printingTo (i : Interpreter) (sink : Sink) : Interpreter := { i with sink := sink }

/-- What a machine has come to does not depend on its sink. -/
theorem conclude_onto (host : Host) (m : Machine) (sink : Sink) :
    conclude host (m.onto sink) = ((conclude host m).1, (conclude host m).2.printingTo sink) := by
  obtain ⟨control, stack, store, σ, depth, calls⟩ := m
  cases control <;> cases stack <;> rfl

/-- A sink that refuses texts, any of them and for any reasons, cuts a run off at the first one, and
does nothing else. Take the texts that a program prints where the sink takes all, in any number of
steps. If the sink refuses none of them, then the run is the same with it. If the first one that it
refuses is number `n`, then the run fails for the reason of the sink; the `n` texts before and what
was written of this one have been printed, and the bindings are those of the moment at which it was
to be printed. -/
theorem refusing_sink_cuts_off (i : Interpreter) (program : Program)
    (refusal? : Nat → Option Refusal) (fuel : Nat) :
    let free := (i.printingTo .unlimited).interpret fuel program
    let refusing := i.printingTo ⟨[], 0, refusal?⟩
    let texts := free.2.sink.taken.reverse
    ((∀ before < texts.length, refusal? before = none) → refusing.interpret fuel program =
      (free.1, free.2.printingTo ⟨texts.reverse, texts.length, refusal?⟩)) ∧
    ∀ n r, n < texts.length → (∀ before < n, refusal? before = none) → refusal? n = some r →
      ∃ enough left text, texts[n]? = some text ∧
        (∀ more,
          refusing.interpret (enough + more) program = (.failed (.sinkFailed r.reason), left)) ∧
        left.sink.taken.reverse = texts.take n ++ Sink.pieces text (some r) ∧
        ∃ k < fuel, let m := ((i.printingTo .unlimited).start program).run i.host k
          m.prints? = some text ∧ left.store = m.store ∧ left.calls = m.calls := by
  intro free refusing texts
  have hfree : free =
      conclude i.host (((i.printingTo .unlimited).start program).run i.host fuel) := rfl
  have hstart : refusing.start program =
      ((i.printingTo .unlimited).start program).within refusal? := rfl
  have hall : ((i.printingTo .unlimited).start program).sink.TakesAll := fun _ => rfl
  have hnone : ((i.printingTo .unlimited).start program).sink.taken.length =
      ((i.printingTo .unlimited).start program).sink.offered := rfl
  have hzero : ((i.printingTo .unlimited).start program).sink.offered = 0 := rfl
  generalize (i.printingTo .unlimited).start program = m at hfree hstart hall hnone hzero ⊢
  have hcount := fun k => Machine.length_taken_run i.host k hall hnone
  have htexts : texts = (m.run i.host fuel).sink.taken.reverse := by
    show free.2.sink.taken.reverse = _
    rw [hfree, Session.conclude_snd]
    rfl
  have hlength : texts.length = (m.run i.host fuel).sink.offered := by
    rw [htexts, List.length_reverse, (hcount fuel).2]
  refine ⟨fun hok => ?_, fun n r hlt hok hr => ?_⟩
  · rw [hlength] at hok
    show conclude i.host ((refusing.start program).run i.host fuel) = _
    rw [hstart, Machine.run_within hall hok, Machine.within, conclude_onto, hfree, hlength, htexts,
      List.reverse_reverse]
  · obtain ⟨k, hk, text, hprints, hn⟩ := Machine.exists_print (by omega) (hlength ▸ hlt)
    obtain ⟨steps, depth, hout⟩ := Machine.run_refused i.host hprints (hn.symm ▸ hr)
    obtain ⟨later, hlater⟩ := Machine.taken_of_prints? hk (hcount k).1 hprints
    have hwithin : (m.within refusal?).run i.host k = (m.run i.host k).within refusal? :=
      Machine.run_within hall (hn.symm ▸ hok)
    -- the texts are those before the moment, this one and later ones
    rw [hlater, List.reverse_append, List.reverse_cons, List.append_assoc] at htexts
    have hbefore : (m.run i.host k).sink.taken.reverse.length = n := by
      rw [List.length_reverse, (hcount k).2, hn]
    refine ⟨k + steps,
      ⟨i.host, (m.run i.host k).store,
        ⟨Sink.pieces text (some r) ++ (m.run i.host k).sink.taken,
          (m.run i.host k).sink.offered + 1, refusal?⟩, depth, (m.run i.host k).calls⟩,
      text, ?_, fun more => ?_, ?_, k, hk, hprints, rfl, rfl⟩
    · rw [htexts, List.getElem?_append_right (Nat.le_of_eq hbefore), hbefore, Nat.sub_self]
      rfl
    · show conclude i.host ((refusing.start program).run i.host (k + steps + more)) = _
      rw [hstart, Nat.add_assoc, Machine.run_add, hwithin, hout]
      rfl
    · rw [htexts, List.take_left' hbefore, List.reverse_append]
      congr 1
      exact Sink.reverse_pieces text (some r)

/-- A sink that fails cuts a run off, and nothing else. Take the texts that a program prints where the
sink takes all, in any number of steps. If a sink has room for them, then the run is the same with it:
it ends in the same way and leaves the same bindings. If a sink has room for `n` texts and there are
more, then the run fails, just the first `n` texts have been printed, and the bindings are those of
the moment at which the next one was to be printed. -/
theorem limited_sink_cuts_off (i : Interpreter) (program : Program) (n : Nat) (reason : Bytes)
    (fuel : Nat) :
    let free := (i.printingTo .unlimited).interpret fuel program
    let limited := i.printingTo (.limited n reason)
    let texts := free.2.sink.taken.reverse
    (texts.length ≤ n → limited.interpret fuel program =
      (free.1, free.2.printingTo
        { Sink.limited n reason with taken := texts.reverse, offered := texts.length })) ∧
    (n < texts.length → ∃ enough left,
      (∀ more, limited.interpret (enough + more) program = (.failed (.sinkFailed reason), left)) ∧
      (Fault.sinkFailed reason).text = utf8 "print: " ++ reason ∧
      left.sink.taken.reverse = texts.take n ∧
      ∃ k < fuel, let m := ((i.printingTo .unlimited).start program).run i.host k
        m.prints? = texts[n]? ∧ left.store = m.store ∧ left.calls = m.calls) := by
  intro free limited texts
  obtain ⟨htaken, hrefused⟩ := refusing_sink_cuts_off i program (Sink.limited n reason).refusal? fuel
  refine ⟨fun hle => htaken fun before hlt => if_pos (Nat.lt_of_lt_of_le hlt hle), fun hlt => ?_⟩
  obtain ⟨enough, left, text, htext, hends, hprinted, k, hk, hmoment⟩ :=
    hrefused n ⟨0, reason⟩ hlt (fun before h => if_pos h) (if_neg (Nat.lt_irrefl n))
  refine ⟨enough, left, hends, rfl, ?_, k, hk, ?_⟩
  · rw [hprinted]
    exact List.append_nil _
  · dsimp only at hmoment ⊢
    rw [htext]
    exact hmoment

end Interpreter

end Lox
