/-
Sessions do not show in which form loops are written.

# Two forms

A `for` statement may be written with a block around its parts only where there is something to keep
together, or with all blocks always. The trees differ, so do the scopes, the distances and the
frames; but a session cannot tell them apart. A source has the same diagnostics in both forms
(`static_forms`). If it is run, the lexical machines for the two trees go the same way
(`Lexical.Machine.Padded`), and each of them is what the machine of the session does
(`Ties.run_lexical`).

# Bounds

The machine for the tree with more blocks takes more steps, so the two forms are compared with
different bounds on the number of steps, unless the run with all blocks has come to its end. However
long the compact form is run, the full form comes to show the same (`After.run_full`); at no moment
has the full form printed what the compact form has not (`After.printed_full`), since what a run has
printed only grows with its bound (`printed_prefix`).

# The loop that is meant

Where no clause is missing, both forms are the tree of a block with a `while` loop in it, and the
main result (`for_means_full_form`) has both facts.
-/
import Lox.Proofs.Lexical.Forms
import Lox.Proofs.Machine.Output
import Lox.Proofs.Reader.ForLoop
import Lox.Proofs.Reader.Forms
import Lox.Proofs.Scope.Forms
import Lox.Proofs.Session.History
import Lox.Proofs.Session.Termination

namespace Lox

-- ==== Runs

/-- The runs leave the same to see, but for the log, which has the sizes of trees and of resolutions
in it. -/
structure Run.ShowsSame (r r' : Run) : Prop where
  outcome : r'.outcome = r.outcome
  diagnostics : r'.diagnostics = r.diagnostics
  reported : r'.reported = r.reported
  printed : r'.printed = r.printed
  exitCode : r'.exitCode = r.exitCode

/-- Sources that are rejected with the same diagnostics show the same. -/
theorem Run.ShowsSame.reject (diagnostics : List Diagnostic) (log log' : List LogRecord) :
    (Session.reject diagnostics log).ShowsSame (Session.reject diagnostics log') := by
  simp only [Session.reject, Run.foldl_report]
  exact ⟨rfl, rfl, rfl, rfl, rfl⟩

/-- So do runs that end in the same way and have printed the same. -/
theorem Run.ShowsSame.concluded {ending ending' : Ending} (h : ending'.close = ending.close)
    (printed : Bytes) (log log' : List LogRecord) :
    (Session.concluded ending printed log).ShowsSame (Session.concluded ending' printed log') := by
  cases ending <;> cases ending' <;> cases h <;> exact ⟨rfl, rfl, rfl, rfl, rfl⟩

namespace Session

variable {sink : Sink} {reading : Nat → Float} {vs : List Visit} {s : Session} {source : Bytes}

/-- Both forms have the same diagnostics. -/
theorem static_forms (s : Session) (source : Bytes) :
    (s.parsed source .full).diagnostics = (s.parsed source .compact).diagnostics ∧
      (s.resolved source .full).diagnostics = (s.resolved source .compact).diagnostics := by
  obtain ⟨hpadded, hparse⟩ := parse_padded (scan source).tokens s.issued s.issued
  refine ⟨hparse, ?_⟩
  exact resolve_padded hpadded (parse_made source s.issued .compact).formed
    (parse_made source s.issued .full).formed s.interpreter.knows

/-- A source is accepted in both forms or in neither. -/
theorem accepts_full_iff (s : Session) (source : Bytes) :
    s.Accepts source .full ↔ s.Accepts source .compact := by
  obtain ⟨hparse, hresolve⟩ := s.static_forms source
  constructor
  · intro h
    exact ⟨h.scan, hparse ▸ h.parse, hresolve ▸ h.resolve⟩
  · intro h
    exact ⟨h.scan, hparse.trans h.parse, hresolve.trans h.resolve⟩

/-- The machine for the full form comes to a moment at which it has ended as the other one has, or
has not ended either, and at which the same has been printed. -/
theorem After.machine_forms (h : After sink reading vs s) (ha : s.Accepts source .compact)
    (fuel : Nat) :
    ∃ fuel', fuel ≤ fuel' ∧
      let m := (s.started source .compact).run (s.host source .compact) fuel
      let m' := (s.started source .full).run (s.host source .full) fuel'
      m'.control.close m'.stack = m.control.close m.stack ∧ m'.sink = m.sink := by
  obtain ⟨L, mem, heap⟩ := h.ties.heap
  have hstart : (s.lexical source .compact mem).Padded (s.lexical source .full mem) :=
    .start (parse_padded _ _ _).1 (.refl mem) _ _
  obtain ⟨fuel', hle, hpadded, hclose⟩ := hstart.run reading fuel
  obtain ⟨L₁, tied⟩ := h.ties.run_lexical heap ha fuel
  obtain ⟨L₂, tied'⟩ := h.ties.run_lexical heap ((s.accepts_full_iff source).mpr ha) fuel'
  refine ⟨fuel', hle, ?_, ?_⟩
  · rw [tied.doing.close, tied'.doing.close]
    exact hclose
  · rw [tied.sink, tied'.sink]
    exact hpadded.sink_eq

/-- A run shows how its machine has ended and what was printed. The forms are accepted or rejected
alike, so it is enough to compare the machines of a source that is accepted. -/
theorem run_showsSame {fuel fuel' : Nat}
    (h : s.Accepts source .compact →
      let m := (s.started source .compact).run (s.host source .compact) fuel
      let m' := (s.started source .full).run (s.host source .full) fuel'
      m'.control.close m'.stack = m.control.close m.stack ∧ m'.sink = m.sink) :
    (s.run fuel source .compact).1.ShowsSame (s.run fuel' source .full).1 := by
  obtain ⟨hparse, hresolve⟩ := s.static_forms source
  rw [run_eq, run_eq, hparse, hresolve]
  split
  · exact .reject ..
  next hfound =>
    split
    · exact .reject ..
    next hmisused =>
      simp only [Bool.not_eq_true, Bool.not_eq_false', List.isEmpty_iff,
        List.append_eq_nil_iff] at hfound hmisused
      obtain ⟨hclose, hsink⟩ := h ⟨hfound.1, hfound.2, hmisused⟩
      rw [hsink]
      refine .concluded ?_ ..
      rw [conclude_close, conclude_close]
      exact hclose

/-- A source that is not run has no steps to bound. -/
theorem run_of_not_accepts {form : LoopForm} (h : ¬s.Accepts source form) (fuel fuel' : Nat) :
    (s.run fuel' source form).1 = (s.run fuel source form).1 := by
  rw [run_eq, run_eq]
  split
  · rfl
  next hfound =>
    split
    · rfl
    next hmisused =>
      simp only [Bool.not_eq_true, Bool.not_eq_false', List.isEmpty_iff,
        List.append_eq_nil_iff] at hfound hmisused
      exact absurd ⟨hfound.1, hfound.2, hmisused⟩ h

/-- Once a run has ended, a larger bound on its steps does not matter: its machine is done and stays
as it is. -/
theorem run_of_ended {form : LoopForm} {fuel fuel' : Nat} (hle : fuel ≤ fuel')
    (h : (s.run fuel source form).1.outcome ≠ .unfinished) :
    (s.run fuel' source form).1 = (s.run fuel source form).1 := by
  by_cases accepts : s.Accepts source form
  · have hdone : ((s.started source form).run (s.host source form) fuel).isDone = true := by
      obtain ⟨log, hrun⟩ := (@run_accepted s source form fuel accepts).1
      rw [Machine.isDone_eq, ← conclude_close (s.host source form)]
      rw [hrun] at h
      cases hending : (Interpreter.conclude (s.host source form) _).1 with
      | finished v => rfl
      | failed f => rfl
      | unfinished =>
          rw [hending] at h
          exact absurd rfl h
    obtain ⟨more, rfl⟩ := Nat.exists_eq_add_of_le hle
    have hmachine : (s.started source form).run (s.host source form) (fuel + more) =
        (s.started source form).run (s.host source form) fuel := by
      rw [Machine.run_add, Machine.run_of_isDone hdone]
    rw [run_of_machine hmachine]
  · exact run_of_not_accepts accepts fuel fuel'

/-- A larger bound on the steps of a run takes back nothing that was printed. -/
theorem printed_prefix {form : LoopForm} {fuel fuel' : Nat} (hle : fuel ≤ fuel') :
    (s.run fuel source form).1.printed <+: (s.run fuel' source form).1.printed := by
  by_cases accepts : s.Accepts source form
  · obtain ⟨log, hrun⟩ := (@run_accepted s source form fuel accepts).1
    obtain ⟨log', hrun'⟩ := (@run_accepted s source form fuel' accepts).1
    obtain ⟨more, rfl⟩ := Nat.exists_eq_add_of_le hle
    obtain ⟨later, hlater⟩ := Machine.taken_run (m := (s.started source form).run
      (s.host source form) fuel) (s.host source form) more
    rw [hrun, hrun', printed_concluded, printed_concluded, Machine.run_add, Sink.contents,
      Sink.contents, ← hlater, List.reverse_append, List.flatten_append]
    exact List.prefix_append _ _
  · exact ⟨[], by rw [run_of_not_accepts accepts fuel fuel', List.append_nil]⟩

/-- However long the compact form is run, the full form comes to show the same. -/
theorem After.run_full (h : After sink reading vs s) (source : Bytes) (fuel : Nat) :
    ∃ fuel', fuel ≤ fuel' ∧
      (s.run fuel source .compact).1.ShowsSame (s.run fuel' source .full).1 := by
  by_cases accepts : s.Accepts source .compact
  · obtain ⟨fuel', hle, hsame⟩ := h.machine_forms accepts fuel
    exact ⟨fuel', hle, run_showsSame fun _ => hsame⟩
  · exact ⟨fuel, Nat.le_refl fuel, run_showsSame fun ha => absurd ha accepts⟩

/-- Where the full form has ended, the compact form has ended too and shows the same. -/
theorem After.run_compact (h : After sink reading vs s) {source : Bytes} {fuel : Nat}
    (hended : (s.run fuel source .full).1.outcome ≠ .unfinished) :
    (s.run fuel source .compact).1.ShowsSame (s.run fuel source .full).1 := by
  obtain ⟨fuel', hle, hsame⟩ := h.run_full source fuel
  rw [run_of_ended hle hended] at hsame
  exact hsame

/-- At no moment has the full form printed what the compact form has not. -/
theorem After.printed_full (h : After sink reading vs s) (source : Bytes) (fuel : Nat) :
    (s.run fuel source .full).1.printed <+: (s.run fuel source .compact).1.printed := by
  obtain ⟨fuel', hle, hsame⟩ := h.run_full source fuel
  rw [← hsame.printed]
  exact printed_prefix hle

/-- A `for` statement means its full form. Whatever a session has run, a source has the same
diagnostics in both forms; however long the compact form is run, the full form comes to show the
same; at no moment has the full form printed anything else; and where the full form has ended, so
has the compact one. With all clauses there, the tree is that of
`{ initializer while (condition) { body increment; } }`, up to identities. -/
theorem for_means_full_form :
    (∀ (sink : Sink) (reading : Nat → Float) (history : List Request) (source : Bytes),
      let s := (clocked sink reading).afterAll history
      (s.parsed source .full).diagnostics = (s.parsed source .compact).diagnostics ∧
        (s.resolved source .full).diagnostics = (s.resolved source .compact).diagnostics ∧
        ∀ fuel, (∃ fuel', fuel ≤ fuel' ∧
            (s.run fuel source .compact).1.ShowsSame (s.run fuel' source .full).1) ∧
          (s.run fuel source .full).1.printed <+: (s.run fuel source .compact).1.printed ∧
          ((s.run fuel source .full).1.outcome ≠ .unfinished →
            (s.run fuel source .compact).1.ShowsSame (s.run fuel source .full).1)) ∧
      ∀ (form : LoopForm) (initializer condition increment body : List Token) (i : Stmt)
        (c u : Expr) (b : Stmt), LoopClauses form initializer condition increment body i c u b →
        ∀ (mark mark' : Nat → Kind → Token) (eof eof' : Token) (issued issued' : Nat),
          (∀ j k, (mark j k).kind = k) → (∀ j k, (mark' j k).kind = k) → eof.kind = .eof →
          eof'.kind = .eof →
          let p := parse (forText mark initializer condition increment body ++ [eof]) issued form
          let p' := parse (whileText mark' initializer condition increment body ++ [eof']) issued'
            form
          p.diagnostics = [] ∧ p'.diagnostics = [] ∧
            Stmt.bareAll p.program = [(loopTree i c u b).bare] ∧
            Stmt.bareAll p.program = Stmt.bareAll p'.program := by
  refine ⟨fun sink reading history source => ?_, ?_⟩
  · obtain ⟨vs, after⟩ := (After.new : After sink reading [] _).all history
    obtain ⟨hparse, hresolve⟩ := static_forms ((clocked sink reading).afterAll history) source
    exact ⟨hparse, hresolve, fun fuel =>
      ⟨after.run_full source fuel, after.printed_full source fuel, after.run_compact⟩⟩
  · intro form initializer condition increment body i c u b h mark mark' eof eof' issued issued'
      hmark hmark' heof heof'
    obtain ⟨hclean, htree⟩ := parse_forText hmark heof h issued
    obtain ⟨hclean', htree'⟩ := parse_whileText hmark' heof' h issued'
    exact ⟨hclean, hclean', htree, htree.trans htree'.symm⟩

/-- A loop without clauses that fails in the function of an earlier source, and a loop with all of
them. -/
theorem for_means_full_form_in_function :
    let s := (clocked .unlimited fun _ => 0).afterAll
      [⟨100, utf8 "fun f(a) { for (;;) { fun g() { return a; } print g; a = -g(); } }", .compact⟩]
    let source := utf8 "for (; true; f(f)) print f;"
    (s.run 400 source .full).1.outcome = .failed ∧
      (s.run 400 source .compact).1.ShowsSame (s.run 400 source .full).1 ∧
      Stmt.bareAll (parse (scan (utf8 "for (var i = nil; i == nil; i = true) print i;")).tokens 0
          .compact).program =
        Stmt.bareAll (parse (scan (utf8
          "{ var i = nil; while (i == nil) { print i; i = true; } }")).tokens 0
            .compact).program := by
  intro s source
  have hended : (s.run 400 source .full).1.outcome = .failed := by decide +kernel
  obtain ⟨hforms, htrees⟩ := for_means_full_form
  refine ⟨hended, ?_, ?_⟩
  · refine ((hforms .unlimited (fun _ => 0) _ source).2.2 400).2.2 ?_
    rw [hended]
    exact Outcome.noConfusion
  · let piece (text : String) : List Token := Token.body (scan (utf8 text)).tokens
    have h : LoopClauses .compact (piece "var i = nil;") (piece "i == nil") (piece "i = true")
        (piece "print i;")
        (.var 2 ⟨.identifier, utf8 "i", .nil, 1⟩ (.literal 1 .nil))
        (.binary 3 (.ident 1 ⟨.identifier, utf8 "i", .nil, 1⟩)
          ⟨.equalEqual, utf8 "==", .nil, 1⟩ (.literal 2 .nil))
        (.assign 3 ⟨.identifier, utf8 "i", .nil, 1⟩ (.literal 2 (.bool true)))
        (.print 2 (.ident 1 ⟨.identifier, utf8 "i", .nil, 1⟩)) :=
      { initializer := ⟨by decide +kernel, by rfl, by rfl⟩
        clause := .inl ⟨_, _, _, rfl⟩
        condition := ⟨4, ⟨.semicolon, utf8 ";", .nil, 1⟩, by decide +kernel, by rfl, by rfl⟩
        increment := ⟨4, ⟨.semicolon, utf8 ";", .nil, 1⟩, by decide +kernel, by rfl, by rfl⟩
        body := ⟨by decide +kernel, by rfl, by rfl⟩
        plain := rfl }
    let word : Kind → String
      | .for => "for"
      | .while => "while"
      | .leftParen => "("
      | .rightParen => ")"
      | .leftBrace => "\x7b"
      | .rightBrace => "\x7d"
      | _ => ";"
    let mark (_ : Nat) (k : Kind) : Token := ⟨k, utf8 (word k), .nil, 1⟩
    exact (htrees _ _ _ _ _ _ _ _ _ h mark mark ⟨.eof, [], .nil, 1⟩ ⟨.eof, [], .nil, 1⟩ 0 0
      (fun _ _ => rfl) (fun _ _ => rfl) rfl rfl).2.2.2

end Session

end Lox
