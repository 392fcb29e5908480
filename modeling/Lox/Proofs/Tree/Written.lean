/-
Trees written as tokens.

# Writing

`Expr.tokens` and `Stmt.tokens` write a tree down as it would stand in a script, with no parentheses
but those that the tree holds as groups. Tokens that the tree keeps are written as they are, with
their own lines; those that it does not keep are marks, which are nothing but their text.

# The grammar's shape

Not every tree can be told from what is written so. `Expr.Fits` and `Stmt.Canonical` are the shapes
that the grammar gives, and they are the grammar itself, with nothing taken from the parser.

- An operand binds at least as tightly as its place asks for. The levels are written out in
  `binaryLevels` and `logicalLevels`, and with operators before an operand at 7 and calls at 8. The
  operand after an operator must be of a higher level, so that a chain of operators leans to the
  left.
- Only a variable is assigned to, and what is assigned may be another assignment.
- There are at most 255 arguments and at most 255 parameters.
- Bodies of loops and branches are no declarations.
- A branch with an `else` does not end in an `if` without one, which would take the `else` for
  itself (`Stmt.endsOpen`).

The parser has levels and a limit of its own, and they are shown to be these (`mem_binaryLevels`,
`mem_logicalLevels`, `Reader.maxArity_eq`).

# First and last tokens

What is read next is decided by the token in front, so reading a tree back needs to know with which
tokens trees can start: an expression with one of a few kinds (`Expr.Fits.starts`), one that can be
called not with an operator (`Expr.Fits.starts_operand`), and a statement neither with a closing
brace nor with an `else` (`Stmt.Canonical.starts`). No token of a tree is the end of a script
(`kind_ne_eof`).

# Tokens that a tree was made from

`Expr.Holds T` says that the tokens kept in a tree are of `T`, and that its constants are carried by
such tokens or are among those that have words of their own.
-/
import Lox.Tree.Parse
import Lox.Proofs.Tree.Identity

namespace Lox

-- ==== Writing

/-- A token that is nothing but its text. -/
def Token.mark (kind : Kind) (text : String) : Token := ⟨kind, utf8 text, .nil, 1⟩

/-- The pieces, with a comma between each and the next. -/
def Token.listed : List (List Token) → List Token
  | [] => []
  | [piece] => piece
  | piece :: pieces => piece ++ .mark .comma "," :: Token.listed pieces

/-- The token that a constant is written as. A number is written as it is shown, and a text between
quotes. -/
def Literal.token : Literal → Token
  | .nil => .mark .nil "nil"
  | .bool true => .mark .true "true"
  | .bool false => .mark .false "false"
  | .number x => ⟨.number, Number.display x, .number x, 1⟩
  | .string s => ⟨.string, utf8 "\"" ++ s ++ utf8 "\"", .string s, 1⟩
  | .integer n => ⟨.number, Bytes.ofInt n, .integer n, 1⟩

mutual

/-- An expression as tokens, in the order in which they are written. Tokens that the tree keeps are
written as they are, with their lines. -/
def Expr.tokens : Expr → List Token
  | .absent => []
  | .literal _ value => [value.token]
  | .grouping _ inner => .mark .leftParen "(" :: (inner.tokens ++ [.mark .rightParen ")"])
  | .unary _ operator operand => operator :: operand.tokens
  | .binary _ left operator right => left.tokens ++ operator :: right.tokens
  | .logical _ left operator right => left.tokens ++ operator :: right.tokens
  | .assign _ name value => name :: .mark .equal "=" :: value.tokens
  | .ident _ name => [name]
  | .call _ callee paren arguments =>
    callee.tokens ++ .mark .leftParen "(" :: (Token.listed (Expr.tokensEach arguments) ++ [paren])

/-- Each of the expressions as tokens. -/
def Expr.tokensEach : List Expr → List (List Token)
  | [] => []
  | e :: rest => e.tokens :: Expr.tokensEach rest

end

mutual

/-- A statement as tokens. The names and the keyword of a `return`, which the tree keeps, are
written as they are, and all other tokens are made anew from their kinds. -/
def Stmt.tokens : Stmt → List Token
  | .absent => []
  | .expression _ value => value.tokens ++ [.mark .semicolon ";"]
  | .print _ value => .mark .print "print" :: (value.tokens ++ [.mark .semicolon ";"])
  | .var _ name initializer =>
    .mark .var "var" :: name ::
      ((if initializer.isAbsent then [] else .mark .equal "=" :: initializer.tokens) ++
        [.mark .semicolon ";"])
  | .block _ body => .mark .leftBrace "\x7b" :: (Stmt.tokensAll body ++ [.mark .rightBrace "\x7d"])
  | .branch _ condition positive negative =>
    .mark .if "if" :: .mark .leftParen "(" ::
      (condition.tokens ++ .mark .rightParen ")" ::
        (positive.tokens ++
          if negative.isAbsent then [] else .mark .else "else" :: negative.tokens))
  | .loop _ condition body =>
    .mark .while "while" :: .mark .leftParen "(" ::
      (condition.tokens ++ .mark .rightParen ")" :: body.tokens)
  | .function _ name params body =>
    .mark .fun "fun" :: name :: .mark .leftParen "(" ::
      (Token.listed (params.map fun p => [p]) ++ .mark .rightParen ")" ::
        .mark .leftBrace "\x7b" :: (Stmt.tokensAll body ++ [.mark .rightBrace "\x7d"]))
  | .result _ keyword value => keyword :: (value.tokens ++ [.mark .semicolon ";"])

/-- Statements as tokens, one after the other. -/
def Stmt.tokensAll : List Stmt → List Token
  | [] => []
  | s :: rest => s.tokens ++ Stmt.tokensAll rest

end

-- ==== The shape of what the grammar gives

/-- The operators that need both operands, and their levels in the grammar: equality, comparison,
sums and products. -/
def binaryLevels : List (Kind × Nat) :=
  [(.bangEqual, 3), (.equalEqual, 3), (.greater, 4), (.greaterEqual, 4), (.less, 4),
    (.lessEqual, 4), (.minus, 5), (.plus, 5), (.slash, 6), (.star, 6)]

/-- The operators that may do without the second operand, and their levels: they bind least. -/
def logicalLevels : List (Kind × Nat) := [(.or, 1), (.and, 2)]

/-- Can the expression stand where an operand must bind at least this tightly? The levels are those
of the grammar: 0 is any expression, an assignment too; then come the operators between two
operands, from `or` at 1 to products at 6; operators before one operand are at 7, and calls at 8. The
operand before an operator may be of the operator's own level and the one after it may not, so chains
lean to the left. -/
inductive Expr.Fits : Nat → Expr → Prop where
  | literal (least id : Nat) (value : Literal) : Fits least (.literal id value)
  | ident {name : Token} (least id : Nat) (kind : name.kind = .identifier) :
      Fits least (.ident id name)
  | grouping {inner : Expr} (least id : Nat) (inside : Fits 0 inner) : Fits least (.grouping id inner)
  | call {least : Nat} {callee : Expr} {paren : Token} {arguments : List Expr} (id : Nat)
      (loose : least ≤ 8) (called : Fits 8 callee) (passed : ∀ e ∈ arguments, Fits 0 e)
      (kind : paren.kind = .rightParen) (few : arguments.length ≤ 255) :
      Fits least (.call id callee paren arguments)
  | unary {least : Nat} {operator : Token} {operand : Expr} (id : Nat) (loose : least ≤ 7)
      (kind : operator.kind = .bang ∨ operator.kind = .minus) (inside : Fits 7 operand) :
      Fits least (.unary id operator operand)
  | binary {least level : Nat} {left right : Expr} {operator : Token} (id : Nat)
      (binds : (operator.kind, level) ∈ binaryLevels) (loose : least ≤ level)
      (before : Fits level left) (after : Fits (level + 1) right) :
      Fits least (.binary id left operator right)
  | logical {least level : Nat} {left right : Expr} {operator : Token} (id : Nat)
      (binds : (operator.kind, level) ∈ logicalLevels) (loose : least ≤ level)
      (before : Fits level left) (after : Fits (level + 1) right) :
      Fits least (.logical id left operator right)
  | assign {name : Token} {value : Expr} (id : Nat) (kind : name.kind = .identifier)
      (inside : Fits 0 value) : Fits 0 (.assign id name value)

/-- Is the last thing in the statement an `if` without an `else`? An `else` after it would be taken
for its own. -/
def Stmt.endsOpen : Stmt → Bool
  | .branch _ _ _ .absent => true
  | .branch _ _ _ negative => negative.endsOpen
  | .loop _ _ body => body.endsOpen
  | _ => false

/-- The token that comes next is no `else` that would belong to the statement. -/
def Stmt.ClosedBefore (s : Stmt) (rest : List Token) : Prop :=
  s.endsOpen = true → ∀ t ts, rest = t :: ts → t.kind ≠ .else

/-- A statement that does not end open does not take an `else`, whatever follows. -/
theorem Stmt.ClosedBefore.of_shut {s : Stmt} {rest : List Token} (h : s.endsOpen = false) :
    s.ClosedBefore rest := by
  intro hopen
  rw [h] at hopen
  cases hopen

/-- The statement has the shape that the grammar gives: branches and bodies are statements and no
declarations, a branch before an `else` does not end with an `if` that could take it, and there are
at most 255 parameters. -/
inductive Stmt.Canonical : Stmt → Prop where
  | expression {value : Expr} (id : Nat) (fits : value.Fits 0) : Canonical (.expression id value)
  | print {value : Expr} (id : Nat) (fits : value.Fits 0) : Canonical (.print id value)
  | var {name : Token} {initializer : Expr} (id : Nat) (kind : name.kind = .identifier)
      (fits : initializer = .absent ∨ initializer.Fits 0) : Canonical (.var id name initializer)
  | block {body : List Stmt} (id : Nat) (inside : ∀ s ∈ body, Canonical s) :
      Canonical (.block id body)
  | branch {condition : Expr} {positive : Stmt} (id : Nat) (fits : condition.Fits 0)
      (first : Canonical positive) (plain : positive.declared? = none) :
      Canonical (.branch id condition positive .absent)
  | branchElse {condition : Expr} {positive negative : Stmt} (id : Nat) (fits : condition.Fits 0)
      (first : Canonical positive) (plain : positive.declared? = none)
      (closed : positive.endsOpen = false)
      (second : Canonical negative) (plainElse : negative.declared? = none) :
      Canonical (.branch id condition positive negative)
  | loop {condition : Expr} {body : Stmt} (id : Nat) (fits : condition.Fits 0)
      (inside : Canonical body) (plain : body.declared? = none) : Canonical (.loop id condition body)
  | function {name : Token} {params : List Token} {body : List Stmt} (id : Nat)
      (kind : name.kind = .identifier) (kinds : ∀ p ∈ params, p.kind = .identifier)
      (few : params.length ≤ 255) (inside : ∀ s ∈ body, Canonical s) :
      Canonical (.function id name params body)
  | result {keyword : Token} {value : Expr} (id : Nat) (kind : keyword.kind = .return)
      (fits : value = .absent ∨ value.Fits 0) : Canonical (.result id keyword value)

-- ==== How tightly operators bind

/-- The parser's levels are those of the grammar, for operators that need both operands. -/
theorem mem_binaryLevels {k : Kind} {p : Nat} :
    (k, p) ∈ binaryLevels ↔ k.precedence? = some p ∧ ¬(k = .or ∨ k = .and) := by
  cases k <;> simp [binaryLevels, Kind.precedence?, eq_comm]

/-- And they are for the other two. -/
theorem mem_logicalLevels {k : Kind} {p : Nat} :
    (k, p) ∈ logicalLevels ↔ k.precedence? = some p ∧ (k = .or ∨ k = .and) := by
  cases k <;> simp [logicalLevels, Kind.precedence?, eq_comm]

/-- The parser's limit on lists is that of the grammar. -/
theorem Reader.maxArity_eq : Reader.maxArity = 255 := rfl

/-- Operators between two operands are at the levels from 1 to 6. -/
theorem Kind.precedence_bounds {k : Kind} {p : Nat} (h : k.precedence? = some p) : 1 ≤ p ∧ p ≤ 6 := by
  cases k <;> simp only [Kind.precedence?, Option.some.injEq, reduceCtorEq] at h <;> omega

/-- What binds tightly enough for one place does for a place that asks for less. -/
theorem Expr.Fits.mono {e : Expr} {p q : Nat} (h : e.Fits q) (hpq : p ≤ q) : e.Fits p := by
  cases h with
  | literal _ id value => exact .literal p id value
  | ident _ id kind => exact .ident p id kind
  | grouping _ id inside => exact .grouping p id inside
  | call id loose called passed kind few =>
      exact .call id (Nat.le_trans hpq loose) called passed kind few
  | unary id loose kind inside => exact .unary id (Nat.le_trans hpq loose) kind inside
  | binary id binds loose before after =>
      exact .binary id binds (Nat.le_trans hpq loose) before after
  | logical id binds loose before after =>
      exact .logical id binds (Nat.le_trans hpq loose) before after
  | assign id kind inside =>
      obtain rfl : p = 0 := Nat.le_zero.mp hpq
      exact .assign id kind inside

-- ==== The first token

/-- Can an expression start with a token of this kind? -/
def Kind.startsExpression : Kind → Bool
  | .leftParen | .bang | .minus | .identifier | .string | .number | .false | .nil | .true => Bool.true
  | _ => Bool.false

/-- A constant is written as a token that an expression can start with. -/
theorem Literal.token_starts (value : Literal) : value.token.kind.startsExpression = true := by
  cases value with
  | bool b => cases b <;> rfl
  | _ => rfl

/-- An expression is written with a token at least, of a kind that it can start with. A tree that
leans to the left starts with the first token of its left operand. -/
theorem Expr.Fits.starts {e : Expr} {q : Nat} (h : e.Fits q) :
    ∃ t ts, e.tokens = t :: ts ∧ t.kind.startsExpression = true := by
  induction h with
  | literal _ id value => exact ⟨_, _, rfl, value.token_starts⟩
  | ident _ id kind => exact ⟨_, _, rfl, by rw [kind]; rfl⟩
  | grouping _ id inside => exact ⟨_, _, rfl, rfl⟩
  | call id loose called passed kind few ih =>
      obtain ⟨t, ts, hts, ht⟩ := ih
      exact ⟨t, _, by rw [Expr.tokens, hts, List.cons_append], ht⟩
  | unary id loose kind inside => exact ⟨_, _, rfl, by rcases kind with hk | hk <;> rw [hk] <;> rfl⟩
  | binary id binds loose before after ih =>
      obtain ⟨t, ts, hts, ht⟩ := ih
      exact ⟨t, _, by rw [Expr.tokens, hts, List.cons_append], ht⟩
  | logical id binds loose before after ih =>
      obtain ⟨t, ts, hts, ht⟩ := ih
      exact ⟨t, _, by rw [Expr.tokens, hts, List.cons_append], ht⟩
  | assign id kind inside => exact ⟨_, _, rfl, by rw [kind]; rfl⟩

/-- What can be called does not start with an operator. All other levels bind more loosely, and
inside parentheses it starts with the parenthesis. -/
theorem Expr.Fits.starts_operand {e : Expr} {q : Nat} (h : e.Fits q) (hq : 8 ≤ q) :
    ∃ t ts, e.tokens = t :: ts ∧ ¬(t.kind = .bang ∨ t.kind = .minus) := by
  induction h with
  | literal _ id value =>
      refine ⟨_, _, rfl, ?_⟩
      cases value with
      | bool b => cases b <;> simp [Literal.token, Token.mark]
      | _ => simp [Literal.token, Token.mark]
  | ident _ id kind => exact ⟨_, _, rfl, by simp [kind]⟩
  | grouping _ id inside => exact ⟨_, _, rfl, by simp [Token.mark]⟩
  | call id loose called passed kind few ih =>
      obtain ⟨t, ts, hts, ht⟩ := ih (Nat.le_refl _)
      exact ⟨t, _, by rw [Expr.tokens, hts, List.cons_append], ht⟩
  | unary id loose kind inside => omega
  | binary id binds loose before after =>
      have := Kind.precedence_bounds (mem_binaryLevels.mp binds).1
      omega
  | logical id binds loose before after =>
      have := Kind.precedence_bounds (mem_logicalLevels.mp binds).1
      omega
  | assign id kind inside => omega

/-- A statement starts neither with a closing brace nor with an `else`. -/
theorem Stmt.Canonical.starts {s : Stmt} (h : s.Canonical) :
    ∃ t ts, s.tokens = t :: ts ∧ t.kind ≠ .rightBrace ∧ t.kind ≠ .else := by
  cases h with
  | expression id fits =>
      obtain ⟨t, ts, hts, ht⟩ := fits.starts
      refine ⟨t, _, by rw [Stmt.tokens, hts, List.cons_append], ?_, ?_⟩
      · intro hk
        simp [hk, Kind.startsExpression] at ht
      · intro hk
        simp [hk, Kind.startsExpression] at ht
  | result id kind fits => exact ⟨_, _, rfl, by simp [kind], by simp [kind]⟩
  | _ => exact ⟨_, _, rfl, Kind.noConfusion, Kind.noConfusion⟩

/-- Arguments do not start with a closing parenthesis. -/
theorem Expr.Fits.listed_starts {e : Expr} {q : Nat} (h : e.Fits q) (es : List Expr) :
    ∃ t ts, Token.listed (Expr.tokensEach (e :: es)) = t :: ts ∧ t.kind ≠ .rightParen := by
  obtain ⟨t, ts, hts, ht⟩ := h.starts
  have hk : t.kind ≠ .rightParen := by
    intro hk
    simp [hk, Kind.startsExpression] at ht
  cases es with
  | nil => exact ⟨t, ts, hts, hk⟩
  | cons e' es =>
      refine ⟨t, ts ++ .mark .comma "," :: Token.listed (Expr.tokensEach (e' :: es)), ?_, hk⟩
      show e.tokens ++ .mark .comma "," :: Token.listed (Expr.tokensEach (e' :: es)) = _
      rw [hts, List.cons_append]

-- ==== No end of the script within it

/-- A token of a list is one of its pieces, or a comma between them. -/
theorem Token.mem_listed {pieces : List (List Token)} {t : Token} (h : t ∈ Token.listed pieces) :
    t = .mark .comma "," ∨ ∃ piece ∈ pieces, t ∈ piece := by
  fun_induction Token.listed pieces with
  | case1 => cases h
  | case2 piece => exact .inr ⟨piece, List.mem_singleton_self _, h⟩
  | case3 piece pieces _ ih =>
      rcases List.mem_append.mp h with h | h
      · exact .inr ⟨piece, List.mem_cons_self, h⟩
      rcases List.mem_cons.mp h with rfl | h
      · exact .inl rfl
      · rcases ih h with rfl | ⟨p, hp, ht⟩
        · exact .inl rfl
        · exact .inr ⟨p, List.mem_cons_of_mem _ hp, ht⟩

/-- The pieces of a list of arguments are the arguments, written. -/
theorem Expr.mem_tokensEach {es : List Expr} {piece : List Token} (h : piece ∈ Expr.tokensEach es) :
    ∃ e ∈ es, piece = e.tokens := by
  induction es with
  | nil => cases h
  | cons e es ih =>
      rcases List.mem_cons.mp h with rfl | h
      · exact ⟨e, List.mem_cons_self, rfl⟩
      · obtain ⟨e', he', rfl⟩ := ih h
        exact ⟨e', List.mem_cons_of_mem _ he', rfl⟩

/-- A token of statements in a row is a token of one of them. -/
theorem Stmt.mem_tokensAll {ss : List Stmt} {t : Token} (h : t ∈ Stmt.tokensAll ss) :
    ∃ s ∈ ss, t ∈ s.tokens := by
  induction ss with
  | nil => cases h
  | cons s ss ih =>
      rcases List.mem_append.mp h with h | h
      · exact ⟨s, List.mem_cons_self, h⟩
      · obtain ⟨s', hs', ht⟩ := ih h
        exact ⟨s', List.mem_cons_of_mem _ hs', ht⟩

/-- No constant is written as the end of a script. -/
theorem Literal.token_kind_ne_eof (value : Literal) : value.token.kind ≠ .eof := by
  cases value with
  | bool b => cases b <;> exact Kind.noConfusion
  | _ => exact Kind.noConfusion

/-- No operator is the end of a script. -/
theorem Kind.ne_eof_of_precedence {k : Kind} {p : Nat} (h : k.precedence? = some p) : k ≠ .eof := by
  rintro rfl
  cases h

/-- No token of an expression is the end of a script, by induction over the shape: the kinds of all
tokens in it are given there. -/
theorem Expr.Fits.kind_ne_eof {e : Expr} {q : Nat} (h : e.Fits q) :
    ∀ t ∈ e.tokens, t.kind ≠ .eof := by
  induction h with
  | literal _ id value => simpa [Expr.tokens] using value.token_kind_ne_eof
  | ident _ id kind => simp [Expr.tokens, kind]
  | grouping _ id inside ih => simpa [Expr.tokens, Token.mark, or_imp, forall_and] using ih
  | @call _ callee paren arguments id loose called passed kind few ihc ihp =>
      intro t ht
      simp only [Expr.tokens, List.mem_append, List.mem_cons, List.not_mem_nil, or_false] at ht
      rcases ht with ht | rfl | ht | rfl
      · exact ihc t ht
      · exact Kind.noConfusion
      · rcases Token.mem_listed ht with rfl | ⟨piece, hp, ht⟩
        · exact Kind.noConfusion
        · obtain ⟨e, he, rfl⟩ := Expr.mem_tokensEach hp
          exact ihp e he t ht
      · simp [kind]
  | @unary _ operator _ id loose kind inside ih =>
      have hoperator : operator.kind ≠ .eof := by rcases kind with hk | hk <;> simp [hk]
      simpa [Expr.tokens, hoperator] using ih
  | binary id binds loose before after ihl ihr =>
      have hoperator := Kind.ne_eof_of_precedence (mem_binaryLevels.mp binds).1
      simpa [Expr.tokens, or_imp, forall_and, hoperator] using ⟨ihl, ihr⟩
  | logical id binds loose before after ihl ihr =>
      have hoperator := Kind.ne_eof_of_precedence (mem_logicalLevels.mp binds).1
      simpa [Expr.tokens, or_imp, forall_and, hoperator] using ⟨ihl, ihr⟩
  | assign id kind inside ih => simpa [Expr.tokens, Token.mark, kind] using ih

/-- Nor is one of an expression that may be left out. -/
theorem Expr.kind_ne_eof_of_fits_or_absent {e : Expr} (h : e = .absent ∨ e.Fits 0) :
    ∀ t ∈ e.tokens, t.kind ≠ .eof := by
  rcases h with rfl | h
  · exact fun t ht => nomatch ht
  · exact h.kind_ne_eof

/-- No token of a statement is the end of a script, so all of it is read: the reader stops at the
first token that ends a script. -/
theorem Stmt.Canonical.kind_ne_eof {s : Stmt} (h : s.Canonical) : ∀ t ∈ s.tokens, t.kind ≠ .eof := by
  induction h with
  | expression id fits =>
      simpa [Stmt.tokens, Token.mark, or_imp, forall_and] using fits.kind_ne_eof
  | print id fits => simpa [Stmt.tokens, Token.mark, or_imp, forall_and] using fits.kind_ne_eof
  | @var name initializer id kind fits =>
      have hinit := Expr.kind_ne_eof_of_fits_or_absent fits
      cases hi : initializer.isAbsent
      · simpa [Stmt.tokens, Token.mark, or_imp, forall_and, kind, hi] using hinit
      · simp [Stmt.tokens, Token.mark, kind, hi]
  | block id inside ih =>
      have hbody : ∀ t ∈ Stmt.tokensAll _, t.kind ≠ .eof := fun t ht => by
        obtain ⟨s, hs, ht⟩ := Stmt.mem_tokensAll ht
        exact ih s hs t ht
      simpa [Stmt.tokens, Token.mark, or_imp, forall_and] using hbody
  | branch id fits first plain ih =>
      simpa [Stmt.tokens, Stmt.isAbsent, Token.mark, or_imp, forall_and] using ⟨fits.kind_ne_eof, ih⟩
  | @branchElse condition positive negative id fits first plain closed second plainElse ihp ihn =>
      cases hn : negative.isAbsent
      · simpa [Stmt.tokens, hn, Token.mark, or_imp, forall_and] using ⟨fits.kind_ne_eof, ihp, ihn⟩
      · simpa [Stmt.tokens, hn, Token.mark, or_imp, forall_and] using ⟨fits.kind_ne_eof, ihp⟩
  | loop id fits inside plain ih =>
      simpa [Stmt.tokens, Token.mark, or_imp, forall_and] using ⟨fits.kind_ne_eof, ih⟩
  | @function name params body id kind kinds few inside ih =>
      have hparams : ∀ t ∈ Token.listed (params.map fun p => [p]), t.kind ≠ .eof := fun t ht => by
        rcases Token.mem_listed ht with rfl | ⟨piece, hp, ht⟩
        · exact Kind.noConfusion
        · obtain ⟨p, hmem, rfl⟩ := List.mem_map.mp hp
          obtain rfl := List.mem_singleton.mp ht
          simp [kinds t hmem]
      have hbody : ∀ t ∈ Stmt.tokensAll body, t.kind ≠ .eof := fun t ht => by
        obtain ⟨s, hs, ht⟩ := Stmt.mem_tokensAll ht
        exact ih s hs t ht
      simpa [Stmt.tokens, Token.mark, or_imp, forall_and, kind] using ⟨hparams, hbody⟩
  | result id kind fits =>
      simpa [Stmt.tokens, Token.mark, or_imp, forall_and, kind] using
        Expr.kind_ne_eof_of_fits_or_absent fits

-- ==== The tokens that a tree was made from

mutual

/-- Every token kept in the expression is one of `T`, and every constant is one of the grammar's own
or is carried by one of `T`. -/
def Expr.Holds (T : Token → Prop) : Expr → Prop
  | .absent => True
  | .literal _ value =>
    value = .nil ∨ (∃ b, value = .bool b) ∨
      ∃ t, T t ∧ (t.kind = .number ∨ t.kind = .string) ∧ t.literal = value
  | .grouping _ inner => inner.Holds T
  | .unary _ operator operand => T operator ∧ operand.Holds T
  | .binary _ left operator right => left.Holds T ∧ T operator ∧ right.Holds T
  | .logical _ left operator right => left.Holds T ∧ T operator ∧ right.Holds T
  | .assign _ name value => T name ∧ value.Holds T
  | .ident _ name => T name
  | .call _ callee paren arguments => callee.Holds T ∧ T paren ∧ Expr.HoldsAll T arguments

/-- The same of all of the expressions. -/
def Expr.HoldsAll (T : Token → Prop) : List Expr → Prop
  | [] => True
  | e :: rest => e.Holds T ∧ Expr.HoldsAll T rest

end

mutual

/-- The same of a statement. -/
def Stmt.Holds (T : Token → Prop) : Stmt → Prop
  | .absent => True
  | .expression _ value => value.Holds T
  | .print _ value => value.Holds T
  | .var _ name initializer => T name ∧ initializer.Holds T
  | .block _ body => Stmt.HoldsAll T body
  | .branch _ condition positive negative =>
    condition.Holds T ∧ positive.Holds T ∧ negative.Holds T
  | .loop _ condition body => condition.Holds T ∧ body.Holds T
  | .function _ name params body => T name ∧ (∀ p ∈ params, T p) ∧ Stmt.HoldsAll T body
  | .result _ keyword value => T keyword ∧ value.Holds T

/-- The same of all of the statements. -/
def Stmt.HoldsAll (T : Token → Prop) : List Stmt → Prop
  | [] => True
  | s :: rest => s.Holds T ∧ Stmt.HoldsAll T rest

end

/-- Expressions in a row, of two lists. -/
theorem Expr.holdsAll_append {T : Token → Prop} (es fs : List Expr) :
    Expr.HoldsAll T (es ++ fs) ↔ Expr.HoldsAll T es ∧ Expr.HoldsAll T fs := by
  induction es with
  | nil => exact ⟨fun h => ⟨trivial, h⟩, And.right⟩
  | cons e es ih => simp only [List.cons_append, Expr.HoldsAll, ih, and_assoc]

end Lox
