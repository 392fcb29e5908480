/-
The kinds of tokens.

The kinds have fixed numbers and names, by which they appear in listings. A number that belongs
to no kind is kept as `unknown`: such a token can be put into a token list by hand, and the
language gives it no meaning.
-/
import Lox.Text.Bytes

namespace Lox

/-- What a token is. -/
inductive Kind where
  | leftParen | rightParen | leftBrace | rightBrace
  | comma | dot | minus | plus | semicolon | slash | star
  | bang | bangEqual | equal | equalEqual | greater | greaterEqual | less | lessEqual
  | identifier | string | number
  | and | klass | else | false | fun | for | if | nil | or
  | print | return | super | this | true | var | while
  | eof
  | unknown (code : Int)
deriving DecidableEq, Repr, Inhabited

namespace Kind

/-- The kinds in the order of their numbers, which start at zero. -/
def all : List Kind :=
  [leftParen, rightParen, leftBrace, rightBrace,
    comma, dot, minus, plus, semicolon, slash, star,
    bang, bangEqual, equal, equalEqual, greater, greaterEqual, less, lessEqual,
    identifier, string, number,
    Kind.and, Kind.klass, Kind.else, Kind.false, Kind.fun, Kind.for, Kind.if, Kind.nil, Kind.or,
    Kind.print, Kind.return, Kind.super, Kind.this, Kind.true, Kind.var, Kind.while,
    eof]

/-- The kind with a given number. -/
def ofCode (code : Int) : Kind :=
  match code with
  | .ofNat n => all[n]?.getD (unknown code)
  | .negSucc _ => unknown code

/-- The listing name of a kind. -/
def name : Kind → String
  | leftParen => "LEFT_PAREN"
  | rightParen => "RIGHT_PAREN"
  | leftBrace => "LEFT_BRACE"
  | rightBrace => "RIGHT_BRACE"
  | comma => "COMMA"
  | dot => "DOT"
  | minus => "MINUS"
  | plus => "PLUS"
  | semicolon => "SEMICOLON"
  | slash => "SLASH"
  | star => "STAR"
  | bang => "BANG"
  | bangEqual => "BANG_EQUAL"
  | equal => "EQUAL"
  | equalEqual => "EQUAL_EQUAL"
  | greater => "GREATER"
  | greaterEqual => "GREATER_EQUAL"
  | less => "LESS"
  | lessEqual => "LESS_EQUAL"
  | identifier => "IDENTIFIER"
  | string => "STRING"
  | number => "NUMBER"
  | Kind.and => "AND"
  | Kind.klass => "CLASS"
  | Kind.else => "ELSE"
  | Kind.false => "FALSE"
  | Kind.fun => "FUN"
  | Kind.for => "FOR"
  | Kind.if => "IF"
  | Kind.nil => "NIL"
  | Kind.or => "OR"
  | Kind.print => "PRINT"
  | Kind.return => "RETURN"
  | Kind.super => "SUPER"
  | Kind.this => "THIS"
  | Kind.true => "TRUE"
  | Kind.var => "VAR"
  | Kind.while => "WHILE"
  | eof => "EOF"
  | unknown code => "unknown_kind_" ++ toString code

/-- The reserved words. -/
def keywords : List (Bytes × Kind) :=
  [(utf8 "and", Kind.and), (utf8 "class", Kind.klass), (utf8 "else", Kind.else),
    (utf8 "false", Kind.false), (utf8 "for", Kind.for), (utf8 "fun", Kind.fun),
    (utf8 "if", Kind.if), (utf8 "nil", Kind.nil), (utf8 "or", Kind.or),
    (utf8 "print", Kind.print), (utf8 "return", Kind.return), (utf8 "super", Kind.super),
    (utf8 "this", Kind.this), (utf8 "true", Kind.true), (utf8 "var", Kind.var),
    (utf8 "while", Kind.while)]

/-- The kind of a reserved word. -/
def keyword? (word : Bytes) : Option Kind :=
  keywords.lookup word

/-- The kind of a word: reserved, or an identifier. -/
def ofWord (word : Bytes) : Kind :=
  (keyword? word).getD identifier

end Kind

end Lox
