/-
Tokens of a YAML text.

Indentation is turned into tokens that open and close blocks. Whether a scalar or a collection is
the key of a mapping shows only at the colon after it, so the tokens before it are put in
afterwards; a key is on one line and has a limited length.
-/
import Lox.Yaml.Scalar

namespace Lox.Yaml

/-- Kinds of token. -/
inductive TokenKind where
  | streamEnd
  | documentStart
  | documentEnd
  | blockSequence
  | blockMapping
  | blockEnd
  | flowSequence
  | flowSequenceEnd
  | flowMapping
  | flowMappingEnd
  | blockEntry
  | flowEntry
  | key
  | value
  | scalar (text : List Char) (quoted : Bool)
deriving DecidableEq

/-- A token and the line it starts on, counted from zero. -/
structure Token where
  kind : TokenKind
  line : Nat
deriving DecidableEq

/-- What may turn out to be a key: the number of its first token, and its place. A required key has
to turn out to be one. -/
structure KeyStart where
  token : Nat
  cursor : Cursor
  required : Bool

/-- A place in a text with all that decides on the next token. -/
structure Scanner where
  cursor : Cursor
  /-- How many flow collections are open. -/
  flow : Nat := 0
  /-- The column of the innermost block, -1 outside of all. -/
  indent : Int := -1
  /-- The columns of the blocks around it. -/
  outer : List Int := []
  /-- May a key start here? -/
  keyAllowed : Bool := true
  /-- What may turn out to be a key, in the innermost flow collection. -/
  key? : Option KeyStart := none
  /-- The same for the collections around it. -/
  outerKeys : List (Option KeyStart) := []
  /-- How far a second mark of the byte order at the front of the text has an effect. -/
  markEnd : Nat := 0
  tokens : Array Token := #[]

namespace Scanner

/-- Is this outside of all flow collections? -/
def inBlock (s : Scanner) : Bool := s.flow = 0

/-- Add a token. -/
def add (s : Scanner) (kind : TokenKind) : Scanner :=
  { s with tokens := s.tokens.push ⟨kind, s.cursor.line⟩ }

/-- Add a token and go past its characters. -/
def addShort (s : Scanner) (kind : TokenKind) (length : Nat) : Scanner :=
  { s.add kind with cursor := s.cursor.skip length }

-- ==== Keys

/-- The greatest number of characters from the start of a key to its colon. -/
def maxKeyLength : Nat := 1024

/-- Can a key that started there still turn out to be one? -/
def reaches (s : Scanner) (k : KeyStart) : Bool :=
  k.cursor.line = s.cursor.line && s.cursor.index ≤ k.cursor.index + maxKeyLength

/-- Forget what may turn out to be a key; that is a fault if it has to. -/
def dropKey (s : Scanner) : Option Scanner :=
  match s.key? with
  | some k => if k.required then none else some { s with key? := none }
  | none => some s

/-- Note that a key may start here. -/
def noteKey (s : Scanner) : Option Scanner :=
  if s.keyAllowed then
    let required := s.inBlock && s.indent = s.cursor.column
    s.dropKey.map fun s => { s with key? := some ⟨s.tokens.size, s.cursor, required⟩ }
  else some s

/-- The key that ends here, if there is one; what can no longer be a key is forgotten. -/
def takeKey (s : Scanner) : Option (Option KeyStart × Scanner) :=
  match s.key? with
  | none => some (none, s)
  | some k =>
    if s.reaches k then some (some k, { s with key? := none })
    else if k.required then none
    else some (none, { s with key? := none })

-- ==== Blocks

/-- Close the blocks that are further in than the column. -/
def closeBlocks (column : Int) : List Int → Scanner → Scanner
  | [], s => s
  | indent :: outer, s =>
    if column < s.indent then
      closeBlocks column outer { s.add .blockEnd with indent := indent, outer := outer }
    else s

/-- Close the blocks that are further in than the column, outside of flow collections. -/
def dedent (s : Scanner) (column : Int) : Scanner :=
  if s.inBlock then closeBlocks column s.outer s else s

/-- Open a block at a column that is further in; its token is put before the token with this
number. -/
def openBlock (s : Scanner) (kind : TokenKind) (token line column : Nat) : Scanner :=
  if s.inBlock && s.indent < column then
    { s with
      outer := s.indent :: s.outer
      indent := column
      tokens := s.tokens.insertIdxIfInBounds token ⟨kind, line⟩ }
  else s

/-- Open a block here. -/
def openBlockHere (s : Scanner) (kind : TokenKind) : Scanner :=
  s.openBlock kind s.tokens.size s.cursor.line s.cursor.column

-- ==== Gaps and comments

/-- How many bytes are looked at for a comment. -/
def commentReach : Nat := 512

/-- Go past the comment that the line goes on with, if there is one. -/
def skipLineComment (s : Scanner) : Scanner :=
  let blanks := (s.cursor.run isBlank).length
  if blanks < commentReach && (s.cursor.rest.drop blanks).head? = some '#' then
    { s with cursor := s.cursor.skipWhile fun c => !isBreak c }
  else s

/-- The next comment after one that ends here. Between them are only blanks and common ends of
lines, and not too many. -/
def nextComment? (c : Cursor) : Option Cursor :=
  let gap := c.run isGap
  let common (c : Char) : Bool := isBlank c || c = '\n' || c = '\r'
  let next := c.skip gap.length
  let bytes := gap.foldl (fun n c => n + byteWidth c) 0
  if gap.all common && bytes < commentReach && next.rest.head? = some '#' then some next else none

/-- Where a line starts: as far as a second mark of the byte order has an effect, its first
character is left out. -/
def lineStart (s : Scanner) : Cursor :=
  if s.cursor.column = 0 && s.cursor.index < s.markEnd then s.cursor.drop else s.cursor

/-- Go past gaps and comments. A tab may not stand where a key may start. -/
def skipGap : Nat → Scanner → Scanner
  | 0, s => s
  | fuel + 1, s =>
    let blank (c : Char) : Bool := c = ' ' || (c = '\t' && !(s.inBlock && s.keyAllowed))
    let cursor := s.lineStart.skipWhile blank
    match cursor.rest with
    | [] => { s with cursor := cursor }
    | c :: _ =>
      if c = '#' then
        let cursor := cursor.skipWhile fun c => !isBreak c
        skipGap fuel { s with cursor := (nextComment? cursor).getD cursor }
      else if isBreak c then
        skipGap fuel { s with cursor := cursor.next, keyAllowed := s.keyAllowed || s.inBlock }
      else { s with cursor := cursor }

/-- The effect of a second mark of the byte order ends when less than this is left of its reach. -/
def leastReach : Nat := 4

/-- Go to the next token. -/
def toToken (s : Scanner) : Scanner :=
  let s := s.skipGap (s.cursor.rest.length + 1)
  let s := if s.cursor.index + leastReach ≤ s.markEnd then s else { s with markEnd := 0 }
  s.dedent s.cursor.column

-- ==== Tokens

/-- The end of the text. -/
def fetchEnd (s : Scanner) : Option Scanner := do
  let s ← (s.dedent (-1)).dropKey
  return s.add .streamEnd

/-- A mark between documents. -/
def fetchDocumentMark (s : Scanner) (kind : TokenKind) : Option Scanner := do
  let s ← (s.dedent (-1)).dropKey
  return { s.addShort kind 3 with keyAllowed := false }

/-- The start of a flow collection. -/
def fetchFlowStart (s : Scanner) (kind : TokenKind) : Option Scanner := do
  let s ← s.noteKey
  return { s.addShort kind 1 with
    flow := s.flow + 1, outerKeys := s.key? :: s.outerKeys, key? := none, keyAllowed := true }

/-- The end of a flow collection. -/
def fetchFlowEnd (s : Scanner) (kind : TokenKind) : Option Scanner := do
  let s ← s.dropKey
  let s := { s.addShort kind 1 with keyAllowed := false }
  match s.outerKeys with
  | [] => return s
  | key? :: outerKeys => return { s with flow := s.flow - 1, key? := key?, outerKeys := outerKeys }

/-- A comma. -/
def fetchFlowEntry (s : Scanner) : Option Scanner := do
  let s ← s.dropKey
  return { s.addShort .flowEntry 1 with keyAllowed := true }

/-- A dash. -/
def fetchBlockEntry (s : Scanner) : Option Scanner := do
  if s.inBlock && !s.keyAllowed then none
  let s ← (s.openBlockHere .blockSequence).dropKey
  return { s.addShort .blockEntry 1 with keyAllowed := true }

/-- A question mark, which says that a key follows. -/
def fetchKey (s : Scanner) : Option Scanner := do
  if s.inBlock && !s.keyAllowed then none
  let s ← (s.openBlockHere .blockMapping).dropKey
  return { s.addShort .key 1 with keyAllowed := s.inBlock }

/-- A colon. What is before it may turn out to be a key here. -/
def fetchValue (s : Scanner) : Option Scanner := do
  let (key?, s) ← s.takeKey
  match key? with
  | some k =>
    let s := { s with tokens := s.tokens.insertIdxIfInBounds k.token ⟨.key, k.cursor.line⟩ }
    let s := s.openBlock .blockMapping k.token k.cursor.line k.cursor.column
    return { s.addShort .value 1 with keyAllowed := false }
  | none =>
    if s.inBlock && !s.keyAllowed then none
    let s := s.openBlockHere .blockMapping
    return { s.addShort .value 1 with keyAllowed := s.inBlock }

/-- A quoted scalar. -/
def fetchQuoted (s : Scanner) (quote : Char) : Option Scanner := do
  let s ← s.noteKey
  let (text, cursor) ← readQuoted quote s.cursor
  return { s.add (.scalar text true) with cursor := cursor, keyAllowed := false }

/-- A plain scalar. A comment after it on another line is not its own. -/
def fetchPlain (s : Scanner) : Option Scanner := do
  let s ← s.noteKey
  let plain ← readPlain (!s.inBlock) (s.indent + 1) s.cursor
  let s := { s.add (.scalar plain.text false) with
    cursor := plain.cursor, keyAllowed := plain.endsLine }
  return if plain.endsLine then s else s.skipLineComment

/-- Characters with a meaning of their own, with which no plain scalar starts. -/
def indicators : List Char :=
  ['-', '?', ':', ',', '[', ']', '\x7b', '\x7d', '#', '&', '*', '!', '|', '>', '\'', '"', '%', '@',
    '\x60']

/-- Can a plain scalar start with this character? -/
def startsPlain (s : Scanner) (c : Char) (rest : List Char) : Bool :=
  !(isGap c || indicators.contains c) || (c = '-' && !rest.head?.any isBlank) ||
    (s.inBlock && (c = '?' || c = ':') && !gapFollows rest)

/-- A token that starts with a character with a meaning of its own. -/
def fetchIndicator (s : Scanner) : Char → Option Scanner
  | '[' => s.fetchFlowStart .flowSequence
  | '\x7b' => s.fetchFlowStart .flowMapping
  | ']' => s.fetchFlowEnd .flowSequenceEnd
  | '\x7d' => s.fetchFlowEnd .flowMappingEnd
  | ',' => s.fetchFlowEntry
  | '?' => s.fetchKey
  | ':' => s.fetchValue
  | '\'' => s.fetchQuoted '\''
  | '"' => s.fetchQuoted '"'
  | _ => none

/-- The next token and those that come with it; nothing if there is none. A comment after a dash is
not its own. -/
def fetch (s : Scanner) : Option Scanner :=
  let s := s.toToken
  match s.cursor.rest with
  | [] => s.fetchEnd
  | c :: rest =>
    if s.cursor.atDocumentMark then
      s.fetchDocumentMark (if c = '-' then .documentStart else .documentEnd)
    else if c = '-' && gapFollows rest then s.fetchBlockEntry
    else if s.startsPlain c rest then s.fetchPlain
    else (s.fetchIndicator c).map skipLineComment

/-- How many tokens are settled when the scan stops at a fault: not those from a possible key on,
nor the last two. -/
def settled (s : Scanner) : Nat :=
  (s.key? :: s.outerKeys).foldl (fun n key? =>
    match key? with
    | some k => if s.reaches k then min n k.token else n
    | none => n) (s.tokens.size - 2)

/-- All tokens, or those before a fault. -/
def scanAll : Nat → Scanner → List Token
  | 0, s => s.tokens.toList
  | fuel + 1, s =>
    match s.fetch with
    | none => s.tokens.toList.take s.settled
    | some next =>
      match next.tokens.back? with
      | some ⟨.streamEnd, _⟩ => next.tokens.toList
      | _ => scanAll fuel next

end Scanner

/-- How many bytes of a text are looked at in one go. -/
def readReach : Nat := 509

/-- How many characters at the front of a text fit into so many bytes. -/
def fitting : Nat → List Char → Nat
  | _, [] => 0
  | room, c :: rest => if byteWidth c ≤ room then fitting (room - byteWidth c) rest + 1 else 0

/-- How far a mark of the byte order at the front of a text has an effect. -/
def markEnd (chars : List Char) : Nat :=
  if chars.head? = some byteOrderMark then fitting readReach chars else 0

/-- The tokens of a text. After a fault there are no more; otherwise the last one is the end of the
stream. -/
def tokens (chars : List Char) : List Token :=
  Scanner.scanAll (chars.length + 1) { cursor := { rest := chars }, markEnd := markEnd chars }

end Lox.Yaml
