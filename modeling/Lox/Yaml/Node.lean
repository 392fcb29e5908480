/-
YAML documents as trees.

A node is a scalar, a sequence or a mapping, with the line it starts on. Only the first document of
a text is read. A scalar that is left out is a plain scalar with an empty text.

The functions that read tokens give what they read and the tokens after it, or nothing at a fault.
-/
import Lox.Yaml.Token

namespace Lox.Yaml

/-- A node of a document. Lines count from one. -/
inductive Node where
  | scalar (line : Nat) (text : Bytes) (quoted : Bool)
  | sequence (line : Nat) (items : List Node)
  | mapping (line : Nat) (entries : List (Node × Node))

namespace Node

/-- The line a node starts on. -/
def line : Node → Nat
  | scalar line _ _ => line
  | sequence line _ => line
  | mapping line _ => line

/-- The text of a scalar; collections have none. -/
def text : Node → Bytes
  | scalar _ text _ => text
  | sequence _ _ => []
  | mapping _ _ => []

/-- A scalar that was left out. -/
def missing (line : Nat) : Node := scalar line [] false

end Node

/-- Does a token of one of these kinds come next? -/
def isNext (kinds : List TokenKind) : List Token → Bool
  | [] => false
  | t :: _ => t.kind ∈ kinds

/-- Where a node stands decides on the blocks that it may be. -/
inductive Position where
  /-- In a flow collection: none. -/
  | flow
  /-- In a block: any that is further in. -/
  | block
  /-- In a block mapping: also a sequence that is not further in. -/
  | entry
deriving DecidableEq

mutual

/-- Read a node. -/
def readNode : Nat → Position → List Token → Option (Node × List Token)
  | 0, _, _ => none
  | _ + 1, _, [] => none
  | fuel + 1, position, t :: rest =>
    let line := t.line + 1
    match t.kind with
    | .scalar text quoted => some (.scalar line (Utf8.encode text) quoted, rest)
    | .flowSequence => do
      let (items, rest) ← readFlowItems fuel true rest
      return (.sequence line items, rest)
    | .flowMapping => do
      let (entries, rest) ← readFlowEntries fuel true rest
      return (.mapping line entries, rest)
    | .blockEntry =>
      if position = .entry then do
        let (items, rest) ← readBareItems fuel (t :: rest)
        return (.sequence line items, rest)
      else none
    | .blockSequence =>
      if position = .flow then none else do
        let (items, rest) ← readItems fuel rest
        return (.sequence line items, rest)
    | .blockMapping =>
      if position = .flow then none else do
        let (entries, rest) ← readEntries fuel rest
        return (.mapping line entries, rest)
    | _ => none

/-- Read a node, unless a token of one of these kinds shows that it was left out. -/
def readUnless (kinds : List TokenKind) (position : Position) (line : Nat) :
    Nat → List Token → Option (Node × List Token)
  | 0, _ => none
  | fuel + 1, tokens =>
    if tokens.isEmpty then none
    else if isNext kinds tokens then some (.missing (line + 1), tokens)
    else readNode fuel position tokens

/-- Read the items of a block sequence and its end. -/
def readItems : Nat → List Token → Option (List Node × List Token)
  | fuel + 1, ⟨.blockEntry, line⟩ :: rest => do
    let (item, rest) ← readUnless [.blockEntry, .blockEnd] .block line fuel rest
    let (items, rest) ← readItems fuel rest
    return (item :: items, rest)
  | _, ⟨.blockEnd, _⟩ :: rest => some ([], rest)
  | _, _ => none

/-- Read the items of a sequence that is not further in than its mapping; it has no end of its own.
-/
def readBareItems : Nat → List Token → Option (List Node × List Token)
  | fuel + 1, ⟨.blockEntry, line⟩ :: rest => do
    let (item, rest) ← readUnless [.blockEntry, .key, .value, .blockEnd] .block line fuel rest
    let (items, rest) ← readBareItems fuel rest
    return (item :: items, rest)
  | 0, _ => none
  | _, [] => none
  | _, rest => some ([], rest)

/-- Read the entries of a block mapping and its end. -/
def readEntries : Nat → List Token → Option (List (Node × Node) × List Token)
  | fuel + 1, ⟨.key, line⟩ :: rest => do
    let (key, rest) ← readUnless [.key, .value, .blockEnd] .entry line fuel rest
    let (value, rest) ← readValue [.key, .value, .blockEnd] .entry fuel rest
    let (entries, rest) ← readEntries fuel rest
    return ((key, value) :: entries, rest)
  | _, ⟨.blockEnd, _⟩ :: rest => some ([], rest)
  | _, _ => none

/-- Read the value after a key, which may be left out with its colon or without it. -/
def readValue (kinds : List TokenKind) (position : Position) :
    Nat → List Token → Option (Node × List Token)
  | fuel + 1, ⟨.value, line⟩ :: rest => readUnless kinds position line fuel rest
  | _ + 1, t :: rest => some (.missing (t.line + 1), t :: rest)
  | _, _ => none

/-- Read the items of a flow sequence and its end. All but the first come after a comma. An item
may be a mapping with one entry. -/
def readFlowItems : Nat → Bool → List Token → Option (List Node × List Token)
  | _, _, ⟨.flowSequenceEnd, _⟩ :: rest => some ([], rest)
  | fuel + 1, false, ⟨.flowEntry, _⟩ :: rest =>
    if isNext [.flowSequenceEnd] rest then some ([], rest.drop 1)
    else readFlowItems fuel true rest
  | fuel + 1, true, ⟨.key, line⟩ :: rest => do
    let (key, rest) ←
      if isNext [.value, .flowEntry, .flowSequenceEnd] rest then
        some (Node.missing (line + 1), rest.drop 1)
      else readNode fuel .flow rest
    let (value, rest) ← readValue [.flowEntry, .flowSequenceEnd] .flow fuel rest
    let (items, rest) ← readFlowItems fuel false rest
    return (.mapping (line + 1) [(key, value)] :: items, rest)
  | fuel + 1, true, tokens => do
    let (item, rest) ← readNode fuel .flow tokens
    let (items, rest) ← readFlowItems fuel false rest
    return (item :: items, rest)
  | _, _, _ => none

/-- Read the entries of a flow mapping and its end. All but the first come after a comma. A node
without a colon is a key without a value. -/
def readFlowEntries : Nat → Bool → List Token → Option (List (Node × Node) × List Token)
  | _, _, ⟨.flowMappingEnd, _⟩ :: rest => some ([], rest)
  | fuel + 1, false, ⟨.flowEntry, _⟩ :: rest =>
    if isNext [.flowMappingEnd] rest then some ([], rest.drop 1)
    else readFlowEntries fuel true rest
  | fuel + 1, true, ⟨.key, line⟩ :: rest => do
    let (key, rest) ← readUnless [.value, .flowEntry, .flowMappingEnd] .flow line fuel rest
    let (value, rest) ← readValue [.flowEntry, .flowMappingEnd] .flow fuel rest
    let (entries, rest) ← readFlowEntries fuel false rest
    return ((key, value) :: entries, rest)
  | fuel + 1, true, tokens => do
    let (key, rest) ← readNode fuel .flow tokens
    let (entries, rest) ← readFlowEntries fuel false rest
    return ((key, .missing key.line) :: entries, rest)
  | _, _, _ => none

end

/-- What a text holds. -/
inductive Document where
  /-- It is not well formed. -/
  | malformed
  /-- There is no document in it. -/
  | absent
  /-- Its first document. -/
  | root (node : Node)

/-- A document has ended if there is any token left to show it. -/
def closed : Option (Node × List Token) → Document
  | some (node, _ :: _) => .root node
  | _ => .malformed

/-- The first document of a row of tokens. -/
def firstDocument (tokens : List Token) : Document :=
  let fuel := 2 * tokens.length + 2
  match tokens with
  | [] => .malformed
  | ⟨.streamEnd, _⟩ :: _ => .absent
  | ⟨.documentStart, line⟩ :: rest =>
    closed (readUnless [.documentStart, .documentEnd, .streamEnd] .block line fuel rest)
  | tokens => closed (readNode fuel .block tokens)

/-- Read the first document of a text. -/
def read (text : Bytes) : Document :=
  match characters? text with
  | none => .malformed
  | some chars => firstDocument (tokens chars)

end Lox.Yaml
