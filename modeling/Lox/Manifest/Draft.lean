/-
Drafts from documents.

The fields of a draft are read from the mappings of a document. A value of the wrong type, an
unknown field and a repeated key are all noted and reading goes on, so that one report shows them
all. In the targets, which are read by rules of their own, the first fault of a target ends it all.
-/
import Lox.Manifest.Basic
import Lox.Yaml.Meaning

namespace Lox.Manifest

open Yaml (Node Meaning)

-- ==== Faults

/-- What a value is to be read as. -/
inductive FieldType where
  | string
  | integer
  | manifest
  | repl
  | fixtures
  | target
deriving DecidableEq, Repr

namespace FieldType

/-- The name of a type in messages. -/
def name : FieldType → String
  | string => "string"
  | integer => "int"
  | manifest => "driver.manifestFile"
  | repl => "driver.replYAML"
  | fixtures => "driver.fixturesYAML"
  | target => "driver.targetYAML"

end FieldType

/-- A value that does not fit, with the line it is on. -/
inductive TypeFault where
  | repeatedKey (line : Nat) (key : Bytes) (first : Nat)
  | wrongScalar (line : Nat) (tag : String) (value : Bytes) (type : FieldType)
  | wrongCollection (line : Nat) (tag : String) (type : FieldType)
  | unknownField (line : Nat) (field : Bytes) (type : FieldType)
deriving DecidableEq

namespace TypeFault

/-- A value as it is shown: long ones are cut. -/
def excerpt (value : Bytes) : Bytes :=
  if 10 < value.length then value.take 7 ++ utf8 "..." else value

/-- The line of a fault, as it is written. -/
def place (line : Nat) : Bytes := utf8 "line " ++ Bytes.ofNat line ++ utf8 ": "

/-- The wording of a type fault. -/
def message : TypeFault → Bytes
  | repeatedKey line key first =>
    place line ++ utf8 "mapping key " ++ Text.quote key ++ utf8 " already defined at line " ++
      Bytes.ofNat first
  | wrongScalar line tag value type =>
    place line ++ utf8 "cannot unmarshal " ++ utf8 tag ++ utf8 " `" ++ excerpt value ++
      utf8 "` into " ++ utf8 type.name
  | wrongCollection line tag type =>
    place line ++ utf8 "cannot unmarshal " ++ utf8 tag ++ utf8 " into " ++ utf8 type.name
  | unknownField line field type =>
    place line ++ utf8 "field " ++ field ++ utf8 " not found in type " ++ utf8 type.name

/-- The wording of a list of type faults. -/
def report (faults : List TypeFault) : Bytes :=
  utf8 "yaml: unmarshal errors:" ++ faults.flatMap fun fault => utf8 "\n  " ++ fault.message

end TypeFault

/-- Why no draft can be had from a document. -/
inductive DraftFault where
  | types (faults : List TypeFault)
  | targetTypes (target : Bytes) (faults : List TypeFault)
  | targetsNotMapping
  | emptyTargetName
deriving DecidableEq

namespace DraftFault

/-- The wording of a draft fault. -/
def message : DraftFault → Bytes
  | types faults => TypeFault.report faults
  | targetTypes target faults =>
    utf8 "manifest: target " ++ Text.quote target ++ utf8 ": " ++ TypeFault.report faults
  | targetsNotMapping => utf8 "manifest: targets must be a mapping"
  | emptyTargetName => utf8 "manifest: targets must not use empty keys"

end DraftFault

-- ==== Values

/-- What was read, and the faults noted on the way. -/
abbrev Noting := StateM (List TypeFault)

/-- Note a fault. -/
def note (fault : TypeFault) : Noting Unit := modify (· ++ [fault])

/-- Are the two keys the same? All collections of a kind count as one key. -/
def sameKey : Node → Node → Bool
  | .scalar _ a _, .scalar _ b _ => a = b
  | .sequence _ _, .sequence _ _ => true
  | .mapping _ _, .mapping _ _ => true
  | _, _ => false

/-- The repeated keys of a mapping: for each key, the later ones that are the same. -/
def repeatedKeys : List (Node × Node) → List TypeFault
  | [] => []
  | (key, _) :: rest =>
    ((rest.filter fun (other, _) => sameKey key other).map fun (other, _) =>
      .repeatedKey other.line other.text key.line) ++ repeatedKeys rest

/-- Read a node as a string. Nothing gives nothing, and any other scalar its text. -/
def readString (node : Node) : Noting (Option Bytes) := do
  match node with
  | .scalar _ text quoted =>
    match Meaning.ofScalar text quoted with
    | .nothing => return none
    | _ => return some text
  | .sequence line _ =>
    note (.wrongCollection line "!!seq" .string)
    return none
  | .mapping line entries =>
    match repeatedKeys entries with
    | [] => note (.wrongCollection line "!!map" .string)
    | faults => faults.forM note
    return none

/-- Read a node as an integer. -/
def readInteger (node : Node) : Noting (Option Int) := do
  match node with
  | .scalar line text quoted =>
    let meaning := Meaning.ofScalar text quoted
    match meaning, meaning.toInteger? with
    | .nothing, _ => return none
    | _, some n => return some n
    | _, none =>
      note (.wrongScalar line meaning.tag text .integer)
      return none
  | .sequence line _ =>
    note (.wrongCollection line "!!seq" .integer)
    return none
  | .mapping line entries =>
    match repeatedKeys entries with
    | [] => note (.wrongCollection line "!!map" .integer)
    | faults => faults.forM note
    return none

-- ==== Records

/-- How the fields of a record are read: what each does with its value, in a monad that can note
faults. -/
abbrev Fields (m : Type → Type) (σ : Type) := Bytes → Option (Node → σ → m σ)

/-- Read the entries of a mapping into a record. Entries with no key that can be read are passed
over, and unknown ones noted if `strict`. -/
def readEntries {m : Type → Type} [Monad m] [MonadLiftT Noting m] {σ : Type} (type : FieldType)
    (strict : Bool) (fields : Fields m σ) : List (Node × Node) → σ → m σ
  | [], s => return s
  | (key, value) :: rest, s => do
    match ← readString key with
    | none => readEntries type strict fields rest s
    | some name =>
      match fields name with
      | some set => readEntries type strict fields rest (← set value s)
      | none =>
        if strict then note (.unknownField key.line name type)
        readEntries type strict fields rest s

/-- Read a node into a record. Nothing leaves it as it is, and so does a mapping with a repeated
key. -/
def readRecord {m : Type → Type} [Monad m] [MonadLiftT Noting m] {σ : Type} (type : FieldType)
    (strict : Bool) (fields : Fields m σ) (node : Node) (s : σ) : m σ := do
  match node with
  | .scalar line text quoted =>
    let meaning := Meaning.ofScalar text quoted
    match meaning with
    | .nothing => return s
    | _ =>
      note (.wrongScalar line meaning.tag text type)
      return s
  | .sequence line _ =>
    note (.wrongCollection line "!!seq" type)
    return s
  | .mapping _ entries =>
    match repeatedKeys entries with
    | [] => readEntries type strict fields entries s
    | faults =>
      faults.forM fun fault => note fault
      return s

/-- A field that takes a string. -/
def stringField {σ : Type} (set : Bytes → σ → σ) (node : Node) (s : σ) : Noting σ := do
  match ← readString node with
  | some text => return set text s
  | none => return s

-- ==== Targets

/-- The fields of a target that is a mapping. -/
def targetFields : Fields Noting Bytes := fun name =>
  if name = utf8 "main" then some (stringField fun text _ => text) else none

/-- Read the script of a target: a scalar is the script itself. -/
def readMain (node : Node) : Noting Bytes := do
  match node with
  | .scalar _ _ _ => return (← readString node).getD []
  | _ => readRecord .target false targetFields node []

/-- Read the entries of the targets, where `readKey` reads a key as a string and `readScript` a value
as a script. A key that is no string ends them, and its faults are noted. -/
def readTargets {κ ν : Type} (readKey : κ → Noting (Option Bytes)) (readScript : ν → Noting Bytes)
    (before : List Target) : List (κ × ν) → ExceptT DraftFault Noting (Option (List Target))
  | [] => return some before
  | (key, value) :: rest => do
    let (name?, faults) := (readKey key).run []
    if !faults.isEmpty then
      faults.forM fun fault => (note fault : Noting Unit)
      return none
    let name := Text.trim (name?.getD [])
    if name.isEmpty then throw .emptyTargetName
    let (main, faults) := (readScript value).run []
    if !faults.isEmpty then throw (.targetTypes name faults)
    readTargets readKey readScript (before ++ [⟨name, main⟩]) rest

/-- The field with the targets. -/
def targetsField (node : Node) (draft : Draft) : ExceptT DraftFault Noting Draft := do
  match node with
  | .scalar _ text quoted =>
    match Meaning.ofScalar text quoted with
    | .nothing => return draft
    | _ => throw .targetsNotMapping
  | .sequence _ _ => throw .targetsNotMapping
  | .mapping _ entries =>
    match ← readTargets readString readMain [] entries with
    | some targets => return { draft with targets := targets }
    | none => return draft

-- ==== The whole

/-- The fields of the prompt. -/
def replFields : Fields Noting Draft := fun name =>
  if name = utf8 "prompt" then some (stringField fun text d => { d with prompt? := some text })
  else if name = utf8 "continuation" then
    some (stringField fun text d => { d with continuation? := some text })
  else if name = utf8 "history" then some (stringField fun text d => { d with history := text })
  else none

/-- The field with the number of fixtures to run at a time. -/
def parallelField (node : Node) (draft : Draft) : Noting Draft := do
  match ← readInteger node with
  | some n => return { draft with parallel := n }
  | none => return draft

/-- The fields of the fixtures. -/
def fixtureFields : Fields Noting Draft := fun name =>
  if name = utf8 "dir" then some (stringField fun text d => { d with fixtures := text })
  else if name = utf8 "parallel" then some parallelField
  else none

/-- The same field where a fault can end it all. -/
def stoppable (field : Node → Draft → Noting Draft) (node : Node) (draft : Draft) :
    ExceptT DraftFault Noting Draft :=
  ExceptT.lift (field node draft)

/-- The fields of a manifest. -/
def manifestFields : Fields (ExceptT DraftFault Noting) Draft := fun name =>
  if name = utf8 "name" then
    some (stoppable (stringField fun text d => { d with name := text }))
  else if name = utf8 "version" then
    some (stoppable (stringField fun text d => { d with version := text }))
  else if name = utf8 "targets" then some targetsField
  else if name = utf8 "repl" then some (stoppable (readRecord .repl true replFields))
  else if name = utf8 "fixtures" then some (stoppable (readRecord .fixtures true fixtureFields))
  else none

/-- The draft that a document holds. -/
def Draft.ofNode (node : Node) : Except DraftFault Draft :=
  match (readRecord .manifest true manifestFields node ({} : Draft)).run.run [] with
  | (.error fault, _) => .error fault
  | (.ok draft, []) => .ok draft
  | (.ok _, faults) => .error (.types faults)

end Lox.Manifest
