import GraphGrammar.Graph.Basic
import GraphGrammar.Json.Reader

/-!
Reading typed content from a document. A record is written as an object, whose unknown members are
skipped and whose known members come at most once, or as an array of its fields in their order, of
which fields at the end may be absent. A document is refused because its text is malformed or because
its content is not what it should be. Of several faults, the one that stands first is reported.
-/

namespace GraphGrammar

/-- What is wrong with the content of a well-formed document. -/
inductive ContentError where
  | malformedId (cause : MalformedId)
  | inconsistent (cause : GraphError)
  | missingField (name : String)
  | duplicateField (name : String)
  /-- A value of another kind than the one expected, or outside of its range. -/
  | mismatch
deriving DecidableEq

def ContentError.message? : ContentError → Option String
  | malformedId cause => some cause.message
  | inconsistent cause => some cause.message
  | missingField name => some ("missing field `" ++ name ++ "`")
  | duplicateField name => some ("duplicate field `" ++ name ++ "`")
  | mismatch => none

inductive DocumentError where
  /-- The text is not a document, or a part that has to be read stands for no value. -/
  | malformed
  | invalid (cause : ContentError)
deriving DecidableEq

namespace Json

abbrev Reads (α : Type) := Tree → Except DocumentError α

/-- Reads a document of a certain kind. What is wrong with its content counts before the text that
follows. -/
def Document.read (read : Reads α) (d : Document) : Except DocumentError α := do
  let content ← read d.tree
  if d.isWhole then return content else throw .malformed

def readText (read : Reads α) (text : String) : Except DocumentError α :=
  (Document.ofText text).read read

def readBytes (read : Reads α) (bytes : ByteArray) : Except DocumentError α :=
  (Document.ofBytes bytes).read read

def unexpected {α : Type} : Reads α
  | .unreadable => .error .malformed
  | _ => .error (.invalid .mismatch)

def readString : Reads String
  | .string s => .ok s
  | tree => unexpected tree

def readBool : Reads Bool
  | .bool b => .ok b
  | tree => unexpected tree

def readNumber : Reads Number
  | .number n => .ok n.toNumber
  | tree => unexpected tree

def readWord64 : Reads UInt64
  | .number (.natural n) => .ok n
  | tree => unexpected tree

def readWord32 : Reads UInt32
  | .number (.natural n) =>
    if n.toNat < UInt32.size then .ok n.toUInt32 else .error (.invalid .mismatch)
  | tree => unexpected tree

def readList (read : Reads α) : Reads (List α)
  | .array items => items.mapM read
  | tree => unexpected tree

def readOptional (read : Reads α) : Reads (Option α)
  | .null => .ok none
  | tree => some <$> read tree

/-! ## Records -/

/-- A record as it is written: the members of an object, or the items of an array with the names of the
fields that they stand for. -/
structure Record where
  isPositional : Bool
  members : List (String × Tree)

/-- A fault and the number of members that stand before it. -/
structure Fault where
  place : Nat
  cause : DocumentError

/-- The values of a name, each with the number of members before it. -/
def Record.values (r : Record) (name : String) : List (Tree × Nat) :=
  r.members.zipIdx.filterMap fun ((key, tree), place) =>
    if key = name then some (tree, place) else none

/-- Fields of a record in their order, and what they are read as. -/
structure Fields (α : Type) where
  names : List String
  read : Record → Except Fault α

namespace Fields

/-- One field, and what stands for it if it is absent. -/
def single (name : String) (read : Reads α) (absent : Record → Except DocumentError α) :
    Fields α where
  names := [name]
  read r :=
    match r.values name with
    | [] => (absent r).mapError (⟨r.members.length, ·⟩)
    | [(tree, place)] => (read tree).mapError (⟨place, ·⟩)
    | (tree, place) :: (_, again) :: _ => do
      let _ ← (read tree).mapError (⟨place, ·⟩)
      throw ⟨again, .invalid (.duplicateField name)⟩

def required (name : String) (read : Reads α) : Fields α :=
  single name read fun r =>
    .error (.invalid (if r.isPositional then .mismatch else .missingField name))

def withDefault (name : String) (default : α) (read : Reads α) : Fields α :=
  single name read fun _ => .ok default

/-- A field that may be absent, for which null stands as well. -/
def optional (name : String) (read : Reads α) : Fields (Option α) :=
  single name (readOptional read) fun _ => .ok none

instance : Functor Fields where
  map f fields := ⟨fields.names, fun r => f <$> fields.read r⟩

/-- A function and its argument, of which the earlier fault counts. -/
def combine (f : Except Fault (α → β)) (a : Except Fault α) : Except Fault β :=
  match f, a with
  | .ok f, .ok a => .ok (f a)
  | .error fault, .ok _ | .ok _, .error fault => .error fault
  | .error first, .error second => .error (if second.place < first.place then second else first)

instance : Seq Fields where
  seq fields more :=
    ⟨fields.names ++ (more ()).names, fun r => combine (fields.read r) ((more ()).read r)⟩

end Fields

def readRecord (fields : Fields α) : Reads α
  | .object members => (fields.read ⟨false, members⟩).mapError Fault.cause
  | .damaged members _ =>
    match fields.read ⟨false, members⟩ with
    | .error fault => .error (if fault.place < members.length then fault.cause else .malformed)
    | .ok _ => .error .malformed
  | .array items => do
    let content ← (fields.read ⟨true, fields.names.zip items⟩).mapError Fault.cause
    if fields.names.length < items.length then throw .malformed else return content
  | tree => unexpected tree

def optionalMember (name : String) (write : α → Tree) (value : Option α) : List (String × Tree) :=
  match value with
  | some value => [(name, write value)]
  | none => []

end Json

end GraphGrammar
