import GraphGrammar.Json.Token
import GraphGrammar.Json.Tree

/-!
From tokens to trees. The tokens are taken one at a time, and the arrays and objects that are still open
wait on a stack. Where the text does not follow the grammar, what is open is closed around the fault.
-/

namespace GraphGrammar.Json

/-- An array or object that is still open, with what it holds from the last part on. A key is absent if
it stands for no text. -/
inductive Frame where
  | array (items : List Tree)
  | object (members : List (Option String × Tree))
  /-- An object whose next value belongs to the given key. -/
  | member (members : List (Option String × Tree)) (key : Option String)

inductive Expectation where
  | value
  /-- The first item of an array, or its end. -/
  | firstItem
  /-- The first key of an object, or its end. -/
  | firstKey
  | key
  | colon
  /-- A comma or the end of what is open. -/
  | separator
  | finished (tree : Tree)

structure Parse where
  stack : List Frame
  expectation : Expectation

/-- The greatest number of arrays and objects inside one another that can be read. -/
def greatestDepth : Nat := 127

/-- The tree of an array that is closed inside the given number of others. -/
def arrayTree (depth : Nat) (items : List Tree) : Tree :=
  if depth < greatestDepth then .array items.reverse else .unreadable

/-- The members before the first one whose key stands for no text. -/
def readableMembers : List (Option String × Tree) → List (String × Tree)
  | (some key, tree) :: rest => (key, tree) :: readableMembers rest
  | (none, _) :: _ | [] => []

def haveKeys (members : List (Option String × Tree)) : Bool :=
  members.all fun (key, _) => key.isSome

/-- The tree of an object that is closed inside the given number of others. -/
def objectTree (depth : Nat) (members : List (Option String × Tree)) : Tree :=
  if greatestDepth ≤ depth then .unreadable
  else if haveKeys members then .object (readableMembers members.reverse)
  else .damaged (readableMembers members.reverse) .unreadable

def Parse.complete (stack : List Frame) (tree : Tree) : Option Parse :=
  match stack with
  | [] => some ⟨[], .finished tree⟩
  | .array items :: up => some ⟨.array (tree :: items) :: up, .separator⟩
  | .member members key :: up => some ⟨.object ((key, tree) :: members) :: up, .separator⟩
  | .object _ :: _ => none

def Parse.value (stack : List Frame) : Token → Option Parse
  | .null => complete stack .null
  | .bool b => complete stack (.bool b)
  | .number (some n) => complete stack (.number n)
  | .string (some s) => complete stack (.string s)
  | .number none | .string none => complete stack .unreadable
  | .openArray => some ⟨.array [] :: stack, .firstItem⟩
  | .openObject => some ⟨.object [] :: stack, .firstKey⟩
  | .closeArray | .closeObject | .comma | .colon => none

def Parse.step (p : Parse) (token : Token) : Option Parse :=
  match p.expectation, p.stack, token with
  | .value, stack, token => value stack token
  | .firstItem, .array _ :: up, .closeArray => complete up (arrayTree up.length [])
  | .firstItem, stack, token => value stack token
  | .firstKey, .object _ :: up, .closeObject => complete up (objectTree up.length [])
  | .firstKey, .object members :: up, .string key => some ⟨.member members key :: up, .colon⟩
  | .key, .object members :: up, .string key => some ⟨.member members key :: up, .colon⟩
  | .colon, stack, .colon => some ⟨stack, .value⟩
  | .separator, .array items :: up, .comma => some ⟨.array items :: up, .value⟩
  | .separator, .array items :: up, .closeArray => complete up (arrayTree up.length items)
  | .separator, .object members :: up, .comma => some ⟨.object members :: up, .key⟩
  | .separator, .object members :: up, .closeObject => complete up (objectTree up.length members)
  | _, _, _ => none

/-- The parse of tokens as far as they follow the grammar, and the first one that does not. -/
def Parse.run (p : Parse) : List Token → Parse × Option Token
  | [] => (p, none)
  | token :: rest =>
    match p.step token with
    | some p => p.run rest
    | none => (p, some token)

/-- The value that a token begins, of which nothing else is known. -/
def Token.beginning : Token → Tree
  | null => .null
  | bool b => .bool b
  | number (some n) => .number n
  | openArray => .array [.unreadable]
  | openObject => .damaged [] .unreadable
  | number none | string _ | closeArray | closeObject | comma | colon => .unreadable

/-- Closes an array or object around a fault. -/
def Frame.enclose (fault : Tree) : Frame → Tree
  | array items => .array (fault :: items).reverse
  | object members =>
    .damaged (readableMembers members.reverse) (if haveKeys members then fault else .unreadable)
  | member members key => .damaged (readableMembers ((key, fault) :: members).reverse) .unreadable

/-- The tree of a text that breaks off, or goes on with a token that cannot stand there. -/
def Parse.close (p : Parse) (token : Option Token) : Tree :=
  let fault := match p.expectation, token with
    | .firstKey, some token | .key, some token => token.beginning
    | _, _ => .unreadable
  p.stack.foldl Frame.enclose fault

/-- A text as far as it can be read. -/
structure Document where
  tree : Tree
  /-- Whether the text follows the grammar to its end. -/
  isWhole : Bool

namespace Document

def ofTokens (tokens : List Token) (isWhole : Bool) : Document :=
  match Parse.run ⟨[], .value⟩ tokens with
  | (⟨_, .finished tree⟩, token) => ⟨tree, isWhole && token.isNone⟩
  | (p, token) => ⟨p.close token, false⟩

def ofText (text : String) : Document :=
  let (tokens, isWhole) := Token.ofText text.toList
  ofTokens tokens isWhole

def ofBytes (bytes : ByteArray) : Document :=
  let (tokens, isWhole) := Token.ofBytes bytes
  ofTokens tokens isWhole

end Document

def Tree.ofText? (text : String) : Option Tree :=
  let d := Document.ofText text
  if d.isWhole then some d.tree else none

end GraphGrammar.Json
