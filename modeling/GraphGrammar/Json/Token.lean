import GraphGrammar.Json.Numeral
import GraphGrammar.Text.Basic

/-!
The words of a document. Text is cut into tokens one character at a time. Characters outside of texts
that are neither blank nor punctuation are collected into one word, which has to be a literal name or a
number. A text is collected as code points, in which an escape may also leave half a surrogate pair. Text
that comes as bytes may hold stray ones, as long as they stand inside of texts. Text that breaks these
rules has the tokens that come before the place where it does.
-/

namespace GraphGrammar.Json

inductive Token where
  | openArray
  | closeArray
  | openObject
  | closeObject
  | comma
  | colon
  | null
  | bool (b : Bool)
  /-- A number, if a double can hold it. -/
  | number (n : Option Numeral)
  /-- A text, if its surrogates come in pairs and it holds no stray byte. -/
  | string (s : Option String)

namespace Token

def punctuation? : Char → Option Token
  | '[' => some openArray
  | ']' => some closeArray
  | '\x7b' => some openObject
  | '\x7d' => some closeObject
  | ',' => some comma
  | ':' => some colon
  | _ => none

def isBlank (c : Char) : Bool := c == ' ' || c == '\t' || c == '\n' || c == '\r'

/-- What follows a name at the beginning of a word. -/
def afterName? (name : String) (word : List Char) : Option (List Char) :=
  name.toList.isPrefixOf? word

/-- The token that a word begins with, and the rest of the word. -/
def ofWord? (word : List Char) : Option (Token × List Char) :=
  (afterName? "null" word).map (null, ·) <|>
  (afterName? "true" word).map (bool true, ·) <|>
  (afterName? "false" word).map (bool false, ·) <|>
  (Literal.parse? word).map fun (l, rest) => (number l.numeral?, rest)

def isHighSurrogate (n : Nat) : Bool := 0xD800 ≤ n && n < 0xDC00

def isLowSurrogate (n : Nat) : Bool := 0xDC00 ≤ n && n < 0xE000

/-- What a stray byte leaves among the code points. It is greater than all of them. -/
def strayByte : Nat := 0x110000

/-- The characters of code points, of which two that form a surrogate pair stand for one. -/
def characters? : List Nat → Option (List Char)
  | [] => some []
  | high :: low :: rest =>
    if isHighSurrogate high then
      if isLowSurrogate low then
        (characters? rest).map
          (Char.ofNat (0x10000 + (high - 0xD800) * 0x400 + (low - 0xDC00)) :: ·)
      else none
    else if high.isValidChar then (characters? (low :: rest)).map (Char.ofNat high :: ·)
    else none
  | [point] => if point.isValidChar then some [Char.ofNat point] else none

/-- The token of a text, whose code points are given from the last one on. -/
def ofPoints (points : List Nat) : Token :=
  string ((characters? points.reverse).map String.ofList)

def escape? : Char → Option Nat
  | '"' => some '"'.toNat
  | '\\' => some '\\'.toNat
  | '/' => some '/'.toNat
  | 'b' => some 8
  | 'f' => some 12
  | 'n' => some 10
  | 'r' => some 13
  | 't' => some 9
  | _ => none

def hexDigit? (c : Char) : Option Nat :=
  if '0' ≤ c ∧ c ≤ '9' then some (c.toNat - '0'.toNat)
  else if 'a' ≤ c ∧ c ≤ 'f' then some (c.toNat - 'a'.toNat + 10)
  else if 'A' ≤ c ∧ c ≤ 'F' then some (c.toNat - 'A'.toNat + 10)
  else none

/-- What the next character belongs to. Characters and code points are listed from the last one on. -/
inductive Mode where
  | idle
  | word (cs : List Char)
  | text (points : List Nat)
  | escape (points : List Nat)
  /-- An escape by code point, of which the given number of digits are missing. -/
  | hex (points : List Nat) (value missing : Nat)
  | stopped

/-- Tokens from the last one on, and what the next character belongs to. -/
structure Scan where
  tokens : List Token
  mode : Mode

namespace Scan

def isIdle (scan : Scan) : Bool :=
  match scan.mode with
  | .idle => true
  | _ => false

def stop (scan : Scan) : Scan := { scan with mode := .stopped }

def endWord (scan : Scan) : Scan :=
  match scan.mode with
  | .word cs =>
    match ofWord? cs.reverse with
    | some (token, []) => ⟨token :: scan.tokens, .idle⟩
    | some (token, _ :: _) => ⟨token :: scan.tokens, .stopped⟩
    | none => scan.stop
  | _ => scan

end Scan

/-- A character that belongs to no text and no word. -/
def outside (tokens : List Token) (c : Char) : Scan :=
  if isBlank c then ⟨tokens, .idle⟩
  else if c = '"' then ⟨tokens, .text []⟩
  else match punctuation? c with
    | some token => ⟨token :: tokens, .idle⟩
    | none => ⟨tokens, .word [c]⟩

/-- Whether a character ends a word. -/
def endsWord (c : Char) : Bool := isBlank c || c == '"' || (punctuation? c).isSome

def step (scan : Scan) (c : Char) : Scan :=
  match scan.mode with
  | .idle => outside scan.tokens c
  | .word cs =>
    if endsWord c then
      let ended := scan.endWord
      if ended.isIdle then outside ended.tokens c else ended
    else { scan with mode := .word (c :: cs) }
  | .text points =>
    if c = '"' then ⟨ofPoints points :: scan.tokens, .idle⟩
    else if c = '\\' then { scan with mode := .escape points }
    else if c.toNat < 0x20 then scan.stop
    else { scan with mode := .text (c.toNat :: points) }
  | .escape points =>
    if c = 'u' then { scan with mode := .hex points 0 4 }
    else match escape? c with
      | some point => { scan with mode := .text (point :: points) }
      | none => scan.stop
  | .hex points value missing =>
    match hexDigit? c with
    | some digit =>
      let value := value * 16 + digit
      if missing ≤ 1 then { scan with mode := .text (value :: points) }
      else { scan with mode := .hex points value (missing - 1) }
    | none => scan.stop
  | .stopped => scan

/-- A step for a character or a stray byte. -/
def stepEncoded (scan : Scan) : Option Char → Scan
  | some c => step scan c
  | none =>
    match scan.mode with
    | .text points => { scan with mode := .text (strayByte :: points) }
    | _ => scan.endWord.stop

/-- The tokens at the end of the text, and whether the text is made of them and nothing else. -/
def Scan.finish (scan : Scan) : List Token × Bool :=
  (scan.endWord.tokens.reverse, scan.endWord.isIdle)

/-- The tokens of a text, and whether it is made of them and nothing else. -/
def ofText (cs : List Char) : List Token × Bool := (cs.foldl step ⟨[], .idle⟩).finish

/-- The tokens of a text that comes as bytes, and whether it is made of them and nothing else. -/
def ofBytes (bytes : ByteArray) : List Token × Bool :=
  ((Text.characters bytes).foldl stepEncoded ⟨[], .idle⟩).finish

end Token

end GraphGrammar.Json
