import GraphGrammar.Text.Unprintable

/-!
Texts as they are read and shown: bytes as the characters that they encode in UTF-8, decimal numerals as
a user writes them, with an optional plus sign and any number of leading zeros, and quoted text as
messages show it, with an escape for each character that a reader could not tell from its neighbours.
-/

namespace GraphGrammar.Text

/-- The characters from a position on, with none in the place of each stray byte. -/
def charactersFrom (bytes : ByteArray) (position : Nat) : List (Option Char) :=
  if position < bytes.size then
    match bytes.utf8DecodeChar? position with
    | some c => some c :: charactersFrom bytes (position + c.utf8Size)
    | none => none :: charactersFrom bytes (position + 1)
  else []
termination_by bytes.size - position
decreasing_by
  · have := c.utf8Size_pos
    omega
  · omega

/-- The characters of bytes, with none in the place of each stray byte. -/
def characters (bytes : ByteArray) : List (Option Char) := charactersFrom bytes 0

def digitValue? (c : Char) : Option Nat :=
  if '0' ≤ c && c ≤ '9' then some (c.toNat - '0'.toNat) else none

/-- The value of a run of digits that continues the numeral read so far. -/
def continueNumeral? : Nat → List Char → Option Nat
  | value, [] => some value
  | value, c :: rest => do continueNumeral? (value * 10 + (← digitValue? c)) rest

def digits? : List Char → Option Nat
  | [] => none
  | c :: rest => do continueNumeral? (← digitValue? c) rest

def numeral? : List Char → Option Nat
  | '+' :: rest => digits? rest
  | cs => digits? cs

/-- The value of a numeral that fits a word of 64 bits. -/
def word? (cs : List Char) : Option UInt64 := do
  let value ← numeral? cs
  if value < UInt64.size then some (UInt64.ofNat value) else none

/-- The lower-case hexadecimal digits of a number, without leading zeros. -/
def hexadecimal (n : Nat) : List Char := Nat.toDigits 16 n

def quotedChar (c : Char) : List Char :=
  match c with
  | '"' => ['\\', '"']
  | '\\' => ['\\', '\\']
  | '\t' => ['\\', 't']
  | '\n' => ['\\', 'n']
  | '\r' => ['\\', 'r']
  | '\x00' => ['\\', '0']
  | c =>
    if isUnprintable c then
      ['\\', 'u', '\x7b'] ++ hexadecimal c.toNat ++ ['\x7d']
    else [c]

def quoted (s : String) : String :=
  String.ofList ('"' :: s.toList.flatMap quotedChar ++ ['"'])

end GraphGrammar.Text
