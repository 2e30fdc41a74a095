import QuorumStore.Bytes

/-!
# The lexical structure of JSON

A JSON text is a sequence of tokens with blanks between them.

* `JsonToken.chars`: the characters of a token in compact text.
* `JsonToken.next?`: the token at the start of a text, and the rest of the text.
* `JsonToken.ofChars?`: the tokens of a text.
-/

namespace QuorumStore

/-- A token of a JSON text. The text of a string is `none` if an escape names half of a surrogate
pair only, so that no text stands for it. -/
inductive JsonToken where
  /-- An opening brace. -/
  | openBrace
  /-- A closing brace. -/
  | closeBrace
  /-- An opening bracket. -/
  | openBracket
  /-- A closing bracket. -/
  | closeBracket
  /-- A colon. -/
  | colon
  /-- A comma. -/
  | comma
  /-- The word `null`. -/
  | null
  /-- One of the words `true` and `false`. -/
  | bool (b : Bool)
  /-- A number without fraction and exponent. -/
  | integer (n : Int)
  /-- Any other number, and negative zero, as written. -/
  | decimal (literal : List Char)
  /-- A string. -/
  | string (text : Option String)
  deriving DecidableEq

namespace JsonToken

/-- The form of a character inside a string. -/
def escape (c : Char) : List Char :=
  if c = '"' then ['\\', '"']
  else if c = '\\' then ['\\', '\\']
  else if c = '\x08' then ['\\', 'b']
  else if c = '\x0c' then ['\\', 'f']
  else if c = '\n' then ['\\', 'n']
  else if c = '\r' then ['\\', 'r']
  else if c = '\t' then ['\\', 't']
  else if c.toNat < 0x20 then
    ['\\', 'u', '0', '0', Hexadecimal.digit (c.toNat / 16), Hexadecimal.digit (c.toNat % 16)]
  else [c]

/-- The digits of a number, after a sign if it is negative. -/
def integerChars : Int → List Char
  | .ofNat n => Nat.toDigits 10 n
  | .negSucc n => '-' :: Nat.toDigits 10 (n + 1)

/-- The characters of a token in compact text. -/
def chars : JsonToken → List Char
  | openBrace => ['\x7b']
  | closeBrace => ['\x7d']
  | openBracket => ['[']
  | closeBracket => [']']
  | colon => [':']
  | comma => [',']
  | null => ['n', 'u', 'l', 'l']
  | bool true => ['t', 'r', 'u', 'e']
  | bool false => ['f', 'a', 'l', 's', 'e']
  | integer n => integerChars n
  | decimal literal => literal
  | string (some text) => '"' :: (text.toList.flatMap escape ++ ['"'])
  | string none => ['"', '\\', 'u', 'd', '8', '0', '0', '"']

section Strings

/-- The character that a one-letter escape stands for. -/
def escaped? : Char → Option Char
  | '"' => some '"'
  | '\\' => some '\\'
  | '/' => some '/'
  | 'b' => some '\x08'
  | 'f' => some '\x0c'
  | 'n' => some '\n'
  | 'r' => some '\r'
  | 't' => some '\t'
  | _ => none

/-- Whether a 16-bit number is the first half of a surrogate pair. -/
def isHighHalf (n : Nat) : Bool := 0xd800 ≤ n && n < 0xdc00

/-- Whether a 16-bit number is the second half of a surrogate pair. -/
def isLowHalf (n : Nat) : Bool := 0xdc00 ≤ n && n < 0xe000

/-- The character of a surrogate pair. -/
def joinHalves (high low : Nat) : Char :=
  Char.ofNat (0x10000 + 0x400 * (high - 0xd800) + (low - 0xdc00))

/-- What was read of a string, and the rest of the text. -/
abbrev StringRest := Option (List Char) × List Char

/-- Puts a character in front of what was read. -/
def StringRest.cons (c : Char) (s : StringRest) : StringRest := (s.1.map (c :: ·), s.2)

/-- Puts half of a surrogate pair in front of what was read, which then has no text. -/
def StringRest.spoil (s : StringRest) : StringRest := (none, s.2)

/-- Reads a string from after its opening quote to its closing one. -/
def stringRest? : List Char → Option StringRest
  | [] => none
  | '"' :: rest => some (some [], rest)
  | '\\' :: 'u' :: a :: b :: c :: d :: '\\' :: 'u' :: a' :: b' :: c' :: d' :: rest =>
    match Hexadecimal.number? [a, b, c, d], Hexadecimal.number? [a', b', c', d'] with
    | some high, some low =>
      if isHighHalf high && isLowHalf low then
        (stringRest? rest).map (StringRest.cons (joinHalves high low))
      else
        let others := stringRest? ('\\' :: 'u' :: a' :: b' :: c' :: d' :: rest)
        if isHighHalf high || isLowHalf high then others.map StringRest.spoil
        else others.map (StringRest.cons (Char.ofNat high))
    | _, _ => none
  | '\\' :: 'u' :: a :: b :: c :: d :: rest =>
    match Hexadecimal.number? [a, b, c, d] with
    | some n =>
      if isHighHalf n || isLowHalf n then (stringRest? rest).map StringRest.spoil
      else (stringRest? rest).map (StringRest.cons (Char.ofNat n))
    | none => none
  | '\\' :: e :: rest =>
    match escaped? e with
    | some c => (stringRest? rest).map (StringRest.cons c)
    | none => none
  | c :: rest => if c.toNat < 0x20 then none else (stringRest? rest).map (StringRest.cons c)

end Strings

section Numbers

/-- The digits at the start of a text, of which there has to be one, and the rest. -/
def digits? (cs : List Char) : Option (List Char × List Char) :=
  let (digits, rest) := cs.span Char.isDigit
  if digits.isEmpty then none else some (digits, rest)

/-- The whole part of a number, which has no superfluous zero. -/
def whole? (cs : List Char) : Option (List Char × List Char) :=
  match digits? cs with
  | some ('0' :: _ :: _, _) => none
  | result => result

/-- The fraction of a number, if there is one. -/
def fraction? : List Char → Option (List Char × List Char)
  | '.' :: rest => (digits? rest).map fun (digits, rest) => ('.' :: digits, rest)
  | rest => some ([], rest)

/-- The exponent of a number, from after its letter. -/
def exponentBody? : List Char → Option (List Char × List Char)
  | '+' :: rest => (digits? rest).map fun (digits, rest) => ('+' :: digits, rest)
  | '-' :: rest => (digits? rest).map fun (digits, rest) => ('-' :: digits, rest)
  | rest => digits? rest

/-- The exponent of a number, if there is one. -/
def exponent? : List Char → Option (List Char × List Char)
  | 'e' :: rest => (exponentBody? rest).map fun (body, rest) => ('e' :: body, rest)
  | 'E' :: rest => (exponentBody? rest).map fun (body, rest) => ('E' :: body, rest)
  | rest => some ([], rest)

/-- The token of a number with the given parts. -/
def ofParts (negative : Bool) (whole fraction exponent : List Char) : JsonToken :=
  let sign := if negative then ['-'] else []
  if fraction.isEmpty && exponent.isEmpty && !(negative && whole = ['0']) then
    integer (if negative then -(Nat.ofDigitChars 10 whole 0) else Nat.ofDigitChars 10 whole 0)
  else decimal (sign ++ whole ++ fraction ++ exponent)

/-- Reads a number from after its sign. -/
def number? (negative : Bool) (cs : List Char) : Option (JsonToken × List Char) := do
  let (whole, rest) ← whole? cs
  let (fraction, rest) ← fraction? rest
  let (exponent, rest) ← exponent? rest
  return (ofParts negative whole fraction exponent, rest)

end Numbers

/-- Whether a character may stand between tokens. -/
def isBlank (c : Char) : Bool := c = ' ' || c = '\n' || c = '\t' || c = '\r'

/-- The token at the start of a text, and the rest of the text. -/
def next? : List Char → Option (JsonToken × List Char)
  | [] => none
  | '\x7b' :: rest => some (openBrace, rest)
  | '\x7d' :: rest => some (closeBrace, rest)
  | '[' :: rest => some (openBracket, rest)
  | ']' :: rest => some (closeBracket, rest)
  | ':' :: rest => some (colon, rest)
  | ',' :: rest => some (comma, rest)
  | 'n' :: 'u' :: 'l' :: 'l' :: rest => some (null, rest)
  | 't' :: 'r' :: 'u' :: 'e' :: rest => some (bool true, rest)
  | 'f' :: 'a' :: 'l' :: 's' :: 'e' :: rest => some (bool false, rest)
  | '"' :: rest => (stringRest? rest).map fun (text, rest) => (string (text.map String.ofList), rest)
  | '-' :: rest => number? true rest
  | c :: rest => number? false (c :: rest)

/-- The tokens of a text of which no more than `limit` are there. -/
def upTo? : Nat → List Char → Option (List JsonToken)
  | limit, cs =>
    match limit, cs.dropWhile isBlank with
    | _, [] => some []
    | 0, _ => none
    | limit + 1, cs => do
      let (token, rest) ← next? cs
      return token :: (← upTo? limit rest)

/-- The tokens of a text. Each has a character, so their number is bounded by the text's length. -/
def ofChars? (cs : List Char) : Option (List JsonToken) := upTo? cs.length cs

end JsonToken

end QuorumStore
