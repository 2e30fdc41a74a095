/-!
# The characters of a YAML stream

A stream is read from left to right. The layout of what is read matters, so each place in it knows
its line and its column. Carriage returns and next-line characters count as plain line ends, also
the pair of carriage return and line feed; the other two line ends of Unicode stay as they are.

* `YamlSource.ofText?`: the source of a text, if all its characters are allowed.
* `YamlSource.skip`, `YamlSource.skipBreak`, `YamlSource.skipWhile`: moving on.
* `YamlSource.atMarker`: whether a document marker stands at the place.
-/

namespace QuorumStore

/-- A place in a stream. -/
structure YamlSource where
  /-- The characters from the place on. -/
  rest : List Char
  /-- How many characters are before the place. -/
  index : Nat := 0
  /-- How many line ends are before the place. -/
  line : Nat := 0
  /-- How many characters of its line are before the place. -/
  column : Nat := 0

namespace YamlSource

section Characters

/-- Whether a character may occur in a stream. -/
def isAllowed (c : Char) : Bool :=
  let n := c.toNat
  n = 0x9 || n = 0xa || n = 0xd || (0x20 ≤ n && n ≤ 0x7e) || n = 0x85 || (0xa0 ≤ n && n ≤ 0xd7ff)
    || (0xe000 ≤ n && n ≤ 0xfffd) || 0x10000 ≤ n

/-- A space or a tab. -/
def isBlank (c : Char) : Bool := c = ' ' || c = '\t'

/-- A line end. -/
def isBreak (c : Char) : Bool := c = '\n' || c = '\u2028' || c = '\u2029'

/-- Whether a word ends here: before a blank, a line end or the end of the stream. -/
def endsWord : Option Char → Bool
  | none => true
  | some c => isBlank c || isBreak c

/-- A letter, digit, hyphen or underscore of ASCII, as in names of anchors and tags. -/
def isNameChar (c : Char) : Bool := c.isAlphanum || c = '-' || c = '_'

/-- Writes the line ends that count as plain ones as line feeds. -/
def plainBreaks : List Char → List Char
  | [] => []
  | '\r' :: '\n' :: rest => '\n' :: plainBreaks rest
  | c :: rest => (if c = '\r' || c = '\u0085' then '\n' else c) :: plainBreaks rest

end Characters

/-- The source of a text, if all its characters are allowed. -/
def ofText? (text : String) : Option YamlSource :=
  if text.toList.all isAllowed then some { rest := plainBreaks text.toList } else none

/-- The character at the place. -/
def current (s : YamlSource) : Option Char := s.rest.head?

/-- The character some places further on. -/
def ahead (s : YamlSource) (n : Nat) : Option Char := s.rest[n]?

/-- Moves on by one character that is no line end. -/
def skip (s : YamlSource) : YamlSource :=
  { s with rest := s.rest.drop 1, index := s.index + 1, column := s.column + 1 }

/-- Moves on by a number of characters, none of which is a line end. -/
def skipMany (s : YamlSource) (n : Nat) : YamlSource :=
  { s with rest := s.rest.drop n, index := s.index + n, column := s.column + n }

/-- Moves on by a line end. -/
def skipBreak (s : YamlSource) : YamlSource :=
  { rest := s.rest.drop 1, index := s.index + 1, line := s.line + 1, column := 0 }

/-- The longest run of characters with a property, none of which is a line end, and the place
after it. -/
def takeWhile (s : YamlSource) (p : Char → Bool) : List Char × YamlSource :=
  let run := s.rest.takeWhile p
  (run, s.skipMany run.length)

/-- The place after the longest run of characters with a property, none of which is a line end. -/
def skipWhile (s : YamlSource) (p : Char → Bool) : YamlSource := (s.takeWhile p).2

/-- The place at the end of the line. -/
def skipLine (s : YamlSource) : YamlSource := s.skipWhile fun c => !isBreak c

/-- The place after blanks and a comment up to the end of the line, and after the line end; none
if there is anything else. -/
def finishLine? (s : YamlSource) : Option YamlSource :=
  let s := s.skipWhile isBlank
  let s := if s.current = some '#' then s.skipLine else s
  match s.current with
  | none => some s
  | some c => if isBreak c then some s.skipBreak else none

/-- Whether three equal characters stand at the place, as a word and at the start of a line. -/
def atTriple (s : YamlSource) (c : Char) : Bool :=
  s.column = 0 && s.rest.take 3 = [c, c, c] && endsWord (s.ahead 3)

/-- Whether a document marker stands at the place. -/
def atMarker (s : YamlSource) : Bool := s.atTriple '-' || s.atTriple '.'

theorem length_skip_lt {s : YamlSource} {c : Char} {cs : List Char} (h : s.rest = c :: cs) :
    s.skip.rest.length < s.rest.length := by
  simp [skip, h]

theorem length_skipBreak_lt {s : YamlSource} {c : Char} {cs : List Char} (h : s.rest = c :: cs) :
    s.skipBreak.rest.length < s.rest.length := by
  simp [skipBreak, h]

theorem length_skipMany_lt {s : YamlSource} {c : Char} {cs : List Char} (h : s.rest = c :: cs)
    {n : Nat} (hn : 0 < n) : (s.skipMany n).rest.length < s.rest.length := by
  simp only [skipMany, h, List.length_drop, List.length_cons]
  omega

end YamlSource

end QuorumStore
