import QuorumStore.Bytes
import QuorumStore.Yaml.Source
import QuorumStore.Yaml.Token

/-!
# Scalars of a YAML stream

Scalars may run over several lines. Between two words on different lines the first line end counts
as a blank and the others as themselves, so that a paragraph folds into one line.

* `YamlGap.text`: what stands between two words, folded.
* `YamlScalar.plain?`, `YamlScalar.quoted?`, `YamlScalar.block?`: the scalar at a place, and the
  place after it.
-/

namespace QuorumStore

open YamlSource

/-- What stands between two words of a scalar. -/
structure YamlGap where
  /-- The blanks of the first line. -/
  blanks : List Char := []
  /-- The line ends. -/
  breaks : List Char := []
  /-- Whether an escaped line end came before, which does not count. -/
  escaped : Bool := false

namespace YamlGap

/-- The folded text. -/
def text (g : YamlGap) : List Char :=
  if g.escaped then g.breaks
  else match g.breaks with
    | [] => g.blanks
    | ['\n'] => [' ']
    | '\n' :: others => others
    | breaks => breaks

/-- Whether a line has ended. -/
def hasBreak (g : YamlGap) : Bool := g.escaped || !g.breaks.isEmpty

/-- Whether nothing stands here. -/
def isEmpty (g : YamlGap) : Bool := g.blanks.isEmpty && !g.hasBreak

/-- One more blank. Blanks count only on the first line. -/
def addBlank (g : YamlGap) (c : Char) : YamlGap :=
  if g.hasBreak then g else { g with blanks := g.blanks ++ [c] }

/-- One more line end. -/
def addBreak (g : YamlGap) (c : Char) : YamlGap := { g with breaks := g.breaks ++ [c] }

end YamlGap

/-- A scalar that was read. -/
structure YamlScalar where
  /-- Its text. -/
  text : String
  /-- Whether the place after it is on a new line. -/
  onNewLine : Bool
  /-- The place after it. -/
  source : YamlSource

namespace YamlScalar

/-- The scalar with the given characters, the last one first. -/
def ofReversed (chars : List Char) (onNewLine : Bool) (source : YamlSource) : YamlScalar :=
  { text := String.ofList chars.reverse, onNewLine, source }

section Plain

/-- The indicators that end a word inside brackets and braces. -/
def isFlowIndicator (c : Char) : Bool :=
  c = ',' || c = '[' || c = ']' || c = '\x7b' || c = '\x7d'

/-- Whether a plain scalar ends before the word at a place, which has a gap before it. -/
def endsBefore (inFlow : Bool) (indent : Nat) (s : YamlSource) : Bool :=
  (!inFlow && s.column < indent) || s.atMarker || s.current = some '#'

/-- Whether a plain scalar ends before a character. -/
def endsAt (inFlow : Bool) (c : Char) (s : YamlSource) : Bool :=
  (c = ':' && endsWord (s.ahead 1)) || (inFlow && isFlowIndicator c)

/-- Whether a colon stands directly before an indicator, which is not allowed inside brackets and
braces. -/
def isStrayColon (inFlow : Bool) (c : Char) (s : YamlSource) : Bool :=
  inFlow && c = ':' && (s.ahead 1).any fun d => isFlowIndicator d || d = '?'

/-- Reads a plain scalar on from a place, with what was read of it before, the last character
first. Its lines are indented by at least `indent`. -/
def plainRest? (inFlow : Bool) (indent : Nat) (chars : List Char) (gap : YamlGap)
    (s : YamlSource) : Option YamlScalar :=
  match _ : s.rest with
  | [] => some (ofReversed chars gap.hasBreak s)
  | c :: _ =>
    if isBlank c then
      if gap.hasBreak && c = '\t' && s.column < indent then none
      else plainRest? inFlow indent chars (gap.addBlank c) s.skip
    else if isBreak c then plainRest? inFlow indent chars (gap.addBreak c) s.skipBreak
    else if !gap.isEmpty && endsBefore inFlow indent s then
      some (ofReversed chars gap.hasBreak s)
    else if isStrayColon inFlow c s then none
    else if endsAt inFlow c s then some (ofReversed chars gap.hasBreak s)
    else plainRest? inFlow indent (c :: (gap.text.reverse ++ chars)) {} s.skip
termination_by s.rest.length
decreasing_by
  all_goals exact length_skip_lt ‹_›

/-- The plain scalar at a place. -/
def plain? (inFlow : Bool) (indent : Nat) (s : YamlSource) : Option YamlScalar :=
  plainRest? inFlow indent [] {} s

end Plain

section Quoted

/-- The character that a one-letter escape stands for. -/
def escaped? : Char → Option Char
  | '0' => some '\x00'
  | 'a' => some '\x07'
  | 'b' => some '\x08'
  | 't' => some '\t'
  | '\t' => some '\t'
  | 'n' => some '\n'
  | 'v' => some '\x0b'
  | 'f' => some '\x0c'
  | 'r' => some '\r'
  | 'e' => some '\x1b'
  | ' ' => some ' '
  | '"' => some '"'
  | '/' => some '/'
  | '\\' => some '\\'
  | 'N' => some '\u0085'
  | '_' => some '\u00a0'
  | 'L' => some '\u2028'
  | 'P' => some '\u2029'
  | _ => none

/-- How many digits follow the letter of a numeric escape. -/
def escapeLength? : Char → Option Nat
  | 'x' => some 2
  | 'u' => some 4
  | 'U' => some 8
  | _ => none

/-- The character of an escape whose backslash stands before the given characters, and how many of
them belong to it. -/
def escape? (rest : List Char) : Option (Char × Nat) := do
  let letter ← rest.head?
  match escapeLength? letter with
  | none => return (← escaped? letter, 1)
  | some n =>
    let digits := (rest.drop 1).take n
    let code ← Hexadecimal.number? digits
    if digits.length = n && code.isValidChar then return (Char.ofNat code, n + 1) else none

/-- Reads a scalar in quotes on from a place, with what was read of it before, the last character
first. -/
def quotedRest? (quote : Char) (chars : List Char) (gap : YamlGap) (s : YamlSource) :
    Option YamlScalar :=
  match _ : s.rest with
  | [] => none
  | c :: cs =>
    if isBlank c then quotedRest? quote chars (gap.addBlank c) s.skip
    else if isBreak c then quotedRest? quote chars (gap.addBreak c) s.skipBreak
    else if s.atMarker then none
    else
      let chars := gap.text.reverse ++ chars
      if c = quote then
        if quote = '\'' && s.ahead 1 = some '\'' then
          quotedRest? quote ('\'' :: chars) {} (s.skipMany 2)
        else some (ofReversed chars false s.skip)
      else if c = '\\' && quote = '"' then
        if (s.ahead 1).any isBreak then
          quotedRest? quote chars { escaped := true } s.skip.skipBreak
        else match escape? cs with
          | none => none
          | some (d, n) => quotedRest? quote (d :: chars) {} (s.skipMany (n + 1))
      else quotedRest? quote (c :: chars) {} s.skip
termination_by s.rest.length
decreasing_by
  · exact length_skip_lt ‹_›
  · exact length_skipBreak_lt ‹_›
  · exact length_skipMany_lt ‹_› (by omega)
  · have hskip : s.skip.rest.length < s.rest.length := length_skip_lt ‹_›
    simp only [skipBreak, List.length_drop]
    omega
  · exact length_skipMany_lt ‹_› (by omega)
  · exact length_skip_lt ‹_›

/-- The scalar at a place, where its opening quote stands. -/
def quoted? (quote : Char) (s : YamlSource) : Option YamlScalar := quotedRest? quote [] {} s.skip

end Quoted

section Block

/-- What becomes of the line ends after a block scalar. -/
inductive Chomping where
  /-- All are dropped. -/
  | strip
  /-- One is kept. -/
  | clip
  /-- All are kept. -/
  | keep
  deriving DecidableEq

/-- The mark of a chomping. -/
def chomping? : Char → Option Chomping
  | '+' => some .keep
  | '-' => some .strip
  | _ => none

/-- An indentation of one to nine, in digits. -/
def increment? (c : Char) : Option Nat :=
  if '1' ≤ c ∧ c ≤ '9' then some (c.toNat - '0'.toNat) else none

/-- Chomping and indentation, if given, in either order, and the place after them. An indentation
of zero is refused. -/
def header? (s : YamlSource) : Option (Chomping × Option Nat × YamlSource) :=
  match s.current.bind chomping? with
  | some chomping =>
    let s := s.skip
    match s.current.bind increment? with
    | some n => some (chomping, some n, s.skip)
    | none => if s.current = some '0' then none else some (chomping, none, s)
  | none =>
    match s.current.bind increment? with
    | some n =>
      let s := s.skip
      match s.current.bind chomping? with
      | some chomping => some (chomping, some n, s.skip)
      | none => some (.clip, some n, s)
    | none => if s.current = some '0' then none else some (.clip, none, s)

/-- Reads the empty lines at the start of a block scalar whose indentation is not given: its line
ends, the longest run of spaces, and the place after them. A tab cannot stand for spaces. -/
def leadingLines? (breaks : List Char) (widest : Nat) (s : YamlSource) :
    Option (List Char × Nat × YamlSource) :=
  match _ : s.rest with
  | [] => some (breaks, max widest s.column, s)
  | c :: _ =>
    if c = ' ' then leadingLines? breaks widest s.skip
    else if c = '\t' then none
    else if isBreak c then leadingLines? (breaks ++ [c]) (max widest s.column) s.skipBreak
    else some (breaks, max widest s.column, s)
termination_by s.rest.length
decreasing_by
  · exact length_skip_lt ‹_›
  · exact length_skipBreak_lt ‹_›

/-- What was read of a block scalar. -/
structure BlockText where
  /-- The characters of its lines, the last one first. -/
  chars : List Char := []
  /-- The end of its last line. -/
  lastBreak : List Char := []
  /-- The ends of the empty lines after that. -/
  emptyLines : List Char := []
  /-- Whether its last line starts with a blank. -/
  indented : Bool := false

/-- The text so far, with what stands before a new line that starts with the character `c`. Lines
that start with a blank are not folded. -/
def BlockText.startLine (folded : Bool) (b : BlockText) (c : Char) : BlockText :=
  let gap :=
    if folded && b.lastBreak = ['\n'] && !b.indented && !isBlank c then
      if b.emptyLines.isEmpty then [' '] else b.emptyLines
    else b.lastBreak ++ b.emptyLines
  { chars := gap.reverse ++ b.chars, indented := isBlank c }

/-- The whole text. -/
def BlockText.finish (chomping : Chomping) (b : BlockText) : List Char :=
  match chomping with
  | .strip => b.chars
  | .clip => b.lastBreak.reverse ++ b.chars
  | .keep => b.emptyLines.reverse ++ (b.lastBreak.reverse ++ b.chars)

/-- Reads a block scalar on from a place, inside a line or between lines. -/
def blockRest? (folded : Bool) (indent : Nat) (inLine : Bool) (b : BlockText) (s : YamlSource) :
    Option (BlockText × YamlSource) :=
  match _ : s.rest with
  | [] => some (b, s)
  | c :: _ =>
    if inLine then
      if isBreak c then blockRest? folded indent false { b with lastBreak := [c] } s.skipBreak
      else blockRest? folded indent true { b with chars := c :: b.chars } s.skip
    else if s.column < indent && c = ' ' then blockRest? folded indent false b s.skip
    else if s.column < indent && c = '\t' then none
    else if isBreak c then
      blockRest? folded indent false { b with emptyLines := b.emptyLines ++ [c] } s.skipBreak
    else if s.column = indent then
      let b := b.startLine folded c
      blockRest? folded indent true { b with chars := c :: b.chars } s.skip
    else some (b, s)
termination_by s.rest.length
decreasing_by
  all_goals exact length_skip_lt ‹_›

/-- The block scalar at a place, where its indicator stands. Its lines are indented by the given
number of columns more than `indent`, or else as its first line is, but by more than `indent`. -/
def block? (folded : Bool) (indent : Int) (s : YamlSource) : Option YamlScalar := do
  let (chomping, increment, s) ← header? s.skip
  let s ← s.finishLine?
  let (breaks, width, s) ← match increment with
    | some n => pure ([], ((max indent 0) + n).toNat, s)
    | none => do
      let (breaks, widest, s) ← leadingLines? [] 0 s
      pure (breaks, max (max widest (indent + 1).toNat) 1, s)
  let (b, s) ← blockRest? folded width false { emptyLines := breaks } s
  return ofReversed (b.finish chomping) true s

end Block

end YamlScalar

end QuorumStore
