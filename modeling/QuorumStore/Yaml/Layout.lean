import QuorumStore.Yaml.Property
import QuorumStore.Yaml.Scalar

/-!
# From characters to YAML tokens

Outside brackets and braces the indentation of a line says which blocks it belongs to: a block is
opened where its first item or key stands to the right of the block around it, and closed before
the first line to the left of it. A key need not be marked; it is found to be one by the colon after
it, on the same line and not too far on. So the place where a key may have started is remembered
until then.

* `YamlLayout`: how far a stream is read.
* `YamlLayout.step`: reads one token.
* `YamlToken.ofText?`: the tokens of a stream.
-/

namespace QuorumStore

open YamlSource

/-- A place where an unmarked key may have started. -/
structure YamlKeyPlace where
  /-- Whether it has to be a key, since it stands where the keys of its block do. -/
  required : Bool
  /-- How many tokens there were. -/
  tokens : Nat
  /-- The place. -/
  source : YamlSource

/-- How far a stream is read. -/
structure YamlLayout where
  /-- The place. -/
  source : YamlSource
  /-- The tokens, the last one first. -/
  tokens : List YamlToken := []
  /-- The column of the innermost block, or -1 outside all blocks. -/
  indent : Int := -1
  /-- The columns of the blocks around it, from the inside out. -/
  outer : List Int := []
  /-- Where an unmarked key may have started in the innermost brackets or braces, or else outside
  them. -/
  keyPlace : Option YamlKeyPlace := none
  /-- The same for the brackets and braces around them, from the inside out. -/
  outerKeys : List (Option YamlKeyPlace) := []
  /-- Whether an unmarked key may start here. -/
  keyAllowed : Bool := true

namespace YamlLayout

/-- Whether the place is inside brackets or braces. -/
def inFlow (l : YamlLayout) : Bool := !l.outerKeys.isEmpty

/-- The column of the place. -/
def column (l : YamlLayout) : Int := l.source.column

section Blocks

/-- Adds a token. -/
def push (l : YamlLayout) (t : YamlToken) : YamlLayout := { l with tokens := t :: l.tokens }

/-- Adds a token behind the first `count` ones. -/
def insert (l : YamlLayout) (count : Nat) (t : YamlToken) : YamlLayout :=
  let later := l.tokens.length - count
  { l with tokens := l.tokens.take later ++ t :: l.tokens.drop later }

/-- Closes the blocks to the right of a column. -/
def closeBlocks (column indent : Int) (outer : List Int) (tokens : List YamlToken) :
    Int × List Int × List YamlToken :=
  if indent ≤ column then (indent, outer, tokens)
  else match outer with
    | [] => (indent, [], tokens)
    | next :: outer => closeBlocks column next outer (.closeBlock :: tokens)

/-- Closes the blocks to the right of a column, outside brackets and braces. -/
def closeTo (l : YamlLayout) (column : Int) : YamlLayout :=
  if l.inFlow then l
  else
    let (indent, outer, tokens) := closeBlocks column l.indent l.outer l.tokens
    { l with indent, outer, tokens }

/-- Opens a block at a column to the right of the innermost one, outside brackets and braces. Its
token goes behind the first `count` ones. -/
def openAt (l : YamlLayout) (column : Int) (kind : YamlCollection) (count : Nat) : YamlLayout :=
  if !l.inFlow && l.indent < column then
    { l with indent := column, outer := l.indent :: l.outer }.insert count (.openBlock kind)
  else l

end Blocks

section Keys

/-- The most characters that an unmarked key may have. -/
def maxKeyLength : Nat := 1024

/-- Whether the colon after a key can no longer come. -/
def isStale (s : YamlSource) (k : YamlKeyPlace) : Bool :=
  k.source.line < s.line || k.source.index + maxKeyLength < s.index

/-- Forgets a place where a key may have started if its colon can no longer come; none if it has to
be a key. -/
def dropStale? (s : YamlSource) : Option YamlKeyPlace → Option (Option YamlKeyPlace)
  | none => some none
  | some k => if isStale s k then (if k.required then none else some none) else some (some k)

/-- Forgets all places where a key may have started and whose colon can no longer come. -/
def dropAllStale? (l : YamlLayout) : Option YamlLayout := do
  return { l with
    keyPlace := ← dropStale? l.source l.keyPlace
    outerKeys := ← l.outerKeys.mapM (dropStale? l.source) }

/-- Forgets where a key may have started; none if it has to be a key. -/
def dropKey? (l : YamlLayout) : Option YamlLayout :=
  if l.keyPlace.any (·.required) then none else some { l with keyPlace := none }

/-- Remembers that a key may start here. -/
def saveKey? (l : YamlLayout) : Option YamlLayout := do
  if !l.keyAllowed then return l
  let l ← l.dropKey?
  let required := !l.inFlow && l.indent = l.column
  return { l with keyPlace := some ⟨required, l.tokens.length, l.source⟩ }

end Keys

section Blanks

/-- A byte order mark. -/
def byteOrderMark : Char := '\ufeff'

/-- The place of the next token, and whether an unmarked key may start there. Blanks, comments and
line ends are passed over, but tabs only where no key can start. -/
def nextPlace (inFlow keyAllowed inComment : Bool) (s : YamlSource) : YamlSource × Bool :=
  match _ : s.rest with
  | [] => (s, keyAllowed)
  | c :: _ =>
    if isBreak c then nextPlace inFlow (keyAllowed || !inFlow) false s.skipBreak
    else if inComment then nextPlace inFlow keyAllowed true s.skip
    else if c = '#' then nextPlace inFlow keyAllowed true s.skip
    else if c = ' ' || (c = '\t' && (inFlow || !keyAllowed))
        || (c = byteOrderMark && s.column = 0) then
      nextPlace inFlow keyAllowed false s.skip
    else (s, keyAllowed)
termination_by s.rest.length
decreasing_by
  all_goals exact length_skip_lt ‹_›

/-- Moves on to the next token. Blocks that it does not belong to are closed. -/
def toNext? (l : YamlLayout) : Option YamlLayout := do
  let (source, keyAllowed) := nextPlace l.inFlow l.keyAllowed false l.source
  let l ← { l with source, keyAllowed }.dropAllStale?
  return l.closeTo l.column

end Blanks

section Indicators

/-- Moves on by a number of characters that make up a token. -/
def take (l : YamlLayout) (n : Nat) (t : YamlToken) : YamlLayout :=
  { l with source := l.source.skipMany n }.push t

/-- Ends all blocks, as directives and document markers do. -/
def endBlocks? (l : YamlLayout) : Option YamlLayout := do
  let l ← (l.closeTo (-1)).dropKey?
  return { l with keyAllowed := false }

/-- An opening bracket or brace. -/
def openFlow? (l : YamlLayout) (kind : YamlCollection) : Option YamlLayout := do
  let l ← l.saveKey?
  return { l with keyPlace := none, outerKeys := l.keyPlace :: l.outerKeys, keyAllowed := true }.take
    1 (.openFlow kind)

/-- A closing bracket or brace. -/
def closeFlow? (l : YamlLayout) (kind : YamlCollection) : Option YamlLayout := do
  let l ← l.dropKey?
  let l := match l.outerKeys with
    | [] => l
    | keyPlace :: outerKeys => { l with keyPlace, outerKeys }
  return { l with keyAllowed := false }.take 1 (.closeFlow kind)

/-- A comma. -/
def comma? (l : YamlLayout) : Option YamlLayout := do
  let l ← l.dropKey?
  return { l with keyAllowed := true }.take 1 .comma

/-- The hyphen before an item. -/
def item? (l : YamlLayout) : Option YamlLayout := do
  if !l.inFlow && !l.keyAllowed then none
  let l ← (l.openAt l.column .sequence l.tokens.length).dropKey?
  return { l with keyAllowed := true }.take 1 .item

/-- The mark before a key. -/
def key? (l : YamlLayout) : Option YamlLayout := do
  if !l.inFlow && !l.keyAllowed then none
  let l ← (l.openAt l.column .mapping l.tokens.length).dropKey?
  return { l with keyAllowed := !l.inFlow }.take 1 .key

/-- The colon before a value. If a key may have started somewhere it has its mark there. -/
def value? (l : YamlLayout) : Option YamlLayout := do
  match l.keyPlace with
  | some k =>
    let l := (l.insert k.tokens .key).openAt k.source.column .mapping k.tokens
    return { l with keyPlace := none, keyAllowed := false }.take 1 .value
  | none =>
    if !l.inFlow && !l.keyAllowed then none
    let l := l.openAt l.column .mapping l.tokens.length
    return { l with keyAllowed := !l.inFlow }.take 1 .value

/-- A property of a node, which may be the start of a key. -/
def property? (l : YamlLayout) (read : YamlSource → Option (YamlToken × YamlSource)) :
    Option YamlLayout := do
  let l ← l.saveKey?
  let (token, source) ← read l.source
  return { l with source, keyAllowed := false }.push token

/-- A scalar that may be a key. -/
def scalar? (l : YamlLayout) (style : YamlStyle) (read : YamlSource → Option YamlScalar) :
    Option YamlLayout := do
  let l ← l.saveKey?
  let scalar ← read l.source
  return { l with source := scalar.source, keyAllowed := scalar.onNewLine }.push
    (.scalar style scalar.text)

/-- A block scalar. -/
def block? (l : YamlLayout) (style : YamlStyle) : Option YamlLayout := do
  let l ← l.dropKey?
  let scalar ← YamlScalar.block? (style = .folded) l.indent l.source
  return { l with source := scalar.source, keyAllowed := true }.push (.scalar style scalar.text)

/-- Whether a plain scalar may start with a character that is no indicator. -/
def startsPlain (c : Char) : Bool :=
  !isBlank c && !isBreak c && !"-?:,[]\x7b\x7d#&*!|>'\"%@\x60".toList.contains c

/-- Whether a plain scalar starts at the place with the character `c`: also with one of the
indicators of items, keys and values if no blank follows it. -/
def atPlain (l : YamlLayout) (c : Char) : Bool :=
  let next := l.source.ahead 1
  startsPlain c || (c = '-' && !next.any isBlank)
    || (!l.inFlow && (c = '?' || c = ':') && !endsWord next)

end Indicators

/-- Reads the token that starts at the place with the character `c`. -/
def read? (l : YamlLayout) (c : Char) : Option YamlLayout := do
  let endsIndicator := endsWord (l.source.ahead 1)
  if l.source.column = 0 && c = '%' then
    let l ← l.endBlocks?
    let (token, source) ← YamlProperty.directive? l.source
    return { l with source }.push token
  else if l.source.atTriple '-' then return (← l.endBlocks?).take 3 .documentStart
  else if l.source.atTriple '.' then return (← l.endBlocks?).take 3 .documentEnd
  else if c = '[' then l.openFlow? .sequence
  else if c = '\x7b' then l.openFlow? .mapping
  else if c = ']' then l.closeFlow? .sequence
  else if c = '\x7d' then l.closeFlow? .mapping
  else if c = ',' then l.comma?
  else if c = '-' && endsIndicator then l.item?
  else if c = '?' && (l.inFlow || endsIndicator) then l.key?
  else if c = ':' && (l.inFlow || endsIndicator) then l.value?
  else if c = '*' then
    l.property? fun s => (YamlProperty.name? s).map fun (name, s) => (.alias name, s)
  else if c = '&' then
    l.property? fun s => (YamlProperty.name? s).map fun (name, s) => (.anchor name, s)
  else if c = '!' then l.property? (YamlProperty.tag? l.inFlow)
  else if c = '|' && !l.inFlow then l.block? .literal
  else if c = '>' && !l.inFlow then l.block? .folded
  else if c = '\'' then l.scalar? .singleQuoted (YamlScalar.quoted? '\'')
  else if c = '"' then l.scalar? .doubleQuoted (YamlScalar.quoted? '"')
  else if l.atPlain c then l.scalar? .plain (YamlScalar.plain? l.inFlow (l.indent + 1).toNat)
  else none

/-- Reads up to `limit` tokens, to the end of the stream. -/
def run? : Nat → YamlLayout → Option YamlLayout
  | limit, l => do
    let l ← l.toNext?
    match limit, l.source.current with
    | _, none => l.endBlocks?
    | 0, some _ => none
    | limit + 1, some c => run? limit (← l.read? c)

end YamlLayout

/-- The tokens of a stream. Each that is read has a character, which bounds their number. -/
def YamlToken.ofText? (text : String) : Option (List YamlToken) := do
  let source ← YamlSource.ofText? text
  let l ← YamlLayout.run? source.rest.length { source }
  return l.tokens.reverse

end QuorumStore
