import QuorumStore.Bytes
import QuorumStore.Yaml.Source
import QuorumStore.Yaml.Token

/-!
# Anchors, tags and directives of a YAML stream

* `YamlProperty.name?`: the name of an anchor or of a reference.
* `YamlProperty.tag?`: a tag.
* `YamlProperty.directive?`: a directive.
-/

namespace QuorumStore.YamlProperty

open YamlSource

/-- Whether the name of an anchor may end before a character. -/
def endsName : Option Char → Bool
  | none => true
  | some c =>
    isBlank c || isBreak c || c = '?' || c = ':' || c = ',' || c = ']' || c = '\x7d' || c = '%'
      || c = '@' || c.toNat = 0x60

/-- The name of an anchor or of a reference, from its indicator on. -/
def name? (s : YamlSource) : Option (String × YamlSource) :=
  let (name, s) := s.skip.takeWhile isNameChar
  if name.isEmpty || !endsName s.current then none else some (String.ofList name, s)

section Tags

/-- Whether a character may occur in a tag; brackets and commas only in some places. -/
def isTagChar (brackets : Bool) (c : Char) : Bool :=
  isNameChar c || ";/?:@&=+$.%!~*'()".toList.contains c || (brackets && ",[]".toList.contains c)

/-- How many bytes the UTF-8 form of a character has, by its first one. -/
def utf8Width? (first : Nat) : Option Nat :=
  if first < 0x80 then some 1
  else if 0xc0 ≤ first ∧ first < 0xe0 then some 2
  else if 0xe0 ≤ first ∧ first < 0xf0 then some 3
  else if 0xf0 ≤ first ∧ first < 0xf8 then some 4
  else none

/-- Whether the percent signs of a tag stand before two digits each, which stand for the bytes of
UTF-8 forms; `left` bytes of a form are still to come. -/
def escapesFit (left : Nat) : List Char → Bool
  | [] => left = 0
  | '%' :: a :: b :: rest =>
    match Hexadecimal.number? [a, b], left with
    | some byte, 0 => (utf8Width? byte).any fun width => escapesFit (width - 1) rest
    | some byte, left + 1 => 0x80 ≤ byte && byte < 0xc0 && escapesFit left rest
    | none, _ => false
  | c :: rest => c ≠ '%' && left = 0 && escapesFit 0 rest

/-- The characters of a tag. Escapes stay as they are written. -/
def tagChars? (brackets : Bool) (s : YamlSource) : Option (List Char × YamlSource) :=
  let (chars, s) := s.takeWhile (isTagChar brackets)
  if escapesFit 0 chars then some (chars, s) else none

/-- A tag handle: an exclamation mark, or a name between two of them. If there is no second mark
the rest of the name is returned too. -/
def handle (s : YamlSource) : Bool × List Char × YamlSource :=
  let (name, s) := s.skip.takeWhile isNameChar
  if s.current = some '!' then (true, name, s.skip) else (false, name, s)

/-- A tag in angle brackets. -/
def verbatim? (s : YamlSource) : Option (YamlToken × YamlSource) := do
  let (chars, s) ← tagChars? true (s.skipMany 2)
  if chars.isEmpty || s.current ≠ some '>' then none
  return (.tag "" (String.ofList chars), s.skip)

/-- A tag with a handle, or with the handle of a single mark; the mark alone is a tag too. -/
def shorthand? (s : YamlSource) : Option (YamlToken × YamlSource) := do
  let (closed, name, rest) := handle s
  if closed then
    let (chars, s) ← tagChars? false rest
    if chars.isEmpty then none
    return (.tag ("!" ++ String.ofList name ++ "!") (String.ofList chars), s)
  else
    let (chars, s) ← tagChars? false rest
    let suffix := String.ofList (name ++ chars)
    return (if suffix.isEmpty then .tag "" "!" else .tag "!" suffix, s)

/-- The tag at a place. -/
def tag? (inFlow : Bool) (s : YamlSource) : Option (YamlToken × YamlSource) := do
  let (token, s) ← if s.ahead 1 = some '<' then verbatim? s else shorthand? s
  if endsWord s.current || (inFlow && s.current = some ',') then return (token, s) else none

end Tags

section Directives

/-- A number of at most nine digits. -/
def number? (s : YamlSource) : Option (Nat × YamlSource) :=
  let (digits, s) := s.takeWhile Char.isDigit
  if digits.isEmpty || 9 < digits.length then none
  else some (Nat.ofDigitChars 10 digits 0, s)

/-- The directive that names a version, from after its name. -/
def version? (s : YamlSource) : Option (YamlToken × YamlSource) := do
  let (major, s) ← number? (s.skipWhile isBlank)
  if s.current ≠ some '.' then none
  let (minor, s) ← number? s.skip
  return (.version major minor, s)

/-- The directive that sets a tag handle, from after its name. -/
def tagHandle? (s : YamlSource) : Option (YamlToken × YamlSource) := do
  let s := s.skipWhile isBlank
  if s.current ≠ some '!' then none
  let (closed, name, s) := handle s
  if !closed && !name.isEmpty then none
  if !s.current.any isBlank then none
  let (chars, s) ← tagChars? true (s.skipWhile isBlank)
  if chars.isEmpty || !endsWord s.current then none
  let name := "!" ++ String.ofList name ++ (if closed then "!" else "")
  return (.tagHandle name (String.ofList chars), s)

/-- The directive at a place, with the rest of its line. -/
def directive? (s : YamlSource) : Option (YamlToken × YamlSource) := do
  let (name, s) := s.skip.takeWhile isNameChar
  if !endsWord s.current then none
  let (token, s) ← match String.ofList name with
    | "YAML" => version? s
    | "TAG" => tagHandle? s
    | _ => none
  return (token, ← s.finishLine?)

end Directives

end QuorumStore.YamlProperty
