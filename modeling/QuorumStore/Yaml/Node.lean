import QuorumStore.Yaml.Token

/-!
# YAML nodes

A document is a tree of nodes, in which a node with an anchor can be referred to from further on.
Anchors are numbered by how many names are known when they are met; where two have one number, all
references to it mean the later one.

* `YamlNode`: a node.
* `YamlReading`: how far the tokens of a document are read.
* `YamlReading.node?`: the node at the front of the tokens.
-/

namespace QuorumStore

/-- A node of a document. -/
inductive YamlNode where
  /-- A scalar. -/
  | scalar (style : YamlStyle) (tag : Option String) (text : String)
  /-- A sequence. -/
  | sequence (items : List YamlNode)
  /-- A mapping, with its entries in order. -/
  | mapping (entries : List (YamlNode × YamlNode))
  /-- A reference to the anchor with a number. -/
  | alias (number : Nat)

/-- A node that can be referred to. -/
structure YamlTarget where
  /-- The number of its anchor. -/
  number : Nat
  /-- How many nodes with anchors started before it. -/
  order : Nat
  /-- The node. -/
  node : YamlNode

/-- How far the tokens of a document are read. -/
structure YamlReading where
  /-- The tokens to come. -/
  tokens : List YamlToken
  /-- The tag handles and what they stand for. -/
  handles : List (String × String) := []
  /-- The names of anchors and their numbers. -/
  anchors : List (String × Nat) := []
  /-- How many nodes with anchors have started. -/
  started : Nat := 0
  /-- The complete nodes with anchors. -/
  targets : List YamlTarget := []

/-- A step in reading a document, which may fail. -/
abbrev YamlReader := StateT YamlReading Option

namespace YamlReader

/-- The next token. -/
def peek : YamlReader (Option YamlToken) := return (← get).tokens.head?

/-- Passes over the next token. -/
def advance : YamlReader Unit := modify fun r => { r with tokens := r.tokens.drop 1 }

/-- Whether the next token is one of some tokens. -/
def nextIsIn (ts : List YamlToken) : YamlReader Bool := return (← peek).any ts.contains

/-- Passes over the next token if it is the given one, and says whether it was. -/
def accept (t : YamlToken) : YamlReader Bool := do
  if (← peek) = some t then
    advance
    return true
  else return false

/-- The node that stands where none is written. -/
def nothing : YamlNode := .scalar .plain none ""

section Properties

/-- The anchor of the next node, if it has one. -/
def anchor : YamlReader (Option String) := do
  match ← peek with
  | some (.anchor name) => do
    advance
    return some name
  | _ => return none

/-- The tag of the next node, if it has one, with what its handle stands for. -/
def tag : YamlReader (Option String) := do
  match ← peek with
  | some (.tag handle suffix) => do
    advance
    if handle.isEmpty then return some suffix
    match (← get).handles.lookup handle with
    | none => failure
    | some start => return some (start ++ suffix)
  | _ => return none

/-- The anchor and the tag of the next node, in either order. -/
def properties : YamlReader (Option String × Option String) := do
  match ← anchor with
  | some name => return (some name, ← tag)
  | none =>
    let tag ← tag
    return (← anchor, tag)

/-- Gives an anchor its number, and its node its place in the order of nodes with anchors. -/
def declare (name : String) : YamlReader (Nat × Nat) := do
  let r ← get
  let number := r.anchors.length
  set { r with
    anchors := (name, number) :: r.anchors.filter (·.1 ≠ name)
    started := r.started + 1 }
  return (number, r.started)

/-- Makes a complete node known under its number. -/
def settle (node : YamlNode) (place : Nat × Nat) : YamlReader Unit :=
  modify fun r => { r with targets := ⟨place.1, place.2, node⟩ :: r.targets }

end Properties

section Nodes

/-- What may follow a key or a value of a block that is not written. -/
def blockEnds : List YamlToken := [.key, .value, .closeBlock]

mutual

/-- Reads a node, with no more than `depth` functions at work at the same time. Collections that
are marked by their indentation are read only in a block; items of a sequence at the indentation of
the mapping around it only as a key or value of that mapping. -/
def node (depth : Nat) (inBlock asMember : Bool) : YamlReader YamlNode :=
  match depth with
  | 0 => failure
  | depth + 1 => do
    match ← peek with
    | some (.alias name) =>
      advance
      match (← get).anchors.lookup name with
      | none => failure
      | some number => return .alias number
    | _ =>
      let (name, tag) ← properties
      let place ← name.mapM declare
      let n ← content depth inBlock asMember (name.isSome || tag.isSome) tag
      place.forM (settle n)
      return n

/-- Reads what follows the properties of a node. -/
def content (depth : Nat) (inBlock asMember hasProperties : Bool) (tag : Option String) :
    YamlReader YamlNode :=
  match depth with
  | 0 => failure
  | depth + 1 => do
    match ← peek, inBlock with
    | some (.scalar style text), _ =>
      advance
      return .scalar style tag text
    | some (.openFlow .sequence), _ =>
      advance
      return .sequence (← flowItems depth true)
    | some (.openFlow .mapping), _ =>
      advance
      return .mapping (← flowEntries depth true)
    | some (.openBlock .sequence), true =>
      advance
      return .sequence (← blockItems depth)
    | some (.openBlock .mapping), true =>
      advance
      return .mapping (← blockEntries depth)
    | token, _ =>
      if token = some .item && asMember then return .sequence (← memberItems depth)
      else if hasProperties then return .scalar .plain tag ""
      else failure

/-- Reads a node, unless one of the given tokens shows that it is not written. -/
def nodeUnless (depth : Nat) (ends : List YamlToken) (inBlock asMember : Bool) :
    YamlReader YamlNode :=
  match depth with
  | 0 => failure
  | depth + 1 => do
    if ← nextIsIn ends then return nothing else node depth inBlock asMember

/-- Reads the items of a sequence that is marked by its indentation. -/
def blockItems (depth : Nat) : YamlReader (List YamlNode) :=
  match depth with
  | 0 => failure
  | depth + 1 => do
    if ← accept .item then
      let item ← nodeUnless depth [.item, .closeBlock] true false
      return item :: (← blockItems depth)
    else if ← accept .closeBlock then return []
    else failure

/-- Reads the items of a sequence at the indentation of the mapping around it. -/
def memberItems (depth : Nat) : YamlReader (List YamlNode) :=
  match depth with
  | 0 => failure
  | depth + 1 => do
    if ← accept .item then
      let item ← nodeUnless depth (.item :: blockEnds) true false
      return item :: (← memberItems depth)
    else return []

/-- Reads the entries of a mapping that is marked by its indentation. -/
def blockEntries (depth : Nat) : YamlReader (List (YamlNode × YamlNode)) :=
  match depth with
  | 0 => failure
  | depth + 1 => do
    if ← accept .key then
      let key ← nodeUnless depth blockEnds true true
      let value ← if ← accept .value then nodeUnless depth blockEnds true true else pure nothing
      return (key, value) :: (← blockEntries depth)
    else if ← accept .closeBlock then return []
    else failure

/-- Reads the value of an entry in brackets or braces, if there is one. -/
def flowValue (depth : Nat) (kind : YamlCollection) : YamlReader YamlNode :=
  match depth with
  | 0 => failure
  | depth + 1 => do
    if ← accept .value then nodeUnless depth [.comma, .closeFlow kind] false false
    else return nothing

/-- Reads the items in brackets. An entry with a marked key is a mapping of its own. -/
def flowItems (depth : Nat) (first : Bool) : YamlReader (List YamlNode) :=
  match depth with
  | 0 => failure
  | depth + 1 => do
    if ← accept (.closeFlow .sequence) then return []
    if !first then
      if !(← accept .comma) then failure
    if ← accept (.closeFlow .sequence) then return []
    if ← accept .key then
      let key ←
        if ← nextIsIn [.value, .comma, .closeFlow .sequence] then
          -- a key that is not written takes the mark after it along
          advance
          pure nothing
        else node depth false false
      let value ← flowValue depth .sequence
      return .mapping [(key, value)] :: (← flowItems depth false)
    else
      let item ← node depth false false
      return item :: (← flowItems depth false)

/-- Reads the entries in braces. -/
def flowEntries (depth : Nat) (first : Bool) : YamlReader (List (YamlNode × YamlNode)) :=
  match depth with
  | 0 => failure
  | depth + 1 => do
    if ← accept (.closeFlow .mapping) then return []
    if !first then
      if !(← accept .comma) then failure
    if ← accept (.closeFlow .mapping) then return []
    if ← accept .key then
      let key ← nodeUnless depth [.value, .comma, .closeFlow .mapping] false false
      let value ← flowValue depth .mapping
      return (key, value) :: (← flowEntries depth false)
    else
      let key ← node depth false false
      return (key, nothing) :: (← flowEntries depth false)

end

end Nodes

end YamlReader

end QuorumStore
