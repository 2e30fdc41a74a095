import QuorumStore.Yaml.Layout
import QuorumStore.Yaml.Node

/-!
# YAML documents

* `YamlDocument.parse?`: the only document of a text.
* `YamlDocument.follow`: what a node stands for.
-/

namespace QuorumStore

/-- A document. It has no root if nothing at all is written. -/
structure YamlDocument where
  /-- The root. -/
  root : Option YamlNode := none
  /-- The nodes that can be referred to. -/
  targets : List YamlTarget := []

namespace YamlDocument

section Directives

/-- What tag handles stand for if no directive says otherwise. -/
def defaultHandles : List (String × String) := [("!", "!"), ("!!", "tag:yaml.org,2002:")]

/-- Whether a version can be read. -/
def isKnownVersion (major minor : Nat) : Bool := major = 1 && (minor = 1 || minor = 2)

/-- The tag handles that directives set, and the tokens after the directives. The version is named
at most once, and no handle is set twice. -/
def directives? (versionKnown : Bool) (handles : List (String × String)) :
    List YamlToken → Option (List (String × String) × List YamlToken)
  | .version major minor :: rest =>
    if versionKnown || !isKnownVersion major minor then none else directives? true handles rest
  | .tagHandle handle start :: rest =>
    if (handles.lookup handle).isSome then none
    else directives? versionKnown (handles ++ [(handle, start)]) rest
  | rest => some (handles, rest)

/-- Whether a document starts with directives or with the marker of its start. -/
def isMarked : List YamlToken → Bool
  | .version .. :: _ | .tagHandle .. :: _ | .documentStart :: _ => true
  | _ => false

end Directives

/-- Whether nothing is written after the marker of a document's start. -/
def endsAtOnce : List YamlToken → Bool
  | [] | .documentEnd :: _ => true
  | tokens => isMarked tokens

/-- Reads the root of a document. Four functions at most are at work for each token. -/
def root? (handles : List (String × String)) (tokens : List YamlToken) :
    Option (YamlDocument × List YamlToken) := do
  let r : YamlReading := { tokens, handles := handles ++ defaultHandles }
  let (root, r) ← (YamlReader.node (4 * tokens.length + 4) true false).run r
  return ({ root := some root, targets := r.targets }, r.tokens)

/-- The document that tokens start with, and the tokens after it. -/
def ofTokens? (tokens : List YamlToken) : Option (YamlDocument × List YamlToken) :=
  if tokens.isEmpty then some ({}, [])
  else if isMarked tokens then do
    let (handles, tokens) ← directives? false [] tokens
    match tokens with
    | .documentStart :: tokens =>
      if endsAtOnce tokens then return ({ root := some YamlReader.nothing }, tokens)
      else root? handles tokens
    | _ => none
  else root? [] tokens

/-- The document of a text, which may not hold another one. -/
def parse? (text : String) : Option YamlDocument := do
  let (document, rest) ← ofTokens? (← YamlToken.ofText? text)
  if rest.all (· = .documentEnd) then return document else none

/-- The latest of the nodes with a number. -/
def target? (d : YamlDocument) (number : Nat) : Option YamlTarget :=
  (d.targets.filter (·.number = number)).foldl
    (fun best t =>
      match best with
      | some b => if b.order < t.order then some t else best
      | none => some t)
    none

/-- What a node stands for: the node that it refers to, or else itself. -/
def follow (d : YamlDocument) : YamlNode → YamlNode
  | .alias number => ((d.target? number).map YamlTarget.node).getD (.alias number)
  | n => n

end YamlDocument

end QuorumStore
