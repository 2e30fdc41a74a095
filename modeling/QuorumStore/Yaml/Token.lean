/-!
# The tokens of a YAML stream

The layout of a stream is part of its tokens: blocks are opened and closed, and a key that is
marked only by the colon after it has a mark of its own.

* `YamlToken`: a token.
-/

namespace QuorumStore

/-- How a scalar is written. -/
inductive YamlStyle where
  /-- Without quotes. -/
  | plain
  /-- In single quotes. -/
  | singleQuoted
  /-- In double quotes. -/
  | doubleQuoted
  /-- As a block whose line ends stay. -/
  | literal
  /-- As a block whose lines are folded. -/
  | folded
  deriving DecidableEq

/-- The two kinds of collections. -/
inductive YamlCollection where
  /-- A sequence of items. -/
  | sequence
  /-- A mapping of keys to values. -/
  | mapping
  deriving DecidableEq

/-- A token of a YAML stream. -/
inductive YamlToken where
  /-- The directive that names a version. -/
  | version (major minor : Nat)
  /-- The directive that lets a handle stand for the start of tags. -/
  | tagHandle (handle start : String)
  /-- The marker of a document's start. -/
  | documentStart
  /-- The marker of a document's end. -/
  | documentEnd
  /-- The start of a collection that is marked by its indentation. -/
  | openBlock (kind : YamlCollection)
  /-- The end of a collection that is marked by its indentation. -/
  | closeBlock
  /-- An opening bracket or brace. -/
  | openFlow (kind : YamlCollection)
  /-- A closing bracket or brace. -/
  | closeFlow (kind : YamlCollection)
  /-- The hyphen before an item. -/
  | item
  /-- A comma. -/
  | comma
  /-- The mark of a key. -/
  | key
  /-- The mark of a value. -/
  | value
  /-- A reference to a node. -/
  | alias (name : String)
  /-- The name of the node that follows. -/
  | anchor (name : String)
  /-- The tag of the node that follows. -/
  | tag (handle suffix : String)
  /-- A scalar. -/
  | scalar (style : YamlStyle) (text : String)
  deriving DecidableEq

end QuorumStore
