import QuorumStore.Config
import QuorumStore.Bytes
import QuorumStore.Yaml.Document

/-!
# Loading a configuration

A configuration is written in YAML, as a mapping of parts to mappings of fields. What is not
written keeps its default.

* `UnsignedText.word?`: the number that a text stands for.
* `CoordinatorConfig.ofYaml?`: the configuration that a document stands for.
* `CoordinatorConfig.load`, `CoordinatorConfig.loadFile`: the configuration of a text or of a
  file, which has to break no rule.
-/

namespace QuorumStore

namespace UnsignedText

/-- The number that digits stand for in a base, of which there has to be one. -/
def digits? (base : Nat) (cs : List Char) : Option Nat :=
  if cs.isEmpty then none
  else cs.foldlM
    (fun n c => (Hexadecimal.value? c).bind fun d => if d < base then some (base * n + d) else none)
    0

/-- The number that digits stand for in a base, if it has 64 bits. -/
def word? (base : Nat) (cs : List Char) : Option UInt64 :=
  (digits? base cs).bind fun n => if n < UInt64.size then some (UInt64.ofNat n) else none

/-- Whether a number starts with a superfluous zero. -/
def hasLeadingZero (cs : List Char) : Bool :=
  match cs with
  | '0' :: _ :: _ => cs.all Char.isDigit
  | _ => false

/-- The number that a text stands for: decimal, or after `0x`, `0o` and `0b` in base 16, 8 and 2,
with or without a plus sign in front. -/
def parse? (text : String) : Option UInt64 :=
  let body := match text.toList with
    | '+' :: rest => rest
    | cs => cs
  match body with
  | '0' :: 'x' :: digits => word? 16 digits
  | '0' :: 'o' :: digits => word? 8 digits
  | '0' :: 'b' :: digits => word? 2 digits
  | digits => if hasLeadingZero digits then none else word? 10 digits

end UnsignedText

namespace YamlDocument

/-- The text of a scalar, however it is written. -/
def text? (d : YamlDocument) (n : YamlNode) : Option String :=
  match d.follow n with
  | .scalar _ _ text => some text
  | _ => none

/-- The tag of integers. -/
def integerTag : String := "tag:yaml.org,2002:int"

/-- The number that a scalar stands for. Text in quotes is no number, and text in a block only if it
has the tag of integers. -/
def word? (d : YamlDocument) (n : YamlNode) : Option UInt64 :=
  match d.follow n with
  | .scalar .plain _ text => UnsignedText.parse? text
  | .scalar .literal (some tag) text => if tag = integerTag then UnsignedText.parse? text else none
  | _ => none

/-- Adds an entry to the known fields that were found, none of which may be repeated. Other entries
are passed over. -/
def addEntry (d : YamlDocument) (names : List String) (found : List (String × YamlNode))
    (entry : YamlNode × YamlNode) : Option (List (String × YamlNode)) := do
  let name ← d.text? entry.1
  if name ∉ names then return found
  else if (found.lookup name).isSome then none
  else return found ++ [(name, entry.2)]

/-- The known fields of a mapping. Where nothing is written there are none. -/
def fields? (d : YamlDocument) (names : List String) (n : YamlNode) :
    Option (List (String × YamlNode)) :=
  match d.follow n with
  | .mapping entries => entries.foldlM (d.addEntry names) []
  | .scalar .plain _ text => if text.isEmpty then some [] else none
  | _ => none

/-- A field that has a default. -/
def fieldOr? {α : Type} (fields : List (String × YamlNode)) (name : String) (default : α)
    (read : YamlNode → Option α) : Option α :=
  match fields.lookup name with
  | none => some default
  | some n => read n

end YamlDocument

open YamlDocument

/-- The quorum sizes that a node stands for. -/
def QuorumConfig.ofYaml? (d : YamlDocument) (n : YamlNode) : Option QuorumConfig := do
  let fields ← d.fields? ["replication_factor", "read_factor", "write_factor"] n
  let default : QuorumConfig := {}
  return {
    replicationFactor :=
      ← fieldOr? fields "replication_factor" default.replicationFactor d.word?
    readFactor := ← fieldOr? fields "read_factor" default.readFactor d.word?
    writeFactor := ← fieldOr? fields "write_factor" default.writeFactor d.word? }

/-- The page sizes that a node stands for. -/
def ScanConfig.ofYaml? (d : YamlDocument) (n : YamlNode) : Option ScanConfig := do
  let fields ← d.fields? ["starting_batch_size", "max_batch_size"] n
  let default : ScanConfig := {}
  return {
    startingBatchSize := ← fieldOr? fields "starting_batch_size" default.startingBatchSize d.word?
    maxBatchSize := ← fieldOr? fields "max_batch_size" default.maxBatchSize d.word? }

namespace CoordinatorConfig

/-- The configuration that a document stands for. -/
def ofYaml? (d : YamlDocument) : Option CoordinatorConfig := do
  let fields ← d.fields? ["quorum", "scan"] (d.root.getD YamlReader.nothing)
  return {
    quorum := ← fieldOr? fields "quorum" {} (QuorumConfig.ofYaml? d)
    scan := ← fieldOr? fields "scan" {} (ScanConfig.ofYaml? d) }

/-- The configuration of a text. -/
def load (text : String) : Except ConfigError CoordinatorConfig :=
  match (YamlDocument.parse? text).bind ofYaml? with
  | none => .error .malformed
  | some c => c.validate.mapError .invalid

/-- The configuration of a file, of which the bytes are given if it is there. -/
def loadFile (contents : Option Bytes) : Except ConfigError CoordinatorConfig :=
  match contents with
  | none => .error .missingFile
  | some bytes =>
    match String.fromUTF8? ⟨bytes.toArray⟩ with
    | none => .error .notText
    | some text => load text

end CoordinatorConfig

end QuorumStore
