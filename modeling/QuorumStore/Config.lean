import QuorumStore.Bytes

/-!
# Configuration of a coordinator

* `CoordinatorConfig`: the quorum sizes and the page sizes of scans, with their defaults.
* `CoordinatorConfig.validate`: the first rule that a configuration breaks, if any.
* `ConfigError.message`: the text of each way in which loading a configuration fails.
-/

namespace QuorumStore

/-- How many replicas hold a row, and how many have to answer. -/
structure QuorumConfig where
  /-- Replicas of a row. -/
  replicationFactor : UInt64 := 3
  /-- Successful replica reads that a unit needs. -/
  readFactor : UInt64 := 2
  /-- Successful replica writes that a unit needs. -/
  writeFactor : UInt64 := 2
  deriving DecidableEq

/-- How many rows a scan asks for at a time. -/
structure ScanConfig where
  /-- Rows of the first page. -/
  startingBatchSize : UInt64 := 100
  /-- The most rows that a grown page asks for. -/
  maxBatchSize : UInt64 := 10000
  deriving DecidableEq

/-- The configuration of a coordinator. -/
structure CoordinatorConfig where
  /-- Replication and quorum sizes. -/
  quorum : QuorumConfig := {}
  /-- Page sizes of scans. -/
  scan : ScanConfig := {}
  deriving DecidableEq

/-- A rule that a configuration breaks. -/
inductive ConfigFault where
  /-- No replica would hold a row. -/
  | replicationFactorZero
  /-- Reads need none, or more answers than a row has replicas. -/
  | readFactorOutOfRange (factor replication : UInt64)
  /-- Writes need none, or more answers than a row has replicas. -/
  | writeFactorOutOfRange (factor replication : UInt64)
  /-- The first page would be empty. -/
  | startingBatchSizeZero
  /-- The first page would be larger than the largest. -/
  | maxBelowStarting (max starting : UInt64)
  deriving DecidableEq

/-- The text of a broken rule. -/
def ConfigFault.message : ConfigFault → String
  | replicationFactorZero => "quorum.replication_factor must be > 0"
  | readFactorOutOfRange factor replication =>
    "quorum.read_factor (" ++ toString factor ++ ") must be in 1..=" ++ toString replication
  | writeFactorOutOfRange factor replication =>
    "quorum.write_factor (" ++ toString factor ++ ") must be in 1..=" ++ toString replication
  | startingBatchSizeZero => "scan.starting_batch_size must be > 0"
  | maxBelowStarting max starting =>
    "scan.max_batch_size (" ++ toString max ++ ") must be >= scan.starting_batch_size ("
      ++ toString starting ++ ")"

/-- The first rule that a configuration breaks, or the configuration itself. -/
def CoordinatorConfig.validate (c : CoordinatorConfig) : Except ConfigFault CoordinatorConfig :=
  let q := c.quorum
  let s := c.scan
  if q.replicationFactor = 0 then .error .replicationFactorZero
  else if q.readFactor = 0 ∨ q.replicationFactor < q.readFactor then
    .error (.readFactorOutOfRange q.readFactor q.replicationFactor)
  else if q.writeFactor = 0 ∨ q.replicationFactor < q.writeFactor then
    .error (.writeFactorOutOfRange q.writeFactor q.replicationFactor)
  else if s.startingBatchSize = 0 then .error .startingBatchSizeZero
  else if s.maxBatchSize < s.startingBatchSize then
    .error (.maxBelowStarting s.maxBatchSize s.startingBatchSize)
  else .ok c

/-- Why no configuration could be loaded. -/
inductive ConfigError where
  /-- There is no such file. -/
  | missingFile
  /-- The file is no UTF-8 text. -/
  | notText
  /-- The text is not a document of the expected form. -/
  | malformed
  /-- The configuration breaks a rule. -/
  | invalid (fault : ConfigFault)
  deriving DecidableEq

/-- The text of a loading error. -/
def ConfigError.message : ConfigError → String
  | missingFile => "failed to read config file: No such file or directory (os error 2)"
  | notText => "failed to read config file: stream did not contain valid UTF-8"
  | malformed => "failed to parse YAML"
  | invalid fault => "invalid config: " ++ fault.message

end QuorumStore
