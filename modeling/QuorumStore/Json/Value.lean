import QuorumStore.Json.Token

/-!
# JSON values

* `JsonValue`: a value; members of objects keep their order and their repetitions.
* `JsonValue.tokens`, `JsonValue.render`: a value as tokens, and as compact text.
* `JsonReading`: a value that is being read, token by token.
* `JsonValue.parse?`: the value that a text stands for.
-/

namespace QuorumStore

/-- A JSON value. Strings and keys without a text hold half of a surrogate pair. -/
inductive JsonValue where
  /-- The value `null`. -/
  | null
  /-- A truth value. -/
  | bool (b : Bool)
  /-- A number without fraction and exponent. -/
  | integer (n : Int)
  /-- Any other number, and negative zero, as written. -/
  | decimal (literal : List Char)
  /-- A string. -/
  | string (text : Option String)
  /-- An array. -/
  | array (items : List JsonValue)
  /-- An object. -/
  | object (members : List (Option String × JsonValue))

namespace JsonValue

mutual

/-- The tokens of a value. -/
def tokens : JsonValue → List JsonToken
  | null => [.null]
  | bool b => [.bool b]
  | integer n => [.integer n]
  | decimal literal => [.decimal literal]
  | string text => [.string text]
  | array [] => [.openBracket, .closeBracket]
  | array (v :: vs) => .openBracket :: (tokens v ++ itemTokens vs)
  | object [] => [.openBrace, .closeBrace]
  | object ((key, v) :: members) =>
    .openBrace :: .string key :: .colon :: (tokens v ++ memberTokens members)

/-- The tokens of the items of an array after its first, and of its end. -/
def itemTokens : List JsonValue → List JsonToken
  | [] => [.closeBracket]
  | v :: vs => .comma :: (tokens v ++ itemTokens vs)

/-- The tokens of the members of an object after its first, and of its end. -/
def memberTokens : List (Option String × JsonValue) → List JsonToken
  | [] => [.closeBrace]
  | (key, v) :: members =>
    .comma :: .string key :: .colon :: (tokens v ++ memberTokens members)

end

/-- The compact text of a value. -/
def render (v : JsonValue) : String := String.ofList (v.tokens.flatMap JsonToken.chars)

end JsonValue

/-- An array or object of which a value is being read. -/
inductive JsonFrame where
  /-- An array with the items before the value. -/
  | array (items : List JsonValue)
  /-- An object with the members before the value, and the value's key. -/
  | object (members : List (Option String × JsonValue)) (key : Option String)

/-- A value that is being read; the frames around it are listed from the inside out. -/
inductive JsonReading where
  /-- A value is to come, or the end of the array that has just been opened. -/
  | value (opened : Bool) (frames : List JsonFrame)
  /-- A key is to come, or the end of the object that has just been opened. -/
  | key (opened : Bool) (members : List (Option String × JsonValue)) (frames : List JsonFrame)
  /-- The colon after a key is to come. -/
  | colon (members : List (Option String × JsonValue)) (key : Option String)
    (frames : List JsonFrame)
  /-- A value is complete. -/
  | complete (v : JsonValue) (frames : List JsonFrame)

namespace JsonReading

/-- The reading of a text from its start. -/
def start : JsonReading := value false []

/-- Reads the first token of a value. -/
def stepValue (frames : List JsonFrame) : JsonToken → Option JsonReading
  | .null => some (complete .null frames)
  | .bool b => some (complete (.bool b) frames)
  | .integer n => some (complete (.integer n) frames)
  | .decimal literal => some (complete (.decimal literal) frames)
  | .string text => some (complete (.string text) frames)
  | .openBracket => some (value true (.array [] :: frames))
  | .openBrace => some (key true [] frames)
  | _ => none

/-- Reads one token. -/
def step : JsonReading → JsonToken → Option JsonReading
  | value true (.array _ :: frames), .closeBracket => some (complete (.array []) frames)
  | value _ frames, token => stepValue frames token
  | key _ members frames, .string k => some (colon members k frames)
  | key true _ frames, .closeBrace => some (complete (.object []) frames)
  | colon members k frames, .colon => some (value false (.object members k :: frames))
  | complete v (.array items :: frames), .comma =>
    some (value false (.array (items ++ [v]) :: frames))
  | complete v (.array items :: frames), .closeBracket =>
    some (complete (.array (items ++ [v])) frames)
  | complete v (.object members k :: frames), .comma =>
    some (key false (members ++ [(k, v)]) frames)
  | complete v (.object members k :: frames), .closeBrace =>
    some (complete (.object (members ++ [(k, v)])) frames)
  | _, _ => none

/-- The value of a reading that is at its end. -/
def result? : JsonReading → Option JsonValue
  | complete v [] => some v
  | _ => none

end JsonReading

namespace JsonValue

/-- The value that tokens stand for. -/
def ofTokens? (ts : List JsonToken) : Option JsonValue := do
  (← ts.foldlM JsonReading.step JsonReading.start).result?

/-- The value that a text stands for. -/
def parse? (text : String) : Option JsonValue := do
  ofTokens? (← JsonToken.ofChars? text.toList)

end JsonValue

end QuorumStore
