import AsmIndex.Json.Basic

namespace AsmIndex

inductive ConfigValue
  | nothing
  | boolean (value : Bool)
  | integer (value : Int)
  | real (value : Binary64)
  | text (value : String)
  | list (items : List ConfigValue)
  | table (fields : List (String × ConfigValue))

namespace ConfigValue

def isWord64 (n : Int) : Bool :=
  -0x8000000000000000 ≤ n && n < 0x8000000000000000

def ofNumber : JsonNumber → ConfigValue
  | .integer value =>
    if isWord64 value then .integer value
    else .real (Binary64.ofDecimal (value < 0) value.natAbs 0)
  | .real value => .real value

mutual

def ofJson : Json → ConfigValue
  | .null => .nothing
  | .bool value => .boolean value
  | .number value => ofNumber value
  | .string value => .text value
  | .array items => .list (ofItems items)
  | .object fields => .table (ofFields fields)

def ofItems : List Json → List ConfigValue
  | [] => []
  | item :: items => ofJson item :: ofItems items

def ofFields : List (String × Json) → List (String × ConfigValue)
  | [] => []
  | (key, value) :: fields => (key, ofJson value) :: ofFields fields

end

end ConfigValue

end AsmIndex
