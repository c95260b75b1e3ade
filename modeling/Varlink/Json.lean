import Mathlib.Data.List.Basic

/-! JSON values by the kinds the library tells apart, and the two functions of
the JSON package that the connection calls. Both are parameters of the
development: `json::parse` from frame text, `json::dump` to frame text. -/

namespace Varlink

/-- `nlohmann::json`. A float is its IEEE 754 bits; object members are held in
the order the package iterates them. -/
inductive Json where
  | null
  | boolean (b : Bool)
  | integer (n : Int)
  | float (bits : UInt64)
  | string (s : String)
  | array (elements : List Json)
  | object (members : List (String × Json))
deriving Repr, Inhabited

abbrev Object := List (String × Json)

namespace Json

def isNull : Json → Bool
  | null => true
  | _ => false

def isString : Json → Bool
  | string _ => true
  | _ => false

def isNumberInteger : Json → Bool
  | integer _ => true
  | _ => false

def isNumber : Json → Bool
  | integer _ | float _ => true
  | _ => false

def isBoolean : Json → Bool
  | boolean _ => true
  | _ => false

def isArray : Json → Bool
  | array _ => true
  | _ => false

def isObject : Json → Bool
  | object _ => true
  | _ => false

/-- The bits are not those of an infinity or of no number. -/
def isFinite (bits : UInt64) : Bool := bits >>> 52 &&& 0x7ff != 0x7ff

/-- The member under a key; none for a value that is no object. -/
def find? (key : String) : Json → Option Json
  | object members => members.lookup key
  | _ => none

def contains (key : String) (j : Json) : Bool := (j.find? key).isSome

/-- `operator[]` on an object: a missing member reads as null. -/
def member (key : String) (j : Json) : Json := (j.find? key).getD null

/-- `get<std::string>` of a string. -/
def getString : Json → String
  | string s => s
  | _ => ""

/-- What a range loop over an array or an object visits. -/
def items : Json → List Json
  | array elements => elements
  | object members => members.map (·.2)
  | _ => []

theorem isString_iff {v : Json} : v.isString = true ↔ ∃ s, v = string s := by
  cases v <;> simp [isString]

theorem isArray_iff {v : Json} : v.isArray = true ↔ ∃ elements, v = array elements := by
  cases v <;> simp [isArray]

theorem isObject_iff {v : Json} : v.isObject = true ↔ ∃ members, v = object members := by
  cases v <;> simp [isObject]

end Json

/-- How `json::parse` ends: with a value, with the `parse_error` its caller
catches, or with another exception of the package. -/
inductive ParseResult where
  | value (j : Json)
  | parseError
  | exception (what : String)
deriving Repr

abbrev Bytes := List UInt8

end Varlink
