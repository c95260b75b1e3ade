import Mathlib.Data.List.Basic

/-! Type specifications and interface members, and the text they print as.
A `std::string` or `std::string_view` is a `String` of its bytes; text under
construction is the list of its characters. -/

namespace Varlink

inductive MemberKind where
  | undefined
  | type
  | error
  | method
deriving DecidableEq, Repr

/-- `type_def`: the alternatives of the variant, over the type of the fields. -/
inductive TypeDef (σ : Type) where
  | invalid
  | string (name : String)
  | enum (values : List String)
  | struct (fields : List (String × σ))
deriving Repr, Inhabited

structure TypeSpec where
  type : TypeDef TypeSpec
  maybeType : Bool := false
  dictType : Bool := false
  arrayType : Bool := false
deriving Repr, Inhabited

namespace TypeSpec

def isNull (t : TypeSpec) : Bool :=
  match t.type with
  | .invalid => true
  | _ => false

def isString (t : TypeSpec) : Bool :=
  match t.type with
  | .string _ => true
  | _ => false

def isEnum (t : TypeSpec) : Bool :=
  match t.type with
  | .enum _ => true
  | _ => false

def isStruct (t : TypeSpec) : Bool :=
  match t.type with
  | .struct _ => true
  | _ => false

/-- `get<string_type>()`, `get<vl_enum>()` and `get<vl_struct>()` where the
variant holds the alternative. -/
def getString (t : TypeSpec) : String :=
  match t.type with
  | .string name => name
  | _ => ""

def getEnum (t : TypeSpec) : List String :=
  match t.type with
  | .enum values => values
  | _ => []

def getStruct (t : TypeSpec) : List (String × TypeSpec) :=
  match t.type with
  | .struct fields => fields
  | _ => []

theorem isString_iff {t : TypeSpec} : t.isString = true ↔ ∃ name, t.type = .string name := by
  unfold isString
  cases t.type <;> simp

theorem isEnum_iff {t : TypeSpec} : t.isEnum = true ↔ ∃ values, t.type = .enum values := by
  unfold isEnum
  cases t.type <;> simp

theorem isStruct_iff {t : TypeSpec} : t.isStruct = true ↔ ∃ fields, t.type = .struct fields := by
  unfold isStruct
  cases t.type <;> simp

theorem getString_of_type {t : TypeSpec} {name : String} (type : t.type = .string name) :
    t.getString = name := by
  simp only [getString, type]

theorem getEnum_of_type {t : TypeSpec} {values : List String} (type : t.type = .enum values) :
    t.getEnum = values := by
  simp only [getEnum, type]

theorem getStruct_of_type {t : TypeSpec} {fields : List (String × TypeSpec)}
    (type : t.type = .struct fields) : t.getStruct = fields := by
  simp only [getStruct, type]

def empty (t : TypeSpec) : Bool :=
  match t.type with
  | .invalid => true
  | .string name => name.isEmpty
  | .enum values => values.isEmpty
  | .struct fields => fields.isEmpty

def isMultiline (indent : Int) (elem : TypeSpec) : Bool :=
  if indent < 0 then false
  else if elem.isNull || elem.empty then false
  else match elem.type with
    | .struct s => decide (2 < s.length) || s.any fun p => p.2.arrayType || p.2.isStruct
    | _ => false

def spacing (n : Int) : List Char := List.replicate n.toNat ' '

def flagText (t : TypeSpec) : List Char :=
  (if t.maybeType then ['?'] else []) ++
    (if t.arrayType then ['[', ']'] else []) ++
    (if t.dictType then "[string]".toList else [])

def enumText : Bool → List String → List Char
  | _, [] => []
  | first, value :: rest =>
    (if first then [] else [',', ' ']) ++ value.toList ++ enumText false rest

/-- `to_string(elem, indent, depth)`. Only a struct is ever printed over
several lines; the flags of a field are printed in front of its type. -/
def toText (indent : Int) (depth : Nat) : TypeSpec → List Char
  | ⟨.string name, _, _, _⟩ => name.toList
  | ⟨.invalid, _, _, _⟩ => ['(', ')']
  | ⟨.enum values, _, _, _⟩ => '(' :: (enumText true values ++ [')'])
  | ⟨.struct fields, m, d, a⟩ =>
    if isMultiline indent ⟨.struct fields, m, d, a⟩ then
      '(' :: '\n' :: (structText indent depth true true fields ++
        '\n' :: (spacing (indent * depth) ++ [')']))
    else '(' :: (structText indent depth false true fields ++ [')'])
where
  structText (indent : Int) (depth : Nat) (multiline : Bool) : Bool → List (String × TypeSpec) →
      List Char
    | _, [] => []
    | first, (name, type) :: rest =>
      (if first then [] else if multiline then [',', '\n'] else [',', ' ']) ++
        ((if multiline then spacing (indent * (depth + 1)) else []) ++ name.toList ++ [':', ' '] ++
          flagText type ++ toText indent (depth + 1) type) ++
        structText indent depth multiline false rest

end TypeSpec

structure Member where
  kind : MemberKind := .undefined
  name : String := ""
  description : String := ""
  data : TypeSpec := ⟨.invalid, false, false, false⟩
deriving Repr, Inhabited

namespace Member

def methodType? (m : Member) (i : Nat) : Option TypeSpec :=
  match m.data.type with
  | .struct fields => fields[i]?.map (·.2)
  | _ => none

/-- `operator<<(member)`. The description and the name of a method are written
before its data is looked at. -/
def toText (m : Member) : List Char :=
  match m.kind with
  | .undefined => []
  | .type => m.description.toList ++ "type ".toList ++ m.name.toList ++ [' '] ++
      m.data.toText 4 0 ++ ['\n']
  | .error => m.description.toList ++ "error ".toList ++ m.name.toList ++ [' '] ++
      m.data.toText (-1) 0 ++ ['\n']
  | .method =>
    m.description.toList ++ "method ".toList ++ m.name.toList ++
      match m.methodType? 0, m.methodType? 1 with
      | some params, some result =>
        params.toText (-1) 0 ++ " -> ".toList ++ result.toText 4 0 ++ ['\n']
      | _, _ => "brokey ".toList ++ m.name.toList

end Member

end Varlink
