import Varlink.Interface

/-! Type expressions as an interface description declares them, the values that
conform to them, and the specification that the scanner folds them into: a base
type and three flags, whatever the order and the number of the prefixes. -/

namespace Varlink

inductive TypeExpr where
  | maybe (type : TypeExpr)
  | array (type : TypeExpr)
  | dict (type : TypeExpr)
  | named (name : String)
  | enum (values : List String)
  | struct (fields : List (String × TypeExpr))
deriving Repr, Inhabited

namespace TypeExpr

def isMaybe : TypeExpr → Bool
  | maybe _ => true
  | _ => false

def toSpec : TypeExpr → TypeSpec
  | maybe type => { type.toSpec with maybeType := true }
  | array type => { type.toSpec with arrayType := true }
  | dict type => { type.toSpec with dictType := true }
  | named name => { type := .string name }
  | enum values => { type := .enum values }
  | struct fields => { type := .struct (fieldSpecs fields) }
where
  fieldSpecs : List (String × TypeExpr) → List (String × TypeSpec)
    | [] => []
    | (name, type) :: rest => (name, type.toSpec) :: fieldSpecs rest

theorem fieldSpecs_eq_map (fields : List (String × TypeExpr)) :
    toSpec.fieldSpecs fields = fields.map fun f => (f.1, f.2.toSpec) := by
  induction fields with
  | nil => rfl
  | cons f rest ih => rw [toSpec.fieldSpecs, ih]; rfl

end TypeExpr

abbrev Declarations := String → Option TypeExpr

def Declarations.specs (declared : Declarations) (name : String) : Option TypeSpec :=
  (declared name).map TypeExpr.toSpec

/-- The interface has the declared types as its type members, and no other. -/
def Declares (declared : Declarations) (i : VarlinkInterface) : Prop :=
  ∀ name, match declared name with
    | some e => ∃ m, i.type name = .ok m ∧ m.data = e.toSpec
    | none => ∃ e, i.type name = .error e

/-- What a declared type means. -/
inductive Conforms (declared : Declarations) : TypeExpr → Json → Prop where
  | null {e : TypeExpr} : Conforms declared (.maybe e) .null
  | maybe {e : TypeExpr} {v : Json} (conforms : Conforms declared e v) :
      Conforms declared (.maybe e) v
  | array {e : TypeExpr} {elements : List Json} (all : ∀ v ∈ elements, Conforms declared e v) :
      Conforms declared (.array e) (.array elements)
  | dict {e : TypeExpr} {members : Object} (all : ∀ p ∈ members, Conforms declared e p.2) :
      Conforms declared (.dict e) (.object members)
  | primitive {name : String} {v : Json} (primitive : isPrimitive v name = true) :
      Conforms declared (.named name) v
  | named {name : String} {e : TypeExpr} {v : Json} (found : declared name = some e)
      (conforms : Conforms declared e v) : Conforms declared (.named name) v
  | enum {values : List String} {s : String} (member : s ∈ values) :
      Conforms declared (.enum values) (.string s)
  | struct {fields : List (String × TypeExpr)} {members : Object}
      (optional : ∀ f ∈ fields, ((Json.object members).member f.1).isNull = true →
        f.2.isMaybe = true)
      (present : ∀ f ∈ fields, ((Json.object members).member f.1).isNull = false →
        Conforms declared f.2 ((Json.object members).member f.1)) :
      Conforms declared (.struct fields) (.object members)

end Varlink
