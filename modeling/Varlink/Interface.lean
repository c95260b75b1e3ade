import Varlink.Member
import Varlink.Exception

/-! `varlink_interface`: member lookup, and the validation of JSON data against
a type of the interface. The recursion of `validate` need not end, since a name
may stand for itself, so it runs on a stack of a given depth. -/

namespace Varlink

structure VarlinkInterface where
  ifname : String
  documentation : String
  members : List Member
deriving Repr, Inhabited

namespace VarlinkInterface

def matchesMember (name : String) (kind : MemberKind) (e : Member) : Bool :=
  e.name == name && (e.kind == kind || kind == .undefined)

def findMember (i : VarlinkInterface) (name : String) (kind : MemberKind) : Except Exn Member :=
  match i.members.find? (matchesMember name kind) with
  | some m => .ok m
  | none => .error (.outOfRange name)

def hasMember (i : VarlinkInterface) (name : String) (kind : MemberKind) : Bool :=
  i.members.any (matchesMember name kind)

def method (i : VarlinkInterface) (name : String) : Except Exn Member := i.findMember name .method
def type (i : VarlinkInterface) (name : String) : Except Exn Member := i.findMember name .type
def error (i : VarlinkInterface) (name : String) : Except Exn Member := i.findMember name .error

def hasMethod (i : VarlinkInterface) (name : String) : Bool := i.hasMember name .method
def hasType (i : VarlinkInterface) (name : String) : Bool := i.hasMember name .type
def hasError (i : VarlinkInterface) (name : String) : Bool := i.hasMember name .error

end VarlinkInterface

def isPrimitive (object : Json) (type : String) : Bool :=
  (type == "string" && object.isString) || (type == "int" && object.isNumberInteger) ||
    (type == "float" && object.isNumber) || (type == "bool" && object.isBoolean) ||
    (type == "object" && !object.isNull)

section Validate
variable (dump : Dump)

def throwInvalidParameter (name : String) : Except Stop Unit :=
  .error (.thrown (.invalidParameter name))

def throwInvalidData (data : Json) : Except Stop Unit :=
  match dump data with
  | .ok text => throwInvalidParameter text
  | .error e => .error (.thrown e)

/-- The first exception of a loop ends it. -/
def forAll {α : Type} (xs : List α) (check : α → Except Stop Unit) : Except Stop Unit :=
  match xs with
  | [] => .ok ()
  | x :: rest =>
    match check x with
    | .ok () => forAll rest check
    | .error e => .error e

/-- `validate(data, typespec, name, collection)`. The elements of a collection
are validated against the same specification, flags included. -/
def validate (i : VarlinkInterface) : Nat → Json → TypeSpec → String → Bool → Except Stop Unit
  | 0, _, _, _, _ => .error .stackOverflow
  | stack + 1, data, typespec, name, collection =>
    if typespec.isEnum && data.isString then
      if typespec.getEnum.contains data.getString then .ok () else throwInvalidData dump data
    else if typespec.dictType && data.isObject then
      forAll data.items fun val => validate i stack val typespec name true
    else if typespec.arrayType && data.isArray then
      forAll data.items fun val => validate i stack val typespec name true
    else if typespec.isString && (collection || !(typespec.arrayType || typespec.dictType)) then
      if isPrimitive data typespec.getString then .ok ()
      else match i.type typespec.getString with
        | .error _ => throwInvalidParameter name
        | .ok m =>
          match validate i stack data m.data name false with
          | .error (.thrown (.outOfRange _)) => throwInvalidParameter name
          | result => result
    else if typespec.isStruct && data.isObject then
      forAll typespec.getStruct fun param =>
        if !data.contains param.1 || (data.member param.1).isNull then
          if !param.2.maybeType then throwInvalidParameter param.1 else .ok ()
        else validate i stack (data.member param.1) param.2 param.1 false
    else throwInvalidData dump data

end Validate

end Varlink
