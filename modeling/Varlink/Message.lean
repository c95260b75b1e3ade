import Varlink.Exception

/-! Request messages and the one reply member that both ends look at. -/

namespace Varlink

inductive Callmode where
  | basic
  | oneway
  | more
  | upgrade
deriving DecidableEq, Repr

/-- `get<bool>()`: a `type_error` for any other kind of value. -/
def getBool : Json → Except Exn Bool
  | .boolean b => .ok b
  | _ => .error (.standard .json "type must be boolean")

/-- `contains(key) && get<bool>()` of that member. -/
def flag (key : String) (j : Json) : Except Exn Bool :=
  if j.contains key then getBool (j.member key) else .ok false

structure VarlinkMessage where
  json : Json
  mode : Callmode := .basic

namespace VarlinkMessage

/-- `basic_varlink_message(msg)`. A flag is only looked at if no earlier one is set. -/
def ofJson (dump : Dump) (msg : Json) : Except Exn VarlinkMessage :=
  if !msg.isObject || !msg.contains "method" || !(msg.member "method").isString ||
      (msg.contains "parameters" && !(msg.member "parameters").isObject) then
    match dump msg with
    | .ok text => .error (.standard .invalidArgument ("Not a varlink message: " ++ text))
    | .error e => .error e
  else do
    if ← flag "more" msg then return ⟨msg, .more⟩
    if ← flag "oneway" msg then return ⟨msg, .oneway⟩
    if ← flag "upgrade" msg then return ⟨msg, .upgrade⟩
    return ⟨msg, .basic⟩

def parameters (m : VarlinkMessage) : Json :=
  if m.json.contains "parameters" then m.json.member "parameters" else .object []

def rfind (c : Char) (s : List Char) : Option Nat :=
  (s.reverse.findIdx? (· == c)).map fun i => s.length - 1 - i

def interface (m : VarlinkMessage) : String :=
  let fqmethod := (m.json.member "method").getString.toList
  match rfind '.' fqmethod with
  | none => String.ofList fqmethod
  | some i => String.ofList (fqmethod.take i)

def method (m : VarlinkMessage) : String :=
  let fqmethod := (m.json.member "method").getString.toList
  match rfind '.' fqmethod with
  | none => String.ofList fqmethod
  | some i => String.ofList (fqmethod.drop (i + 1))

end VarlinkMessage

def replyContinues (reply : Json) : Except Exn Bool := flag "continues" reply

example : VarlinkMessage.interface ⟨.object [("method", .string "org.test.Ping")], .basic⟩ =
    "org.test" := by decide

example : VarlinkMessage.method ⟨.object [("method", .string "Ping")], .basic⟩ = "Ping" := by decide

end Varlink
