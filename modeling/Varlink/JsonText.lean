import Varlink.Frame

/-! The texts that the JSON package writes for the values of the examples, and reads back
as these values. No number there has a fraction. -/

namespace Varlink.JsonText

open Varlink.Frame (bytes)

def escaped (c : Char) : List Char :=
  if c = '"' then ['\\', '"']
  else if c = '\\' then ['\\', '\\']
  else if c.toNat = 8 then ['\\', 'b']
  else if c = '\t' then ['\\', 't']
  else if c = '\n' then ['\\', 'n']
  else if c.toNat = 12 then ['\\', 'f']
  else if c = '\r' then ['\\', 'r']
  else if c.toNat < 32 then
    ['\\', 'u', '0', '0', Nat.digitChar (c.toNat / 16), Nat.digitChar (c.toNat % 16)]
  else [c]

def quoted (s : String) : List Char := '"' :: s.toList.flatMap escaped ++ ['"']

mutual

def text : Json → List Char
  | .null => "null".toList
  | .boolean true => "true".toList
  | .boolean false => "false".toList
  | .integer n => (toString n).toList
  | .float bits => if Json.isFinite bits then "0.0".toList else "null".toList
  | .string s => quoted s
  | .array elements => '[' :: elementTexts elements ++ [']']
  | .object members => '{' :: memberTexts members ++ ['}']

def elementTexts : List Json → List Char
  | [] => []
  | [v] => text v
  | v :: rest => text v ++ ',' :: elementTexts rest

def memberTexts : List (String × Json) → List Char
  | [] => []
  | [(key, v)] => quoted key ++ ':' :: text v
  | (key, v) :: rest => quoted key ++ ':' :: text v ++ ',' :: memberTexts rest

end

def dump : Dump := fun v => .ok (String.ofList (text v))

def encoded (v : Json) : Bytes := bytes (String.ofList (text v))

def frame (v : Json) : Bytes := encoded v ++ [0]

def parse (values : List Json) (m : Bytes) : ParseResult :=
  match values.find? fun v => encoded v == m with
  | some v => .value v
  | none => .parseError

theorem parse_encoded {values : List Json} {v : Json}
    (distinct : (values.map encoded).Nodup) (member : v ∈ values) :
    parse values (encoded v) = .value v := by
  have found : values.find? (fun u => encoded u == encoded v) = some v := by
    induction values with
    | nil => cases member
    | cons u rest ih =>
      obtain ⟨fresh, distinct⟩ := List.nodup_cons.mp distinct
      rcases List.mem_cons.mp member with rfl | later
      · simp
      · have other : encoded u ≠ encoded v := fun same =>
          fresh (same ▸ List.mem_map_of_mem later)
        simpa [List.find?_cons, other] using ih distinct later
  rw [parse, found]

theorem exists_encoded {values : List Json} {v : Json} (distinct : (values.map encoded).Nodup)
    (clean : ∀ v ∈ values, 0 ∉ encoded v) (member : v ∈ values) :
    ∃ text, dump v = .ok text ∧ 0 ∉ bytes text ∧ parse values (bytes text) = .value v :=
  ⟨String.ofList (text v), rfl, clean v member, parse_encoded distinct member⟩

/-! The calls of a method without parameters, and the replies to them. -/

def moreCall : Json := .object [("method", .string "org.test.Ping"), ("more", .boolean true)]

def basicCall : Json := .object [("method", .string "org.test.Ping")]

def partReply (continues : Bool) : Json :=
  .object [("continues", .boolean continues), ("parameters", .object [])]

def basicReply : Json := .object [("parameters", .object [])]

def pings : List Json := [moreCall, basicCall, partReply true, partReply false, basicReply]

def parsePing : Bytes → ParseResult := parse pings

theorem parsePing_encoded {v : Json} (member : v ∈ pings) : parsePing (encoded v) = .value v :=
  parse_encoded (by decide +kernel) member

theorem exists_ping {v : Json} (member : v ∈ pings) :
    ∃ text, dump v = .ok text ∧ 0 ∉ bytes text ∧ parsePing (bytes text) = .value v :=
  exists_encoded (by decide +kernel) (by decide +kernel) member

end Varlink.JsonText
