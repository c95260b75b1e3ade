import Varlink.Interface
import Varlink.Library.Regex

/-! The scanner of interface descriptions and the constructor of
`varlink_interface`. A `std::string_view` of the description is a `View` of its
characters. `stack` bounds the nested calls and with them the rounds of the loops. -/

namespace Varlink

open Regex

def isWord (c : Char) : Bool := c.isAlphanum || c == '_'

/-- `\b`. The matcher starts at the current position and sees nothing before it. -/
def wordBoundary : Regex Char := .look fun previous next => previous.any isWord != next.any isWord

def anyOf (chars : List Char) : Regex Char := .one chars.contains

def notNewline : Regex Char := .one (· != '\n')

/-- `$` behind `[^\n]*`, where it can hold only at the end of the text. -/
def endOfText : Regex Char := .look fun _ next => next.isNone

def whitespace : Regex Char :=
  plus (.alt (anyOf [' ', '\t', '\n'])
    (.seq (anyOf ['#']) (.seq (.star notNewline) (.alt (anyOf ['\n']) endOfText))))

def docstring : Regex Char :=
  .seq (.star notNewline) (.seq (anyOf ['#']) (.seq (.star notNewline)
    (.seq (opt (anyOf ['\r'])) (anyOf ['\n']))))

def word (inner : Regex Char) : Regex Char := .seq wordBoundary (.seq inner wordBoundary)

def lower : Regex Char := .one Char.isLower

def dictPrefix : List Char := ['[', 's', 't', 'r', 'i', 'n', 'g', ']']

def keywordPattern : Regex Char :=
  .alt (word (plus lower)) (.alt (anyOf [':', ',', '(', ')', '{', '}'])
    (.alt (literal ['-', '>']) (.alt (literal ['[', ']']) (.alt (anyOf ['?'])
      (literal dictPrefix)))))

def closingBracket : Regex Char := anyOf [')']

def lowerOrDigit : Regex Char := .one fun c => c.isLower || c.isDigit

def dashed : Regex Char := .star (.seq (.star (anyOf ['-'])) lowerOrDigit)

def ifnamePattern : Regex Char :=
  .seq lower (.seq dashed (plus (.seq (anyOf ['.']) (.seq lowerOrDigit dashed))))

def alphanum : Regex Char := .one Char.isAlphanum

def memberPattern : Regex Char := word (.seq (.one Char.isUpper) (.star alphanum))

def identifierPattern : Regex Char :=
  word (.seq (.one Char.isAlpha) (.star (.seq (opt (anyOf ['_'])) alphanum)))

structure View where
  data : Nat := 0
  size : Nat := 0
deriving Repr, DecidableEq

def View.text (v : View) (desc : List Char) : List Char := (desc.drop v.data).take v.size

/-- `scanner`: its position, and the slice that spans the comments it has seen. -/
structure Scanner where
  pos : Nat := 0
  currentDoc : View := {}
deriving Repr, DecidableEq

def throwRuntimeError {α : Type} (what : String) : Except Stop α :=
  .error (.thrown (.standard .runtimeError what))

def throwInvalidArgument {α : Type} (what : String) : Except Stop α :=
  .error (.thrown (.standard .invalidArgument what))

/-- The loop over the comments of a stretch of whitespace that begins at `data`. It goes
on behind as many characters as the comment has, wherever the comment was found. -/
def collectDoc : Nat → List Char → Nat → View → View
  | 0, _, _, doc => doc
  | n + 1, s, data, doc =>
    match docstring.search s with
    | none => doc
    | some (i, j) =>
      collectDoc n (s.drop (j - i)) (data + (j - i))
        (if doc.size = 0 then ⟨data + i, j - i⟩
          else ⟨doc.data, (data + i - doc.data) + (j - i)⟩)

namespace Scanner
variable (desc : List Char)

def consumeWhitespace (s : Scanner) : Scanner :=
  match whitespace.starts (desc.drop s.pos) with
  | some size =>
    { pos := s.pos + size
      currentDoc := collectDoc size ((desc.drop s.pos).take size) s.pos s.currentDoc }
  | none => s

/-- `match_one`: the first pattern that matches more than nothing wins. -/
def matchOne (rest : List Char) (out : Nat) (pattern : Regex Char) : Nat :=
  match pattern.starts rest with
  | some size => if out = 0 then size else out
  | none => out

/-- `expect_re`. At the end of the text every token is empty. -/
def expectRe (patterns : List (Regex Char)) (s : Scanner) : Except Stop (List Char × Scanner) :=
  let s := consumeWhitespace desc s
  let rest := desc.drop s.pos
  if rest.isEmpty then .ok ([], s)
  else match patterns.foldl (matchOne rest) 0 with
    | 0 => throwRuntimeError (String.ofList ("interface error ".toList ++ rest.take 20))
    | size => .ok (rest.take size, { s with pos := s.pos + size })

def expectKeyword (keyword : List Char) (s : Scanner) : Except Stop Scanner := do
  let (found, s) ← expectRe desc [keywordPattern] s
  if found = keyword then .ok s
  else throwRuntimeError (String.ofList ("Expected ".toList ++ keyword))

def getDocstring (s : Scanner) : String × Scanner :=
  (String.ofList (s.currentDoc.text desc), { s with currentDoc := {} })

def readInterfaceName (s : Scanner) : Except Stop (List Char × Scanner) := do
  let s ← expectKeyword desc "interface".toList s
  expectRe desc [ifnamePattern] s

def openFields (fields : TypeDef TypeSpec) (keyword : List Char) :
    Except Stop (TypeDef TypeSpec) :=
  match fields with
  | .invalid =>
    if keyword = [':'] then .ok (.struct [])
    else if keyword = [','] then .ok (.enum [])
    else throwRuntimeError (String.ofList ("Expected : or , got ".toList ++ keyword))
  | fields => .ok fields

mutual

/-- The `try` block leaves the whitespace consumed when the bracket does not close. -/
def readStruct : Nat → Bool → Scanner → Except Stop (TypeDef TypeSpec × Scanner)
  | 0, _, _ => .error .stackOverflow
  | stack + 1, readFirstBracket, s => do
    let s ← if readFirstBracket then expectKeyword desc ['('] s else .ok s
    match expectRe desc [closingBracket] s with
    | .ok (_, s) => .ok (.struct [], s)
    | .error _ => readFields stack .invalid (consumeWhitespace desc s)

/-- The loop of `read_struct`. -/
def readFields : Nat → TypeDef TypeSpec → Scanner → Except Stop (TypeDef TypeSpec × Scanner)
  | 0, _, _ => .error .stackOverflow
  | stack + 1, fields, s => do
    let (name, s) ← expectRe desc [identifierPattern] s
    let (keyword, s) ← expectRe desc [keywordPattern] s
    let fields ← openFields fields keyword
    match fields with
    | .struct fields =>
      if keyword = [':'] then do
        let (type, s) ← readTypeSpec stack false s
        let (keyword, s) ← expectRe desc [keywordPattern] s
        let fields := fields ++ [(String.ofList name, type)]
        if keyword = [')'] then .ok (.struct fields, s) else readFields stack (.struct fields) s
      else throwRuntimeError (String.ofList ("Parser error, last keyword: ".toList ++ keyword))
    | .enum values =>
      let values := values ++ [String.ofList name]
      if keyword = [')'] then .ok (.enum values, s)
      else if keyword = [','] then readFields stack (.enum values) s
      else throwRuntimeError (String.ofList ("Parser error, last keyword: ".toList ++ keyword))
    | _ => throwRuntimeError (String.ofList ("Parser error, last keyword: ".toList ++ keyword))

def readTypeSpec : Nat → Bool → Scanner → Except Stop (TypeSpec × Scanner)
  | 0, _, _ => .error .stackOverflow
  | stack + 1, wasMaybe, s => do
    let (keyword, s) ← expectRe desc [keywordPattern, memberPattern] s
    if keyword = ['?'] then
      if wasMaybe then throwRuntimeError "Double '?'"
      else do
        let (type, s) ← readTypeSpec stack true s
        .ok ({ type with maybeType := true }, s)
    else if keyword = dictPrefix then do
      let (type, s) ← readTypeSpec stack false s
      .ok ({ type with dictType := true }, s)
    else if keyword = ['[', ']'] then do
      let (type, s) ← readTypeSpec stack false s
      .ok ({ type with arrayType := true }, s)
    else if keyword = ['('] then do
      let (type, s) ← readStruct stack false s
      .ok ({ type := type }, s)
    else .ok ({ type := .string (String.ofList keyword) }, s)

end

def readMethodSpec (stack : Nat) (s : Scanner) : Except Stop (TypeSpec × Scanner) := do
  let (parameters, s) ← readStruct desc stack true s
  let s ← expectKeyword desc ['-', '>'] s
  let (returnValue, s) ← readStruct desc stack true s
  .ok ({ type := .struct [("parameters", { type := parameters }),
    ("return_value", { type := returnValue })] }, s)

def readKind (keyword : List Char) : Except Stop MemberKind :=
  if keyword = "type".toList then .ok .type
  else if keyword = "error".toList then .ok .error
  else if keyword = "method".toList then .ok .method
  else if keyword ≠ [] then
    throwRuntimeError (String.ofList ("Unexpected keyword ".toList ++ keyword))
  else .ok .undefined

def readData (kind : MemberKind) (stack : Nat) (s : Scanner) : Except Stop (TypeSpec × Scanner) :=
  if kind = .method then readMethodSpec desc stack s else readTypeSpec desc stack false s

def readMember (stack : Nat) (s : Scanner) : Except Stop (Member × Scanner) := do
  let (keyword, s) ← expectRe desc [keywordPattern] s
  let kind ← readKind keyword
  let (name, s) ← expectRe desc [memberPattern] s
  let (description, s) := getDocstring desc s
  let (data, s) ← readData desc kind stack s
  .ok ({ kind, name := String.ofList name, description, data }, s)

def readMembers : Nat → List Member → Scanner → Except Stop (List Member)
  | 0, _, _ => .error .stackOverflow
  | stack + 1, members, s => do
    let (member, s) ← readMember desc stack s
    if member.kind = .undefined then .ok members
    else if members.any (·.name == member.name) then
      throwInvalidArgument "Member names must be unique"
    else readMembers stack (members ++ [member]) s

end Scanner

namespace VarlinkInterface

open Scanner in
/-- `varlink_interface(description)`. -/
def construct (stack : Nat) (description : String) : Except Stop VarlinkInterface := do
  let desc := description.toList
  let (ifname, s) ← readInterfaceName desc {}
  let (documentation, s) := getDocstring desc s
  let members ← readMembers desc stack [] s
  if members.isEmpty then throwInvalidArgument "At least one member is required"
  else .ok { ifname := String.ofList ifname, documentation, members }

def toText (i : VarlinkInterface) : List Char :=
  i.documentation.toList ++ "interface ".toList ++ i.ifname.toList ++ ['\n'] ++
    i.members.flatMap fun member => '\n' :: member.toText

end VarlinkInterface

end Varlink
