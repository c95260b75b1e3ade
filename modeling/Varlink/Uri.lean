import Varlink.StringView
import Mathlib.Data.List.TakeWhile

/-! Addresses of services. A URI is cut at its first `;`, the interface and method
behind its last `/` are split off, and what is left is a socket path or a TCP host
and port. -/

namespace Varlink

open StringView
open VarlinkMessage (rfind)

inductive UriType where
  | unix
  | tcp
deriving DecidableEq, Repr

structure VarlinkUri where
  type : UriType := .unix
  host : List Char := []
  port : List Char := []
  path : List Char := []
  qualifiedMethod : List Char := []
  interface : List Char := []
  method : List Char := []
deriving DecidableEq, Repr

namespace VarlinkUri

/-- The first half of the constructor, on the URI without what follows a `;`. -/
def splitMethod (uri : List Char) (hasInterface : Bool) : Except Exn VarlinkUri := do
  if hasInterface || findText "tcp:".toList uri == some 0 then
    let endOfHost := rfind '/' uri
    let path ← substr uri 0 endOfHost
    if endOfHost.isSome then
      let qualifiedMethod ← substr uri (next endOfHost) none
      let endOfIf := rfind '.' qualifiedMethod
      let interface ← substr qualifiedMethod 0 endOfIf
      let method ← substr qualifiedMethod (next endOfIf) none
      return { path, qualifiedMethod, interface, method }
    else return { path }
  else return { path := uri }

def construct (uri : List Char) (hasInterface : Bool := false) : Except Exn VarlinkUri := do
  let uri ← substr uri 0 (find ';' uri)
  let this ← splitMethod uri hasInterface
  if findText "unix:".toList uri == some 0 then
    return { this with type := .unix, path := ← substr this.path 5 none }
  else if findText "tcp:".toList uri == some 0 then
    let path ← substr this.path 4 none
    match find ':' path with
    | none => .error (.standard .invalidArgument "Missing port")
    | some colon =>
      let host ← substr path 0 (some colon)
      let port ← substr path (colon + 1) none
      return { this with type := .tcp, path, host, port }
  else .error (.standard .invalidArgument "Unknown protocol / bad URI")

def scheme : UriType → List Char
  | .unix => "unix:".toList
  | .tcp => "tcp:".toList

def address (u : List Char) : List Char := u.takeWhile (· != ';')

/-- The part of an address in front of its last `/`, or all of it. -/
inductive Front (v : List Char) : List Char → Prop where
  | whole (absent : '/' ∉ v) : Front v v
  | cut {front method : List Char} (split : v = front ++ '/' :: method) (last : '/' ∉ method) :
    Front v front

def MissingPort (v : List Char) : Prop := ∃ path, Front v (scheme .tcp ++ path) ∧ ':' ∉ path

/-- What an address says, put together again from the parts of the URI. -/
structure Decomposes (v : List Char) (hasInterface : Bool) (uri : VarlinkUri) : Prop where
  split : uri.type = .tcp ∨ hasInterface = true → '/' ∈ v →
    v = scheme uri.type ++ uri.path ++ '/' :: uri.qualifiedMethod ∧ '/' ∉ uri.qualifiedMethod
  unsplit : ¬((uri.type = .tcp ∨ hasInterface = true) ∧ '/' ∈ v) →
    v = scheme uri.type ++ uri.path ∧
      uri.qualifiedMethod = [] ∧ uri.interface = [] ∧ uri.method = []
  dotted : '.' ∈ uri.qualifiedMethod →
    uri.qualifiedMethod = uri.interface ++ '.' :: uri.method ∧ '.' ∉ uri.method
  undotted : '.' ∉ uri.qualifiedMethod →
    uri.interface = uri.qualifiedMethod ∧ uri.method = uri.qualifiedMethod
  tcp : uri.type = .tcp → uri.path = uri.host ++ ':' :: uri.port ∧ ':' ∉ uri.host
  unix : uri.type = .unix → uri.host = [] ∧ uri.port = []

theorem substr_address (u : List Char) : substr u 0 (find ';' u) = .ok (address u) := by
  by_cases member : ';' ∈ u
  · obtain ⟨before, after, rfl, absent⟩ := List.eq_append_cons_of_mem member
    have stops : address (before ++ ';' :: after) = before := by
      rw [address, List.takeWhile_append_of_pos, List.takeWhile_cons_of_neg (by decide),
        List.append_nil]
      intro x inside
      exact bne_iff_ne.mpr fun same => absent (same ▸ inside)
    rw [find_append absent, substr_before, stops]
  · have all : address u = u := by
      rw [address, List.takeWhile_eq_self_iff]
      intro x inside
      exact bne_iff_ne.mpr fun same => member (same ▸ inside)
    rw [find_of_not_mem member, substr_all, all]

/-- The halves of a qualified method name, as `splitMethod` takes them. -/
def Halves (qualifiedMethod interface method : List Char) : Prop :=
  ('.' ∈ qualifiedMethod → qualifiedMethod = interface ++ '.' :: method ∧ '.' ∉ method) ∧
    ('.' ∉ qualifiedMethod → interface = qualifiedMethod ∧ method = qualifiedMethod)

inductive Split (v : List Char) (hasInterface : Bool) : VarlinkUri → Prop where
  | off (unsplit : ¬(scheme .tcp <+: v ∨ hasInterface = true)) : Split v hasInterface { path := v }
  | none (wanted : scheme .tcp <+: v ∨ hasInterface = true) (absent : '/' ∉ v) :
    Split v hasInterface { path := v }
  | cut {path qualifiedMethod interface method : List Char}
    (wanted : scheme .tcp <+: v ∨ hasInterface = true)
    (split : v = path ++ '/' :: qualifiedMethod) (last : '/' ∉ qualifiedMethod)
    (halves : Halves qualifiedMethod interface method) :
    Split v hasInterface { path, qualifiedMethod, interface, method }

theorem exists_halves (q : List Char) : ∃ interface method,
    substr q 0 (rfind '.' q) = .ok interface ∧ substr q (next (rfind '.' q)) none = .ok method ∧
      Halves q interface method := by
  by_cases member : '.' ∈ q
  · obtain ⟨interface, method, rfl, absent⟩ := exists_last member
    rw [rfind_append absent]
    exact ⟨interface, method, substr_before, substr_past, fun _ => ⟨rfl, absent⟩,
      fun impossible => absurd member impossible⟩
  · rw [rfind_of_not_mem member]
    exact ⟨q, q, substr_all, substr_all, fun impossible => absurd impossible member,
      fun _ => ⟨rfl, rfl⟩⟩

theorem splitMethod_spec (v : List Char) (hasInterface : Bool) :
    ∃ uri, splitMethod v hasInterface = .ok uri ∧ Split v hasInterface uri := by
  rw [splitMethod]
  split
  next wanted =>
    replace wanted : scheme .tcp <+: v ∨ hasInterface = true := by
      simpa [findText_eq_zero, scheme, or_comm] using wanted
    by_cases member : '/' ∈ v
    · obtain ⟨path, q, rfl, absent⟩ := exists_last member
      obtain ⟨interface, method, left, right, halves⟩ := exists_halves q
      refine ⟨_, ?_, .cut wanted rfl absent halves⟩
      simp only [rfind_append absent, next_some, substr_before, substr_past, left, right,
        Option.isSome_some, if_true, bind, Except.bind, pure, Except.pure]
    · refine ⟨_, ?_, .none wanted member⟩
      simp only [rfind_of_not_mem member, substr_all, Option.isSome_none, Bool.false_eq_true,
        if_false, bind, Except.bind, pure, Except.pure]
  next unwanted =>
    refine ⟨_, rfl, .off ?_⟩
    simpa [findText_eq_zero, scheme, or_comm] using unwanted

theorem slash_not_mem_scheme (t : UriType) : '/' ∉ scheme t := by cases t <;> decide

section Constructor

variable {u v w w' : List Char} {hasInterface : Bool} {uri : VarlinkUri} {t : UriType}

theorem Front.substr_eq (h : Front v w) : substr v 0 (rfind '/' v) = .ok w := by
  cases h with
  | whole absent => rw [rfind_of_not_mem absent, substr_all]
  | cut split last => rw [split, rfind_append last, substr_before]

theorem Front.unique (h : Front v w) (h' : Front v w') : w = w' :=
  Except.ok.inj (h.substr_eq.symm.trans h'.substr_eq)

theorem Split.path_of_scheme (h : Split v hasInterface uri) (starts : scheme t <+: v) :
    ∃ path, uri.path = scheme t ++ path := by
  suffices scheme t <+: uri.path from this.imp fun path shape => shape.symm
  cases h with
  | off unsplit => exact starts
  | none wanted absent => exact starts
  | cut wanted split last halves =>
    exact prefix_before (slash_not_mem_scheme t) (split ▸ starts)

theorem Split.front (h : Split v hasInterface uri) (starts : scheme .tcp <+: v) :
    Front v uri.path := by
  cases h with
  | off unsplit => exact absurd (.inl starts) unsplit
  | none wanted absent => exact .whole absent
  | cut wanted split last halves => exact .cut split last

theorem not_unix_of_tcp (starts : scheme .tcp <+: v) : ¬scheme .unix <+: v := by
  obtain ⟨rest, rfl⟩ := starts
  simp [scheme]

theorem construct_of_split (ok : splitMethod (address u) hasInterface = .ok uri) :
    construct u hasInterface =
      if findText "unix:".toList (address u) == some 0 then do
        return { uri with type := .unix, path := ← substr uri.path 5 none }
      else if findText "tcp:".toList (address u) == some 0 then do
        let path ← substr uri.path 4 none
        match find ':' path with
        | none => .error (.standard .invalidArgument "Missing port")
        | some colon =>
          let host ← substr path 0 (some colon)
          let port ← substr path (colon + 1) none
          return { uri with type := .tcp, path, host, port }
      else .error (.standard .invalidArgument "Unknown protocol / bad URI") := by
  rw [construct, substr_address]
  simp only [bind, Except.bind, ok]

theorem construct_unix (hasInterface : Bool) (starts : scheme .unix <+: address u) :
    ∃ split path, Split (address u) hasInterface split ∧ split.path = scheme .unix ++ path ∧
      construct u hasInterface = .ok { split with type := .unix, path } := by
  obtain ⟨split, ok, spec⟩ := splitMethod_spec (address u) hasInterface
  obtain ⟨path, shape⟩ := spec.path_of_scheme starts
  have cut : substr split.path 5 none = .ok path := by
    rw [shape]
    exact substr_behind
  have found : (findText "unix:".toList (address u) == some 0) = true :=
    beq_iff_eq.mpr (findText_eq_zero.mpr starts)
  refine ⟨split, path, spec, shape, ?_⟩
  rw [construct_of_split ok, if_pos found, cut]
  rfl

theorem construct_tcp (hasInterface : Bool) (starts : scheme .tcp <+: address u) :
    ∃ split path, Split (address u) hasInterface split ∧ split.path = scheme .tcp ++ path ∧
      ((':' ∉ path ∧
          construct u hasInterface = .error (.standard .invalidArgument "Missing port")) ∨
        ∃ host port, path = host ++ ':' :: port ∧ ':' ∉ host ∧
          construct u hasInterface = .ok { split with type := .tcp, path, host, port }) := by
  obtain ⟨split, ok, spec⟩ := splitMethod_spec (address u) hasInterface
  obtain ⟨path, shape⟩ := spec.path_of_scheme starts
  have cut : substr split.path 4 none = .ok path := by
    rw [shape]
    exact substr_behind
  have other : ¬(findText "unix:".toList (address u) == some 0) = true :=
    fun found => not_unix_of_tcp starts (findText_eq_zero.mp (beq_iff_eq.mp found))
  have found : (findText "tcp:".toList (address u) == some 0) = true :=
    beq_iff_eq.mpr (findText_eq_zero.mpr starts)
  refine ⟨split, path, spec, shape, ?_⟩
  rw [construct_of_split ok, if_neg other, if_pos found, cut]
  by_cases member : ':' ∈ path
  · obtain ⟨host, port, rfl, absent⟩ := List.eq_append_cons_of_mem member
    refine .inr ⟨host, port, rfl, absent, ?_⟩
    simp only [bind, Except.bind, find_append absent, substr_before, substr_past]
    rfl
  · refine .inl ⟨member, ?_⟩
    simp only [bind, Except.bind, find_of_not_mem member]

theorem construct_other (unix : ¬scheme .unix <+: address u) (tcp : ¬scheme .tcp <+: address u) :
    construct u hasInterface =
      .error (.standard .invalidArgument "Unknown protocol / bad URI") := by
  obtain ⟨split, ok, -⟩ := splitMethod_spec (address u) hasInterface
  rw [construct_of_split ok, if_neg, if_neg]
  · exact fun found => tcp (findText_eq_zero.mp (beq_iff_eq.mp found))
  · exact fun found => unix (findText_eq_zero.mp (beq_iff_eq.mp found))

theorem missingPort_iff {path : List Char} (h : Split v hasInterface uri)
    (shape : uri.path = scheme .tcp ++ path) (starts : scheme .tcp <+: v) :
    MissingPort v ↔ ':' ∉ path := by
  constructor
  · rintro ⟨path', front, absent⟩
    have same := front.unique (h.front starts)
    rw [shape, List.append_cancel_left_eq] at same
    exact same ▸ absent
  · intro absent
    exact ⟨path, shape ▸ h.front starts, absent⟩

theorem MissingPort.starts (h : MissingPort v) : scheme .tcp <+: v := by
  obtain ⟨path, front, -⟩ := h
  cases front with
  | whole absent => exact List.prefix_append _ _
  | cut split last =>
    rw [split, List.append_assoc]
    exact List.prefix_append _ _

theorem Split.decomposes {path host port : List Char} (h : Split v hasInterface uri)
    (starts : scheme t <+: v) (shape : uri.path = scheme t ++ path)
    (tcp : t = .tcp → path = host ++ ':' :: port ∧ ':' ∉ host)
    (unix : t = .unix → host = [] ∧ port = []) :
    Decomposes v hasInterface { uri with type := t, path, host, port } := by
  have wanted : t = .tcp ∨ hasInterface = true ↔ scheme .tcp <+: v ∨ hasInterface = true := by
    refine or_congr_left ⟨fun same => same ▸ starts, fun isTcp => ?_⟩
    cases t with
    | tcp => rfl
    | unix => exact absurd starts (not_unix_of_tcp isTcp)
  cases h with
  | off unsplit =>
    exact ⟨fun kind => absurd (wanted.mp kind) unsplit, fun _ => ⟨shape, rfl, rfl, rfl⟩,
      fun impossible => absurd impossible List.not_mem_nil, fun _ => ⟨rfl, rfl⟩, tcp, unix⟩
  | none kind absent =>
    exact ⟨fun _ member => absurd member absent, fun _ => ⟨shape, rfl, rfl, rfl⟩,
      fun impossible => absurd impossible List.not_mem_nil, fun _ => ⟨rfl, rfl⟩, tcp, unix⟩
  | cut kind split last halves =>
    refine ⟨fun _ _ => ⟨?_, last⟩, fun without => ?_, halves.1, halves.2, tcp, unix⟩
    · rw [split]
      exact congrArg (· ++ _) shape
    · exact absurd ⟨wanted.mpr kind, split ▸ by simp⟩ without

/-- The constructor throws `invalid_argument` for an unknown scheme and for a TCP address
without a port, and nothing else; the parts of any other URI make up its address. -/
theorem construct_lossless (u : List Char) (hasInterface : Bool) :
    (∀ e, construct u hasInterface = .error e ↔
      (e = .standard .invalidArgument "Unknown protocol / bad URI" ∧
        ¬scheme .unix <+: address u ∧ ¬scheme .tcp <+: address u) ∨
      (e = .standard .invalidArgument "Missing port" ∧ MissingPort (address u))) ∧
    ∀ uri, construct u hasInterface = .ok uri → Decomposes (address u) hasInterface uri := by
  by_cases isTcp : scheme .tcp <+: address u
  · obtain ⟨split, path, spec, shape, ⟨absent, result⟩ | ⟨host, port, rfl, absent, result⟩⟩ :=
      construct_tcp hasInterface isTcp
    · have missing := (missingPort_iff spec shape isTcp).mpr absent
      rw [result]
      refine ⟨fun e => ⟨?_, ?_⟩, nofun⟩
      · rintro ⟨⟩
        exact .inr ⟨rfl, missing⟩
      · rintro (⟨-, -, other⟩ | ⟨rfl, -⟩)
        · exact absurd isTcp other
        · rfl
    · have given : ¬MissingPort (address u) := by
        rw [missingPort_iff spec shape isTcp]
        simp
      rw [result]
      refine ⟨fun e => ⟨nofun, ?_⟩, ?_⟩
      · rintro (⟨-, -, other⟩ | ⟨-, missing⟩)
        · exact absurd isTcp other
        · exact absurd missing given
      · rintro uri ⟨⟩
        exact spec.decomposes isTcp shape (fun _ => ⟨rfl, absent⟩) nofun
  · have given : ¬MissingPort (address u) := fun missing => isTcp missing.starts
    by_cases isUnix : scheme .unix <+: address u
    · obtain ⟨split, path, spec, shape, result⟩ :=
        construct_unix hasInterface isUnix
      rw [result]
      refine ⟨fun e => ⟨nofun, ?_⟩, ?_⟩
      · rintro (⟨-, other, -⟩ | ⟨-, missing⟩)
        · exact absurd isUnix other
        · exact absurd missing given
      · rintro uri ⟨⟩
        have empty : split.host = [] ∧ split.port = [] := by cases spec <;> exact ⟨rfl, rfl⟩
        exact spec.decomposes isUnix shape nofun fun _ => empty
    · rw [construct_other isUnix isTcp]
      refine ⟨fun e => ⟨?_, ?_⟩, nofun⟩
      · rintro ⟨⟩
        exact .inl ⟨rfl, isUnix, isTcp⟩
      · rintro (⟨rfl, -⟩ | ⟨-, missing⟩)
        · rfl
        · exact absurd missing given

end Constructor

end VarlinkUri

end Varlink
