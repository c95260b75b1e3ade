import Varlink.GrammarAccepted
import Varlink.Validation

/-! The description of `org.varlink.service`, the interface that every service provides.
Its tokens are compared with those of the declarations, without running the scanner. -/

namespace Varlink

open Regex Scanner

def behindGap : Bool → List Char → List Char
  | _, [] => []
  | true, c :: text => behindGap (c != '\n') text
  | false, c :: text =>
    if c ∈ blanks then behindGap false text
    else if c = '#' then behindGap true text
    else c :: text

def isSpelled : List Lexeme → List Char → Bool
  | [], text => (behindGap false text).isEmpty
  | tok :: toks, text =>
    match (behindGap false text).dropPrefix? tok with
    | none => false
    | some after =>
      !(tok.getLast?.any isWord && after.head?.any isWord) && isSpelled toks after

section Spelling
variable {g body text rest : List Char}

theorem behindGap_line (line : '\n' ∉ body) :
    behindGap true (body ++ '\n' :: text) = behindGap false text := by
  induction body with
  | nil => rfl
  | cons c body ih =>
    obtain ⟨other, line⟩ := not_or.mp (mt List.mem_cons.mpr line)
    rw [List.cons_append, behindGap, bne_iff_ne.mpr (Ne.symm other), ih line]

theorem behindGap_unended (line : '\n' ∉ body) : behindGap true body = [] := by
  induction body with
  | nil => rfl
  | cons c body ih =>
    obtain ⟨other, line⟩ := not_or.mp (mt List.mem_cons.mpr line)
    rw [behindGap, bne_iff_ne.mpr (Ne.symm other), ih line]

theorem behindGap_hash (text : List Char) :
    behindGap false ('#' :: text) = behindGap true text := by
  rw [behindGap, if_neg (by decide), if_pos rfl]

theorem Gap.behindGap (gap : Gap g) : behindGap false (g ++ text) = behindGap false text := by
  induction gap with
  | nil => rfl
  | blank blank _ ih => rw [List.cons_append, Varlink.behindGap, if_pos blank, ih]
  | comment line _ ih =>
    rw [List.cons_append, behindGap_hash, List.append_assoc, List.cons_append,
      behindGap_line line, ih]

theorem behindGap_of_stops (stops : Stops rest) : behindGap false rest = rest := by
  cases rest with
  | nil => rfl
  | cons c rest =>
    obtain ⟨hash, blank⟩ := not_or.mp (mt List.mem_cons.mpr (stops_cons.mp stops))
    rw [behindGap, if_neg blank, if_neg hash]

theorem behindGap_stretch (stretch : Stretch g rest) : behindGap false (g ++ rest) = rest := by
  cases stretch with
  | gap gap stops => rw [gap.behindGap, behindGap_of_stops stops]
  | unended gap line =>
    rw [List.append_assoc, gap.behindGap, List.cons_append, behindGap_hash, List.append_nil,
      behindGap_unended line]

theorem spells_of_isSpelled {toks : List Lexeme} (nonempty : [] ∉ toks)
    (h : isSpelled toks text = true) : Spells (toks ++ [[]]) text [] := by
  induction toks generalizing text with
  | nil =>
    obtain ⟨g, rest, rfl, stretch⟩ := exists_stretch text
    rw [isSpelled, behindGap_stretch stretch, List.isEmpty_iff] at h
    subst h
    rw [List.append_nil]
    exact .ends stretch .nil
  | cons tok toks ih =>
    obtain ⟨some, others⟩ := not_or.mp (mt List.mem_cons.mpr nonempty)
    obtain ⟨g, rest, rfl, stretch⟩ := exists_stretch text
    rw [isSpelled, behindGap_stretch stretch] at h
    split at h
    · cases h
    · next after split =>
      obtain ⟨tok', rfl, same⟩ := List.dropPrefix?_eq_some_iff.mp split
      obtain rfl := eq_of_beq same
      obtain ⟨apart, behind⟩ := Bool.and_eq_true_iff.mp h
      have gap : Gap g := by
        generalize nothing : tok' ++ after = t at stretch
        cases stretch with
        | gap gap => exact gap
        | unended => simp [Ne.symm some] at nothing
      refine .token gap (Ne.symm some) (fun inWord => ?_) (ih others behind)
      rw [inWord, Bool.true_and, Bool.not_eq_true'] at apart
      exact apart

end Spelling

def orgVarlinkServiceLines : List String := [
  "# The Varlink Service Interface is provided by every varlink service. It",
  "# describes the service and the interfaces it implements.",
  "interface org.varlink.service",
  "",
  "# Get a list of all the interfaces a service provides and information",
  "# about the implementation.",
  "method GetInfo() -> (",
  "  vendor: string,",
  "  product: string,",
  "  version: string,",
  "  url: string,",
  "  interfaces: []string",
  ")",
  "",
  "# Get the description of an interface that is implemented by this service.",
  "method GetInterfaceDescription(interface: string) -> (description: string)",
  "",
  "# The requested interface was not found.",
  "error InterfaceNotFound (interface: string)",
  "",
  "# The requested method was not found",
  "error MethodNotFound (method: string)",
  "",
  "# The interface defines the requested method, but the service does not",
  "# implement it.",
  "error MethodNotImplemented (method: string)",
  "",
  "# One of the passed parameters is invalid.",
  "error InvalidParameter (parameter: string)",
  "",
  "# Another exception occurred internally",
  "error InternalError (exception: string)"]

/-- `org_varlink_service_varlink`. The header that is generated from the file opens the
string on a line of its own. -/
def orgVarlinkServiceVarlink : String :=
  String.ofList ('\n' :: orgVarlinkServiceLines.flatMap fun line => line.toList ++ ['\n'])

namespace ServiceInterface

def ofStrings (fields : List String) : TypeExpr :=
  .struct (fields.map fun name => (name, .named "string"))

def errors : List (String × String) := [
  ("InterfaceNotFound", "interface"), ("MethodNotFound", "method"),
  ("MethodNotImplemented", "method"), ("InvalidParameter", "parameter"),
  ("InternalError", "exception")]

def declared : InterfaceExpr where
  ifname := "org.varlink.service"
  members := [
    .method "GetInfo" (ofStrings []) (.struct [("vendor", .named "string"),
      ("product", .named "string"), ("version", .named "string"), ("url", .named "string"),
      ("interfaces", .array (.named "string"))]),
    .method "GetInterfaceDescription" (ofStrings ["interface"]) (ofStrings ["description"])] ++
    errors.map fun e => .error e.1 (ofStrings [e.2])

def fieldNames : List String := ["vendor", "product", "version", "url", "interfaces", "interface",
  "description", "method", "parameter", "exception"]

theorem token_field : ∀ name ∈ fieldNames, Token [identifierPattern] name.toList := by
  have reads : ∀ name ∈ fieldNames, name.toList ≠ [] ∧
      matched [identifierPattern] (name.toList ++ []) = name.toList.length := by decide +kernel
  exact fun name listed => token_identifier (reads name listed).1 (reads name listed).2

theorem token_name : ∀ m ∈ declared.members, Token [memberPattern] m.name.toList := by
  have reads : ∀ name ∈ declared.members.map (·.name), name.toList ≠ [] ∧
      matched [memberPattern] (name.toList ++ []) = name.toList.length := by decide +kernel
  intro m member
  obtain ⟨some, read⟩ := reads m.name (List.mem_map_of_mem member)
  exact token_member some read

theorem grammatical_string : (TypeExpr.named "string").Grammatical := by
  have reads : matched [word (plus lower)] ("string".toList ++ []) = "string".toList.length := by
    decide +kernel
  exact .named (.inl (token_word plain_lower (by decide) reads))

theorem grammatical_ofStrings {fields : List String} (listed : ∀ name ∈ fields, name ∈ fieldNames) :
    (ofStrings fields).Grammatical := by
  refine .struct (List.forall_mem_map.mpr fun name member => ?_)
    (List.forall_mem_map.mpr fun _ _ => grammatical_string)
  exact token_field name (listed name member)

theorem plural_ofStrings (fields : List String) : (ofStrings fields).Plural :=
  .struct (List.forall_mem_map.mpr fun _ _ => .named)

theorem types_declared : ∀ m ∈ declared.members, ∀ t ∈ m.types, t.Grammatical ∧ t.Plural := by
  have strings {fields : List String} (listed : ∀ name ∈ fields, name ∈ fieldNames) :
      (ofStrings fields).Grammatical ∧ (ofStrings fields).Plural :=
    ⟨grammatical_ofStrings listed, plural_ofStrings fields⟩
  refine List.forall_mem_append.mpr ⟨List.forall_mem_cons.mpr
    ⟨List.forall_mem_cons.mpr ⟨strings nofun, ?_⟩, ?_⟩, ?_⟩
  · refine List.forall_mem_singleton.mpr ⟨.struct ?_ ?_, .struct ?_⟩
    · have listed : ∀ name ∈ ["vendor", "product", "version", "url", "interfaces"],
          name ∈ fieldNames := by decide
      exact fun f member => token_field f.1 (listed f.1 (List.mem_map_of_mem member))
    · simp only [List.forall_mem_cons]
      exact ⟨grammatical_string, grammatical_string, grammatical_string, grammatical_string,
        .array grammatical_string, nofun⟩
    · simp only [List.forall_mem_cons]
      exact ⟨.named, .named, .named, .named, .array .named, nofun⟩
  · exact List.forall_mem_singleton.mpr (List.forall_mem_cons.mpr
      ⟨strings (by decide), List.forall_mem_singleton.mpr (strings (by decide))⟩)
  · have listed : ∀ e ∈ errors, ∀ name ∈ [e.2], name ∈ fieldNames := by decide
    exact List.forall_mem_map.mpr fun e member =>
      List.forall_mem_singleton.mpr (strings (listed e member))

theorem ofStructs_declared : ∀ m ∈ declared.members, m.OfStructs := by
  refine List.forall_mem_append.mpr ⟨?_, List.forall_mem_map.mpr fun _ _ => rfl⟩
  exact List.forall_mem_cons.mpr ⟨⟨rfl, rfl⟩, List.forall_mem_singleton.mpr ⟨rfl, rfl⟩⟩

theorem grammatical_declared : declared.Grammatical where
  nonempty := by decide
  ifname := by decide +kernel
  some := List.cons_ne_nil _ _
  members m member := by
    refine ⟨token_name m member, fun t type => (types_declared m member t type).1,
      fun method t type => ?_⟩
    have structs := ofStructs_declared m member
    cases m with
    | type => cases method
    | error => cases method
    | method name p r =>
      rcases List.mem_cons.mp type with rfl | type
      · exact MemberExpr.isBracketed_of_isStruct structs.1
      · rw [List.mem_singleton.mp type]
        exact MemberExpr.isBracketed_of_isStruct structs.2

theorem isSpelled_declared : isSpelled declared.tokens
    ('\n' :: orgVarlinkServiceLines.flatMap fun line => line.toList ++ ['\n']) = true := by
  decide +kernel

theorem spelledAs_declared : declared.SpelledAs orgVarlinkServiceVarlink.toList := by
  rw [orgVarlinkServiceVarlink, String.toList_ofList]
  exact spells_of_isSpelled (by decide +kernel) isSpelled_declared

end ServiceInterface

/-- The interface that the constructor of the service reads from the description. -/
def IsServiceInterface (spec : VarlinkInterface) : Prop :=
  ∃ stack, VarlinkInterface.construct stack orgVarlinkServiceVarlink = .ok spec

namespace ServiceInterface

theorem read_declared : ∃ n spec,
    VarlinkInterface.construct n orgVarlinkServiceVarlink = .ok spec ∧
      spec.ifname = "org.varlink.service" ∧
      spec.members.map (·.declaration) = declared.members.map (·.declaration) :=
  InterfaceExpr.construct_of_spelled grammatical_declared ofStructs_declared (by decide)
    (fun m member t type => (types_declared m member t type).2) spelledAs_declared

theorem exists_isServiceInterface : ∃ spec, IsServiceInterface spec := by
  obtain ⟨n, spec, read, -⟩ := read_declared
  exact ⟨spec, n, read⟩

variable {spec : VarlinkInterface}

theorem declares (service : IsServiceInterface spec) : spec.ifname = "org.varlink.service" ∧
    spec.members.map (·.declaration) = declared.members.map (·.declaration) := by
  obtain ⟨n, i, read, same⟩ := read_declared
  obtain ⟨k, read'⟩ := service
  have one := VarlinkInterface.construct_mono (Nat.le_max_left n k) read
  have other := VarlinkInterface.construct_mono (Nat.le_max_right n k) read'
  obtain rfl : i = spec := Except.ok.inj (one.symm.trans other)
  exact same

theorem constructed (service : IsServiceInterface spec) : spec.Constructed :=
  service.imp fun _ read => ⟨_, read⟩

theorem find_declared (service : IsServiceInterface spec) {e : MemberExpr}
    (member : e ∈ declared.members) :
    ∃ m, spec.findMember e.name e.kind = .ok m ∧ m.data = e.data := by
  have listed : e.declaration ∈ spec.members.map (·.declaration) := by
    rw [(declares service).2]
    exact List.mem_map_of_mem member
  obtain ⟨m, inside, same⟩ := List.mem_map.mp listed
  obtain ⟨kind, named, data⟩ := Prod.mk.inj same |>.imp_right Prod.mk.inj
  exact ⟨m, (VarlinkInterface.findMember_eq_ok_iff (constructed service)
    e.kind_ne_undefined).mpr ⟨inside, kind, named⟩, data⟩

theorem types_eq_none (service : IsServiceInterface spec) (name : String) :
    spec.types name = none := by
  have none : ∀ d ∈ declared.members.map (·.declaration), d.1 ≠ .type := by
    refine List.forall_mem_map.mpr (List.forall_mem_append.mpr ⟨?_, ?_⟩)
    · exact List.forall_mem_cons.mpr ⟨nofun, List.forall_mem_singleton.mpr nofun⟩
    · exact List.forall_mem_map.mpr fun _ _ => nofun
  unfold VarlinkInterface.types
  cases found : spec.type name with
  | error e => rfl
  | ok m =>
    rw [VarlinkInterface.type, VarlinkInterface.findMember_eq_ok_iff (constructed service)
      (by decide)] at found
    obtain ⟨inside, kind, -⟩ := found
    rw [← (declares service).2] at none
    exact absurd kind (none _ (List.mem_map_of_mem inside))

end ServiceInterface

end Varlink
