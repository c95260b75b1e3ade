import Mathlib
import Varlink.Uri

/-! The endpoint of a URI. The port is read by `std::stoi` and cast to 16 bits; the
addresses themselves are made by the network package. -/

namespace Varlink

/-- `std::isspace` of the classic locale. -/
def isBlank (c : Char) : Bool := c.toNat == 32 || (9 ≤ c.toNat && c.toNat ≤ 13)

def decimal (digits : List Char) : Nat :=
  digits.foldl (fun n c => 10 * n + (c.toNat - '0'.toNat)) 0

def takeSign : List Char → Bool × List Char
  | '-' :: rest => (true, rest)
  | '+' :: rest => (false, rest)
  | s => (false, s)

def signed (negative : Bool) (n : Nat) : Int := if negative then -n else n

/-- The range of `int`. -/
def FitsInt (n : Int) : Prop := -2 ^ 31 ≤ n ∧ n < 2 ^ 31

instance (n : Int) : Decidable (FitsInt n) := inferInstanceAs (Decidable (_ ∧ _))

def stoi (s : List Char) : Except Exn Int :=
  let (negative, rest) := takeSign (s.dropWhile isBlank)
  let digits := rest.takeWhile Char.isDigit
  if digits = [] then .error (.standard .invalidArgument "stoi")
  else if FitsInt (signed negative (decimal digits)) then .ok (signed negative (decimal digits))
  else .error (.outOfRange "stoi")

inductive EndpointVariant (Local Address : Type) where
  | unix (path : Local)
  | tcp (address : Address) (port : UInt16)
deriving DecidableEq

structure Net (Local Address : Type) where
  localEndpoint : List Char → Except Exn Local
  makeAddressV4 : List Char → Except Exn Address

def endpointFromUri {Local Address : Type} (net : Net Local Address) (uri : VarlinkUri) :
    Except Exn (EndpointVariant Local Address) := do
  match uri.type with
  | .unix => return .unix (← net.localEndpoint uri.path)
  | .tcp =>
    let port := UInt16.ofInt (← stoi uri.port)
    return .tcp (← net.makeAddressV4 uri.host) port

inductive Numeral : List Char → Int → Prop where
  | plain {digits : List Char} (given : digits ≠ []) (all : ∀ c ∈ digits, c.isDigit = true) :
    Numeral digits (decimal digits)
  | plus {digits : List Char} (given : digits ≠ []) (all : ∀ c ∈ digits, c.isDigit = true) :
    Numeral ('+' :: digits) (decimal digits)
  | minus {digits : List Char} (given : digits ≠ []) (all : ∀ c ∈ digits, c.isDigit = true) :
    Numeral ('-' :: digits) (-decimal digits)

/-- A text that starts with a decimal number, behind blanks, and goes on with no digit. -/
def StartsWith (s : List Char) (n : Int) : Prop :=
  ∃ blanks numeral rest, s = blanks ++ numeral ++ rest ∧ (∀ c ∈ blanks, isBlank c = true) ∧
    Numeral numeral n ∧ ∀ c ∈ rest.head?, c.isDigit = false

/-- The endpoint of a TCP URI, if there is one, has the port that the URI writes. -/
def PortLiteral {Local Address : Type} (net : Net Local Address) (uri : VarlinkUri) : Prop :=
  ∀ endpoint, endpointFromUri net uri = .ok endpoint →
    ∃ address port, endpoint = .tcp address port ∧ Numeral uri.port port.toNat

section Stoi

variable {s rest digits : List Char} {n m : Int} {c : Char}

theorem isDigit_iff : c.isDigit = true ↔ 48 ≤ c.toNat ∧ c.toNat ≤ 57 := by
  rw [Char.isDigit]
  simp only [Bool.and_eq_true, decide_eq_true_eq, ge_iff_le, UInt32.le_iff_toNat_le]
  rfl

theorem isBlank_iff : isBlank c = true ↔ c.toNat = 32 ∨ 9 ≤ c.toNat ∧ c.toNat ≤ 13 := by
  simp [isBlank]

theorem takeSign_of_digit (digit : c.isDigit = true) :
    takeSign (c :: rest) = (false, c :: rest) := by
  rw [takeSign.eq_def]
  split
  next h => cases h; exact absurd digit (by decide)
  next h => cases h; exact absurd digit (by decide)
  next => rfl

theorem takeWhile_digits (all : ∀ c ∈ digits, c.isDigit = true)
    (stop : ∀ c ∈ rest.head?, c.isDigit = false) :
    (digits ++ rest).takeWhile Char.isDigit = digits := by
  rw [List.takeWhile_append_of_pos all]
  cases rest with
  | nil => simp
  | cons c tail =>
    have boundary : c.isDigit = false := stop c rfl
    simp [boundary]

theorem Numeral.takeSign_eq (h : Numeral s n) : ∃ negative digits, digits ≠ [] ∧
    (∀ c ∈ digits, c.isDigit = true) ∧ n = signed negative (decimal digits) ∧
      ∀ rest, takeSign (s ++ rest) = (negative, digits ++ rest) := by
  cases h with
  | plain given all =>
    refine ⟨false, s, given, all, rfl, fun rest => ?_⟩
    obtain ⟨c, tail, rfl⟩ := List.exists_cons_of_ne_nil given
    exact takeSign_of_digit (all c List.mem_cons_self)
  | plus given all => exact ⟨false, _, given, all, rfl, fun rest => rfl⟩
  | minus given all => exact ⟨true, _, given, all, rfl, fun rest => rfl⟩

theorem numeral_of_takeSign {negative : Bool} (sign : takeSign s = (negative, digits ++ rest))
    (given : digits ≠ []) (all : ∀ c ∈ digits, c.isDigit = true) :
    ∃ numeral, s = numeral ++ rest ∧ Numeral numeral (signed negative (decimal digits)) := by
  rw [takeSign.eq_def] at sign
  split at sign
  next => cases sign; exact ⟨'-' :: digits, rfl, .minus given all⟩
  next => cases sign; exact ⟨'+' :: digits, rfl, .plus given all⟩
  next => cases sign; exact ⟨digits, rfl, .plain given all⟩

theorem Numeral.dropWhile_blanks (h : Numeral s n) (rest : List Char) :
    (s ++ rest).dropWhile isBlank = s ++ rest := by
  have first (c : Char) (tail : List Char) (inked : isBlank c = false) :
      (c :: tail).dropWhile isBlank = c :: tail := by
    simp [inked]
  cases h with
  | plain given all =>
    obtain ⟨c, tail, rfl⟩ := List.exists_cons_of_ne_nil given
    refine first c (tail ++ rest) (Bool.eq_false_iff.mpr fun blank => ?_)
    have digit := isDigit_iff.mp (all c List.mem_cons_self)
    rw [isBlank_iff] at blank
    omega
  | plus given all => exact first _ _ (by decide)
  | minus given all => exact first _ _ (by decide)

theorem stoi_of_startsWith (h : StartsWith s n) :
    stoi s = if FitsInt n then .ok n else .error (.outOfRange "stoi") := by
  obtain ⟨blanks, numeral, rest, rfl, blank, number, stop⟩ := h
  have skipped : (blanks ++ numeral ++ rest).dropWhile isBlank = numeral ++ rest := by
    rw [List.append_assoc, List.dropWhile_append_of_pos blank, number.dropWhile_blanks]
  obtain ⟨negative, digits, given, all, rfl, sign⟩ := number.takeSign_eq
  simp only [stoi, skipped, sign, takeWhile_digits all stop, given, if_false]

theorem startsWith_of_stoi (ok : stoi s = .ok n) : StartsWith s n ∧ FitsInt n := by
  rw [stoi] at ok
  rcases sign : takeSign (s.dropWhile isBlank) with ⟨negative, rest⟩
  rw [sign] at ok
  dsimp only at ok
  split at ok
  next => cases ok
  next given =>
    split at ok
    next fits =>
      cases ok
      refine ⟨?_, fits⟩
      have split := List.takeWhile_append_dropWhile (p := Char.isDigit) (l := rest)
      rw [← split] at sign
      obtain ⟨numeral, shape, number⟩ :=
        numeral_of_takeSign sign given fun c => List.mem_takeWhile_imp
      refine ⟨s.takeWhile isBlank, numeral, rest.dropWhile Char.isDigit, ?_,
        fun c => List.mem_takeWhile_imp, number, ?_⟩
      · rw [List.append_assoc, ← shape, List.takeWhile_append_dropWhile]
      · intro c first
        have boundary := List.head?_dropWhile_not Char.isDigit rest
        rwa [Option.mem_def.mp first] at boundary
    next => cases ok

theorem stoi_eq_ok_iff : stoi s = .ok n ↔ StartsWith s n ∧ FitsInt n := by
  refine ⟨startsWith_of_stoi, fun ⟨starts, fits⟩ => ?_⟩
  rw [stoi_of_startsWith starts, if_pos fits]

theorem Numeral.startsWith (h : Numeral s n) : StartsWith s n :=
  ⟨[], s, [], by simp, nofun, h, nofun⟩

end Stoi

section Port

variable {Local Address : Type} {net : Net Local Address} {uri : VarlinkUri}

theorem toNat_ofInt (n : Int) : ((UInt16.ofInt n).toNat : Int) = n % 2 ^ 16 := by
  have nonneg : 0 ≤ n % 2 ^ 16 := Int.emod_nonneg n (by decide)
  have small : n % 2 ^ 16 < 2 ^ 16 := Int.emod_lt_of_pos n (by decide)
  rw [UInt16.ofInt, UInt16.toNat_ofNat']
  omega

theorem toNat_ofInt_of_port {n : Int} (nonneg : 0 ≤ n) (small : n < 65536) :
    ((UInt16.ofInt n).toNat : Int) = n := by
  rw [toNat_ofInt]
  omega

theorem endpointFromUri_eq_ok_iff (tcp : uri.type = .tcp)
    {endpoint : EndpointVariant Local Address} :
    endpointFromUri net uri = .ok endpoint ↔ ∃ n address, stoi uri.port = .ok n ∧
      net.makeAddressV4 uri.host = .ok address ∧ endpoint = .tcp address (UInt16.ofInt n) := by
  rw [endpointFromUri, tcp]
  constructor
  · intro ok
    obtain ⟨n, number, ok⟩ := of_bind_eq_ok ok
    obtain ⟨address, made, ok⟩ := of_bind_eq_ok ok
    cases ok
    exact ⟨n, address, number, made, rfl⟩
  · rintro ⟨n, address, number, made, rfl⟩
    simp only [bind, Except.bind, number, made]
    rfl

/-- A port is taken as it is written unless what `stoi` reads of it is not the whole of it,
or is no port number. -/
theorem portLiteral_iff (net : Net Local Address) (uri : VarlinkUri) (tcp : uri.type = .tcp) :
    PortLiteral net uri ↔
      (∀ n, StartsWith uri.port n → ¬FitsInt n) ∨
      (∀ address, net.makeAddressV4 uri.host ≠ .ok address) ∨
      ∃ n, Numeral uri.port n ∧ 0 ≤ n ∧ n < 65536 := by
  constructor
  · intro literal
    by_contra! refused
    obtain ⟨⟨n, starts, fits⟩, ⟨address, made⟩, unwritten⟩ := refused
    obtain ⟨_, port, shape, number⟩ := literal _ <|
      (endpointFromUri_eq_ok_iff tcp).mpr ⟨n, address, stoi_eq_ok_iff.mpr ⟨starts, fits⟩, made, rfl⟩
    have small := port.toNat_lt
    have large := unwritten _ number (Int.natCast_nonneg _)
    omega
  · intro accepted endpoint ok
    obtain ⟨n, address, number, made, rfl⟩ := (endpointFromUri_eq_ok_iff tcp).mp ok
    obtain ⟨starts, fits⟩ := stoi_eq_ok_iff.mp number
    obtain unread | unmade | ⟨m, written, nonneg, small⟩ := accepted
    · exact absurd fits (unread n starts)
    · exact absurd made (unmade address)
    · have same : stoi uri.port = .ok m :=
        stoi_eq_ok_iff.mpr ⟨written.startsWith, by rw [FitsInt]; omega⟩
      obtain rfl : n = m := Except.ok.inj (number.symm.trans same)
      refine ⟨address, _, rfl, ?_⟩
      rwa [toNat_ofInt_of_port nonneg small]

def loopback : Net (List Char) (List Nat) where
  localEndpoint := .ok
  makeAddressV4 host :=
    if host = "127.0.0.1".toList then .ok [127, 0, 0, 1]
    else .error (.systemError)

theorem portLiteral_of_written :
    PortLiteral loopback { type := .tcp, host := "127.0.0.1".toList, port := "12345".toList } := by
  have digits : "12345".toList.all Char.isDigit = true := by decide
  have number : Numeral "12345".toList (decimal "12345".toList) :=
    .plain (by decide) (List.all_eq_true.mp digits)
  exact (portLiteral_iff _ _ rfl).mpr (.inr (.inr ⟨_, number, by decide, by decide⟩))

/-- Port 65616 becomes port 80. -/
theorem large_port_wraps : ∃ uri,
    VarlinkUri.construct "tcp:127.0.0.1:65616".toList = .ok uri ∧ uri.type = .tcp ∧
      uri.port = "65616".toList ∧
      endpointFromUri loopback uri = .ok (.tcp [127, 0, 0, 1] 80) ∧ ¬PortLiteral loopback uri := by
  refine ⟨_, rfl, rfl, rfl, rfl, fun literal => ?_⟩
  obtain ⟨_, port, ⟨⟩, number⟩ := literal _ rfl
  have read := stoi_eq_ok_iff.mpr ⟨number.startsWith, by decide⟩
  cases read

end Port

end Varlink
