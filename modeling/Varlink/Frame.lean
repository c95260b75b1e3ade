import Varlink.Exception
import Varlink.Library.Delimited

/-! The frame of a message: what `send` and `async_send` have the socket write. -/

namespace Varlink.Frame

def bytes (text : String) : Bytes := text.toUTF8.data.toList

/-- `std::string::data`: the characters and the terminator behind them. -/
def data (m : Bytes) : Bytes := m ++ [0]

variable (dump : Dump)

/-- What is written for a value; one that cannot be dumped has no frame. -/
def frame (v : Json) : Bytes :=
  match dump v with
  | .ok text => data (bytes text)
  | .error _ => []

def texts (values : List Json) : List Bytes :=
  values.filterMap fun v => (dump v).toOption.map bytes

variable {dump}

theorem frame_of_error {v : Json} {e : Exn} (h : dump v = .error e) : frame dump v = [] := by
  rw [frame, h]

theorem texts_cons_of_ok {v : Json} {text : String} (h : dump v = .ok text) (rest : List Json) :
    texts dump (v :: rest) = bytes text :: texts dump rest := by
  simp [texts, h, Except.toOption]

theorem texts_cons_of_error {v : Json} {e : Exn} (h : dump v = .error e) (rest : List Json) :
    texts dump (v :: rest) = texts dump rest := by
  simp [texts, h, Except.toOption]

theorem texts_append (values later : List Json) :
    texts dump (values ++ later) = texts dump values ++ texts dump later :=
  List.filterMap_append

theorem texts_length {values : List Json} (dumps : ∀ v ∈ values, ∃ text, dump v = .ok text) :
    (texts dump values).length = values.length := by
  induction values with
  | nil => rfl
  | cons v rest ih =>
    obtain ⟨text, written⟩ := dumps v List.mem_cons_self
    rw [texts_cons_of_ok written, List.length_cons, List.length_cons,
      ih fun w member => dumps w (List.mem_cons_of_mem v member)]

end Varlink.Frame
