import Mathlib
/-!
# Errors

`RustytreeError` of `error.rs` and the Python exceptions the two languages
raise. Text is carried as the source writes it.
-/

namespace Rustytree

/-- Text as its characters; Rust's `str` and Python's `str` alike. -/
abbrev Str := List Char

/-- `s` inside a message. -/
def shown (s : Str) : String := String.ofList s

/-- The Python exceptions this code raises. -/
inductive PyErr where
  | keyError (msg : String)
  | valueError (msg : String)
  | indexError (msg : String)
  | overflowError (msg : String)
  | osError (msg : String)
  | runtimeError (msg : String)
  | notImplementedError (msg : String)
  /-- A Rust panic, as PyO3 surfaces it. -/
  | panicException
  /-- Not in the source: the model's descent ran out of fuel. -/
  | outOfFuel
  deriving DecidableEq, Repr

def PyErr.isKeyError : PyErr → Bool
  | .keyError _ => true
  | _ => false

/-- An index outside an array, or one that no unsigned integer is. -/
def PyErr.isRangeError : PyErr → Bool
  | .indexError _ | .overflowError _ => true
  | _ => false

/-- `RustytreeError`. -/
inductive RustytreeError where
  | io (msg : String)
  | notFound (msg : String)
  | invalidInput (msg : String)
  | icechunkSession (msg : String)
  | other (msg : String)
  /-- Not in the source: the model's descent ran out of fuel. -/
  | outOfFuel
  deriving DecidableEq, Repr

namespace RustytreeError

/-- The `#[error(..)]` texts. -/
def display : RustytreeError → String
  | io e => "I/O error: " ++ e
  | notFound e => "not found: " ++ e
  | invalidInput e => "invalid input: " ++ e
  | icechunkSession e => "icechunk session: " ++ e
  | other e => e
  | outOfFuel => ""

/-- `impl From<RustytreeError> for PyErr`. -/
def toPyErr (err : RustytreeError) : PyErr :=
  match err with
  | io _ => .osError err.display
  | notFound _ => .keyError err.display
  | invalidInput _ | icechunkSession _ => .valueError err.display
  | other _ => .runtimeError err.display
  | outOfFuel => .outOfFuel

/-- Only an absent node becomes a `KeyError`. -/
theorem toPyErr_isKeyError (err : RustytreeError) :
    err.toPyErr.isKeyError = true ↔ ∃ msg, err = .notFound msg := by
  cases err <;> simp [toPyErr, PyErr.isKeyError]

end RustytreeError
end Rustytree
