import EngineLink.Decimal.Read
import EngineLink.Text.Blank

/-!
# Vectors in text

A vector is written as numbers between white space and square brackets. Brackets only separate;
they need not be balanced. One part that is no number makes the whole vector fail.
-/

namespace EngineLink.Telemetry

/-- White space or a square bracket. -/
def separates (c : Char) : Bool :=
  c = '[' || c = ']' || Text.isBlank c

/-- Reads numbers in order, up to the first that is none. -/
def readNumbers : List (List Char) → Except Decimal.ReadError (List Binary64)
  | [] => .ok []
  | word :: words =>
    match Decimal.read word with
    | .error e => .error e
    | .ok x =>
      match readNumbers words with
      | .error e => .error e
      | .ok xs => .ok (x :: xs)

/-- The numbers of a text. -/
def readVector (text : List Char) : Except Decimal.ReadError (List Binary64) :=
  readNumbers (Text.fields separates text)

end EngineLink.Telemetry
