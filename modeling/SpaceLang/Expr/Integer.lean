/-!
# Integer literals

An integer literal is a row of decimal digits, which may begin with zeros, after at most one sign.
`ofString?` reads it exactly if its value fits into 64 bits with sign, and refuses it otherwise.
-/

namespace SpaceLang.Integer

/-- The number that a row of decimal digits denotes, given the number denoted so far. -/
def accumulate (n : Nat) (c : Char) : Nat :=
  10 * n + (c.toNat - '0'.toNat)

/-- The number that a text denotes; none if it is empty or holds anything but decimal digits of
ASCII. -/
def natural? (digits : List Char) : Option Nat :=
  if digits ≠ [] ∧ digits.all Char.isDigit then some (digits.foldl accumulate 0) else none

/-- The integer that a text denotes, of any size. -/
def denoted? : List Char → Option Int
  | '-' :: digits => (natural? digits).map (fun n => -(n : Int))
  | '+' :: digits => (natural? digits).map Int.ofNat
  | digits => (natural? digits).map Int.ofNat

/-- Whether an integer fits into 64 bits with sign. -/
def fits (n : Int) : Bool :=
  Int64.minValue.toInt ≤ n && n ≤ Int64.maxValue.toInt

/-- The integer of 64 bits that a text denotes. -/
def ofString? (text : String) : Option Int64 :=
  match denoted? text.toList with
  | some n => if fits n then some (.ofInt n) else none
  | none => none

end SpaceLang.Integer
