namespace MiniJava.Decimal

/-!
# Decimal text of integers

Every number the compiler prints is an integer in base ten without grouping: a
minus sign when it is negative, then its digits with no leading zero. Reading
is the other direction and accepts a few more spellings: an explicit plus sign
and leading zeros.
-/

/-- The decimal text of a natural number. -/
def ofNat (value : Nat) : String :=
  Nat.repr value

/-- The decimal text of an integer, with a minus sign when it is negative. -/
def ofInt : Int → String
  | .ofNat magnitude => ofNat magnitude
  | .negSucc predecessor => "-" ++ ofNat (predecessor + 1)

/-- The value of one decimal digit. -/
def digitValue (digit : Char) : Nat :=
  digit.toNat - '0'.toNat

/-- The number that a run of decimal digits denotes. -/
def valueOfDigits (digits : List Char) : Nat :=
  digits.foldl (fun value digit => 10 * value + digitValue digit) 0

/-- The number denoted by a nonempty run of decimal digits. -/
def nat? (digits : List Char) : Option Nat :=
  if !digits.isEmpty && digits.all Char.isDigit then
    some (valueOfDigits digits)
  else
    none

/-- The integer denoted by decimal digits after at most one sign. -/
def int? (text : String) : Option Int :=
  match text.toList with
  | '-' :: digits => (nat? digits).map fun magnitude => -(magnitude : Int)
  | '+' :: digits => (nat? digits).map fun magnitude => (magnitude : Int)
  | digits => (nat? digits).map fun magnitude => (magnitude : Int)

end MiniJava.Decimal
