/-!
# Digits

Runs of decimal digits, which are the ten ASCII ones only, and the numbers they write. Main statements: a
number is written in digits only (`all_digits`), and reading what was written gives the number back
(`ofDigits_digits`).
-/

namespace ModelCatalog.Number

/-- The value of a decimal digit. -/
def digitValue (c : Char) : Nat := c.toNat - '0'.toNat

/-- The value of a digit of a base up to 16, a letter in either case. -/
def digitValue? (base : Nat) (c : Char) : Option Nat :=
  let value :=
    if c.isDigit then some (digitValue c)
    else if 'a' ≤ c ∧ c ≤ 'f' then some (c.toNat - 'a'.toNat + 10)
    else if 'A' ≤ c ∧ c ≤ 'F' then some (c.toNat - 'A'.toNat + 10)
    else none
  value.filter (· < base)

/-- The number that a run of digits continues `start` with. -/
def ofDigitsFrom (start : Nat) (digits : List Char) : Nat :=
  digits.foldl (fun n c => 10 * n + digitValue c) start

/-- The number that a run of digits writes, most significant digit first. -/
def ofDigits (digits : List Char) : Nat := ofDigitsFrom 0 digits

/-- The digits of a number, most significant first and without leading zeros. -/
def digits (n : Nat) : List Char := Nat.toDigits 10 n

/-- How many digits a number has. -/
def digitCount (n : Nat) : Nat := (digits n).length

@[simp] theorem ofDigits_digits (n : Nat) : ofDigits (digits n) = n :=
  Nat.ofDigitChars_toDigits (by decide) (by decide)

theorem digits_ne_nil (n : Nat) : digits n ≠ [] := Nat.toDigits_ne_nil

theorem isDigit_of_mem_digits {n : Nat} {c : Char} (h : c ∈ digits n) : c.isDigit :=
  Nat.isDigit_of_mem_toDigits (by decide) (by decide) h

theorem all_digits (n : Nat) : (digits n).all Char.isDigit := by
  rw [List.all_eq_true]
  intro c mem
  exact isDigit_of_mem_digits mem

/-- A sign before a number, if there is one: whether it is a minus, and the word after it. -/
def splitSign : List Char → Bool × List Char
  | '+' :: word => (false, word)
  | '-' :: word => (true, word)
  | word => (false, word)

/-- The integer with the given sign and magnitude. -/
def signed (negative : Bool) (magnitude : Nat) : Int :=
  if negative then -magnitude else magnitude

end ModelCatalog.Number
