import ModelCatalog.Number.Digits

/-!
# Integer literals

An integer literal is an optional sign and at least one digit, and its value fits in a signed
64-bit word. Main statement: an integer that fits is read back from the way it is shown
(`readInteger_showInteger`).
-/

namespace ModelCatalog.Number

/-- The signed 64-bit range. -/
def fitsWord (n : Int) : Bool :=
  let bound : Int := Nat.pow 2 63
  n < bound && -bound ≤ n

/-- The value of an integer literal. -/
def readInteger (word : List Char) : Option Int :=
  let (negative, magnitude) := splitSign word
  if magnitude ≠ [] ∧ magnitude.all Char.isDigit then
    let value := signed negative (ofDigits magnitude)
    if fitsWord value then some value else none
  else none

/-- An integer in decimal, a minus before the digits of a negative one. -/
def showInteger : Int → String
  | .ofNat n => String.ofList (digits n)
  | .negSucc n => String.ofList ('-' :: digits (n + 1))

/-- A word of digits has no sign. -/
theorem splitSign_digits (n : Nat) : splitSign (digits n) = (false, digits n) := by
  have digit : ∀ c ∈ digits n, c.isDigit := fun _ mem => isDigit_of_mem_digits mem
  unfold splitSign
  split
  next eq =>
    rw [eq] at digit
    exact absurd (digit '+' List.mem_cons_self) (by decide)
  next eq =>
    rw [eq] at digit
    exact absurd (digit '-' List.mem_cons_self) (by decide)
  · rfl

/-- Digits with a value that fits are read to it, whatever sign stands before them. -/
theorem readInteger_of_splitSign {word : List Char} {negative : Bool} {n : Nat}
    (split : splitSign word = (negative, digits n)) (fits : fitsWord (signed negative n) = true) :
    readInteger word = some (signed negative n) := by
  have written : digits n ≠ [] ∧ (digits n).all Char.isDigit = true := ⟨digits_ne_nil n, all_digits n⟩
  rw [readInteger, split]
  dsimp only
  rw [if_pos written, ofDigits_digits, if_pos fits]

theorem readInteger_showInteger {n : Int} (h : fitsWord n = true) :
    readInteger (showInteger n).toList = some n := by
  cases n with
  | ofNat n =>
    rw [showInteger, String.toList_ofList]
    exact readInteger_of_splitSign (splitSign_digits n) h
  | negSucc n =>
    have split : splitSign ('-' :: digits (n + 1)) = (true, digits (n + 1)) := rfl
    rw [showInteger, String.toList_ofList]
    exact readInteger_of_splitSign split h

end ModelCatalog.Number
