/-!
# Comparisons

A comparison of a filter is read as "manifest value, relation, filter value".
-/

namespace ModelCatalog

inductive Comparison where
  | equals
  | less
  | lessOrEqual
  | greater
  | greaterOrEqual
deriving DecidableEq, Repr

namespace Comparison

def symbol : Comparison → String
  | .equals => "=="
  | .less => "<"
  | .lessOrEqual => "<="
  | .greater => ">"
  | .greaterOrEqual => ">="

/-- A comparison holds of values in an order. Values without an order satisfy none. -/
def holds (relation : Comparison) (order : Option Ordering) : Bool :=
  match order with
  | none => false
  | some order =>
    match relation with
    | .equals => order.isEq
    | .less => order.isLT
    | .lessOrEqual => order.isLE
    | .greater => order.isGT
    | .greaterOrEqual => order.isGE

end Comparison

end ModelCatalog
