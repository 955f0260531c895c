import ModelCatalog.Proofs.Filter.Nodes

/-!
# When a manifest satisfies a filter

What a filter asks for, said without an order of steps: the parts of a filter are asked of the parts of
a value that stand opposite to them, and it does not matter which of them is looked at first. A dict has
every field of its filter, a list begins with the items of its filter, tuples and tensors have as many
parts, collections of named values the same names, and the operands of a logical filter are all asked
of the same value. Implicit tags are asked of the root of the manifest: which tags hold there is given
(`holds`), and `Registry.IsTruth` says when it is given rightly.
-/

namespace ModelCatalog

open Number (Binary64)

/-- A comparison of two numbers: manifest, relation, filter. -/
def Comparison.Relates : Comparison → Int → Int → Prop
  | .equals, found, bound => found = bound
  | .less, found, bound => found < bound
  | .lessOrEqual, found, bound => found ≤ bound
  | .greater, found, bound => bound < found
  | .greaterOrEqual, found, bound => bound ≤ found

/-- A comparison of two floats by their positions; a value that is not a number has none. -/
def Comparison.RelatesFloats (relation : Comparison) (found bound : Binary64) : Prop :=
  ∃ left right, found.position? = some left ∧ bound.position? = some right ∧ relation.Relates left right

/-- A dimension of some size satisfies a filter. -/
def DimFilter.SatisfiedBy (size : Slot Int) : DimFilter → Prop
  | .anything _ => True
  | .size _ relation bound => ∃ value, size = .filled value ∧ relation.Relates value bound
  | .and _ operands => ∀ operand ∈ operands, operand.SatisfiedBy size
  | .or _ operands => ∃ operand, ∃ _ : operand ∈ operands, operand.SatisfiedBy size
  | .not _ operand => ¬operand.SatisfiedBy size

/-- A type satisfies a filter. -/
def TypeFilter.SatisfiedBy : TypeFilter → TypeDecl → Prop
  | .anything _ kind, type => type.kind = kind
  | .tensor _ dims, type => ∃ line found, type = .tensor line found ∧ dims.length = found.length ∧
      ∀ position (wanted : position < dims.length) (given : position < found.length),
        dims[position].SatisfiedBy found[position].size
  | .list _ item, type => ∃ line found, type = .list line found ∧ item.SatisfiedBy found
  | .tuple _ items, type => ∃ line found, type = .tuple line found ∧ items.length = found.length ∧
      ∀ position (wanted : position < items.length) (given : position < found.length),
        items[position].SatisfiedBy found[position]
  | .namedValues _ values, type => ∃ line found, type = .namedValues line found ∧
      (∀ name, (∃ value ∈ values, value.name = name) ↔ ∃ entry ∈ found, entry.name = name) ∧
      ∀ entry ∈ found, ∀ value ∈ values, value.name = entry.name → value.value.SatisfiedBy entry.value
termination_by filter => filter
decreasing_by
  · decreasing_tactic
  · have smaller := List.sizeOf_lt_of_mem (List.getElem_mem wanted)
    decreasing_tactic
  · have smaller := Named.sizeOf_value_lt_of_mem ‹_›
    decreasing_tactic

/-- A value satisfies a filter, in a manifest at whose root some tags hold. -/
def Filter.SatisfiedBy (holds : String → Prop) : Filter → Manifest → Prop
  | .anything _ kind, node => node.kind = kind
  | .dict _ fields, node => ∃ line entries, node = .dict line entries ∧
      ∀ field ∈ fields, ∃ entry ∈ entries, entry.name = field.name ∧
        field.value.SatisfiedBy holds entry.value
  | .list _ items, node => ∃ line values, node = .list line values ∧ items.length ≤ values.length ∧
      ∀ position (wanted : position < items.length) (given : position < values.length),
        items[position].SatisfiedBy holds values[position]
  | .string _ expected, node => ∃ line, node = .string line (.filled expected)
  | .bool _ expected, node => ∃ line, node = .bool line (.filled expected)
  | .int _ relation bound, node => ∃ line value, node = .int line (.filled value) ∧
      relation.Relates value bound
  | .float _ relation bound, node => ∃ line value, node = .float line (.filled value) ∧
      relation.RelatesFloats value bound
  | .typeDeclaration _ expected, node => ∃ line type, node = .typeDeclaration line type ∧
      expected.SatisfiedBy type
  | .and _ operands, node => ∀ operand ∈ operands, operand.SatisfiedBy holds node
  | .or _ operands, node => ∃ operand, ∃ _ : operand ∈ operands, operand.SatisfiedBy holds node
  | .not _ operand, node => ¬operand.SatisfiedBy holds node
  | .implicitTags _ groups, _ => ∀ tag ∈ unionTags groups, holds tag
  | .explicitTags _ required, node => ∃ line declared, node = .tagCollection line declared ∧
      ∀ tag ∈ unionTags required, tag ∈ unionTags declared
termination_by filter => filter
decreasing_by
  · have smaller := Named.sizeOf_value_lt_of_mem ‹_›
    decreasing_tactic
  · have smaller := List.sizeOf_lt_of_mem (List.getElem_mem wanted)
    decreasing_tactic
  · decreasing_tactic
  · decreasing_tactic
  · decreasing_tactic

/-- Which tags hold at the root of a manifest: a registered tag does when the root satisfies its
    definition. -/
def Registry.IsTruth (registry : Registry) (root : Manifest) (holds : String → Prop) : Prop :=
  ∀ tag definition, registry.get? tag = some definition → (holds tag ↔ definition.SatisfiedBy holds root)

end ModelCatalog
