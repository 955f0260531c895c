import ModelCatalog.Proofs.Grammar.Asking

/-!
# The documents of filters

The filter grammar: which elements spell a dimension filter, a type filter and a filter. There is one rule
for every kind of element and everything that it can ask for, with all that the element has to keep
(`DimFilter.SpelledBy`, `TypeFilter.SpelledBy`, `Filter.SpelledBy`). A filter that is read is spelled by its
document, and a document that spells a filter is read to it (`Filter.ofElement_eq_ok_iff`). So the documents
that are accepted are those of the grammar (`Filter.ofElement_accepts_grammar`).
-/

namespace ModelCatalog

open Number (Binary64)
open Element

/-! ## Dimensions -/

/-- An element spells what is asked of a dimension. -/
inductive DimFilter.SpelledBy : DimFilter → Element → Prop
  | anything {e : Element} : e.tag = TypeTag.dim.name → e.AsksKind → SpelledBy (.anything e.line) e
  | size {e : Element} {relation : Comparison} {bound : Int} : e.tag = TypeTag.dim.name →
      e.AsksLiteral Literal.int? relation.operation bound → SpelledBy (.size e.line relation bound) e
  | logical {e : Element} {filter : DimFilter} : e.tag = ValueTag.logical.name →
      Connected SpelledBy .and .or .not filter e → SpelledBy filter e

theorem DimFilter.ofElement_eq_ok_iff {e : Element} {filter : DimFilter} :
    ofElement e = .ok filter ↔ filter.SpelledBy e := by
  have operands : ∀ child ∈ e.children, ∀ operand, ofElement child = .ok operand ↔ operand.SpelledBy child :=
    fun child member operand => ofElement_eq_ok_iff
  constructor
  · intro read
    rw [ofElement] at read
    split at read
    next isDim =>
      rcases (compared_eq_ok_iff (by rfl) fun _ _ => by rfl).mp read with ⟨relation, bound, asks, rfl⟩ | ⟨asks, rfl⟩
      · exact .size isDim asks
      · exact .anything isDim asks
    split at read
    next isLogical => exact .logical isLogical ((connected_iff operands).mp read)
    next => cases read
  · intro spelled
    cases spelled with
    | anything isDim asks =>
      rw [ofElement, if_pos isDim]
      exact (compared_eq_ok_iff (by rfl) fun _ _ => by rfl).mpr (.inr ⟨asks, rfl⟩)
    | size isDim asks =>
      rw [ofElement, if_pos isDim]
      exact (compared_eq_ok_iff (by rfl) fun _ _ => by rfl).mpr (.inl ⟨_, _, asks, rfl⟩)
    | logical isLogical connected =>
      have notDim : e.tag ≠ TypeTag.dim.name := by
        rw [isLogical]
        decide
      rw [ofElement, if_neg notDim, if_pos isLogical]
      exact (connected_iff operands).mpr connected
termination_by sizeOf e
decreasing_by exact sizeOf_lt_of_mem_children ‹_›

/-! ## Types -/

/-- The types that hold other types or dimensions. -/
def TypeKind.containers : List TypeKind := [.tensor, .list, .tuple, .namedValues]

/-- An element spells what is asked of a type. -/
inductive TypeFilter.SpelledBy : TypeFilter → Element → Prop
  | primitive {e : Element} {type : PrimitiveType} : e.tag = type.kind.tag.name → e.children = [] →
      e.hasText = false → SpelledBy (.anything e.line type.kind) e
  | anything {e : Element} {kind : TypeKind} : kind ∈ TypeKind.containers → e.tag = kind.tag.name → e.AsksKind →
      SpelledBy (.anything e.line kind) e
  | tensor {e : Element} {dims : List DimFilter} : e.tag = TypeTag.tensor.name → e.AsksElements .all →
      List.Forall₂ DimFilter.SpelledBy dims e.children → SpelledBy (.tensor e.line dims) e
  | list {e child : Element} {item : TypeFilter} : e.tag = TypeTag.list.name → e.AsksElements .all →
      e.children = [child] → SpelledBy item child → SpelledBy (.list e.line item) e
  | tuple {e : Element} {items : List TypeFilter} : e.tag = TypeTag.tuple.name → e.AsksElements .all →
      List.Forall₂ SpelledBy items e.children → SpelledBy (.tuple e.line items) e
  | namedValues {e : Element} {values : List (Named TypeFilter)} : e.tag = TypeTag.namedValueCollection.name →
      e.AsksElements .all → List.Forall₂ (EntryRules.namedValue.SpelledBy SpelledBy) values e.children →
      (values.map (·.name)).Nodup → SpelledBy (.namedValues e.line values) e

namespace TypeFilter

/-- An element is read to a primitive type when it holds nothing. -/
theorem ofPrimitive_eq_ok_iff {e : Element} {type : PrimitiveType} {filter : TypeFilter} :
    ofPrimitive e type = .ok filter ↔
      (e.children = [] ∧ e.hasText = false) ∧ .anything e.line type.kind = filter := by
  rw [ofPrimitive, andThen_eq_ok_iff, requirePrimitive_eq_ok_iff]
  exact and_congr_right fun _ => ⟨Except.ok.inj, congrArg Except.ok⟩

section

variable {e : Element} {filter : TypeFilter}
  (below : ∀ inner, sizeOf inner < sizeOf e → ∀ type, ofElement inner = .ok type ↔ type.SpelledBy inner)

include below

/-- A type that is read is spelled, when this is so of the types below it. -/
theorem spelledBy_of_ofElement (read : ofElement e = .ok filter) : filter.SpelledBy e := by
  have items := fun child (member : child ∈ e.children) => below child (sizeOf_lt_of_mem_children member)
  have item := fun child : { child // child ∈ e.children } => items child.1 child.2
  have dims : ∀ child ∈ e.children, ∀ dim, DimFilter.ofElement child = .ok dim ↔ dim.SpelledBy child :=
    fun _ _ _ => DimFilter.ofElement_eq_ok_iff
  rw [ofElement] at read
  have primitive : ∀ {type : PrimitiveType}, TypeTag.ofName? e.tag = some type.kind.tag →
      ofPrimitive e type = .ok filter → filter.SpelledBy e := by
    intro type isTag read
    obtain ⟨⟨childless, noText⟩, rfl⟩ := ofPrimitive_eq_ok_iff.mp read
    exact .primitive (TypeTag.ofName?_eq_some_iff.mp isTag) childless noText
  split at read
  · cases read
  · cases read
  · cases read
  · exact primitive ‹_› read
  · exact primitive ‹_› read
  · exact primitive ‹_› read
  · exact primitive ‹_› read
  next isTensor =>
    have tagged := TypeTag.ofName?_eq_some_iff.mp isTensor
    rcases (collection_eq_ok_iff dims).mp read with ⟨dims, asks, each, rfl⟩ | ⟨asks, rfl⟩
    · exact .tensor tagged asks each
    · exact .anything (by decide) tagged asks
  next isList =>
    have tagged := TypeTag.ofName?_eq_some_iff.mp isList
    rcases (single_eq_ok_iff (by decide) (fun _ => itemType_eq_ok_iff) item).mp read with
      ⟨child, item, asks, alone, spelled, rfl⟩ | ⟨asks, rfl⟩
    · exact .list tagged asks alone spelled
    · exact .anything (by decide) tagged asks
  next isTuple =>
    have tagged := TypeTag.ofName?_eq_some_iff.mp isTuple
    rcases (collection_eq_ok_iff items).mp read with ⟨items, asks, each, rfl⟩ | ⟨asks, rfl⟩
    · exact .tuple tagged asks each
    · exact .anything (by decide) tagged asks
  next isCollection =>
    have tagged := TypeTag.ofName?_eq_some_iff.mp isCollection
    rcases (namedCollection_eq_ok_iff below).mp read with ⟨values, asks, each, distinct, rfl⟩ | ⟨asks, rfl⟩
    · exact .namedValues tagged asks each distinct
    · exact .anything (by decide) tagged asks

/-- A type that is spelled is read, when this is so of the types below it. -/
theorem ofElement_of_spelledBy (spelled : filter.SpelledBy e) : ofElement e = .ok filter := by
  have items := fun child (member : child ∈ e.children) => below child (sizeOf_lt_of_mem_children member)
  have item := fun child : { child // child ∈ e.children } => items child.1 child.2
  have dims : ∀ child ∈ e.children, ∀ dim, DimFilter.ofElement child = .ok dim ↔ dim.SpelledBy child :=
    fun _ _ _ => DimFilter.ofElement_eq_ok_iff
  cases spelled with
  | @primitive _ type tagged childless noText =>
    have read : ofPrimitive e type = .ok (.anything e.line type.kind) :=
      ofPrimitive_eq_ok_iff.mpr ⟨⟨childless, noText⟩, rfl⟩
    rw [ofElement, TypeTag.ofName?_eq_some_iff.mpr tagged]
    cases type <;> exact read
  | @anything _ kind container tagged asks =>
    rw [ofElement, TypeTag.ofName?_eq_some_iff.mpr tagged]
    cases kind with
    | tensor | list | tuple | namedValues => exact (choice_eq_ok_iff (by decide)).mpr (.inr ⟨asks, rfl⟩)
    | string | bool | int | float => simp [TypeKind.containers] at container
  | tensor tagged asks each =>
    rw [ofElement, TypeTag.ofName?_eq_some_iff.mpr tagged]
    exact (collection_eq_ok_iff dims).mpr (.inl ⟨_, asks, each, rfl⟩)
  | list tagged asks alone spelled =>
    rw [ofElement, TypeTag.ofName?_eq_some_iff.mpr tagged]
    exact (single_eq_ok_iff (by decide) (fun _ => itemType_eq_ok_iff) item).mpr (.inl ⟨_, _, asks, alone, spelled, rfl⟩)
  | tuple tagged asks each =>
    rw [ofElement, TypeTag.ofName?_eq_some_iff.mpr tagged]
    exact (collection_eq_ok_iff items).mpr (.inl ⟨_, asks, each, rfl⟩)
  | namedValues tagged asks each distinct =>
    rw [ofElement, TypeTag.ofName?_eq_some_iff.mpr tagged]
    exact (namedCollection_eq_ok_iff below).mpr (.inl ⟨_, asks, each, distinct, rfl⟩)

end

theorem ofElement_eq_ok_iff {e : Element} {filter : TypeFilter} :
    ofElement e = .ok filter ↔ filter.SpelledBy e := by
  -- The recursion is on the element, not on the filter: entries stand two levels above their values.
  have below : ∀ inner, sizeOf inner < sizeOf e → ∀ type, ofElement inner = .ok type ↔ type.SpelledBy inner :=
    fun inner smaller type => ofElement_eq_ok_iff
  exact ⟨spelledBy_of_ofElement below, ofElement_of_spelledBy below⟩
termination_by sizeOf e

end TypeFilter

/-! ## Values -/

/-- An element spells a filter. -/
inductive Filter.SpelledBy : Filter → Element → Prop
  | anything {e : Element} {kind : ValueKind} : e.tag = kind.tag.name → e.AsksKind →
      SpelledBy (.anything e.line kind) e
  | dict {e : Element} {fields : List (Named Filter)} : e.tag = ValueTag.dict.name → e.AsksElements .all →
      List.Forall₂ (EntryRules.field.SpelledBy SpelledBy) fields e.children → (fields.map (·.name)).Nodup →
      SpelledBy (.dict e.line fields) e
  | list {e : Element} {items : List Filter} : e.tag = ValueTag.list.name → e.AsksElements .all →
      List.Forall₂ SpelledBy items e.children → SpelledBy (.list e.line items) e
  | string {e : Element} {expected : String} : e.tag = ValueTag.string.name →
      e.AsksLiteral some .equals expected → SpelledBy (.string e.line expected) e
  | bool {e : Element} {expected : Bool} : e.tag = ValueTag.bool.name →
      e.AsksLiteral Literal.bool? .equals expected → SpelledBy (.bool e.line expected) e
  | int {e : Element} {relation : Comparison} {bound : Int} : e.tag = ValueTag.int.name →
      e.AsksLiteral Literal.int? relation.operation bound → SpelledBy (.int e.line relation bound) e
  | float {e : Element} {relation : Comparison} {bound : Binary64} : e.tag = ValueTag.float.name →
      e.AsksLiteral Literal.float? relation.operation bound → SpelledBy (.float e.line relation bound) e
  | typeDeclaration {e child : Element} {expected : TypeFilter} : e.tag = ValueTag.typeDeclaration.name →
      e.AsksElements .typeMatch → e.children = [child] → expected.SpelledBy child →
      SpelledBy (.typeDeclaration e.line expected) e
  | logical {e : Element} {filter : Filter} : e.tag = ValueTag.logical.name →
      Connected SpelledBy .and .or .not filter e → SpelledBy filter e
  | implicitTags {e : Element} {groups : List TagGroup} : e.tag = ValueTag.tagCollection.name →
      e.AsksElements .implicitTagMatch → List.Forall₂ TagGroup.SpelledBy groups e.children →
      SpelledBy (.implicitTags e.line groups) e
  | explicitTags {e : Element} {groups : List TagGroup} : e.tag = ValueTag.tagCollection.name →
      e.AsksElements .explicitTagMatch → List.Forall₂ TagGroup.SpelledBy groups e.children →
      SpelledBy (.explicitTags e.line groups) e

namespace Filter

section

variable {e : Element} {filter : Filter}
  (below : ∀ inner, sizeOf inner < sizeOf e → ∀ value, ofElement inner = .ok value ↔ value.SpelledBy inner)

include below

/-- A filter that is read is spelled, when this is so of the filters below it. -/
theorem spelledBy_of_ofElement (read : ofElement e = .ok filter) : filter.SpelledBy e := by
  have items := fun child (member : child ∈ e.children) => below child (sizeOf_lt_of_mem_children member)
  have type : ∀ child : { child // child ∈ e.children }, ∀ type,
      TypeFilter.ofElement child.1 = .ok type ↔ type.SpelledBy child.1 :=
    fun _ _ => TypeFilter.ofElement_eq_ok_iff
  rw [ofElement] at read
  split at read
  · cases read
  · cases read
  · cases read
  next isDict =>
    have tagged := ValueTag.ofName?_eq_some_iff.mp isDict
    rcases (namedCollection_eq_ok_iff below).mp read with ⟨fields, asks, each, distinct, rfl⟩ | ⟨asks, rfl⟩
    · exact .dict tagged asks each distinct
    · exact .anything tagged asks
  next isList =>
    have tagged := ValueTag.ofName?_eq_some_iff.mp isList
    rcases (collection_eq_ok_iff items).mp read with ⟨items, asks, each, rfl⟩ | ⟨asks, rfl⟩
    · exact .list tagged asks each
    · exact .anything tagged asks
  next isString =>
    have tagged := ValueTag.ofName?_eq_some_iff.mp isString
    rcases (choice_eq_ok_iff (by decide)).mp read with ⟨asks, read⟩ | ⟨asks, rfl⟩
    · obtain ⟨childless, same⟩ := andThen_eq_ok_iff.mp read
      cases same
      exact .string tagged ⟨asks, requireNoChildren_eq_ok_iff.mp childless, rfl⟩
    · exact .anything tagged asks
  next isBool =>
    have tagged := ValueTag.ofName?_eq_some_iff.mp isBool
    rcases (choice_eq_ok_iff (by decide)).mp read with ⟨asks, read⟩ | ⟨asks, rfl⟩
    · obtain ⟨childless, read⟩ := andThen_eq_ok_iff.mp read
      obtain ⟨expected, isLiteral, same⟩ := bind_eq_ok_iff.mp read
      cases same
      exact .bool tagged ⟨asks, requireNoChildren_eq_ok_iff.mp childless, literal_eq_ok_iff.mp isLiteral⟩
    · exact .anything tagged asks
  next isInt =>
    have tagged := ValueTag.ofName?_eq_some_iff.mp isInt
    rcases (compared_eq_ok_iff (by rfl) fun _ _ => by rfl).mp read with ⟨relation, bound, asks, rfl⟩ | ⟨asks, rfl⟩
    · exact .int tagged asks
    · exact .anything tagged asks
  next isFloat =>
    have tagged := ValueTag.ofName?_eq_some_iff.mp isFloat
    rcases (compared_eq_ok_iff (by rfl) fun _ _ => by rfl).mp read with ⟨relation, bound, asks, rfl⟩ | ⟨asks, rfl⟩
    · exact .float tagged asks
    · exact .anything tagged asks
  next isDeclaration =>
    have tagged := ValueTag.ofName?_eq_some_iff.mp isDeclaration
    rcases (single_eq_ok_iff (by decide) (fun _ => declaredType_eq_ok_iff) type).mp read with
      ⟨child, expected, asks, alone, spelled, rfl⟩ | ⟨asks, rfl⟩
    · exact .typeDeclaration tagged asks alone spelled
    · exact .anything tagged asks
  next isLogical => exact .logical (ValueTag.ofName?_eq_some_iff.mp isLogical) ((connected_iff items).mp read)
  next isCollection =>
    have tagged := ValueTag.ofName?_eq_some_iff.mp isCollection
    rcases tagCollection_eq_ok_iff.mp read with
      ⟨groups, asks, each, rfl⟩ | ⟨groups, asks, each, rfl⟩ | ⟨asks, rfl⟩
    · exact .implicitTags tagged asks each
    · exact .explicitTags tagged asks each
    · exact .anything tagged asks

/-- A filter that is spelled is read, when this is so of the filters below it. -/
theorem ofElement_of_spelledBy (spelled : filter.SpelledBy e) : ofElement e = .ok filter := by
  have items := fun child (member : child ∈ e.children) => below child (sizeOf_lt_of_mem_children member)
  have type : ∀ child : { child // child ∈ e.children }, ∀ type,
      TypeFilter.ofElement child.1 = .ok type ↔ type.SpelledBy child.1 :=
    fun _ _ => TypeFilter.ofElement_eq_ok_iff
  cases spelled with
  | @anything _ kind tagged asks =>
    rw [ofElement, ValueTag.ofName?_eq_some_iff.mpr tagged]
    cases kind with
    | dict | list | string | bool | typeDeclaration => exact (choice_eq_ok_iff (by decide)).mpr (.inr ⟨asks, rfl⟩)
    | int | float => exact (compared_eq_ok_iff (by rfl) fun _ _ => by rfl).mpr (.inr ⟨asks, rfl⟩)
    | tagCollection => exact tagCollection_eq_ok_iff.mpr (.inr (.inr ⟨asks, rfl⟩))
  | dict tagged asks each distinct =>
    rw [ofElement, ValueTag.ofName?_eq_some_iff.mpr tagged]
    exact (namedCollection_eq_ok_iff below).mpr (.inl ⟨_, asks, each, distinct, rfl⟩)
  | list tagged asks each =>
    rw [ofElement, ValueTag.ofName?_eq_some_iff.mpr tagged]
    exact (collection_eq_ok_iff items).mpr (.inl ⟨_, asks, each, rfl⟩)
  | string tagged asks =>
    obtain ⟨asks, childless, same⟩ := asks
    cases same
    rw [ofElement, ValueTag.ofName?_eq_some_iff.mpr tagged]
    refine (choice_eq_ok_iff (by decide)).mpr (.inl ⟨asks, ?_⟩)
    exact andThen_eq_ok_iff.mpr ⟨requireNoChildren_eq_ok_iff.mpr childless, rfl⟩
  | bool tagged asks =>
    obtain ⟨asks, childless, isLiteral⟩ := asks
    rw [ofElement, ValueTag.ofName?_eq_some_iff.mpr tagged]
    refine (choice_eq_ok_iff (by decide)).mpr (.inl ⟨asks, ?_⟩)
    refine andThen_eq_ok_iff.mpr ⟨requireNoChildren_eq_ok_iff.mpr childless, ?_⟩
    exact bind_eq_ok_iff.mpr ⟨_, literal_eq_ok_iff.mpr isLiteral, rfl⟩
  | int tagged asks =>
    rw [ofElement, ValueTag.ofName?_eq_some_iff.mpr tagged]
    exact (compared_eq_ok_iff (by rfl) fun _ _ => by rfl).mpr (.inl ⟨_, _, asks, rfl⟩)
  | float tagged asks =>
    rw [ofElement, ValueTag.ofName?_eq_some_iff.mpr tagged]
    exact (compared_eq_ok_iff (by rfl) fun _ _ => by rfl).mpr (.inl ⟨_, _, asks, rfl⟩)
  | typeDeclaration tagged asks alone spelled =>
    rw [ofElement, ValueTag.ofName?_eq_some_iff.mpr tagged]
    exact (single_eq_ok_iff (by decide) (fun _ => declaredType_eq_ok_iff) type).mpr (.inl ⟨_, _, asks, alone, spelled, rfl⟩)
  | logical tagged connected =>
    rw [ofElement, ValueTag.ofName?_eq_some_iff.mpr tagged]
    exact (connected_iff items).mpr connected
  | implicitTags tagged asks each =>
    rw [ofElement, ValueTag.ofName?_eq_some_iff.mpr tagged]
    exact tagCollection_eq_ok_iff.mpr (.inl ⟨_, asks, each, rfl⟩)
  | explicitTags tagged asks each =>
    rw [ofElement, ValueTag.ofName?_eq_some_iff.mpr tagged]
    exact tagCollection_eq_ok_iff.mpr (.inr (.inl ⟨_, asks, each, rfl⟩))

end

theorem ofElement_eq_ok_iff {e : Element} {filter : Filter} :
    ofElement e = .ok filter ↔ filter.SpelledBy e := by
  have below : ∀ inner, sizeOf inner < sizeOf e → ∀ value, ofElement inner = .ok value ↔ value.SpelledBy inner :=
    fun inner smaller value => ofElement_eq_ok_iff
  exact ⟨spelledBy_of_ofElement below, ofElement_of_spelledBy below⟩
termination_by sizeOf e

end Filter

/-- The operation that a filter asks for. -/
def Filter.operation : Filter → Operation
  | .anything .. => .none
  | .dict .. | .list .. => .all
  | .string .. | .bool .. => .equals
  | .int _ relation _ | .float _ relation _ => relation.operation
  | .typeDeclaration .. => .typeMatch
  | .and .. => .and
  | .or .. => .or
  | .not .. => .not
  | .implicitTags .. => .implicitTagMatch
  | .explicitTags .. => .explicitTagMatch

/-- What spells a filter asks for the operation of the filter. -/
theorem Filter.SpelledBy.asks {e : Element} {filter : Filter} (spelled : filter.SpelledBy e) :
    e.Asks filter.operation := by
  cases spelled with
  | anything _ asks => exact asks.asks
  | dict _ asks | list _ asks | typeDeclaration _ asks | implicitTags _ asks | explicitTags _ asks => exact asks.asks
  | string _ asks | bool _ asks | int _ asks | float _ asks => exact asks.asks
  | logical _ connected =>
    cases connected with
    | and asks | or asks | not asks => exact asks.asks

/-- An element is the document of a filter. -/
def Element.IsFilter (e : Element) : Prop := ∃ filter : Filter, filter.SpelledBy e

/-- The documents that are accepted are those of filters, and each is read to the filter that it spells. -/
theorem Filter.ofElement_accepts_grammar (e : Element) :
    ((ofElement e).isOk = true ↔ e.IsFilter) ∧
      ∀ filter, ofElement e = .ok filter ↔ filter.SpelledBy e := by
  refine ⟨⟨fun accepted => ?_, fun ⟨filter, spelled⟩ => ?_⟩, fun filter => ofElement_eq_ok_iff⟩
  · obtain ⟨filter, read⟩ := exists_of_isOk accepted
    exact ⟨filter, ofElement_eq_ok_iff.mp read⟩
  · rw [ofElement_eq_ok_iff.mpr spelled]
    rfl

end ModelCatalog
