import ModelCatalog.Validation

/-!
# Nodes of a filter

The filters that stand below a filter (`children`), everything that stands somewhere in it (`IsNode`),
and the tags that its nodes ask for. Main statements: the walk that collects tag collections meets
exactly the nodes that are one (`mem_tagReferences_iff`), so the implicit references of a filter are the
tags that one of its nodes asks for implicitly (`mem_implicitReferences_iff`), and the unknown tags are
those that the registry lacks, a definition's own name among its explicit tags excepted
(`mem_unknownTags_iff`). The parts of a filter (`FilterPart`) are its nodes together with the fields of its
dicts, its types and its dimensions.
-/

namespace ModelCatalog

namespace Filter

/-- The filters directly below a filter. -/
def children : Filter → List Filter
  | .dict _ fields => fields.map (·.value)
  | .list _ items => items
  | .and _ operands | .or _ operands => operands
  | .not _ operand => [operand]
  | .anything .. | .string .. | .bool .. | .int .. | .float .. | .typeDeclaration ..
  | .implicitTags .. | .explicitTags .. => []

/-- A filter is the whole of another one or stands somewhere below it. -/
inductive IsNode (node : Filter) : Filter → Prop
  | whole : IsNode node node
  | inside {filter child : Filter} : child ∈ filter.children → IsNode node child → IsNode node filter

theorem sizeOf_lt_of_mem_children {filter child : Filter} (member : child ∈ filter.children) :
    sizeOf child < sizeOf filter := by
  cases filter with
  | dict line fields =>
    obtain ⟨field, inside, rfl⟩ := List.mem_map.mp member
    have smaller := Named.sizeOf_value_lt_of_mem inside
    rw [dict.sizeOf_spec]
    omega
  | list line items | and line items | or line items =>
    have smaller : sizeOf child < sizeOf items := List.sizeOf_lt_of_mem member
    simp only [list.sizeOf_spec, and.sizeOf_spec, or.sizeOf_spec]
    omega
  | not line operand =>
    rw [List.mem_singleton.mp member, not.sizeOf_spec]
    omega
  | _ => exact absurd member List.not_mem_nil

/-- What holds of a filter whenever it holds of its children holds of every filter. -/
theorem induction_on_children {motive : Filter → Prop}
    (step : ∀ filter, (∀ child ∈ filter.children, motive child) → motive filter) (filter : Filter) :
    motive filter :=
  step filter fun child _ => induction_on_children step child
termination_by filter
decreasing_by exact sizeOf_lt_of_mem_children ‹_›

/-- A filter asks for a tag in one of its implicit tag collections. -/
def Implies (filter : Filter) (tag : String) : Prop :=
  ∃ line groups, IsNode (.implicitTags line groups) filter ∧ ∃ group ∈ groups, tag ∈ group.tags

/-- A filter asks for a tag in one of its explicit tag collections. -/
def Requires (filter : Filter) (tag : String) : Prop :=
  ∃ line groups, IsNode (.explicitTags line groups) filter ∧ ∃ group ∈ groups, tag ∈ group.tags

/-! ## Tag collections -/

/-- The tag collection that a filter itself is. -/
def ownReferences : Filter → List TagReference
  | .anything _ .tagCollection => [.anything]
  | .implicitTags _ groups => [.implicit groups]
  | .explicitTags _ groups => [.explicit groups]
  | _ => []

theorem listTagReferences_eq (items : List Filter) :
    listTagReferences items = items.flatMap tagReferences := by
  induction items with
  | nil => rfl
  | cons item rest ih => rw [listTagReferences, ih, List.flatMap_cons]

theorem entryTagReferences_eq (fields : List (Named Filter)) :
    entryTagReferences fields = (fields.map (·.value)).flatMap tagReferences := by
  induction fields with
  | nil => rfl
  | cons field rest ih => rw [entryTagReferences, ih, List.map_cons, List.flatMap_cons]

/-- The tag collections of a filter are its own and then those of its children. -/
theorem tagReferences_eq (filter : Filter) :
    filter.tagReferences = filter.ownReferences ++ filter.children.flatMap tagReferences := by
  cases filter with
  | dict line fields => rw [tagReferences, entryTagReferences_eq]; rfl
  | list line items | and line items | or line items => rw [tagReferences, listTagReferences_eq]; rfl
  | not line operand => rw [tagReferences, children, List.flatMap_singleton]; rfl
  | anything line kind => cases kind <;> rfl
  | _ => rfl

/-- The walk over a filter meets exactly the tag collections among its nodes. -/
theorem mem_tagReferences_iff {reference : TagReference} {filter : Filter} :
    reference ∈ filter.tagReferences ↔ ∃ node, IsNode node filter ∧ reference ∈ node.ownReferences := by
  induction filter using induction_on_children with
  | step filter ih =>
    rw [tagReferences_eq, List.mem_append, List.mem_flatMap]
    constructor
    · rintro (own | ⟨child, member, inside⟩)
      · exact ⟨filter, .whole, own⟩
      · obtain ⟨node, within, own⟩ := (ih child member).mp inside
        exact ⟨node, .inside member within, own⟩
    · rintro ⟨node, within, own⟩
      cases within with
      | whole => exact .inl own
      | inside member within => exact .inr ⟨_, member, (ih _ member).mpr ⟨node, within, own⟩⟩

theorem implicit_mem_ownReferences_iff {groups : List TagGroup} {node : Filter} :
    .implicit groups ∈ node.ownReferences ↔ ∃ line, node = .implicitTags line groups := by
  cases node with
  | anything line kind => cases kind <;> simp [ownReferences]
  | implicitTags line found => simp [ownReferences, eq_comm]
  | _ => simp [ownReferences]

theorem explicit_mem_ownReferences_iff {groups : List TagGroup} {node : Filter} :
    .explicit groups ∈ node.ownReferences ↔ ∃ line, node = .explicitTags line groups := by
  cases node with
  | anything line kind => cases kind <;> simp [ownReferences]
  | explicitTags line found => simp [ownReferences, eq_comm]
  | _ => simp [ownReferences]

/-- A filter implies the tags of the implicit collections that the walk meets. -/
theorem implies_iff {filter : Filter} {tag : String} :
    filter.Implies tag ↔ ∃ groups, .implicit groups ∈ filter.tagReferences ∧ tag ∈ unionTags groups := by
  simp only [Implies, mem_tagReferences_iff, implicit_mem_ownReferences_iff, mem_unionTags]
  constructor
  · rintro ⟨line, groups, within, listed⟩
    exact ⟨groups, ⟨_, within, line, rfl⟩, listed⟩
  · rintro ⟨groups, ⟨_, within, line, rfl⟩, listed⟩
    exact ⟨line, groups, within, listed⟩

/-- A filter requires the tags of the explicit collections that the walk meets. -/
theorem requires_iff {filter : Filter} {tag : String} :
    filter.Requires tag ↔ ∃ groups, .explicit groups ∈ filter.tagReferences ∧ tag ∈ unionTags groups := by
  simp only [Requires, mem_tagReferences_iff, explicit_mem_ownReferences_iff, mem_unionTags]
  constructor
  · rintro ⟨line, groups, within, listed⟩
    exact ⟨groups, ⟨_, within, line, rfl⟩, listed⟩
  · rintro ⟨groups, ⟨_, within, line, rfl⟩, listed⟩
    exact ⟨line, groups, within, listed⟩

/-- The implicit references of a filter are the tags that it implies. -/
theorem mem_implicitReferences_iff {filter : Filter} {tag : String} :
    tag ∈ filter.implicitReferences ↔ filter.Implies tag := by
  rw [implies_iff, implicitReferences]
  induction filter.tagReferences with
  | nil => simp
  | cons reference rest ih => cases reference <;> simp [ih, or_and_right, exists_or]

/-! ## Unknown tags -/

private theorem mem_foldr_unknown {registry : Registry} {self : Option String}
    {references : List TagReference} {tag : String} :
    tag ∈ references.foldr (fun reference tags => reference.unknownTags registry self ∪ tags)
        (∅ : NameSet) ↔ ∃ reference ∈ references, tag ∈ reference.unknownTags registry self := by
  induction references with
  | nil => simp
  | cons reference rest ih =>
    rw [List.foldr_cons, NameSet.mem_union, ih]
    simp only [List.mem_cons, exists_eq_or_imp]

/-- The tags that a filter asks for and the registry lacks; an explicit one may be the tag that the
    filter defines. -/
theorem mem_unknownTags_iff {registry : Registry} {self : Option String} {filter : Filter}
    {tag : String} :
    tag ∈ filter.unknownTags registry self ↔
      registry.contains tag = false ∧ (filter.Implies tag ∨ filter.Requires tag ∧ self ≠ some tag) := by
  rw [unknownTags, mem_foldr_unknown, implies_iff, requires_iff]
  constructor
  · rintro ⟨reference, member, unknown⟩
    cases reference with
    | anything => simp [TagReference.unknownTags, TagReference.tags] at unknown
    | implicit groups =>
      simp only [TagReference.unknownTags, TagReference.tags, NameSet.mem_filter, Bool.and_eq_true,
        Bool.not_eq_true'] at unknown
      exact ⟨unknown.2.1, .inl ⟨groups, member, unknown.1⟩⟩
    | explicit groups =>
      simp only [TagReference.unknownTags, TagReference.tags, NameSet.mem_filter, Bool.and_eq_true,
        Bool.not_eq_true', bne_iff_ne] at unknown
      exact ⟨unknown.2.1, .inr ⟨⟨groups, member, unknown.1⟩, unknown.2.2⟩⟩
  · rintro ⟨lacking, ⟨groups, member, listed⟩ | ⟨⟨groups, member, listed⟩, other⟩⟩
    · exact ⟨_, member, by simpa [TagReference.unknownTags, TagReference.tags, lacking] using listed⟩
    · refine ⟨_, member, ?_⟩
      simp only [TagReference.unknownTags, TagReference.tags, NameSet.mem_filter, Bool.and_eq_true,
        Bool.not_eq_true', bne_iff_ne]
      exact ⟨listed, lacking, other⟩

end Filter

/-! ## Parts -/

/-- A part of a filter. -/
inductive FilterPart where
  | value (node : Filter)
  | field (entry : Named Filter)
  | type (node : TypeFilter)
  | dim (node : DimFilter)

namespace FilterPart

def line : FilterPart → Nat
  | .value node => node.line
  | .field entry => entry.line
  | .type node => node.line
  | .dim node => node.line

/-- The parts directly below a part. -/
def children : FilterPart → List FilterPart
  | .value (.dict _ fields) => fields.map .field
  | .value (.list _ items) => items.map .value
  | .value (.and _ operands) | .value (.or _ operands) => operands.map .value
  | .value (.not _ operand) => [.value operand]
  | .value (.typeDeclaration _ expected) => [.type expected]
  | .value (.anything ..) | .value (.string ..) | .value (.bool ..) | .value (.int ..) | .value (.float ..)
  | .value (.implicitTags ..) | .value (.explicitTags ..) => []
  | .field entry => [.value entry.value]
  | .type (.tensor _ dims) => dims.map .dim
  | .type (.list _ item) => [.type item]
  | .type (.tuple _ items) => items.map .type
  | .type (.namedValues _ values) => values.map (.type ·.value)
  | .type (.anything ..) => []
  | .dim (.and _ operands) | .dim (.or _ operands) => operands.map .dim
  | .dim (.not _ operand) => [.dim operand]
  | .dim (.anything _) | .dim (.size ..) => []

/-- A part is the whole of another one or stands somewhere below it. -/
inductive StandsIn (part : FilterPart) : FilterPart → Prop
  | whole : StandsIn part part
  | inside {whole child : FilterPart} : child ∈ whole.children → StandsIn part child → StandsIn part whole

/-- Some part of a part is at a line. -/
def HasLine (whole : FilterPart) (line : Nat) : Prop := ∃ part : FilterPart, part.StandsIn whole ∧ part.line = line

variable {whole child : FilterPart} {line : Nat}

theorem hasLine_line (whole : FilterPart) : whole.HasLine whole.line := ⟨whole, .whole, rfl⟩

theorem HasLine.of_child (has : child.HasLine line) (member : child ∈ whole.children) : whole.HasLine line := by
  obtain ⟨part, stands, isLine⟩ := has
  exact ⟨part, .inside member stands, isLine⟩

/-- The lines of a child of a filter are lines of the filter. -/
theorem HasLine.of_node {filter node : Filter} (has : (value node).HasLine line)
    (member : node ∈ filter.children) : (value filter).HasLine line := by
  cases filter with
  | dict dictLine fields =>
    obtain ⟨entry, listed, rfl⟩ := List.mem_map.mp member
    have inEntry : (field entry).HasLine line := has.of_child (List.mem_singleton_self _)
    exact inEntry.of_child (List.mem_map_of_mem listed)
  | list listLine items | and listLine items | or listLine items => exact has.of_child (List.mem_map_of_mem member)
  | not notLine operand =>
    rw [List.mem_singleton.mp member] at has
    exact has.of_child (List.mem_singleton_self _)
  | _ => exact absurd member List.not_mem_nil

end FilterPart

end ModelCatalog
