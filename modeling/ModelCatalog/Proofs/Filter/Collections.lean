import ModelCatalog.Proofs.Filter.Nodes
import ModelCatalog.Proofs.Grammar.Filters
import ModelCatalog.Proofs.Grammar.Within

/-!
# Tag collections of a document

The tag collections that stand in a document are the tag collections among the nodes of the filter that it
spells: the document has no others (`Filter.SpelledBy.collections_are_nodes`), nor expressions outside them
(`Filter.SpelledBy.expressions_are_groups`), and every node is spelled by an element of the document
(`Filter.SpelledBy.exists_of_isNode`). So the tags that a filter asks for are those of the
expressions in its document, and the tags that a filter is refused for can be read off the document
(`Registry.refuses_exactly_unknown_tags`).
-/

namespace ModelCatalog

open Element

/-! ## No other collections -/

/-- An element is a tag collection, or an expression as it stands in one. -/
def Element.HoldsTags (e : Element) : Prop :=
  e.tag = ValueTag.tagCollection.name ∨ e.tag = ValueTag.condensedTags.name

/-- No tags are asked for in what is asked of a dimension. -/
theorem DimFilter.SpelledBy.holds_no_tags {e : Element} {filter : DimFilter} (spelled : filter.SpelledBy e) :
    e.Throughout fun part => ¬part.HoldsTags := by
  have below : ∀ child ∈ e.children, ∀ operand : DimFilter, operand.SpelledBy child →
      child.Throughout fun part => ¬part.HoldsTags :=
    fun child member operand given => holds_no_tags given
  cases spelled with
  | anything isDim asks =>
    refine .of_childless ?_ asks.childless
    rw [HoldsTags, isDim]
    decide
  | size isDim asks =>
    refine .of_childless ?_ asks.childless
    rw [HoldsTags, isDim]
    decide
  | logical isLogical connected =>
    have own : ¬e.HoldsTags := by
      rw [HoldsTags, isLogical]
      decide
    cases connected with
    | and _ _ each | or _ _ each => exact .of_spelled own each fun child member operand _ => below child member operand
    | not _ alone given => exact .of_onlyChild own alone (below _ (mem_children_of_alone alone) _ given)
termination_by sizeOf e
decreasing_by exact sizeOf_lt_of_mem_children ‹_›

/-- No tags are asked for in what is asked of a type. -/
theorem TypeFilter.SpelledBy.holds_no_tags {e : Element} {filter : TypeFilter} (spelled : filter.SpelledBy e) :
    e.Throughout fun part => ¬part.HoldsTags := by
  have below : ∀ inner, sizeOf inner < sizeOf e → ∀ type : TypeFilter, type.SpelledBy inner →
      inner.Throughout fun part => ¬part.HoldsTags :=
    fun inner smaller type given => holds_no_tags given
  have own : ∀ kind : TypeKind, e.tag = kind.tag.name → ¬e.HoldsTags := by
    intro kind tagged
    rw [HoldsTags, tagged]
    cases kind <;> decide
  cases spelled with
  | primitive tagged childless _ => exact .of_childless (own _ tagged) childless
  | anything _ tagged asks => exact .of_childless (own _ tagged) asks.childless
  | tensor tagged _ each => exact .of_spelled (own .tensor tagged) each fun _ _ _ _ given => given.holds_no_tags
  | list tagged _ alone given =>
    have smaller := sizeOf_lt_of_mem_children (mem_children_of_alone alone)
    exact .of_onlyChild (own .list tagged) alone (below _ smaller _ given)
  | tuple tagged _ each =>
    exact .of_spelled (own .tuple tagged) each fun child member item _ =>
      below child (sizeOf_lt_of_mem_children member) item
  | namedValues tagged _ each _ =>
    refine .of_entries (own .namedValues tagged) each (fun part isEntry => ?_) fun inner smaller value _ =>
      below inner smaller value.value
    rw [HoldsTags, isEntry]
    decide
termination_by sizeOf e

namespace Filter

/-- An element in a document that spells a filter has no tags, or it spells a node of the filter or a group of tags. -/
theorem SpelledBy.tags_are_spelled {e : Element} {filter : Filter} (spelled : filter.SpelledBy e) :
    e.Throughout fun part => part.HoldsTags →
      (∃ node, IsNode node filter ∧ node.SpelledBy part) ∨ ∃ group : TagGroup, group.SpelledBy part := by
  -- What is found in the document of a child is found in the filter.
  have below : ∀ inner, sizeOf inner < sizeOf e → ∀ child ∈ filter.children, child.SpelledBy inner →
      inner.Throughout fun part => part.HoldsTags →
        (∃ node, IsNode node filter ∧ node.SpelledBy part) ∨ ∃ group : TagGroup, group.SpelledBy part := by
    intro inner smaller child member given part within holdsTags
    refine (tags_are_spelled given part within holdsTags).imp_left fun found => ?_
    obtain ⟨node, isNode, spells⟩ := found
    exact ⟨node, .inside member isNode, spells⟩
  have own : e.HoldsTags →
      (∃ node, IsNode node filter ∧ node.SpelledBy e) ∨ ∃ group : TagGroup, group.SpelledBy e :=
    fun _ => .inl ⟨filter, .whole, spelled⟩
  cases spelled with
  | anything _ asks => exact .of_childless own asks.childless
  | string _ asks | bool _ asks | int _ asks | float _ asks => exact .of_childless own asks.childless
  | dict _ _ each _ =>
    refine .of_entries own each (fun part isEntry holdsTags => ?_) fun inner smaller field listed =>
      below inner smaller field.value (List.mem_map_of_mem listed)
    rw [HoldsTags, isEntry] at holdsTags
    exact absurd holdsTags (by decide)
  | list _ _ each =>
    exact .of_spelled own each fun child member => below child (Element.sizeOf_lt_of_mem_children member)
  | typeDeclaration _ _ alone given =>
    exact .of_onlyChild own alone (given.holds_no_tags.imp fun _ none holdsTags => absurd holdsTags none)
  | logical _ connected =>
    cases connected with
    | and _ _ each | or _ _ each =>
      exact .of_spelled own each fun child member => below child (Element.sizeOf_lt_of_mem_children member)
    | not _ alone given =>
      have smaller := Element.sizeOf_lt_of_mem_children (mem_children_of_alone alone)
      exact .of_onlyChild own alone (below _ smaller _ (List.mem_singleton_self _) given)
  | implicitTags _ _ each | explicitTags _ _ each =>
    exact .of_spelled own each fun _ _ group _ given => .of_childless (fun _ => .inr ⟨group, given⟩) given.childless
termination_by sizeOf e

/-- Every tag collection in a document that spells a filter spells a node of the filter. -/
theorem SpelledBy.collections_are_nodes {e : Element} {filter : Filter} (spelled : filter.SpelledBy e) :
    e.Throughout fun part => part.tag = ValueTag.tagCollection.name →
      ∃ node, IsNode node filter ∧ node.SpelledBy part := by
  intro part within isCollection
  rcases spelled.tags_are_spelled part within (.inl isCollection) with found | ⟨group, given⟩
  · exact found
  · rw [given.tag] at isCollection
    exact absurd isCollection (by decide)

/-- No filter is spelled by an expression. -/
theorem SpelledBy.not_expression {e : Element} {filter : Filter} (spelled : filter.SpelledBy e) :
    e.tag ≠ ValueTag.condensedTags.name := by
  cases spelled with
  | @anything _ kind tagged _ =>
    rw [tagged]
    cases kind <;> decide
  | dict tagged _ _ _ | list tagged _ _ | string tagged _ | bool tagged _ | int tagged _ | float tagged _
  | typeDeclaration tagged _ _ _ | logical tagged _ | implicitTags tagged _ _ | explicitTags tagged _ _ =>
    rw [tagged]
    decide

/-- Every expression in a document that spells a filter spells a group of tags. -/
theorem SpelledBy.expressions_are_groups {e : Element} {filter : Filter} (spelled : filter.SpelledBy e) :
    e.Throughout fun part => part.tag = ValueTag.condensedTags.name → ∃ group : TagGroup, group.SpelledBy part := by
  intro part within isExpression
  rcases spelled.tags_are_spelled part within (.inr isExpression) with ⟨node, _, given⟩ | found
  · exact absurd isExpression given.not_expression
  · exact found

/-! ## Every node -/

variable {e : Element} {filter : Filter}

/-- Every child of a filter is spelled by an element of the document. -/
theorem SpelledBy.exists_of_mem_children (spelled : filter.SpelledBy e) {child : Filter}
    (member : child ∈ filter.children) : ∃ part : Element, part.IsWithin e ∧ child.SpelledBy part := by
  cases spelled with
  | dict _ _ each _ =>
    obtain ⟨field, listed, rfl⟩ := List.mem_map.mp member
    obtain ⟨entry, isChild, given⟩ := exists_of_forall₂_of_mem each listed
    cases given with
    | @entry _ inner _ _ _ _ _ alone given =>
      exact ⟨inner, .inside isChild (.inside (mem_children_of_alone alone) .whole), given⟩
  | list _ _ each =>
    obtain ⟨part, isChild, given⟩ := exists_of_forall₂_of_mem each member
    exact ⟨part, .inside isChild .whole, given⟩
  | logical _ connected =>
    cases connected with
    | and _ _ each | or _ _ each =>
      obtain ⟨part, isChild, given⟩ := exists_of_forall₂_of_mem each member
      exact ⟨part, .inside isChild .whole, given⟩
    | not _ alone given =>
      rw [List.mem_singleton.mp member]
      exact ⟨_, .inside (mem_children_of_alone alone) .whole, given⟩
  | _ => exact absurd member List.not_mem_nil

/-- Every node of a filter is spelled by an element of the document. -/
theorem SpelledBy.exists_of_isNode {node : Filter} (within : IsNode node filter) (spelled : filter.SpelledBy e) :
    ∃ part : Element, part.IsWithin e ∧ node.SpelledBy part := by
  induction within generalizing e with
  | whole => exact ⟨e, .whole, spelled⟩
  | inside member _ ih =>
    obtain ⟨upper, isUpper, given⟩ := spelled.exists_of_mem_children member
    obtain ⟨part, isLower, given⟩ := ih given
    exact ⟨part, isUpper.trans isLower, given⟩

end Filter

/-! ## The tags of a document -/

/-- A document asks for a tag: the tag is one of an expression in a tag collection with the operation. -/
def Element.AsksForTag (document : Element) (operation : Operation) (tag : String) : Prop :=
  ∃ collection expression : Element, ∃ tags : NameSet, collection.IsWithin document ∧
    collection.tag = ValueTag.tagCollection.name ∧ collection.Asks operation ∧
    expression.IsWithin collection ∧ expression.tag = ValueTag.condensedTags.name ∧
    Condensed.parse (expression.text.getD "") = .ok tags ∧ tag ∈ tags

/-- The expressions in a tag collection are its children. -/
theorem Element.mem_children_of_expression {e : Element} {groups : List TagGroup}
    (tagged : e.tag = ValueTag.tagCollection.name)
    (each : List.Forall₂ TagGroup.SpelledBy groups e.children) {expression : Element} (within : expression.IsWithin e)
    (isExpression : expression.tag = ValueTag.condensedTags.name) : expression ∈ e.children := by
  cases within with
  | whole =>
    rw [tagged] at isExpression
    exact absurd isExpression (by decide)
  | inside member deeper =>
    obtain ⟨group, _, given⟩ := exists_of_forall₂_of_mem each.flip member
    cases deeper with
    | whole => exact member
    | inside below _ =>
      rw [given.childless] at below
      exact absurd below List.not_mem_nil

namespace Filter

variable {e : Element} {filter : Filter}

section

variable {make : Nat → List TagGroup → Filter} {operation : Operation}

/-- The tags of the nodes that ask for an operation are those that the document asks for with it. -/
theorem SpelledBy.asksForTag_iff
    (isMade : ∀ node : Filter, node.operation = operation → ∃ line groups, node = make line groups)
    (made : ∀ {line groups} {part : Element}, (make line groups).SpelledBy part →
      part.tag = ValueTag.tagCollection.name ∧ part.Asks operation ∧
        List.Forall₂ TagGroup.SpelledBy groups part.children)
    (spelled : filter.SpelledBy e) {tag : String} :
    (∃ line groups, IsNode (make line groups) filter ∧ ∃ group ∈ groups, tag ∈ group.tags) ↔
      e.AsksForTag operation tag := by
  constructor
  · rintro ⟨line, groups, within, group, listed, member⟩
    obtain ⟨collection, inside, given⟩ := spelled.exists_of_isNode within
    obtain ⟨tagged, asks, each⟩ := made given
    obtain ⟨expression, isChild, isGroup⟩ := exists_of_forall₂_of_mem each listed
    exact ⟨collection, expression, group.tags, inside, tagged, asks, .inside isChild .whole, isGroup.tag,
      isGroup.parse_text, member⟩
  · rintro ⟨collection, expression, tags, inside, tagged, asks, within, isExpression, parsed, member⟩
    obtain ⟨node, isNode, given⟩ := spelled.collections_are_nodes collection inside tagged
    obtain ⟨line, groups, rfl⟩ := isMade node (given.asks.unique asks)
    obtain ⟨_, _, each⟩ := made given
    have isChild := mem_children_of_expression tagged each within isExpression
    obtain ⟨group, listed, isGroup⟩ := exists_of_forall₂_of_mem each.flip isChild
    have sameTags : group.tags = tags := Except.ok.inj (isGroup.parse_text.symm.trans parsed)
    exact ⟨line, groups, isNode, group, listed, sameTags ▸ member⟩

end

/-- A filter implies the tags that its document asks for implicitly. -/
theorem SpelledBy.implies_iff (spelled : filter.SpelledBy e) {tag : String} :
    filter.Implies tag ↔ e.AsksForTag .implicitTagMatch tag := by
  refine spelled.asksForTag_iff (fun node isImplicit => ?_) fun given => ?_
  · cases node with
    | implicitTags line groups => exact ⟨line, groups, rfl⟩
    | int _ relation | float _ relation => cases relation <;> cases isImplicit
    | _ => cases isImplicit
  · cases given with
    | implicitTags tagged asks each => exact ⟨tagged, asks.asks, each⟩
    | logical _ connected => cases connected

/-- A filter requires the tags that its document asks for explicitly. -/
theorem SpelledBy.requires_iff (spelled : filter.SpelledBy e) {tag : String} :
    filter.Requires tag ↔ e.AsksForTag .explicitTagMatch tag := by
  refine spelled.asksForTag_iff (fun node isExplicit => ?_) fun given => ?_
  · cases node with
    | explicitTags line groups => exact ⟨line, groups, rfl⟩
    | int _ relation | float _ relation => cases relation <;> cases isExplicit
    | _ => cases isExplicit
  · cases given with
    | explicitTags tagged asks each => exact ⟨tagged, asks.asks, each⟩
    | logical _ connected => cases connected

end Filter

namespace Registry

/-- A document asks for a tag that the registry lacks. The definition of a tag may ask for that tag explicitly. -/
def LacksTagOf (registry : Registry) (self : Option String) (document : Element) (tag : String) : Prop :=
  registry.contains tag = false ∧
    (document.AsksForTag .implicitTagMatch tag ∨ document.AsksForTag .explicitTagMatch tag ∧ self ≠ some tag)

variable {filter : Filter} {document : Element}

/-- The unknown tags of a filter are read off its document. -/
theorem mem_unknownTags_iff_lacksTagOf {registry : Registry} {self : Option String} {tag : String}
    (spelled : filter.SpelledBy document) :
    tag ∈ filter.unknownTags registry self ↔ registry.LacksTagOf self document tag := by
  rw [Filter.mem_unknownTags_iff, spelled.implies_iff, spelled.requires_iff, LacksTagOf]

/-- A filter that is read is valid when it has no unknown tags, and otherwise refused for them. -/
theorem validateFilter_of_read (registry : Registry) (self : Option String)
    (read : Filter.ofElement document = .ok filter) :
    registry.validateFilter self document =
      if (filter.unknownTags registry self).isEmpty then .ok filter
      else .error (.unknownTags (filter.unknownTags registry self)) := by
  rw [validateFilter, read]
  rfl

/-- A filter that is read is valid exactly when its document asks for no tag that the registry lacks, and otherwise
    it is refused for exactly these tags. -/
theorem refuses_exactly_unknown_tags (registry : Registry) (self : Option String)
    (read : Filter.ofElement document = .ok filter) :
    (registry.validateFilter self document = .ok filter ↔ ∀ tag, ¬registry.LacksTagOf self document tag) ∧
      ((∃ tag, registry.LacksTagOf self document tag) →
        ∃ unknown : NameSet, registry.validateFilter self document = .error (.unknownTags unknown) ∧
          ∀ tag, tag ∈ unknown ↔ registry.LacksTagOf self document tag) := by
  have spelled := Filter.ofElement_eq_ok_iff.mp read
  rw [validateFilter_of_read registry self read]
  simp only [← mem_unknownTags_iff_lacksTagOf spelled, ← NameSet.isEmpty_iff]
  constructor
  · by_cases none : (filter.unknownTags registry self).isEmpty
    · simp [none]
    · simp [none]
  · rintro ⟨tag, member⟩
    have some : ¬(filter.unknownTags registry self).isEmpty := fun none => NameSet.isEmpty_iff.mp none tag member
    exact ⟨filter.unknownTags registry self, if_neg some, fun _ => Iff.rfl⟩

/-- A tag collection with one expression. -/
def collectionOf (operation : Operation) (expression : String) : Element :=
  ⟨"tag-collection", 1, [("filter", operation.name)], none, [⟨"condensed-tags", 1, [], some expression, []⟩]⟩

/-- A document that asks for three tags explicitly and, below a negation, for one of them implicitly. -/
def collectingList : Element :=
  ⟨"list", 1, [("filter", "all")], none, [collectionOf .explicitTagMatch "audio, speech, text",
    ⟨"logical", 1, [("filter", "not")], none, [collectionOf .implicitTagMatch "speech"]⟩]⟩

/-- A registry that has one of them. -/
def textRegistry : Registry := Registry.empty.insert "text" (.anything 1 .dict)

/-- As the definition of one of the tags the document is refused for that tag all the same. -/
theorem collectingList_refuses_exactly_unknown_tags :
    ∃ filter, Filter.ofElement collectingList = .ok filter ∧
      ∃ unknown, textRegistry.validateFilter (some "speech") collectingList = .error (.unknownTags unknown) ∧
        unknown.toList = ["audio", "speech"] ∧
        ∀ tag, tag ∈ unknown ↔ textRegistry.LacksTagOf (some "speech") collectingList tag := by
  have accepted : (Filter.ofElement collectingList).isOk = true := by decide +kernel
  obtain ⟨filter, read⟩ := exists_of_isOk accepted
  have refused : (textRegistry.validateFilter (some "speech") collectingList).isOk = false := by decide +kernel
  obtain ⟨validExactly, refusedExactly⟩ := refuses_exactly_unknown_tags textRegistry (some "speech") read
  have lacks : ∃ tag, textRegistry.LacksTagOf (some "speech") collectingList tag := by
    refine Classical.not_forall_not.mp fun none => ?_
    rw [validExactly.mpr none] at refused
    cases refused
  obtain ⟨unknown, isUnknown, exactly⟩ := refusedExactly lacks
  have listed : (match textRegistry.validateFilter (some "speech") collectingList with
      | .error (.unknownTags tags) => tags.toList
      | _ => []) = ["audio", "speech"] := by decide +kernel
  rw [isUnknown] at listed
  exact ⟨filter, read, unknown, isUnknown, listed, exactly⟩

end Registry

end ModelCatalog
