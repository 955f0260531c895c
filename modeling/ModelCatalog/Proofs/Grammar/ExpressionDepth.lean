import ModelCatalog.Proofs.Filter.Collections
import ModelCatalog.Proofs.Manifest.Document
import ModelCatalog.Proofs.Markup.Reading
import ModelCatalog.Proofs.Tag.Depth

/-!
# How deep expressions of documents nest

The limit for the nesting of elements does not limit the nesting of an expression, which is part of a text. In a
document that is accepted, the expansion of an expression goes down exactly as many levels as groups are open at once in
its text (`Grammar.expressions_nest_as_written`), and there are accepted documents of filters and of manifests for every
number of levels (`Grammar.exists_documents_of_any_depth`).
-/

namespace ModelCatalog

open Element ModelCatalog.Condensed

/-! ## Expressions of a document -/

namespace Element

/-- A document is read to a filter or to a manifest. -/
def IsAccepted (document : Element) : Prop :=
  (∃ filter, Filter.ofElement document = .ok filter) ∨ ∃ manifest, Manifest.ofElement document = .ok manifest

/-- The characters of an expression that are expanded: its text without blanks. -/
def expressionWord (e : Element) : List Char := Text.strip e.trimmedText.toList

variable {document expression : Element}

/-- Every expression in a document that is accepted can be read. -/
theorem IsAccepted.exists_tags (accepted : document.IsAccepted) (within : expression.IsWithin document)
    (tagged : expression.tag = ValueTag.condensedTags.name) : ∃ tags, parse expression.trimmedText = .ok tags := by
  rcases accepted with ⟨filter, read⟩ | ⟨manifest, read⟩
  · have spelled := Filter.ofElement_eq_ok_iff.mp read
    obtain ⟨group, given⟩ := spelled.expressions_are_groups expression within tagged
    exact ⟨group.tags, given.tags⟩
  · have spelled := Manifest.ofElement_eq_ok_iff.mp read
    obtain ⟨group, _, given⟩ := (Part.SpelledBy.value spelled).exists_group_of_isWithin within tagged
    exact ⟨group.tags, given.tags⟩

end Element

/-! ## Documents of one expression -/

/-- A tag collection with one expression. -/
def collectionWith (attributes : List (String × String)) (written : String) : Element :=
  ⟨"tag-collection", 1, attributes, none, [⟨"condensed-tags", 1, [], some written, []⟩]⟩

/-- A document is a tag collection with given attributes, in which one expression stands alone. -/
structure Element.HoldsOnly (document : Element) (attributes : List (String × String)) (written : String)
    (expression : Element) : Prop where
  tag : document.tag = ValueTag.tagCollection.name
  attributes : document.attributes = attributes
  text : document.text = none
  alone : document.children = [expression]
  isExpression : expression.tag = ValueTag.condensedTags.name
  noAttributes : expression.attributes = []
  written : expression.text = some written
  childless : expression.children = []

section

variable {attributes : List (String × String)} {written : String}
  (plain : ∀ pair ∈ attributes, Markup.PlainName pair.1.toList) (distinct : (attributes.map (·.1)).Nodup)
  (some : written ≠ "")

include plain distinct some

theorem writable_collectionWith : Markup.Writable (collectionWith attributes written) := by
  have isCollection : Markup.PlainName "tag-collection".toList :=
    ⟨'t', "ag-collection".toList, by decide +kernel, rfl, by decide +kernel⟩
  have isExpression : Markup.PlainName "condensed-tags".toList :=
    ⟨'c', "ondensed-tags".toList, by decide +kernel, rfl, by decide +kernel⟩
  refine .intro isCollection plain distinct nofun fun child member => ?_
  rw [List.mem_singleton.mp member]
  refine .intro isExpression (fun _ listed => absurd listed List.not_mem_nil) .nil ?_ fun _ below => ?_
  · exact fun same => some (Option.some.inj same)
  · exact absurd below List.not_mem_nil

/-- Such a document can be written, and is read back. -/
theorem exists_parse_collectionWith : ∃ text document expression, Markup.parse text = .ok document ∧
    document.HoldsOnly attributes written expression := by
  obtain ⟨text, writes⟩ := (writable_collectionWith plain distinct some).exists_writesDocument
  have fits : (collectionWith attributes written).nesting ≤ Markup.maxDepth := by
    have nests : (collectionWith attributes written).nesting = 2 := rfl
    rw [nests]
    decide
  obtain ⟨document, read, same⟩ := writes.exists_parse fits
  rw [unlined_eq document, unlined_eq (collectionWith attributes written)] at same
  obtain ⟨tag, line, found, content, children⟩ := document
  simp only [collectionWith, Element.mk.injEq, List.map_cons, List.map_nil, List.map_eq_singleton_iff] at same
  obtain ⟨rfl, _, rfl, rfl, expression, rfl, sameExpression⟩ := same
  refine ⟨text, _, expression, read, ?_⟩
  rw [unlined_eq expression, unlined] at sameExpression
  obtain ⟨isExpression, _, noAttributes, isText, noChildren⟩ := Element.mk.inj sameExpression
  exact ⟨rfl, rfl, rfl, rfl, isExpression, noAttributes, isText, List.map_eq_nil_iff.mp noChildren⟩

end

namespace Element.HoldsOnly

variable {document expression : Element} {attributes : List (String × String)} {written : String}
  (holds : document.HoldsOnly attributes written expression)

include holds

theorem isWithin : expression.IsWithin document := .inside (mem_children_of_alone holds.alone) .whole

theorem trimmedText_eq : expression.trimmedText = trimmed written := by
  rw [trimmedText, holds.written, Option.map_some, Option.getD_some]

theorem expressionWord_eq : expression.expressionWord = Text.strip written.toList := by
  rw [expressionWord, holds.trimmedText_eq, trimmed, String.toList_ofList, Text.strip_trim]

theorem noText : document.hasText = false := by
  rw [hasText, trimmedText, holds.text]
  rfl

/-- The expression spells a group when its text is read and not blank. -/
theorem exists_group {tags : NameSet} (read : parse written = .ok tags) (notBlank : Text.strip written.toList ≠ []) :
    ∃ group : TagGroup, List.Forall₂ TagGroup.SpelledBy [group] document.children := by
  have some : expression.trimmedText ≠ "" := by
    intro blank
    have none := holds.expressionWord_eq
    rw [expressionWord, blank] at none
    exact notBlank none.symm
  have noOperation : expression.hasAttribute filterAttribute = false := by
    rw [hasAttribute, attribute?, holds.noAttributes]
    rfl
  have isTags : parse expression.trimmedText = .ok tags := by
    rw [holds.trimmedText_eq, Condensed.parse_trimmed, read]
  rw [holds.alone]
  exact ⟨⟨expression.line, expression.trimmedText, tags⟩,
    .cons ⟨holds.isExpression, noOperation, holds.childless, some, rfl, rfl, isTags⟩ .nil⟩

end Element.HoldsOnly

/-! ## Documents of any depth -/

/-- An expression in a document is expanded `levels` groups deep. -/
def Element.ExpandsTo (document : Element) (levels : Nat) : Prop :=
  ∃ expression : Element, expression.IsWithin document ∧ expression.tag = ValueTag.condensedTags.name ∧
    ∃ inner, LeadsTo (tokens expression.expressionWord) levels (.expression inner)

/-- The expression `a`. -/
def oneName : Expression := [.chain ⟨⟨['a'], by decide⟩, []⟩]

/-- The text of `a` in groups. -/
def wrappedText (levels : Nat) : String := String.ofList (Expression.word (Expression.wrapped oneName levels))

theorem strip_wrappedText (levels : Nat) :
    Text.strip (wrappedText levels).toList = Expression.word (Expression.wrapped oneName levels) := by
  rw [wrappedText, String.toList_ofList, Expression.strip_wrapped (by decide)]

theorem strip_wrappedText_ne_nil (levels : Nat) : Text.strip (wrappedText levels).toList ≠ [] := by
  rw [strip_wrappedText]
  cases levels with
  | zero => exact List.cons_ne_nil _ _
  | succ levels =>
    rw [Expression.word_wrapped]
    exact List.cons_ne_nil _ _

theorem wrappedText_ne_empty (levels : Nat) : wrappedText levels ≠ "" := by
  intro empty
  have some := strip_wrappedText_ne_nil levels
  rw [empty] at some
  exact some rfl

namespace Element.HoldsOnly

variable {document expression : Element} {attributes : List (String × String)} {levels : Nat}
  (holds : document.HoldsOnly attributes (wrappedText levels) expression)

include holds

/-- The expansion of the expression goes down all of its groups. -/
theorem expandsTo : document.ExpandsTo levels := by
  refine ⟨expression, holds.isWithin, holds.isExpression, ?_⟩
  rw [holds.expressionWord_eq, strip_wrappedText, Expression.tokens_of_word, Expression.leadsTo_iff_opens]
  exact Expression.opens_wrapped oneName levels

theorem exists_wrapped_group : ∃ group : TagGroup, List.Forall₂ TagGroup.SpelledBy [group] document.children := by
  obtain ⟨tags, read, _⟩ := parse_word (strip_wrappedText levels).symm
  exact holds.exists_group read (strip_wrappedText_ne_nil levels)

end Element.HoldsOnly

section

variable {document expression : Element} {levels : Nat}

theorem Element.HoldsOnly.filter_read
    (holds : document.HoldsOnly [(filterAttribute, Operation.explicitTagMatch.name)] (wrappedText levels) expression) :
    ∃ filter, Filter.ofElement document = .ok filter := by
  obtain ⟨group, each⟩ := holds.exists_wrapped_group
  have asks : document.Asks .explicitTagMatch := by
    rw [Asks, attribute?, holds.attributes]
    rfl
  exact ⟨_, Filter.ofElement_eq_ok_iff.mpr (.explicitTags holds.tag ⟨asks, holds.noText⟩ each)⟩

theorem Element.HoldsOnly.manifest_read (holds : document.HoldsOnly [] (wrappedText levels) expression) :
    ∃ manifest, Manifest.ofElement document = .ok manifest := by
  obtain ⟨group, each⟩ := holds.exists_wrapped_group
  have noOperation : document.hasAttribute filterAttribute = false := by
    rw [hasAttribute, attribute?, holds.attributes]
    rfl
  exact ⟨_, Manifest.ofElement_eq_ok_iff.mpr (.tagCollection ⟨⟨holds.tag, noOperation⟩, holds.noText⟩ each)⟩

end

namespace Grammar

/-- For every number of levels there are documents of a filter and of a manifest with an expression that goes down as
    many. -/
theorem exists_documents_of_any_depth (levels : Nat) :
    (∃ text document filter, Markup.parse text = .ok document ∧ Filter.ofElement document = .ok filter ∧
      document.ExpandsTo levels) ∧
    ∃ text document manifest, Markup.parse text = .ok document ∧ Manifest.ofElement document = .ok manifest ∧
      document.ExpandsTo levels := by
  constructor
  · have plain : ∀ pair ∈ [(filterAttribute, Operation.explicitTagMatch.name)], Markup.PlainName pair.1.toList := by
      intro pair member
      rw [List.mem_singleton.mp member]
      exact ⟨'f', "ilter".toList, by decide +kernel, rfl, by decide +kernel⟩
    obtain ⟨text, document, expression, read, holds⟩ :=
      exists_parse_collectionWith plain (by decide) (wrappedText_ne_empty levels)
    obtain ⟨filter, isFilter⟩ := holds.filter_read
    exact ⟨text, document, filter, read, isFilter, holds.expandsTo⟩
  · have plain : ∀ pair ∈ ([] : List (String × String)), Markup.PlainName pair.1.toList :=
      fun _ member => absurd member List.not_mem_nil
    obtain ⟨text, document, expression, read, holds⟩ :=
      exists_parse_collectionWith plain .nil (wrappedText_ne_empty levels)
    obtain ⟨manifest, isManifest⟩ := holds.manifest_read
    exact ⟨text, document, manifest, read, isManifest, holds.expandsTo⟩

/-- The elements of a document that is accepted nest within the limit. The expansion of an expression in it goes down as
    many levels as groups are open at once in the text, which are at most half as many as the text has characters. So it
    keeps within the limit exactly when no beginning of the text opens more groups than that. -/
theorem expressions_nest_as_written {text : String} {document expression : Element}
    (read : Markup.parse text = .ok document) (accepted : document.IsAccepted) (within : expression.IsWithin document)
    (tagged : expression.tag = ValueTag.condensedTags.name) :
    document.nesting ≤ Markup.maxDepth ∧
    (∀ levels, (∃ inner, LeadsTo (tokens expression.expressionWord) levels (.expression inner)) ↔
      Opens expression.expressionWord levels) ∧
    (∀ levels, Opens expression.expressionWord levels → 2 * levels ≤ expression.expressionWord.length) ∧
    ((∀ levels inner, LeadsTo (tokens expression.expressionWord) levels (.expression inner) →
        levels ≤ Markup.maxDepth) ↔
      ∀ before, before <+: expression.expressionWord →
        before.count '\x7b' ≤ Markup.maxDepth + before.count '\x7d') := by
  obtain ⟨tags, isRead⟩ := accepted.exists_tags within tagged
  have goesDown : ∀ levels, (∃ inner, LeadsTo (tokens expression.expressionWord) levels (.expression inner)) ↔
      Opens expression.expressionWord levels := fun _ => leadsTo_iff_opens isRead
  refine ⟨Markup.nesting_le_of_parse read, goesDown, fun _ => length_of_opens isRead, ?_, ?_⟩
  · intro limited before begins
    by_cases below : before.count '\x7b' ≤ before.count '\x7d'
    · omega
    · have isOpen : before.count '\x7b' = (before.count '\x7b' - before.count '\x7d') + before.count '\x7d' := by
        omega
      obtain ⟨inner, leads⟩ := (goesDown _).mpr ⟨before, begins, isOpen⟩
      have bound := limited _ inner leads
      omega
  · intro limited levels inner leads
    obtain ⟨before, begins, isOpen⟩ := (goesDown levels).mp ⟨inner, leads⟩
    have bound := limited before begins
    omega

/-- A document of a filter in which one name stands in one group more than elements may nest. -/
def deepText : String :=
  "<tag-collection filter=\"explicit-tag-match\"><condensed-tags>" ++ wrappedText (Markup.maxDepth + 1) ++
    "</condensed-tags></tag-collection>"

theorem deepText_read : ∃ document expression, Markup.parse deepText = .ok document ∧
    document.HoldsOnly [(filterAttribute, Operation.explicitTagMatch.name)] (wrappedText (Markup.maxDepth + 1))
      expression := by
  have checked : (Markup.parse deepText).toOption.any (fun document =>
      document.tag == "tag-collection" && document.attributes == [("filter", "explicit-tag-match")] &&
        document.text == none && document.children.map (fun child =>
          (child.tag, child.attributes, child.text, child.children.length)) ==
            [("condensed-tags", [], some (wrappedText (Markup.maxDepth + 1)), 0)]) = true := by
    decide +kernel
  obtain ⟨document, read, same⟩ := (Option.any_eq_true _ _).mp checked
  simp only [Bool.and_eq_true, beq_iff_eq, List.map_eq_singleton_iff, Prod.mk.injEq, List.length_eq_zero_iff] at same
  obtain ⟨⟨⟨isCollection, attributes⟩, noText⟩, expression, alone, isExpression, none, isText, childless⟩ := same
  exact ⟨document, expression, toOption_eq_some_iff.mp read, isCollection, attributes, noText, alone, isExpression,
    none, isText, childless⟩

/-- Its elements nest within the limit, and its expression does not. -/
theorem deepText_expressions_nest_as_written : ∃ document expression, Markup.parse deepText = .ok document ∧
    document.IsAccepted ∧ document.nesting ≤ Markup.maxDepth ∧
    2 * (Markup.maxDepth + 1) ≤ (expressionWord expression).length ∧
    ¬∀ before, before <+: expressionWord expression →
      before.count '\x7b' ≤ Markup.maxDepth + before.count '\x7d' := by
  obtain ⟨document, expression, read, holds⟩ := deepText_read
  have accepted : document.IsAccepted := .inl holds.filter_read
  obtain ⟨shallow, goesDown, long, limited⟩ :=
    expressions_nest_as_written read accepted holds.isWithin holds.isExpression
  have opens : Opens expression.expressionWord (Markup.maxDepth + 1) := by
    rw [holds.expressionWord_eq, strip_wrappedText]
    exact Expression.opens_wrapped oneName (Markup.maxDepth + 1)
  refine ⟨document, expression, read, accepted, shallow, long _ opens, fun within => ?_⟩
  obtain ⟨inner, leads⟩ := (goesDown _).mpr opens
  exact Nat.not_succ_le_self _ (limited.mpr within _ inner leads)

/-- So the expansion of an expression in a document that is accepted goes down further than elements may nest. -/
theorem deepText_exceeds_limit : ∃ document filter, Markup.parse deepText = .ok document ∧
    Filter.ofElement document = .ok filter ∧ document.ExpandsTo 65 ∧ ¬65 ≤ Markup.maxDepth := by
  obtain ⟨document, expression, read, holds⟩ := deepText_read
  obtain ⟨filter, isFilter⟩ := holds.filter_read
  exact ⟨document, filter, read, isFilter, holds.expandsTo, by decide⟩

end Grammar

end ModelCatalog
