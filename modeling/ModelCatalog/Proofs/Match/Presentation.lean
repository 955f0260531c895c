import ModelCatalog.Proofs.Manifest.Rearrangement
import ModelCatalog.Proofs.Match.Reachable

/-!
# The order of presentation

The outcome of a match does not depend on the order in which a manifest is presented: a manifest with distinct
names and a rearranged one are matched alike, failures included (`Filter.evaluate_rearranged`). Neither does it
depend on how the tags of a tag collection of a filter are grouped (`Filter.Regrouped.evaluate_eq`). Main
statement: with a manifest that was read, a rearranged one has the same outcome in every registry, and so it has
with regrouped filters and definitions (`Registry.matchManifest_rearranged`).
-/

namespace ModelCatalog

/-! ## Types -/

/-- A type with distinct names and a rearranged one are matched alike. -/
theorem TypeFilter.evaluate_rearranged {stack : List String} (filter : TypeFilter) {type other : TypeDecl}
    (distinct : type.Distinct) (rearranged : type.Rearranged other) :
    filter.evaluate stack type = filter.evaluate stack other := by
  cases filter with
  | anything line kind => rw [evaluate, evaluate, rearranged.line_eq, rearranged.kind_eq]
  | tensor line dims =>
    -- The dimensions of a tensor are never rearranged.
    cases rearranged <;> rfl
  | list line item =>
    cases rearranged with
    | same | tuple | namedValues => rfl
    | list inner =>
      cases distinct with
      | list innerDistinct => exact evaluate_rearranged item innerDistinct inner
  | tuple line items =>
    cases rearranged with
    | same | list | namedValues => rfl
    | tuple each =>
      cases distinct with
      | tuple eachDistinct =>
        rw [evaluate, evaluate, evaluateEach_eq, evaluateEach_eq, each.length_eq]
        refine congrArg _ (funext fun _ => forM_eq_of_forall₂ ?_)
        have sameItems : List.Forall₂ Eq items items := List.forall₂_refl items
        have pairs := forall₂_zip sameItems each
        refine forall₂_imp_of_mem pairs fun pair member otherPair related => ?_
        obtain ⟨sameItem, inner⟩ := related
        obtain ⟨itemInside, typeInside⟩ := List.of_mem_zip member
        rw [← sameItem]
        exact evaluate_rearranged pair.1 (eachDistinct pair.2 typeInside) inner
  | namedValues line values =>
    cases rearranged with
    | same | list | tuple => rfl
    | namedValues perm each =>
      cases distinct with
      | namedValues names eachDistinct =>
        rw [evaluate, evaluate, evaluateEntries_eq, evaluateEntries_eq, entryNames_rearranged perm each]
        refine congrArg _ (funext fun _ => forM_congr fun value member => ?_)
        rw [evaluateEntry, evaluateEntry]
        rcases findEntry_rearranged names perm each value.name with
          ⟨none, otherNone⟩ | ⟨entry, other, found, otherFound, inner⟩
        · rw [none, otherNone]
        · rw [found, otherFound]
          exact evaluate_rearranged value.value (eachDistinct entry (mem_of_findEntry found).1) inner
termination_by filter
decreasing_by
  · rw [list.sizeOf_spec]
    omega
  · have smaller := List.sizeOf_lt_of_mem itemInside
    rw [tuple.sizeOf_spec]
    omega
  · have smaller := Named.sizeOf_value_lt_of_mem member
    rw [namedValues.sizeOf_spec]
    omega

/-! ## Values -/

namespace Filter

variable {resolve : Resolver} {stack : List String}

/-- A manifest with distinct names and a rearranged one are matched alike. -/
theorem evaluate_rearranged (filter : Filter) {node other : Manifest} (distinct : node.Distinct)
    (rearranged : node.Rearranged other) :
    filter.evaluate resolve stack node = filter.evaluate resolve stack other := by
  induction filter using induction_on_children generalizing node other with
  | step filter ih =>
    have opposite : ∀ child ∈ filter.children,
        child.evaluate resolve stack node = child.evaluate resolve stack other :=
      fun child member => ih child member distinct rearranged
    cases filter with
    | and line operands =>
      rw [evaluate, evaluate, evaluateAll_eq, evaluateAll_eq]
      exact forM_congr opposite
    | or line operands =>
      rw [evaluate, evaluate, evaluateAny_eq, evaluateAny_eq, rearranged.line_eq]
      exact Outcome.firstOf_congr opposite
    | not line operand =>
      rw [evaluate, evaluate, opposite operand (List.mem_singleton_self _), rearranged.line_eq]
    | implicitTags line groups => rw [evaluate, evaluate, rearranged.line_eq]
    | anything line kind => rw [evaluate, evaluate, rearranged.line_eq, rearranged.kind_eq]
    | dict line fields =>
      cases rearranged with
      | same | list | typeDeclaration | tagCollection => rfl
      | dict perm each =>
        cases distinct with
        | dict names eachDistinct =>
          rw [evaluate, evaluate, evaluateEntries_eq, evaluateEntries_eq]
          refine forM_congr fun field member => ?_
          rw [evaluateEntry, evaluateEntry]
          rcases findEntry_rearranged names perm each field.name with
            ⟨none, otherNone⟩ | ⟨entry, other, found, otherFound, inner⟩
          · rw [none, otherNone]
          · rw [found, otherFound]
            exact ih field.value (List.mem_map_of_mem member) (eachDistinct entry (mem_of_findEntry found).1) inner
    | list line items =>
      cases rearranged with
      | same | dict | typeDeclaration | tagCollection => rfl
      | list each =>
        cases distinct with
        | list eachDistinct =>
          rw [evaluate, evaluate, evaluateEach_eq, evaluateEach_eq, each.length_eq]
          refine congrArg _ (funext fun _ => forM_eq_of_forall₂ ?_)
          have sameItems : List.Forall₂ Eq items items := List.forall₂_refl items
          have pairs := forall₂_zip sameItems each
          refine forall₂_imp_of_mem pairs fun pair member otherPair related => ?_
          obtain ⟨sameItem, inner⟩ := related
          obtain ⟨itemInside, valueInside⟩ := List.of_mem_zip member
          rw [← sameItem]
          exact ih pair.1 itemInside (eachDistinct pair.2 valueInside) inner
    | typeDeclaration line expected =>
      cases rearranged with
      | same | dict | list | tagCollection => rfl
      | typeDeclaration inner =>
        cases distinct with
        | typeDeclaration typeDistinct => exact expected.evaluate_rearranged typeDistinct inner
    | explicitTags line required =>
      cases rearranged with
      | same | dict | list | typeDeclaration => rfl
      | tagCollection sameTags => rw [evaluate, evaluate, sameTags]
    | string | bool | int | float => cases rearranged <;> rfl

/-- A filter with other groups of the same tags in its tag collections. -/
inductive Regrouped : Filter → Filter → Prop
  | same {filter : Filter} : Regrouped filter filter
  | dict {line : Nat} {fields others : List (Named Filter)} : List.Forall₂ (Named.Related Regrouped) fields others →
      Regrouped (.dict line fields) (.dict line others)
  | list {line : Nat} {items others : List Filter} : List.Forall₂ Regrouped items others →
      Regrouped (.list line items) (.list line others)
  | and {line : Nat} {operands others : List Filter} : List.Forall₂ Regrouped operands others →
      Regrouped (.and line operands) (.and line others)
  | or {line : Nat} {operands others : List Filter} : List.Forall₂ Regrouped operands others →
      Regrouped (.or line operands) (.or line others)
  | not {line : Nat} {operand other : Filter} : Regrouped operand other →
      Regrouped (.not line operand) (.not line other)
  | implicitTags {line : Nat} {groups others : List TagGroup} : unionTags groups = unionTags others →
      Regrouped (.implicitTags line groups) (.implicitTags line others)
  | explicitTags {line : Nat} {groups others : List TagGroup} : unionTags groups = unionTags others →
      Regrouped (.explicitTags line groups) (.explicitTags line others)

/-- A regrouped filter matches alike. -/
theorem Regrouped.evaluate_eq {filter other : Filter} (regrouped : filter.Regrouped other) (node : Manifest) :
    filter.evaluate resolve stack node = other.evaluate resolve stack node := by
  induction filter using induction_on_children generalizing other node with
  | step filter ih =>
    cases regrouped with
    | same => rfl
    | and each =>
      rw [evaluate, evaluate, evaluateAll_eq, evaluateAll_eq]
      exact forM_eq_of_forall₂ (forall₂_imp_of_mem each fun operand member _ inner => ih operand member inner node)
    | or each =>
      rw [evaluate, evaluate, evaluateAny_eq, evaluateAny_eq]
      refine Outcome.firstOf_eq_of_forall₂ (forall₂_imp_of_mem each fun operand member _ inner => ?_)
      exact ih operand member inner node
    | not inner => rw [evaluate, evaluate, ih _ (List.mem_singleton_self _) inner]
    | implicitTags sameTags => rw [evaluate, evaluate, sameTags]
    | explicitTags sameTags =>
      cases node with
      | tagCollection => rw [evaluate, evaluate, sameTags]
      | _ => rfl
    | dict each =>
      cases node with
      | dict manifestLine entries =>
        rw [evaluate, evaluate, evaluateEntries_eq, evaluateEntries_eq]
        refine forM_eq_of_forall₂ (forall₂_imp_of_mem each fun field member other related => ?_)
        cases related with
        | @entry name line value other inner =>
          rw [evaluateEntry, evaluateEntry]
          cases findEntry name entries with
          | none => rfl
          | some found => exact ih value (List.mem_map_of_mem member) inner found.value
      | _ => rfl
    | list each =>
      cases node with
      | list manifestLine values =>
        rw [evaluate, evaluate, evaluateEach_eq, evaluateEach_eq, each.length_eq]
        refine congrArg _ (funext fun _ => forM_eq_of_forall₂ ?_)
        have sameValues : List.Forall₂ Eq values values := List.forall₂_refl values
        have pairs := forall₂_zip each sameValues
        refine forall₂_imp_of_mem pairs fun pair member otherPair related => ?_
        obtain ⟨inner, sameValue⟩ := related
        rw [← sameValue]
        exact ih pair.1 (List.of_mem_zip member).1 inner pair.2
      | _ => rfl

end Filter

/-! ## Registries -/

namespace Registry

variable {registry other : Registry}

/-- A registry with regrouped definitions of the same tags. -/
def Regrouped (registry other : Registry) : Prop :=
  ∀ tag, Option.Rel Filter.Regrouped (registry.get? tag) (other.get? tag)

/-- Tags are resolved alike against a rearranged manifest with regrouped definitions. -/
theorem resolve_rearranged (registries : registry.Regrouped other) {root rearranged : Manifest}
    (distinct : root.Distinct) (manifests : root.Rearranged rearranged) (tag : String) :
    registry.resolve root [] tag = other.resolve rearranged [] tag := by
  refine resolve_congr (fun _ => True) (fun tag _ => ?_) [] trivial
  have related := registries tag
  generalize registry.get? tag = found, other.get? tag = otherFound at related
  cases related with
  | none => exact .inl ⟨rfl, rfl⟩
  | @some definition opposite regrouped =>
    refine .inr ⟨definition, opposite, rfl, rfl, fun resolve resolve' stack same => ?_⟩
    calc definition.evaluate resolve stack root
      _ = definition.evaluate resolve stack rearranged := definition.evaluate_rearranged distinct manifests
      _ = opposite.evaluate resolve stack rearranged := regrouped.evaluate_eq rearranged
      _ = opposite.evaluate resolve' stack rearranged := Filter.evaluate_congr fun tag _ => same tag trivial

/-- A manifest that was read and a rearranged one have the same outcome, also with a regrouped filter and
    regrouped definitions. -/
theorem matchManifest_rearranged (registries : registry.Regrouped other) {filter regrouped : Filter}
    (filters : filter.Regrouped regrouped) {document : Element} {manifest rearranged : Manifest}
    (read : Manifest.ofElement document = .ok manifest) (manifests : manifest.Rearranged rearranged) :
    registry.matchManifest filter manifest = other.matchManifest regrouped rearranged := by
  have distinct := Manifest.distinct_of_ofElement read
  calc filter.evaluate (registry.resolve manifest []) [] manifest
    _ = filter.evaluate (registry.resolve manifest []) [] rearranged := filter.evaluate_rearranged distinct manifests
    _ = regrouped.evaluate (registry.resolve manifest []) [] rearranged := filters.evaluate_eq rearranged
    _ = regrouped.evaluate (other.resolve rearranged []) [] rearranged :=
      Filter.evaluate_congr fun tag _ => resolve_rearranged registries distinct manifests tag

/-- The group of one tag. -/
def groupOf (line : Nat) (tag : String) : TagGroup := ⟨line, tag, NameSet.empty.insert tag⟩

def twoGroups : List TagGroup := [groupOf 3 "a", groupOf 4 "b"]

/-- The document of a dict that declares the two tags and has a number. -/
def declaringDict : Element :=
  ⟨"dict", 1, [], none, [
    ⟨"named-field", 2, [("name", "tags")], none, [⟨"tag-collection", 2, [], none,
      [⟨"condensed-tags", 3, [], some "a", []⟩, ⟨"condensed-tags", 4, [], some "b", []⟩]⟩]⟩,
    ⟨"named-field", 5, [("name", "n")], none, [⟨"int", 5, [], some "2", []⟩]⟩]⟩

def tagsField (groups : List TagGroup) : Named Manifest := ⟨"tags", 2, .tagCollection 2 groups⟩

def numberField : Named Manifest := ⟨"n", 5, .int 5 (.filled 2)⟩

/-- A dict in which the tags of groups are declared. -/
def declares (line : Nat) (groups : List TagGroup) : Filter := .dict line [⟨"tags", line, .explicitTags line groups⟩]

/-- A registry whose only tag asks for the tags of groups. -/
def declaringRegistry (groups : List TagGroup) : Registry := Registry.empty.insert "t" (declares 1 groups)

/-- A filter that asks for the tag of the registry and for the tags of groups. -/
def asksFor (groups : List TagGroup) : Filter := .and 1 [reference 2 "t", declares 3 groups]

/-- The filter asks for a third tag, which the manifest lacks. -/
theorem declaringDict_matchManifest_rearranged :
    Manifest.ofElement declaringDict = .ok (.dict 1 [tagsField twoGroups, numberField]) ∧
      (declaringRegistry twoGroups).matchManifest (asksFor (groupOf 5 "c" :: twoGroups))
          (.dict 1 [tagsField twoGroups, numberField]) = .error ⟨.undeclaredTags (.ofList ["c"]), 3, 2, []⟩ ∧
      (declaringRegistry twoGroups).matchManifest (asksFor (groupOf 5 "c" :: twoGroups))
          (.dict 1 [tagsField twoGroups, numberField]) =
        (declaringRegistry twoGroups.reverse).matchManifest (asksFor (twoGroups ++ [groupOf 5 "c"]))
          (.dict 1 [numberField, tagsField twoGroups.reverse]) := by
  have read : Manifest.ofElement declaringDict = .ok (.dict 1 [tagsField twoGroups, numberField]) := by
    with_unfolding_all rfl
  have sameTags : unionTags twoGroups = unionTags twoGroups.reverse := by decide +kernel
  have sameWithThird : unionTags (groupOf 5 "c" :: twoGroups) = unionTags (twoGroups ++ [groupOf 5 "c"]) := by
    decide +kernel
  have regrouped : ∀ line {groups others}, unionTags groups = unionTags others →
      (declares line groups).Regrouped (declares line others) :=
    fun line _ _ same => .dict (.cons (.entry (.explicitTags same)) .nil)
  have definitions : (declaringRegistry twoGroups).Regrouped (declaringRegistry twoGroups.reverse) := by
    intro tag
    rw [declaringRegistry, declaringRegistry, get?_insert, get?_insert]
    by_cases defined : tag = "t"
    · rw [if_pos defined, if_pos defined]
      exact .some (regrouped 1 sameTags)
    · rw [if_neg defined, if_neg defined]
      exact .none
  have manifests : (Manifest.dict 1 [tagsField twoGroups, numberField]).Rearranged
      (.dict 1 [numberField, tagsField twoGroups.reverse]) :=
    .dict (List.Perm.swap _ _ []) (.cons (.entry .same) (.cons (.entry (.tagCollection sameTags)) .nil))
  have filters : (asksFor (groupOf 5 "c" :: twoGroups)).Regrouped (asksFor (twoGroups ++ [groupOf 5 "c"])) :=
    .and (.cons .same (.cons (regrouped 3 sameWithThird) .nil))
  exact ⟨read, by decide +kernel, matchManifest_rearranged definitions filters read manifests⟩

end Registry

end ModelCatalog
