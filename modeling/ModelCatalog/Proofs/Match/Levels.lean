import ModelCatalog.Proofs.Filter.Depth
import ModelCatalog.Proofs.Match.Faults

/-!
# Levels of a match

A match goes down from filters to their operands, fields, items and types, and from references to the
definitions of tags. A match within a number of levels (`Registry.matchManifestWithin`) is the same match,
except that every filter, type filter and dimension filter that is entered takes one level from those that
are left below it, and that there is no outcome when a level is missing. A filter enters at most as many
levels as it is deep, and a resolution as many as the costliest path of references from its tag
(`Registry.evaluateWithin_eq`). In a registry that was loaded these paths are bounded, and so are documents.
So twice the nesting of a document always suffices (`Registry.Loaded.match_within_levels`).
-/

namespace ModelCatalog

open Outcome (Place)

/-- The outcome of a match whose levels are bounded; there is none when they do not suffice. -/
abbrev Bounded := Option Outcome

namespace Bounded

/-- A part, and then another one unless the first fails. -/
def andThen (first : Bounded) (second : Unit → Bounded) : Bounded :=
  first.bind fun
    | .ok () => second ()
    | .error failure => some (.error failure)

/-- A part, and then others if it fails and the registry is not the cause. -/
def either (first : Bounded) (others : Unit → Bounded) : Bounded :=
  first.bind fun
    | .ok () => some (.ok ())
    | .error failure => if failure.isRegistryFault then some (.error failure) else others ()

/-- A part with the opposite outcome. -/
def negate (operand : Bounded) (place : Place) : Bounded := operand.map (·.negate place)

/-- Parts one after the other as long as they succeed. -/
def all (members : List α) (part : α → Bounded) : Bounded :=
  members.foldr (fun member rest => (part member).andThen fun _ => rest) (some (.ok ()))

/-- Parts one after the other until one succeeds or ends with a fault. -/
def firstOf (place : Place) (members : List α) (part : α → Bounded) : Bounded :=
  members.foldr (fun member others => (part member).either fun _ => others)
    (some (place.fail .noAlternative))

variable {α : Type} {part : α → Bounded} {outcome : α → Outcome} {members : List α}

theorem andThen_some {first second : Outcome} :
    andThen (some first) (fun _ => some second) = some (first >>= fun _ => second) := by
  cases first <;> rfl

theorem either_some {first second : Outcome} :
    either (some first) (fun _ => some second) = some (first.either fun _ => second) := by
  cases first with
  | ok done => rfl
  | error failure =>
    change (if failure.isRegistryFault then _ else _ : Bounded) =
      some (if failure.isRegistryFault then _ else _)
    split <;> rfl

/-- Parts whose levels suffice succeed or fail together as without bound. -/
theorem all_eq (each : ∀ member ∈ members, part member = some (outcome member)) :
    all members part = some (forM members outcome) := by
  induction members with
  | nil => rfl
  | cons member rest ih =>
    obtain ⟨first, others⟩ := List.forall_mem_cons.mp each
    have unfolded : all (member :: rest) part = (part member).andThen fun _ => all rest part := rfl
    rw [unfolded, first, ih others, andThen_some, List.forM_cons]

theorem firstOf_eq {place : Place} (each : ∀ member ∈ members, part member = some (outcome member)) :
    firstOf place members part = some (Outcome.firstOf place members outcome) := by
  induction members with
  | nil => rfl
  | cons member rest ih =>
    obtain ⟨first, others⟩ := List.forall_mem_cons.mp each
    have unfolded : firstOf place (member :: rest) part =
        (part member).either fun _ => firstOf place rest part := rfl
    rw [unfolded, first, ih others, either_some]
    rfl

end Bounded

open Bounded

/-! ## Matching within levels -/

/-- Match a dimension within a number of levels. -/
def DimFilter.evaluateWithin : (levels : Nat) → List String → Dim → DimFilter → Bounded
  | 0, _, _, _ => none
  | levels + 1, stack, dim, .and _ operands => all operands (evaluateWithin levels stack dim)
  | levels + 1, stack, dim, .or line operands =>
    firstOf ⟨stack, line, dim.line⟩ operands (evaluateWithin levels stack dim)
  | levels + 1, stack, dim, .not line operand =>
    (evaluateWithin levels stack dim operand).negate ⟨stack, line, dim.line⟩
  -- The other dimension filters enter nothing.
  | _ + 1, stack, dim, filter => some (filter.evaluate stack dim)

/-- Match a type within a number of levels. -/
def TypeFilter.evaluateWithin : (levels : Nat) → List String → TypeFilter → TypeDecl → Bounded
  | 0, _, _, _ => none
  | levels + 1, stack, .list _ item, .list _ found => evaluateWithin levels stack item found
  | levels + 1, stack, .tuple line items, .tuple typeLine found =>
    andThen (some (Place.require ⟨stack, line, typeLine⟩ (items.length = found.length)
        (.tupleSize items.length found.length))) fun _ =>
      all (items.zip found) fun pair => evaluateWithin levels stack pair.1 pair.2
  | levels + 1, stack, .tensor line dims, .tensor typeLine found =>
    andThen (some (Place.require ⟨stack, line, typeLine⟩ (dims.length = found.length)
        (.tensorRank dims.length found.length))) fun _ =>
      all (dims.zip found) fun pair => pair.1.evaluateWithin levels stack pair.2
  | levels + 1, stack, .namedValues line values, .namedValues typeLine found =>
    let wanted := entryNames values
    let given := entryNames found
    andThen (some (Place.require ⟨stack, line, typeLine⟩ (wanted = given)
        (.differentKeys (wanted.diff given) (given.diff wanted)))) fun _ =>
      all values fun value =>
        match findEntry value.name found with
        | some entry => evaluateWithin levels stack value.value entry.value
        | none => some (.ok ())
  -- The other pairs enter nothing.
  | _ + 1, stack, filter, type => some (filter.evaluate stack type)

namespace Registry

/-- Resolve a tag. `enter` matches a definition with the root of the manifest under a stack. -/
def resolveWith (registry : Registry) (enter : List String → Filter → Bounded) (stack : List String)
    (tag : String) (filterLine manifestLine : Nat) : Bounded :=
  if tag ∈ stack then some (Place.fail ⟨stack ++ [tag], filterLine, manifestLine⟩ (.tagCycle tag))
  else
    match registry.get? tag with
    | none => some (Place.fail ⟨stack, filterLine, manifestLine⟩ (.tagNotFound tag))
    | some definition => enter (stack ++ [tag]) definition

/-- Match a filter with a node of a manifest within a number of levels. -/
def evaluateWithin (registry : Registry) (root : Manifest) :
    (levels : Nat) → List String → Filter → Manifest → Bounded
  | 0, _, _, _ => none
  | levels + 1, stack, .and _ operands, node =>
    all operands fun operand => evaluateWithin registry root levels stack operand node
  | levels + 1, stack, .or line operands, node =>
    firstOf ⟨stack, line, node.line⟩ operands fun operand =>
      evaluateWithin registry root levels stack operand node
  | levels + 1, stack, .not line operand, node =>
    (evaluateWithin registry root levels stack operand node).negate ⟨stack, line, node.line⟩
  | levels + 1, stack, .implicitTags line groups, node =>
    all (unionTags groups).toList fun tag =>
      registry.resolveWith
        (fun stack definition => evaluateWithin registry root levels stack definition root)
        stack tag line node.line
  | levels + 1, stack, .dict _ fields, .dict line entries =>
    all fields fun field =>
      match findEntry field.name entries with
      | some entry => evaluateWithin registry root levels stack field.value entry.value
      | none => some (Place.fail ⟨stack, field.line, line⟩ (.missingKey field.name))
  | levels + 1, stack, .list line items, .list nodeLine values =>
    andThen (some (Place.require ⟨stack, line, nodeLine⟩ (items.length ≤ values.length)
        (.shortList items.length values.length))) fun _ =>
      all (items.zip values) fun pair => evaluateWithin registry root levels stack pair.1 pair.2
  | levels + 1, stack, .typeDeclaration _ expected, .typeDeclaration _ type =>
    expected.evaluateWithin levels stack type
  -- The other pairs enter nothing.
  | _ + 1, stack, filter, node => some (registry.evaluate root stack filter node)

/-- Match a filter with a manifest within a number of levels. -/
def matchManifestWithin (registry : Registry) (levels : Nat) (filter : Filter) (manifest : Manifest) :
    Bounded :=
  registry.evaluateWithin manifest levels [] filter manifest

/-- Match the definition of a tag with a manifest within a number of levels. -/
def matchTagWithin (registry : Registry) (levels : Nat) (tag : String) (manifest : Manifest) : Bounded :=
  registry.resolveWith
    (fun stack definition => registry.evaluateWithin manifest levels stack definition manifest)
    [] tag 0 manifest.line

end Registry

/-! ## Levels that suffice -/

/-- A dimension filter enters as many levels as it is deep. -/
theorem DimFilter.evaluateWithin_eq {levels : Nat} {stack : List String} {dim : Dim} {filter : DimFilter}
    (enough : filter.depth ≤ levels) :
    filter.evaluateWithin levels stack dim = some (filter.evaluate stack dim) := by
  induction levels generalizing filter with
  | zero => cases filter <;> simp [depth] at enough
  | succ levels ih =>
    cases filter with
    | anything line => rfl
    | size line relation bound => rfl
    | and line operands =>
      rw [depth, Nat.succ_le_succ_iff, maxDepth_le_iff] at enough
      rw [evaluateWithin, evaluate, evaluateAll_eq]
      exact all_eq fun operand member => ih (enough operand member)
    | or line operands =>
      rw [depth, Nat.succ_le_succ_iff, maxDepth_le_iff] at enough
      rw [evaluateWithin, evaluate, evaluateAny_eq]
      exact firstOf_eq fun operand member => ih (enough operand member)
    | not line operand =>
      rw [depth, Nat.succ_le_succ_iff] at enough
      rw [evaluateWithin, evaluate, ih enough]
      rfl

/-- A type filter enters as many levels as it is deep. -/
theorem TypeFilter.evaluateWithin_eq {levels : Nat} {stack : List String} {filter : TypeFilter}
    {type : TypeDecl} (enough : filter.depth ≤ levels) :
    filter.evaluateWithin levels stack type = some (filter.evaluate stack type) := by
  induction levels generalizing filter type with
  | zero => cases filter <;> simp [depth] at enough
  | succ levels ih =>
    cases filter with
    | anything line kind => rfl
    | tensor line dims =>
      rw [depth, Nat.succ_le_succ_iff, DimFilter.maxDepth_le_iff] at enough
      cases type with
      | tensor typeLine found =>
        have dimensions := all_eq fun pair (member : pair ∈ dims.zip found) =>
          show pair.1.evaluateWithin levels stack pair.2 = some (pair.1.evaluate stack pair.2) from
            DimFilter.evaluateWithin_eq (enough pair.1 (List.of_mem_zip member).1)
        rw [evaluateWithin, evaluate, DimFilter.evaluateEach_eq, dimensions, andThen_some]
      | _ => rfl
    | list line item =>
      rw [depth, Nat.succ_le_succ_iff] at enough
      cases type with
      | list typeLine found => rw [evaluateWithin, evaluate, ih enough]
      | _ => rfl
    | tuple line items =>
      rw [depth, Nat.succ_le_succ_iff, maxDepth_le_iff] at enough
      cases type with
      | tuple typeLine found =>
        have elements := all_eq fun pair (member : pair ∈ items.zip found) =>
          show pair.1.evaluateWithin levels stack pair.2 = some (pair.1.evaluate stack pair.2) from
            ih (enough pair.1 (List.of_mem_zip member).1)
        rw [evaluateWithin, evaluate, evaluateEach_eq, elements, andThen_some]
      | _ => rfl
    | namedValues line values =>
      rw [depth, Nat.succ_le_succ_iff, maxEntryDepth_le_iff] at enough
      cases type with
      | namedValues typeLine found =>
        rw [evaluateWithin, evaluate, evaluateEntries_eq]
        refine (congrArg (andThen _) (funext fun _ => all_eq fun value member => ?_)).trans andThen_some
        rw [evaluateEntry]
        cases findEntry value.name found with
        | some entry => exact ih (enough value member)
        | none => rfl
      | _ => rfl

namespace Registry

variable {registry : Registry} {root : Manifest} {levels : Nat} {stack : List String}

/-- The levels suffice for a filter and, below its nodes, for every path of references from a tag that it
    implies. -/
structure Suffice (registry : Registry) (levels : Nat) (filter : Filter) : Prop where
  own : filter.depth ≤ levels
  entered : ∀ tag, filter.Implies tag → ∀ cost ∈ Definitions.depths registry.Holds tag,
    filter.depth + cost ≤ levels

/-- One level less suffices for a child. -/
theorem Suffice.child {filter child : Filter} (enough : registry.Suffice (levels + 1) filter)
    (member : child ∈ filter.children) : registry.Suffice levels child := by
  have shallower := Filter.depth_lt_of_mem_children member
  have own := enough.own
  refine ⟨by omega, fun tag implied cost reached => ?_⟩
  have entered := enough.entered tag (implied.of_child member) cost reached
  omega

/-- One level less suffices for the definition of a tag that is implied. -/
theorem Suffice.definition {filter definition : Filter} {tag : String}
    (enough : registry.Suffice (levels + 1) filter) (implied : filter.Implies tag)
    (found : registry.Holds tag definition) : registry.Suffice levels definition := by
  have positive := filter.depth_pos
  have own := enough.entered tag implied _ (Definitions.depth_mem_depths found)
  refine ⟨by omega, fun other next cost reached => ?_⟩
  have entered := enough.entered tag implied _ (Definitions.add_mem_depths found next reached)
  omega

/-- A resolution goes as without bound when the match of its definition does. -/
theorem resolveWith_eq {enter : List String → Filter → Bounded} {tag : String}
    {filterLine manifestLine : Nat}
    (entered : ∀ definition, registry.Holds tag definition →
      enter (stack ++ [tag]) definition = some (registry.evaluate root (stack ++ [tag]) definition root)) :
    registry.resolveWith enter stack tag filterLine manifestLine =
      some (registry.resolve root stack tag filterLine manifestLine) := by
  by_cases under : tag ∈ stack
  · rw [resolveWith, if_pos under, resolve, dif_pos under]
  · rw [resolveWith, if_neg under]
    cases found : registry.get? tag with
    | none => rw [resolve_eq_of_missing under found]
    | some definition =>
      rw [resolve_eq under found]
      exact entered definition found

/-- A match within levels that suffice has the outcome of the match. -/
theorem evaluateWithin_eq {filter : Filter} {node : Manifest} (enough : registry.Suffice levels filter) :
    registry.evaluateWithin root levels stack filter node =
      some (registry.evaluate root stack filter node) := by
  induction levels generalizing stack filter node with
  | zero => exact absurd enough.own (Nat.not_le.mpr filter.depth_pos)
  | succ levels ih =>
    have below : ∀ child ∈ filter.children, ∀ opposite,
        registry.evaluateWithin root levels stack child opposite =
          some (registry.evaluate root stack child opposite) :=
      fun child member opposite => ih (enough.child member)
    cases filter with
    | and line operands =>
      rw [evaluateWithin, evaluate, Filter.evaluate, Filter.evaluateAll_eq]
      exact all_eq fun operand member => below operand member node
    | or line operands =>
      rw [evaluateWithin, evaluate, Filter.evaluate, Filter.evaluateAny_eq]
      exact firstOf_eq fun operand member => below operand member node
    | not line operand =>
      rw [evaluateWithin, evaluate, Filter.evaluate, below operand (List.mem_singleton_self operand)]
      rfl
    | implicitTags line groups =>
      rw [evaluateWithin, evaluate, Filter.evaluate, Filter.resolveEach_eq]
      refine all_eq fun tag member => resolveWith_eq fun definition found => ?_
      exact ih (enough.definition (Filter.implies_of_mem_unionTags member) found)
    | dict line fields =>
      cases node with
      | dict manifestLine entries =>
        rw [evaluateWithin, evaluate, Filter.evaluate, Filter.evaluateEntries_eq]
        refine all_eq fun field member => ?_
        rw [Filter.evaluateEntry]
        cases findEntry field.name entries with
        | some entry => exact below field.value (List.mem_map_of_mem member) entry.value
        | none => rfl
      | _ => rfl
    | list line items =>
      cases node with
      | list manifestLine values =>
        have pairs := all_eq fun pair (member : pair ∈ items.zip values) =>
          below pair.1 (List.of_mem_zip member).1 pair.2
        rw [evaluateWithin, evaluate, Filter.evaluate, Filter.evaluateEach_eq, pairs, andThen_some]
        rfl
      | _ => rfl
    | typeDeclaration line expected =>
      cases node with
      | typeDeclaration manifestLine type =>
        have own := enough.own
        rw [Filter.depth, Nat.succ_le_succ_iff] at own
        rw [evaluateWithin, evaluate, Filter.evaluate, TypeFilter.evaluateWithin_eq own]
      | _ => rfl
    | anything | string | bool | int | float | explicitTags => cases node <;> rfl

/-- In sound definitions the levels of a document suffice for every path of references. -/
theorem le_maxDepth_of_mem_depths (sound : Definitions.Sound registry.Holds) {tag : String} {cost : Nat}
    (reached : cost ∈ Definitions.depths registry.Holds tag) : cost ≤ Markup.maxDepth := by
  obtain ⟨definition, defined, _⟩ := Definitions.mem_depths_iff.mp reached
  obtain ⟨deepest, greatest, within⟩ := sound.shallow tag ⟨definition, defined⟩
  exact Nat.le_trans (greatest.2 reached) within

theorem suffice_of_sound (sound : Definitions.Sound registry.Holds) {filter : Filter}
    (enough : filter.depth + Markup.maxDepth ≤ levels) : registry.Suffice levels filter := by
  refine ⟨by omega, fun tag _ cost reached => ?_⟩
  have within := le_maxDepth_of_mem_depths sound reached
  omega

/-- The filter of a valid document is at most as deep as the document nests. -/
theorem depth_le_nesting_of_validateFilter {self : Option String} {document : Element} {filter : Filter}
    (valid : registry.validateFilter self document = .ok filter) : filter.depth ≤ document.nesting := by
  obtain ⟨read, isRead, checked⟩ := bind_eq_ok_iff.mp valid
  dsimp only at checked
  split at checked
  · cases checked
    exact (Filter.ofElement_eq_ok_iff.mp (mapError_eq_ok_iff.mp isRead)).depth_le_nesting
  · cases checked

/-- In a registry that was loaded, a valid filter from a document that was read enters at most its depth
    and `Markup.maxDepth` levels when it is matched, and the definition of a registered tag at most
    `Markup.maxDepth`. The filter is no deeper than its document nests, and this no deeper than
    `Markup.maxDepth`; so with `2 * Markup.maxDepth` levels the outcome is that of the match. -/
theorem Loaded.match_within_levels (loaded : registry.Loaded) :
    (∀ text document self filter, Markup.parse text = .ok document →
      registry.validateFilter self document = .ok filter →
      filter.depth ≤ document.nesting ∧ document.nesting ≤ Markup.maxDepth ∧
      ∀ manifest,
        registry.matchManifestWithin (filter.depth + Markup.maxDepth) filter manifest =
          some (registry.matchManifest filter manifest) ∧
        registry.matchManifestWithin (2 * Markup.maxDepth) filter manifest =
          some (registry.matchManifest filter manifest)) ∧
    (∀ tag ∈ registry.names, ∀ manifest,
      registry.matchTagWithin Markup.maxDepth tag manifest = some (registry.matchTag tag manifest)) := by
  have sound := loaded.sound
  constructor
  · intro text document self filter read valid
    have shallow := depth_le_nesting_of_validateFilter valid
    have bounded := Markup.nesting_le_of_parse read
    refine ⟨shallow, bounded, fun manifest => ⟨?_, ?_⟩⟩
    · exact evaluateWithin_eq (suffice_of_sound sound (Nat.le_refl _))
    · exact evaluateWithin_eq (suffice_of_sound sound (by omega))
  · intro tag registered manifest
    refine resolveWith_eq fun definition found => evaluateWithin_eq ⟨?_, fun other implied cost reached => ?_⟩
    · exact le_maxDepth_of_mem_depths sound (Definitions.depth_mem_depths found)
    · exact le_maxDepth_of_mem_depths sound (Definitions.add_mem_depths found implied reached)

/-- One level is too few for a filter in another. -/
example : Registry.empty.matchManifestWithin 1 (.not 1 (.anything 2 .dict)) (.dict 1 []) = none := rfl

end Registry

/-- The text of a filter that implies the second tag of the sample registry, and through its definition
    the first. -/
def sampleFilterText : String :=
  "<tag-collection filter=\"implicit-tag-match\"><condensed-tags>a::b</condensed-tags></tag-collection>"

theorem sampleRegistry_match_within_levels :
    sampleRegistry.Loaded ∧ ∃ document filter, Markup.parse sampleFilterText = .ok document ∧
      sampleRegistry.validateFilter none document = .ok filter ∧ filter.depth ≤ document.nesting ∧
      sampleRegistry.matchManifestWithin (2 * Markup.maxDepth) filter (.dict 1 []) =
        some (sampleRegistry.matchManifest filter (.dict 1 [])) ∧
      "a::b" ∈ sampleRegistry.names ∧
      sampleRegistry.matchTagWithin Markup.maxDepth "a::b" (.dict 1 []) =
        some (sampleRegistry.matchTag "a::b" (.dict 1 [])) := by
  have accepted : ((Markup.parse sampleFilterText).toOption.map fun document =>
      (sampleRegistry.validateFilter none document).isOk) = some true := by decide +kernel
  obtain ⟨document, isDocument, isOk⟩ := Option.map_eq_some_iff.mp accepted
  have read := toOption_eq_some_iff.mp isDocument
  obtain ⟨filter, valid⟩ := exists_of_isOk isOk
  have listed : "a::b" ∈ sampleRegistry.names := by decide +kernel
  have within := sampleRegistry_loaded.match_within_levels
  obtain ⟨shallow, _, match_⟩ := within.1 sampleFilterText document none filter read valid
  exact ⟨sampleRegistry_loaded, document, filter, read, valid, shallow, (match_ _).2, listed,
    within.2 "a::b" listed _⟩

end ModelCatalog
