import ModelCatalog.Proofs.Filter.Nodes
import ModelCatalog.Proofs.Manifest.Parts
import ModelCatalog.Proofs.Match.Walks
import Mathlib.Data.List.Nodup

/-!
# Where failures arise

A match fails where a part of a filter meets a part of a manifest, or because the resolution of a tag has
failed that the filter implies (`Filter.evaluate_fails`). In the first case the failure has the tags under
resolution and the lines of the two parts, and it is no fault of the registry. A fault arises when a tag is
resolved, with the line of the collection that asks for it. So the tags of a failure are a trail of
references from the filter to the definition in which it arose (`Registry.matchManifest_located`).
-/

namespace ModelCatalog

open Outcome (Place)

/-! ## Failing outcomes -/

namespace Outcome

/-- What is known of a failure, if the outcome is one. -/
def Fails (why : MatchFailure → Prop) (outcome : Outcome) : Prop := Ends why (fun _ => True) outcome

variable {why : MatchFailure → Prop} {outcome : Outcome} {place : Place} {mismatch : Mismatch}

theorem fails_ok : Fails why (.ok ()) := trivial

theorem Place.fails_fail (known : why (place.failure mismatch)) : Fails why (place.fail mismatch) := known

theorem Place.fails_require {condition : Bool} (known : why (place.failure mismatch)) :
    Fails why (place.require condition mismatch) := by
  cases condition with
  | true => exact fails_ok
  | false => exact known

namespace Fails

theorem of_error {failure : MatchFailure} (fails : Fails why outcome) (failed : outcome = .error failure) :
    why failure := Ends.of_error fails failed

/-- A weaker description of the same failure. -/
theorem imp {because : MatchFailure → Prop} (fails : Fails why outcome)
    (weaker : ∀ failure, why failure → because failure) : Fails because outcome :=
  Ends.imp fails weaker fun _ done => done

theorem bind {next : Unit → Outcome} (first : Fails why outcome) (second : ∀ done, Fails why (next done)) :
    Fails why (outcome >>= next) :=
  Ends.bind first fun done _ => second done

theorem either {others : Unit → Outcome} (first : Fails why outcome)
    (second : ∀ done, Fails why (others done)) : Fails why (outcome.either others) := by
  cases outcome with
  | ok done => exact fails_ok
  | error failure =>
    change Fails why (if failure.isRegistryFault then _ else _)
    split
    · exact first
    · exact second ()

theorem negate (operand : Fails why outcome) (matched : why (place.failure .negatedMatch)) :
    Fails why (outcome.negate place) := by
  cases outcome with
  | ok done => exact matched
  | error failure =>
    change Fails why (if failure.isRegistryFault then _ else _)
    split
    · exact operand
    · exact fails_ok

end Fails

/-- A loop fails as one of its actions. -/
theorem fails_forM {α : Type} {members : List α} {action : α → Outcome}
    (each : ∀ member ∈ members, Fails why (action member)) : Fails why (forM members action) :=
  Ends.forM each

/-- Alternatives fail together or with the fault of one of them. -/
theorem fails_firstOf {α : Type} {operands : List α} {action : α → Outcome}
    (together : why (place.failure .noAlternative))
    (each : ∀ operand ∈ operands, Fails why (action operand)) :
    Fails why (firstOf place operands action) := by
  induction operands with
  | nil => exact together
  | cons operand rest ih =>
    obtain ⟨first, others⟩ := List.forall_mem_cons.mp each
    exact first.either fun _ => ih others

end Outcome

open Outcome

/-! ## Failures of their own -/

/-- A failure arises where a part of a filter meets a part of a manifest while the tags of a stack are under
    resolution, and it is no fault of the registry. -/
structure MatchFailure.ArisesIn (filter : FilterPart) (node : Part) (stack : List String)
    (failure : MatchFailure) : Prop where
  harmless : failure.isRegistryFault = false
  tags : failure.tagStack = stack
  filterLine : filter.HasLine failure.filterLine
  manifestLine : node.HasLine failure.manifestLine

namespace MatchFailure.ArisesIn

variable {filter inner : FilterPart} {node opposite : Part} {stack : List String} {failure : MatchFailure}

/-- The failure that a mismatch of two parts is. -/
theorem of_mismatch {mismatch : Mismatch} (isNode : node.isNode = true)
    (harmless : mismatch.kind.isRegistryFault = false) :
    ArisesIn filter node stack (Place.failure ⟨stack, filter.line, node.line⟩ mismatch) :=
  ⟨harmless, rfl, filter.hasLine_line, Part.hasLine_line isNode⟩

/-- What arises in a child of a filter arises in the filter. -/
theorem of_filterChild (arises : ArisesIn inner node stack failure) (member : inner ∈ filter.children) :
    ArisesIn filter node stack failure :=
  ⟨arises.harmless, arises.tags, arises.filterLine.of_child member, arises.manifestLine⟩

/-- What arises in a child of a manifest arises in the manifest. -/
theorem of_nodeChild (arises : ArisesIn filter opposite stack failure) (member : opposite ∈ node.children) :
    ArisesIn filter node stack failure :=
  ⟨arises.harmless, arises.tags, arises.filterLine, arises.manifestLine.of_child member⟩

end MatchFailure.ArisesIn

open MatchFailure (ArisesIn)

/-! ## Types -/

theorem DimFilter.evaluateSize_fails {stack : List String} {line : Nat} {relation : Comparison} {bound : Int}
    (dim : Dim) : Fails (ArisesIn (.dim (.size line relation bound)) (.dim dim) stack)
      (evaluateSize ⟨stack, line, dim.line⟩ dim.size relation bound) := by
  obtain ⟨dimLine, size⟩ := dim
  cases size with
  | filled value => exact Place.fails_require (.of_mismatch rfl rfl)
  | unfilled => exact Place.fails_fail (.of_mismatch rfl rfl)

/-- A match of a dimension fails in the filter. -/
theorem DimFilter.evaluate_fails {stack : List String} {dim : Dim} (filter : DimFilter) :
    Fails (ArisesIn (.dim filter) (.dim dim) stack) (filter.evaluate stack dim) := by
  have mismatch : ∀ {expected : Mismatch}, expected.kind.isRegistryFault = false →
      ArisesIn (.dim filter) (.dim dim) stack (Place.failure ⟨stack, filter.line, dim.line⟩ expected) :=
    fun harmless => .of_mismatch rfl harmless
  cases filter with
  | anything line => exact fails_ok
  | size line relation bound => exact evaluateSize_fails dim
  | and line operands =>
    rw [evaluate, evaluateAll_eq]
    refine fails_forM fun operand member => (evaluate_fails operand).imp fun failure arises => ?_
    exact arises.of_filterChild (List.mem_map_of_mem member)
  | or line operands =>
    rw [evaluate, evaluateAny_eq]
    refine fails_firstOf (mismatch rfl) fun operand member => ?_
    refine (evaluate_fails operand).imp fun failure arises => ?_
    exact arises.of_filterChild (List.mem_map_of_mem member)
  | not line operand =>
    rw [evaluate]
    refine Fails.negate ((evaluate_fails operand).imp fun failure arises => ?_) (mismatch rfl)
    exact arises.of_filterChild (List.mem_singleton_self _)

/-- A match of a type fails in the filter. -/
theorem TypeFilter.evaluate_fails {stack : List String} (filter : TypeFilter) (type : TypeDecl) :
    Fails (ArisesIn (.type filter) (.type type) stack) (filter.evaluate stack type) := by
  have mismatch : ∀ {expected : Mismatch}, expected.kind.isRegistryFault = false →
      ArisesIn (.type filter) (.type type) stack (Place.failure ⟨stack, filter.line, type.line⟩ expected) :=
    fun harmless => .of_mismatch rfl harmless
  cases filter with
  | anything line kind =>
    rw [evaluate]
    exact Place.fails_require (mismatch rfl)
  | tensor line dims =>
    cases type with
    | tensor typeLine found =>
      rw [evaluate, DimFilter.evaluateEach_eq]
      refine Fails.bind (Place.fails_require (mismatch rfl)) fun _ => fails_forM fun pair member => ?_
      refine pair.1.evaluate_fails.imp fun failure arises => ?_
      exact (arises.of_filterChild (List.mem_map_of_mem (List.of_mem_zip member).1)).of_nodeChild
        (List.mem_map_of_mem (List.of_mem_zip member).2)
    | _ => exact Place.fails_fail (mismatch rfl)
  | list line item =>
    cases type with
    | list typeLine found =>
      rw [evaluate]
      refine (evaluate_fails item found).imp fun failure arises => ?_
      exact (arises.of_filterChild (List.mem_singleton_self _)).of_nodeChild (List.mem_singleton_self _)
    | _ => exact Place.fails_fail (mismatch rfl)
  | tuple line items =>
    cases type with
    | tuple typeLine found =>
      rw [evaluate, evaluateEach_eq]
      refine Fails.bind (Place.fails_require (mismatch rfl)) fun _ => fails_forM fun pair member => ?_
      have inside : pair.1 ∈ items := (List.of_mem_zip member).1
      refine (evaluate_fails pair.1 pair.2).imp fun failure arises => ?_
      exact (arises.of_filterChild (List.mem_map_of_mem inside)).of_nodeChild
        (List.mem_map_of_mem (List.of_mem_zip member).2)
    | _ => exact Place.fails_fail (mismatch rfl)
  | namedValues line values =>
    cases type with
    | namedValues typeLine found =>
      rw [evaluate, evaluateEntries_eq]
      refine Fails.bind (Place.fails_require (mismatch rfl)) fun _ => fails_forM fun value member => ?_
      rw [evaluateEntry]
      cases given : findEntry value.name found with
      | some entry =>
        refine (evaluate_fails value.value entry.value).imp fun failure arises => ?_
        exact (arises.of_filterChild (List.mem_map_of_mem member)).of_nodeChild
          (List.mem_map_of_mem (mem_of_findEntry given).1)
      | none => exact fails_ok
    | _ => exact Place.fails_fail (mismatch rfl)
termination_by filter
decreasing_by
  · rw [list.sizeOf_spec]
    omega
  · have smaller := List.sizeOf_lt_of_mem inside
    rw [tuple.sizeOf_spec]
    omega
  · have smaller := Named.sizeOf_value_lt_of_mem member
    rw [namedValues.sizeOf_spec]
    omega

/-! ## Filters -/

namespace Filter

variable {resolve : Resolver} {stack : List String}

theorem Implies.of_child {filter child : Filter} {tag : String} (implied : child.Implies tag)
    (member : child ∈ filter.children) : filter.Implies tag := by
  obtain ⟨line, groups, within, listed⟩ := implied
  exact ⟨line, groups, .inside member within, listed⟩

theorem implies_of_mem_unionTags {line : Nat} {groups : List TagGroup} {tag : String}
    (member : tag ∈ unionTags groups) : (implicitTags line groups).Implies tag :=
  ⟨line, groups, .whole, mem_unionTags.mp member⟩

/-- A failure of matching a filter with a node: it arises there, or the resolution of a tag has failed that the
    filter implies, on behalf of a part of the filter and a part of the node. -/
inductive FailsWith (resolve : Resolver) (stack : List String) (filter : Filter) (node : Manifest)
    (failure : MatchFailure) : Prop
  | own : ArisesIn (.value filter) (.value node) stack failure → FailsWith resolve stack filter node failure
  | passedOn {tag : String} {filterLine manifestLine : Nat} : filter.Implies tag →
      (FilterPart.value filter).HasLine filterLine → (Part.value node).HasLine manifestLine →
      resolve tag filterLine manifestLine = .error failure → FailsWith resolve stack filter node failure

/-- The failure of a child that is matched with a node is one of the whole that is matched with a node in which
    the first one stands. -/
theorem FailsWith.of_child {filter child : Filter} {node opposite : Manifest} {failure : MatchFailure}
    (fails : FailsWith resolve stack child opposite failure) (member : child ∈ filter.children)
    (within : ∀ line, (Part.value opposite).HasLine line → (Part.value node).HasLine line) :
    FailsWith resolve stack filter node failure := by
  cases fails with
  | own arises =>
    exact .own ⟨arises.harmless, arises.tags, arises.filterLine.of_node member, within _ arises.manifestLine⟩
  | passedOn implied hasLine hasManifestLine failed =>
    exact .passedOn (implied.of_child member) (hasLine.of_node member) (within _ hasManifestLine) failed

/-- A match of a filter fails in the filter or passes on the failure of a resolution. -/
theorem evaluate_fails (filter : Filter) (node : Manifest) :
    Fails (FailsWith resolve stack filter node) (filter.evaluate resolve stack node) := by
  induction filter using induction_on_children generalizing node with
  | step filter ih =>
    have mismatch : ∀ {expected : Mismatch}, expected.kind.isRegistryFault = false →
        FailsWith resolve stack filter node (Place.failure ⟨stack, filter.line, node.line⟩ expected) := by
      intro expected harmless
      have arises : ArisesIn (.value filter) (.value node) stack
          (Place.failure ⟨stack, filter.line, node.line⟩ expected) := .of_mismatch rfl harmless
      exact .own arises
    have opposite : ∀ child ∈ filter.children,
        Fails (FailsWith resolve stack filter node) (child.evaluate resolve stack node) :=
      fun child member => (ih child member node).imp fun _ fails => fails.of_child member fun _ has => has
    have below : ∀ child ∈ filter.children, ∀ inner, .value inner ∈ (Part.value node).children →
        Fails (FailsWith resolve stack filter node) (child.evaluate resolve stack inner) :=
      fun child member inner inside => (ih child member inner).imp fun _ fails =>
        fails.of_child member fun _ has => has.of_child inside
    cases filter with
    | and line operands =>
      rw [evaluate, evaluateAll_eq]
      exact fails_forM opposite
    | or line operands =>
      rw [evaluate, evaluateAny_eq]
      exact fails_firstOf (mismatch rfl) opposite
    | not line operand =>
      rw [evaluate]
      exact (opposite operand (List.mem_singleton_self _)).negate (mismatch rfl)
    | implicitTags line groups =>
      rw [evaluate, resolveEach_eq]
      refine fails_forM fun tag member => ?_
      cases failed : resolve tag line node.line with
      | ok done => exact fails_ok
      | error failure =>
        have hasLine : (FilterPart.value (.implicitTags line groups)).HasLine line := FilterPart.hasLine_line _
        have hasManifestLine : (Part.value node).HasLine node.line := Part.hasLine_line rfl
        exact .passedOn (implies_of_mem_unionTags member) hasLine hasManifestLine failed
    | dict line fields =>
      cases node with
      | dict manifestLine entries =>
        rw [evaluate, evaluateEntries_eq]
        refine fails_forM fun field member => ?_
        rw [evaluateEntry]
        cases found : findEntry field.name entries with
        | some entry =>
          exact below field.value (List.mem_map_of_mem member) entry.value
            (List.mem_map_of_mem (mem_of_findEntry found).1)
        | none =>
          -- A missing key is reported at the field.
          have inField : (FilterPart.value (.dict line fields)).HasLine field.line :=
            (FilterPart.hasLine_line (.field field)).of_child (List.mem_map_of_mem member)
          exact Place.fails_fail (.own ⟨rfl, rfl, inField, Part.hasLine_line rfl⟩)
      | _ => exact Place.fails_fail (mismatch rfl)
    | list line items =>
      cases node with
      | list manifestLine values =>
        rw [evaluate, evaluateEach_eq]
        refine Fails.bind (Place.fails_require (mismatch rfl)) fun _ => fails_forM fun pair member => ?_
        exact below pair.1 (List.of_mem_zip member).1 pair.2 (List.mem_map_of_mem (List.of_mem_zip member).2)
      | _ => exact Place.fails_fail (mismatch rfl)
    | typeDeclaration line expected =>
      cases node with
      | typeDeclaration manifestLine type =>
        rw [evaluate]
        refine (expected.evaluate_fails type).imp fun failure arises => .own ?_
        exact (arises.of_filterChild (List.mem_singleton_self _)).of_nodeChild (List.mem_singleton_self _)
      | _ => exact Place.fails_fail (mismatch rfl)
    | explicitTags line required =>
      cases node with
      | tagCollection manifestLine declared => exact Place.fails_require (mismatch rfl)
      | _ => exact Place.fails_fail (mismatch rfl)
    | anything line kind =>
      rw [evaluate]
      exact Place.fails_require (mismatch rfl)
    | string | bool | int | float =>
      cases node <;> first | exact Place.fails_require (mismatch rfl) | exact Place.fails_fail (mismatch rfl)

end Filter

/-! ## Resolution -/

namespace Registry

variable {registry : Registry} {root : Manifest} {stack : List String} {tag : String} {filter definition : Filter}
  {failure : MatchFailure}

/-- Resolving a registered tag that is not under resolution evaluates its definition. -/
theorem resolve_eq {filterLine manifestLine : Nat} (fresh : tag ∉ stack)
    (found : registry.get? tag = some definition) :
    registry.resolve root stack tag filterLine manifestLine =
      definition.evaluate (registry.resolve root (stack ++ [tag])) (stack ++ [tag]) root := by
  rw [resolve, dif_neg fresh]
  split
  next missing => cases found.symm.trans missing
  next other same =>
    cases found.symm.trans same
    rfl

/-- Resolving a tag that is not registered fails. -/
theorem resolve_eq_of_missing {filterLine manifestLine : Nat} (fresh : tag ∉ stack)
    (missing : registry.get? tag = none) :
    registry.resolve root stack tag filterLine manifestLine =
      Place.fail ⟨stack, filterLine, manifestLine⟩ (.tagNotFound tag) := by
  rw [resolve, dif_neg fresh]
  split
  next => rfl
  next definition found => cases missing.symm.trans found

/-- Registered tags lead from a filter to the innermost definition: the first is an implicit reference of the
    filter and each other one an implicit reference of the definition of the tag before it. -/
inductive Descends (registry : Registry) : Filter → List String → Filter → Prop
  | here {filter : Filter} : Descends registry filter [] filter
  | into {filter definition innermost : Filter} {tag : String} {rest : List String} :
      tag ∈ filter.implicitReferences → registry.get? tag = some definition →
      Descends registry definition rest innermost → Descends registry filter (tag :: rest) innermost

/-- Where a failure arose in the match of a filter with the root of a manifest that has begun with the tags of
    a stack under resolution: in the innermost definition of a descent through other tags, or in the filter
    itself when there is none, at lines of this definition and of the manifest. The failure has all these tags,
    and a cycle also the one of them that the definition refers to. -/
structure Locates (registry : Registry) (root : Manifest) (stack : List String) (filter : Filter)
    (resolved : List String) (innermost : Filter) (failure : MatchFailure) : Prop where
  descends : registry.Descends filter resolved innermost
  distinct : (stack ++ resolved).Nodup
  tags : failure.kind ≠ .tagCycle → failure.tagStack = stack ++ resolved
  cycle : failure.kind = .tagCycle →
    ∃ tag ∈ stack ++ resolved, tag ∈ innermost.implicitReferences ∧ failure.tagStack = stack ++ resolved ++ [tag]
  filterLine : (FilterPart.value innermost).HasLine failure.filterLine
  manifestLine : (Part.value root).HasLine failure.manifestLine

/-- What is located below the definition of a tag is located below each filter that implies the tag. -/
theorem Locates.of_definition {resolved : List String} {innermost : Filter}
    (located : registry.Locates root (stack ++ [tag]) definition resolved innermost failure)
    (implied : filter.Implies tag) (found : registry.get? tag = some definition) :
    registry.Locates root stack filter (tag :: resolved) innermost failure := by
  have sameTags : stack ++ [tag] ++ resolved = stack ++ tag :: resolved := (List.append_cons ..).symm
  obtain ⟨descends, distinct, tags, cycle, filterLine, manifestLine⟩ := located
  rw [sameTags] at distinct tags cycle
  exact ⟨.into (Filter.mem_implicitReferences_iff.mpr implied) found descends, distinct, tags, cycle,
    filterLine, manifestLine⟩

/-- Every failure of a match with the root of a manifest is located. -/
theorem exists_locates {stack : List String} {filter : Filter} (distinct : stack.Nodup)
    (failed : registry.evaluate root stack filter root = .error failure) :
    ∃ resolved innermost, registry.Locates root stack filter resolved innermost failure := by
  have whole : (stack ++ []).Nodup := by rwa [List.append_nil]
  cases (filter.evaluate_fails root).of_error failed with
  | own arises =>
    refine ⟨[], filter, .here, whole, fun _ => ?_, fun cycle => ?_, arises.filterLine, arises.manifestLine⟩
    · rw [arises.tags, List.append_nil]
    · have harmless : failure.kind.isRegistryFault = false := arises.harmless
      rw [cycle] at harmless
      cases harmless
  | @passedOn tag filterLine manifestLine implied hasLine hasManifestLine failed =>
    have refers := Filter.mem_implicitReferences_iff.mpr implied
    by_cases under : tag ∈ stack
    · rw [resolve, dif_pos under] at failed
      cases failed
      refine ⟨[], filter, .here, whole, fun other => absurd rfl other, fun _ => ?_, hasLine, hasManifestLine⟩
      exact ⟨tag, List.mem_append_left _ under, refers, by rw [List.append_nil]; rfl⟩
    · cases found : registry.get? tag with
      | none =>
        rw [resolve_eq_of_missing under found] at failed
        cases failed
        refine ⟨[], filter, .here, whole, fun _ => (List.append_nil _).symm, ?_, hasLine, hasManifestLine⟩
        intro cycle
        cases cycle
      | some definition =>
        rw [resolve_eq under found] at failed
        have longer : (stack ++ [tag]).Nodup := by
          rw [← List.concat_eq_append]
          exact distinct.concat under
        obtain ⟨resolved, innermost, located⟩ := exists_locates longer failed
        exact ⟨tag :: resolved, innermost, located.of_definition implied found⟩
termination_by registry.remaining stack
decreasing_by exact remaining_push_lt under (by simp [found])

/-- Every failure of a match tells where it arose. Its tags descend from the filter through implicit references
    to the definition in which it arose, they are distinct and registered, and a cycle has one of them once
    more behind them, to which this definition refers; its lines are lines of parts of this definition and of
    the manifest. -/
theorem matchManifest_located {manifest : Manifest}
    (failed : registry.matchManifest filter manifest = .error failure) :
    ∃ resolved innermost, registry.Locates manifest [] filter resolved innermost failure :=
  exists_locates List.nodup_nil failed

/-- A filter that implies one tag. -/
def reference (line : Nat) (tag : String) : Filter := .implicitTags line [⟨line, tag, NameSet.empty.insert tag⟩]

/-- A registry with a tag that refers to another one, which asks for a list. -/
def nestedRegistry : Registry :=
  (Registry.empty.insert "outer" (.and 3 [.anything 4 .dict, reference 5 "inner"])).insert "inner" (.anything 7 .list)

theorem nestedRegistry_matchManifest_located :
    ∃ failure, nestedRegistry.matchManifest (reference 1 "outer") (.dict 1 []) = .error failure ∧
      failure.tagStack = ["outer", "inner"] ∧
      ∃ resolved innermost,
        nestedRegistry.Locates (.dict 1 []) [] (reference 1 "outer") resolved innermost failure := by
  have run : (match nestedRegistry.matchManifest (reference 1 "outer") (.dict 1 []) with
      | .ok _ => []
      | .error failure => failure.tagStack) = ["outer", "inner"] := by decide +kernel
  cases failed : nestedRegistry.matchManifest (reference 1 "outer") (.dict 1 []) with
  | ok done =>
    rw [failed] at run
    cases run
  | error failure =>
    rw [failed] at run
    exact ⟨failure, rfl, run, matchManifest_located failed⟩

end Registry

end ModelCatalog
