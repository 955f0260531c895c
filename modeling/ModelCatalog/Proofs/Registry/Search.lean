import ModelCatalog.Proofs.Registry.References
import ModelCatalog.Proofs.Results
import Mathlib.Data.List.Nodup

/-!
# The search for cycles and depths

The depth-first search over references, with the depths of searched tags remembered. Its invariant:
every remembered depth is the cost of the costliest path from its tag (`Right`). A search that starts
behind a reference path (`Trail`) either reports a path that runs into itself, or returns the cost of
the costliest path from its tag and remembers right depths only (`depthOf_ends`). So the searches from
all names in turn find a cycle, or the first name that is too deep with its exact depth, or establish
that every name has a costliest path within the limit (`checkDepths_ends`).
-/

namespace ModelCatalog

namespace Registry

/-- The definitions that a registry holds. -/
def Holds (registry : Registry) : Definitions := fun tag definition => registry.get? tag = some definition

theorem listed_iff {registry : Registry} {tag : String} :
    Definitions.Listed registry.Holds tag ↔ tag ∈ registry.names := by
  rw [mem_names, Option.isSome_iff_exists]
  rfl

variable (registry : Registry)

/-- The depths of searched tags are those of their costliest paths. -/
def Right (known : Depths) : Prop :=
  ∀ tag depth, known.lookup tag = some depth → IsGreatest (Definitions.depths registry.Holds tag) depth

/-- The tags on the way of a search: different listed ones, each a reference of the one before, and the
    next tag a reference of the last. -/
structure Trail (path : List String) (tag : String) : Prop where
  distinct : path.Nodup
  listed : ∀ other ∈ path ++ [tag], Definitions.Listed registry.Holds other
  chain : (path ++ [tag]).IsChain (Definitions.Refers registry.Holds)

/-- How a search from a tag ends. -/
def SearchEnds (tag : String) : Except (List String) (Nat × Depths) → Prop :=
  Ends (Definitions.RunsIntoItself registry.Holds) fun (depth, known) =>
    IsGreatest (Definitions.depths registry.Holds tag) depth ∧ registry.Right known

variable {registry}

theorem Right.nil : registry.Right [] := fun _ _ found => nomatch found

theorem Right.cons {known : Depths} {tag : String} {depth : Nat} (right : registry.Right known)
    (greatest : IsGreatest (Definitions.depths registry.Holds tag) depth) :
    registry.Right ((tag, depth) :: known) := by
  intro other remembered found
  rw [List.lookup_cons] at found
  by_cases same : other = tag
  · subst same
    simp only [beq_self_eq_true] at found
    exact Option.some.inj found ▸ greatest
  · simp only [beq_eq_false_iff_ne.mpr same] at found
    exact right other remembered found

/-- A search that meets a tag of its own way has found a path that runs into itself. -/
theorem Trail.runsIntoItself {path : List String} {tag : String} (trail : registry.Trail path tag)
    (met : tag ∈ path) : Definitions.RunsIntoItself registry.Holds (path ++ [tag]) :=
  ⟨path, tag, rfl, trail.distinct, met, trail.chain, trail.listed⟩

/-- A search goes on from a new tag to one of its references. -/
theorem Trail.next {path : List String} {tag other : String} (trail : registry.Trail path tag)
    (fresh : tag ∉ path) (refers : Definitions.Refers registry.Holds tag other)
    (listed : Definitions.Listed registry.Holds other) : registry.Trail (path ++ [tag]) other where
  distinct := List.nodup_append.mpr ⟨trail.distinct, List.nodup_singleton tag, by
    intro first member second same
    rw [List.mem_singleton.mp same]
    rintro rfl
    exact fresh member⟩
  listed := by
    intro other' member
    rcases List.mem_append.mp member with before | last
    · exact trail.listed other' before
    · rw [List.mem_singleton.mp last]
      exact listed
  chain := by
    refine trail.chain.append (List.isChain_singleton other) ?_
    intro first isLast second isFirst
    rw [List.getLast?_concat, Option.mem_some_iff] at isLast
    rw [List.head?_cons, Option.mem_some_iff] at isFirst
    rw [← isLast, ← isFirst]
    exact refers

/-- One step of the search below a tag: the deepest of the references so far and of one more. -/
def deepen (registry : Registry) (path : List String) (state : Nat × Depths) (reference : String) :
    Except (List String) (Nat × Depths) := do
  let (depth, known) ← registry.depthOf path state.2 reference
  return (max state.1 depth, known)

/-- Searching a new tag searches its references in turn. -/
theorem depthOf_new {path : List String} {known : Depths} {tag : String} {definition : Filter}
    (new : known.lookup tag = none) (fresh : tag ∉ path) (found : registry.get? tag = some definition) :
    registry.depthOf path known tag =
      definition.implicitReferences.toList.foldlM (registry.deepen (path ++ [tag])) (0, known) >>=
        fun (deepest, known) => .ok (definition.depth + deepest, (tag, definition.depth + deepest) :: known) := by
  rw [depthOf]
  simp only [new, fresh, dite_false]
  split
  · simp_all
  · simp_all
    rfl

/-- What the searches from several references leave of a start with some depth: right depths, and the
    greatest of the start and all costs of the references. -/
structure Deepened (registry : Registry) (start : Nat) (references : List String)
    (result : Nat × Depths) : Prop where
  right : registry.Right result.2
  start_le : start ≤ result.1
  bounds : ∀ reference ∈ references, ∀ cost ∈ Definitions.depths registry.Holds reference, cost ≤ result.1
  attained : result.1 = start ∨
    ∃ reference ∈ references, result.1 ∈ Definitions.depths registry.Holds reference

/-- One step: the search from a reference, and the deeper of the two depths. -/
theorem deepen_ends {path : List String} {start : Nat} {known : Depths} {reference : String}
    (ends : registry.SearchEnds reference (registry.depthOf path known reference)) :
    Ends (Definitions.RunsIntoItself registry.Holds) (registry.Deepened start [reference])
      (registry.deepen path (start, known) reference) := by
  refine ends.bind fun (depth, after) ⟨greatest, right⟩ => ?_
  refine ⟨right, Nat.le_max_left start depth, ?_, ?_⟩
  · intro other member cost reached
    rw [List.mem_singleton.mp member] at reached
    exact Nat.le_trans (greatest.2 reached) (Nat.le_max_right start depth)
  · rcases Nat.le_total start depth with deeper | shallower
    · rw [Nat.max_eq_right deeper]
      exact .inr ⟨reference, List.mem_singleton_self _, greatest.1⟩
    · exact .inl (Nat.max_eq_left shallower)

theorem Deepened.trans {start : Nat} {reference : String} {rest : List String}
    {middle result : Nat × Depths} (first : registry.Deepened start [reference] middle)
    (second : registry.Deepened middle.1 rest result) :
    registry.Deepened start (reference :: rest) result where
  right := second.right
  start_le := Nat.le_trans first.start_le second.start_le
  bounds := by
    intro other member cost reached
    rcases List.mem_cons.mp member with rfl | later
    · exact Nat.le_trans (first.bounds other (List.mem_singleton_self _) cost reached) second.start_le
    · exact second.bounds other later cost reached
  attained := by
    rcases second.attained with same | ⟨other, member, reached⟩
    · rw [same]
      rcases first.attained with start | ⟨other, member, reached⟩
      · exact .inl start
      · rw [List.mem_singleton.mp member] at reached
        exact .inr ⟨reference, List.mem_cons_self, reached⟩
    · exact .inr ⟨other, List.mem_cons_of_mem _ member, reached⟩

/-- The searches from all references of a definition in turn. -/
theorem foldlM_deepen_ends {path references : List String}
    (each : ∀ reference ∈ references, ∀ known, registry.Right known →
      registry.SearchEnds reference (registry.depthOf path known reference))
    {start : Nat} {known : Depths} (right : registry.Right known) :
    Ends (Definitions.RunsIntoItself registry.Holds) (registry.Deepened start references)
      (references.foldlM (registry.deepen path) (start, known)) := by
  induction references generalizing start known with
  | nil => exact ⟨right, Nat.le_refl start, fun _ member => absurd member List.not_mem_nil, .inl rfl⟩
  | cons reference rest ih =>
    rw [List.foldlM_cons]
    refine (deepen_ends (each reference List.mem_cons_self known right)).bind fun middle first => ?_
    refine (ih (fun other member => each other (List.mem_cons_of_mem _ member)) first.right).imp
      (fun _ runs => runs) fun result second => first.trans second

/-- The depth of a tag is that of its definition and of the deepest of its references. -/
theorem Deepened.isGreatest {tag : String} {definition : Filter} {result : Nat × Depths}
    (found : registry.get? tag = some definition)
    (deepened : registry.Deepened 0 definition.implicitReferences.toList result) :
    IsGreatest (Definitions.depths registry.Holds tag) (definition.depth + result.1) := by
  constructor
  · rcases deepened.attained with none | ⟨reference, member, reached⟩
    · rw [none]
      exact Definitions.depth_mem_depths found
    · exact Definitions.add_mem_depths found (Filter.mem_implicitReferences_iff.mp member) reached
  · intro cost reached
    obtain ⟨other, defined, rfl | ⟨reference, below, implied, onward, rfl⟩⟩ :=
      Definitions.mem_depths_iff.mp reached
    · cases found.symm.trans defined
      exact Nat.le_add_right _ _
    · cases found.symm.trans defined
      have bounded := deepened.bounds reference (Filter.mem_implicitReferences_iff.mpr implied) below onward
      exact Nat.add_le_add_left bounded _

/-- A search that starts with right depths behind a reference path reports a path that runs into
    itself, or finds the exact depth of its tag and keeps the remembered depths right. -/
theorem depthOf_ends
    (closed : ∀ tag other, Definitions.Refers registry.Holds tag other →
      Definitions.Listed registry.Holds other)
    {path : List String} {known : Depths} {tag : String} (trail : registry.Trail path tag)
    (right : registry.Right known) : registry.SearchEnds tag (registry.depthOf path known tag) := by
  induction path, known, tag using depthOf.induct registry with
  | case1 path known tag depth remembered =>
    rw [depthOf, remembered]
    exact ⟨right tag depth remembered, right⟩
  | case2 path known tag new met =>
    rw [depthOf]
    simp only [new, met, dite_true]
    exact trail.runsIntoItself met
  | case3 path known tag new fresh missing =>
    obtain ⟨definition, found⟩ := trail.listed tag (List.mem_append_right _ (List.mem_singleton_self tag))
    cases missing.symm.trans found
  | case4 path known tag new fresh definition found ih =>
    rw [depthOf_new new fresh found]
    have each : ∀ reference ∈ definition.implicitReferences.toList, ∀ known, registry.Right known →
        registry.SearchEnds reference (registry.depthOf (path ++ [tag]) known reference) := by
      intro reference member known right
      have refers : Definitions.Refers registry.Holds tag reference :=
        ⟨definition, found, Filter.mem_implicitReferences_iff.mp member⟩
      exact ih reference known (trail.next fresh refers (closed tag reference refers)) right
    refine (foldlM_deepen_ends each right).bind fun result deepened => ?_
    have greatest := deepened.isGreatest found
    exact ⟨greatest, deepened.right.cons greatest⟩

/-! ## All names -/

/-- The searches from several names find a cycle or a name that is too deep, or each name has a
    costliest path within the limit. -/
theorem checkDepths_ends
    (closed : ∀ tag other, Definitions.Refers registry.Holds tag other →
      Definitions.Listed registry.Holds other)
    {known : Depths} {names : List String} (right : registry.Right known)
    (listed : ∀ name ∈ names, Definitions.Listed registry.Holds name) :
    Ends (RegistryFault.Tells registry.Holds)
      (fun _ => ∀ name ∈ names, ∃ deepest,
        IsGreatest (Definitions.depths registry.Holds name) deepest ∧ deepest ≤ Markup.maxDepth)
      (registry.checkDepths known names) := by
  induction names generalizing known with
  | nil => exact fun _ member => absurd member List.not_mem_nil
  | cons name rest ih =>
    have first := listed name List.mem_cons_self
    have trail : registry.Trail [] name :=
      ⟨List.nodup_nil, fun other member => List.mem_singleton.mp member ▸ first, List.isChain_singleton name⟩
    have search : Ends (RegistryFault.Tells registry.Holds)
        (fun result => IsGreatest (Definitions.depths registry.Holds name) result.1 ∧ registry.Right result.2)
        ((registry.depthOf [] known name).mapError (.cycle name)) :=
      (depthOf_ends closed trail right).mapError fun path runs => ⟨first, runs⟩
    rw [checkDepths]
    refine search.bind fun (depth, after) ⟨greatest, stillRight⟩ => ?_
    by_cases deep : Markup.maxDepth < depth
    · simp only [deep, if_true]
      exact ⟨first, greatest, deep⟩
    · simp only [deep, if_false]
      refine (ih stillRight fun other member => listed other (List.mem_cons_of_mem _ member)).imp
        (fun _ fault => fault) fun _ others => ?_
      exact List.forall_mem_cons.mpr ⟨⟨depth, greatest, Nat.le_of_not_lt deep⟩, others⟩

end Registry

end ModelCatalog
