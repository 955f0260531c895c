import ModelCatalog.Proofs.Registry.Search
import ModelCatalog.Registry.Load

/-!
# Which definitions make a registry

Building a registry from definitions with different names succeeds exactly when they are sound, and
then the registry holds just these; otherwise the fault that is reported is there (`build_ends`). For
an index whose files hold filters this says when it loads, what it loads to, and that a reported cycle
and a reported depth are true.
-/

namespace ModelCatalog

/-- The definitions in a list. -/
def Definitions.listedIn (definitions : List (String × Filter)) : Definitions :=
  fun tag definition => (tag, definition) ∈ definitions

namespace Registry

theorem mem_entries_iff {registry : Registry} {tag : String} {definition : Filter} :
    (tag, definition) ∈ registry.definitions.entries ↔ registry.Holds tag definition :=
  NameMap.mem_entries_iff

theorem not_contains_iff {registry : Registry} {tag : String} :
    registry.contains tag = false ↔ ¬Definitions.Listed registry.Holds tag := by
  rw [listed_iff, mem_names, contains, Bool.not_eq_true]

/-- The unknown tags of a registered definition, which may name itself anyway. -/
theorem mem_unknownTags_of_listed {registry : Registry} {name tag : String} {definition : Filter}
    (listed : Definitions.Listed registry.Holds name) :
    tag ∈ definition.unknownTags registry (some name) ↔
      (definition.Implies tag ∨ definition.Requires tag) ∧ ¬Definitions.Listed registry.Holds tag := by
  rw [Filter.mem_unknownTags_iff, not_contains_iff, and_comm]
  refine and_congr_left fun missing => or_congr_right (and_iff_left ?_)
  rintro same
  exact missing (Option.some.inj same ▸ listed)

/-! ## The three checks -/

/-- Adding definitions with new and different names finds a name that is no identifier, or adds them
    all. -/
theorem addDefinitions_ends {registry : Registry} {definitions : List (String × Filter)}
    (distinct : (definitions.map (·.1)).Nodup)
    (fresh : ∀ name ∈ definitions.map (·.1), registry.get? name = none) :
    Ends (fun fault => ∃ name ∈ definitions.map (·.1), ¬IsIdentifier name ∧ fault = .notIdentifier name)
      (fun result => (∀ name ∈ definitions.map (·.1), IsIdentifier name) ∧
        ∀ tag definition, result.get? tag = some definition ↔
          (tag, definition) ∈ definitions ∨ registry.get? tag = some definition)
      (registry.addDefinitions definitions) := by
  induction definitions generalizing registry with
  | nil => exact ⟨by simp, by simp⟩
  | cons entry rest ih =>
    obtain ⟨name, definition⟩ := entry
    obtain ⟨notLater, restDistinct⟩ := List.nodup_cons.mp distinct
    have new : registry.get? name = none := fresh name List.mem_cons_self
    rw [addDefinitions]
    by_cases isName : isIdentifier name
    · have identifier := isIdentifier_iff.mp isName
      simp only [isName, contains, new, Bool.not_true, Option.isSome_none, Bool.false_eq_true, if_false]
      have freshRest : ∀ other ∈ rest.map (·.1), (registry.insert name definition).get? other = none := by
        intro other member
        rw [get?_insert, if_neg (ne_of_mem_of_not_mem member notLater)]
        exact fresh other (List.mem_cons_of_mem _ member)
      refine (ih restDistinct freshRest).imp ?_ ?_
      · rintro fault ⟨other, member, noName, rfl⟩
        exact ⟨other, List.mem_cons_of_mem _ member, noName, rfl⟩
      · rintro result ⟨identifiers, holds⟩
        refine ⟨List.forall_mem_cons.mpr ⟨identifier, identifiers⟩, ?_⟩
        intro tag found
        rw [holds, get?_insert, List.mem_cons, Prod.mk.injEq]
        by_cases same : tag = name
        · subst same
          simp [new, or_comm, eq_comm]
        · simp [same]
    · have noName : ¬IsIdentifier name := fun identifier => isName (isIdentifier_iff.mpr identifier)
      simp only [isName, Bool.not_false, if_true]
      exact ⟨name, List.mem_cons_self, noName, rfl⟩

/-- The registry of definitions with different names holds just these. -/
theorem ofDefinitions_ends {definitions : List (String × Filter)}
    (distinct : (definitions.map (·.1)).Nodup) :
    Ends (RegistryFault.Tells (.listedIn definitions))
      (fun registry => registry.Holds = .listedIn definitions ∧
        ∀ tag, Definitions.Listed registry.Holds tag → IsIdentifier tag)
      (ofDefinitions definitions) := by
  refine (addDefinitions_ends distinct fun _ _ => rfl).imp ?_ ?_
  · rintro fault ⟨name, member, noName, rfl⟩
    obtain ⟨⟨_, definition⟩, inside, rfl⟩ := List.mem_map.mp member
    exact ⟨⟨definition, inside⟩, noName⟩
  · rintro registry ⟨identifiers, holds⟩
    have same : registry.Holds = .listedIn definitions := by
      funext tag definition
      have none : ¬empty.get? tag = some definition := fun found => nomatch found
      exact propext ((holds tag definition).trans (or_iff_left none))
    refine ⟨same, ?_⟩
    rintro tag ⟨definition, inside⟩
    rw [same] at inside
    exact identifiers tag (List.mem_map.mpr ⟨_, inside, rfl⟩)

/-- Checking references finds a definition with exactly its unknown tags, or all are known. -/
theorem checkReferences_ends {registry : Registry} {definitions : List (String × Filter)}
    (held : ∀ entry ∈ definitions, registry.Holds entry.1 entry.2) :
    Ends (RegistryFault.Tells registry.Holds)
      (fun _ => ∀ entry ∈ definitions, ∀ other, entry.2.Implies other ∨ entry.2.Requires other →
        Definitions.Listed registry.Holds other)
      (registry.checkReferences definitions) := by
  induction definitions with
  | nil => exact fun _ member => absurd member List.not_mem_nil
  | cons entry rest ih =>
    obtain ⟨name, definition⟩ := entry
    have defined : registry.Holds name definition := held _ List.mem_cons_self
    have unknown : ∀ tag, tag ∈ definition.unknownTags registry (some name) ↔
        (definition.Implies tag ∨ definition.Requires tag) ∧ ¬Definitions.Listed registry.Holds tag :=
      fun _ => mem_unknownTags_of_listed ⟨definition, defined⟩
    rw [checkReferences]
    by_cases allKnown : (definition.unknownTags registry (some name)).isEmpty
    · simp only [allKnown, if_true]
      have known : ∀ other, definition.Implies other ∨ definition.Requires other →
          Definitions.Listed registry.Holds other := by
        intro other asked
        by_contra missing
        exact NameSet.isEmpty_iff.mp allKnown other ((unknown other).mpr ⟨asked, missing⟩)
      refine (ih fun entry member => held entry (List.mem_cons_of_mem _ member)).imp
        (fun _ tells => tells) fun _ others => List.forall_mem_cons.mpr ⟨known, others⟩
    · simp only [allKnown]
      obtain ⟨tag, member⟩ : ∃ tag, tag ∈ definition.unknownTags registry (some name) := by
        by_contra none
        exact allKnown (NameSet.isEmpty_iff.mpr (not_exists.mp none))
      exact ⟨definition, defined, ⟨tag, member⟩, unknown⟩

/-- Checking a registry whose names are identifiers finds a fault that is there, or the registry is
    sound. -/
theorem checkSound_ends {registry : Registry}
    (identifiers : ∀ tag, Definitions.Listed registry.Holds tag → IsIdentifier tag) :
    Ends (RegistryFault.Tells registry.Holds) (fun _ => Definitions.Sound registry.Holds)
      registry.checkSound := by
  rw [checkSound]
  refine (checkReferences_ends fun entry member => mem_entries_iff.mp member).bind fun _ references => ?_
  have known : ∀ tag definition, registry.Holds tag definition →
      ∀ other, definition.Implies other ∨ definition.Requires other →
        Definitions.Listed registry.Holds other :=
    fun tag definition defined => references (tag, definition) (mem_entries_iff.mpr defined)
  have closed : ∀ tag other, Definitions.Refers registry.Holds tag other →
      Definitions.Listed registry.Holds other := by
    rintro tag other ⟨definition, defined, implied⟩
    exact known tag definition defined other (.inl implied)
  refine (checkDepths_ends closed .nil fun name member => listed_iff.mpr member).imp
    (fun _ tells => tells) fun _ depths => ?_
  refine ⟨identifiers, known, Definitions.acyclic_of_depths fun tag listed => ?_,
    fun tag listed => depths tag (listed_iff.mp listed)⟩
  obtain ⟨deepest, greatest, _⟩ := depths tag (listed_iff.mp listed)
  exact ⟨deepest, greatest⟩

/-- Building a registry of definitions with different names reports a fault that is there, or the
    definitions are sound and the registry holds just these. -/
theorem build_ends {definitions : List (String × Filter)} (distinct : (definitions.map (·.1)).Nodup) :
    Ends (RegistryFault.Tells (.listedIn definitions))
      (fun registry => registry.Holds = .listedIn definitions ∧ Definitions.Sound (.listedIn definitions))
      (build definitions) := by
  rw [build]
  refine (ofDefinitions_ends distinct).bind fun registry ⟨same, identifiers⟩ => ?_
  rw [← same]
  exact (checkSound_ends identifiers).bind fun _ sound => ⟨rfl, sound⟩

end Registry

end ModelCatalog
