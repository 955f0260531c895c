import ModelCatalog.Proofs.Grammar.Levels

/-!
# The first violation of a document

Filters and manifests are checked level by level: at every element the rules about the element come first, and
then its children are checked in order, entries and tag expressions included (`Grammar.filters_hasLevel`,
`Grammar.manifests_hasLevel`). So the violation that is reported is the first one in document order, in both
grammars (`Grammar.first_violation_wins`).
-/

namespace ModelCatalog

open Element

variable {α β γ : Type}

namespace Grammar

/-! ## Entries and tag expressions -/

section

variable {grammar : Grammar α β γ} {e : Element}

/-- Check an entry and what stands in it. -/
theorem level_entry {inner : List Element → Element → Checked Unit} {rules : EntryRules} {container : String}
    {names : List String} {read : Element → Checked α} (each : ∀ child, inner [] child = passes (read child)) :
    Level inner e.line e.children fun others =>
      rules.checkEntries container names [e.withChildren others] fun _ value _ _ => read value := by
  simp only [EntryRules.checkEntries]
  refine .own (fun _ _ => rfl) entryName_reports fun name _ => ?_
  refine .only (fun _ _ => EntryRules.entryValue_eq_ok_iff) (loneChild_reports rfl) each fun others checked => ?_
  exact ⟨_, rfl⟩

theorem level_expression {inner : List Element → Element → Checked Unit} :
    Level inner e.line e.children fun others => (e.withChildren others).tagGroup := by
  by_cases operates : e.hasAttribute filterAttribute = true
  · have refused : (e.withChildren e.children).tagGroup =
        .error (e.violation .condensedTagsIllegalFilterAttribute) := if_pos operates
    exact .refused refused rfl
  refine .congr (fun others => if_neg operates) (.childless fun none => ?_)
  by_cases blank : e.trimmedText = ""
  · refine .congr (fun others => if_pos blank) ?_
    have refused : (throw (e.violation .condensedTagsEmpty) : Checked TagGroup) =
        .error (e.violation .condensedTagsEmpty) := rfl
    exact .refused refused rfl
  refine .congr (fun others => if_neg blank) ?_
  cases isTags : Condensed.parse e.trimmedText with
  | error error =>
    have opened : ∀ others, Condensed.parse (e.withChildren others).trimmedText = .error error := fun _ => isTags
    refine .congr (fun others => by rw [opened]) ?_
    exact .refused rfl rfl
  | ok tags =>
    have opened : ∀ others, Condensed.parse (e.withChildren others).trimmedText = .ok tags := fun _ => isTags
    refine .congr (fun others => by rw [opened]) ?_
    exact .leaf none rfl

/-- The roles that both grammars check alike, given those of values and types. -/
theorem hasLevel_of_levels (values : ∀ e, grammar.HasLevel .value e) (types : ∀ e, grammar.HasLevel .type e)
    (dims : ∀ e, grammar.HasLevel .dim e) (role : Role) (e : Element) : grammar.HasLevel role e := by
  cases role with
  | value => exact values e
  | type => exact types e
  | dim => exact dims e
  | field container names => exact (level_entry fun _ => rfl).withoutResult
  | namedValue container names => exact (level_entry fun _ => rfl).withoutResult
  | expression =>
    apply Level.withoutResult
    by_cases tagged : e.tag = ValueTag.condensedTags.name
    · exact .congr (fun others => if_neg (not_not.mpr tagged)) level_expression
    · refine .congr (fun others => if_pos tagged) ?_
      exact .refused rfl rfl
  | nothing => exact .refused rfl rfl

end

end Grammar

/-! ## Filters -/

section

variable {inner : List Element → Element → Checked Unit} {e : Element}

/-- An element that can ask for one operation. -/
theorem Level.choice {legal : List Operation} {chosen : Operation} {asked : List Element → Checked α}
    {node : List Element → α} (level : Level inner e.line e.children asked) :
    Level inner e.line e.children fun others =>
      (do
        if (← (e.withChildren others).operation legal) = chosen then
          asked others
        else (e.withChildren others).kindOnly (node others)) :=
  .own (fun _ _ => rfl) operation_reports fun _ _ => .ite (fun _ => level) fun _ => .kindOnly

/-- An element that connects its children. -/
theorem Level.connected {read : Element → Checked α} (each : ∀ earlier child, inner earlier child = passes (read child))
    {and or : Nat → List α → α} {not : Nat → α → α} :
    Level inner e.line e.children fun others => do
      let operation ← (e.withChildren others).connective
      let operands ← (e.withChildren others).checkChildren fun child _ => read child
      match operation with
      | .and => return and (e.withChildren others).line operands
      | .or => return or (e.withChildren others).line operands
      | _ => return not (e.withChildren others).line (← (e.withChildren others).negated operands) := by
  refine .own (fun others count => connective_withChildren count) connective_reports fun operation isConnective => ?_
  refine .made (.elements each) fun others operands count read => ?_
  obtain ⟨-, ⟨rfl | rfl, -⟩ | ⟨rfl, single⟩⟩ := connective_eq_ok_iff.mp isConnective
  · exact ⟨_, rfl⟩
  · exact ⟨_, rfl⟩
  · -- A negation has as many operands as children, which is one.
    rw [checkChildren_eq_mapM] at read
    have sameCount := (mapM_eq_ok_iff.mp read).length_eq
    obtain ⟨operand, rfl⟩ := List.length_eq_one_iff.mp ((sameCount.trans count).trans single)
    exact ⟨_, rfl⟩

theorem DimFilter.hasLevel (e : Element) : Grammar.filters.HasLevel .dim e := by
  apply Level.withoutResult
  by_cases isDim : e.tag = TypeTag.dim.name
  · refine .congr (fun others => (DimFilter.ofElement.eq_1 _).trans (if_pos isDim)) ?_
    exact .made .comparison fun _ found _ _ => by cases found <;> exact ⟨_, rfl⟩
  refine .congr (fun others => (DimFilter.ofElement.eq_1 _).trans (if_neg isDim)) ?_
  by_cases isLogical : e.tag = ValueTag.logical.name
  · refine .congr (fun others => if_pos isLogical) (.connected fun earlier child => ?_)
    rw [Role.below, if_pos isLogical]
    rfl
  · refine .congr (fun others => if_neg isLogical) ?_
    exact .refused rfl rfl

end

theorem TypeFilter.level (e : Element) :
    Level (fun earlier => Grammar.filters.check (Role.type.below e.tag earlier)) e.line e.children
      fun others => TypeFilter.ofElement (e.withChildren others) := by
  cases isTag : TypeTag.ofName? e.tag with
  | none =>
    have opened : ∀ others, TypeTag.ofName? (e.withChildren others).tag = none := fun _ => isTag
    refine .congr (fun others => by rw [TypeFilter.ofElement, opened]) ?_
    exact .refused rfl rfl
  | some tag =>
    have opened : ∀ others, TypeTag.ofName? (e.withChildren others).tag = some tag := fun _ => isTag
    refine .congr (fun others => by rw [TypeFilter.ofElement, opened]) ?_
    unfold Role.below
    rw [isTag]
    cases tag with
    | namedValue | dim => exact .refused rfl rfl
    | string | bool | int | float => exact .primitive
    | tensor => exact .choice (.items fun _ _ => rfl)
    | tuple => exact .choice (.items fun _ _ => rfl)
    | list =>
      refine .choice ?_
      exact .only (fun _ _ => itemType_eq_ok_iff) (loneChild_reports rfl) (fun _ => rfl) fun _ _ => ⟨_, rfl⟩
    | namedValueCollection => exact .choice (.made (.named fun _ _ => rfl) fun _ _ _ _ => ⟨_, rfl⟩)

theorem Filter.level (e : Element) :
    Level (fun earlier => Grammar.filters.check (Role.value.below e.tag earlier)) e.line e.children
      fun others => Filter.ofElement (e.withChildren others) := by
  cases isTag : ValueTag.ofName? e.tag with
  | none =>
    have opened : ∀ others, ValueTag.ofName? (e.withChildren others).tag = none := fun _ => isTag
    refine .congr (fun others => by rw [Filter.ofElement, opened]) ?_
    exact .refused rfl rfl
  | some tag =>
    have opened : ∀ others, ValueTag.ofName? (e.withChildren others).tag = some tag := fun _ => isTag
    refine .congr (fun others => by rw [Filter.ofElement, opened]) ?_
    unfold Role.below
    rw [isTag]
    cases tag with
    | namedField | condensedTags => exact .refused rfl rfl
    | dict => exact .choice (.made (.named fun _ _ => rfl) fun _ _ _ _ => ⟨_, rfl⟩)
    | list => exact .choice (.items fun _ _ => rfl)
    | string =>
      refine .choice (.childless fun none => ?_)
      exact .leaf none rfl
    | bool =>
      refine .choice (.childless fun none => .literal fun _ => ?_)
      exact .leaf none rfl
    | int | float => exact .made .comparison fun _ found _ _ => by cases found <;> exact ⟨_, rfl⟩
    | typeDeclaration =>
      refine .choice ?_
      exact .only (fun _ _ => declaredType_eq_ok_iff) (loneChild_reports rfl) (fun _ => rfl) fun _ _ => ⟨_, rfl⟩
    | logical => exact .connected fun _ _ => rfl
    | tagCollection =>
      refine .own (fun _ _ => rfl) operation_reports fun operation isOperation => ?_
      obtain ⟨-, legal⟩ := operation_eq_ok_iff.mp isOperation
      rcases Operation.mem_ofTagCollection_iff.mp legal with rfl | rfl | rfl
      · exact .made (.groups fun _ _ => rfl) fun _ _ _ _ => ⟨_, rfl⟩
      · exact .made (.groups fun _ _ => rfl) fun _ _ _ _ => ⟨_, rfl⟩
      · exact .kindOnly

theorem Grammar.filters_hasLevel (role : Role) (e : Element) : Grammar.filters.HasLevel role e :=
  hasLevel_of_levels (fun e => (Filter.level e).withoutResult) (fun e => (TypeFilter.level e).withoutResult)
    DimFilter.hasLevel role e

/-! ## Manifests -/

theorem Dim.hasLevel (e : Element) : Grammar.manifests.HasLevel .dim e := by
  apply Level.withoutResult
  by_cases isDim : e.tag = TypeTag.dim.name
  · refine .congr (fun others => if_neg (not_not.mpr isDim)) ?_
    refine .own (fun _ _ => rfl) requireNoOperation_reports fun _ _ => ?_
    exact .made .slot fun _ _ _ _ => ⟨_, rfl⟩
  · refine .congr (fun others => if_pos isDim) ?_
    exact .refused rfl rfl

theorem TypeDecl.level (e : Element) :
    Level (fun earlier => Grammar.manifests.check (Role.type.below e.tag earlier)) e.line e.children
      fun others => TypeDecl.ofElement (e.withChildren others) := by
  cases isTag : TypeTag.ofName? e.tag with
  | none =>
    have opened : ∀ others, TypeTag.ofName? (e.withChildren others).tag = none := fun _ => isTag
    refine .congr (fun others => by rw [TypeDecl.ofElement, opened]) ?_
    exact .refused rfl rfl
  | some tag =>
    have opened : ∀ others, TypeTag.ofName? (e.withChildren others).tag = some tag := fun _ => isTag
    refine .congr (fun others => by rw [TypeDecl.ofElement, opened]) ?_
    unfold Role.below
    rw [isTag]
    refine .own (fun _ _ => rfl) requireNoOperation_reports fun _ _ => ?_
    cases tag with
    | namedValue | dim => exact .refused rfl rfl
    | string | bool | int | float => exact .primitive
    | tensor => exact .items fun _ _ => rfl
    | tuple => exact .items fun _ _ => rfl
    | list =>
      exact .only (fun _ _ => itemType_eq_ok_iff) (loneChild_reports rfl) (fun _ => rfl) fun _ _ => ⟨_, rfl⟩
    | namedValueCollection => exact .made (.named fun _ _ => rfl) fun _ _ _ _ => ⟨_, rfl⟩

theorem Manifest.level (e : Element) :
    Level (fun earlier => Grammar.manifests.check (Role.value.below e.tag earlier)) e.line e.children
      fun others => Manifest.ofElement (e.withChildren others) := by
  cases isTag : ValueTag.ofName? e.tag with
  | none =>
    have opened : ∀ others, ValueTag.ofName? (e.withChildren others).tag = none := fun _ => isTag
    refine .congr (fun others => by rw [Manifest.ofElement, opened]) ?_
    exact .refused rfl rfl
  | some tag =>
    have opened : ∀ others, ValueTag.ofName? (e.withChildren others).tag = some tag := fun _ => isTag
    refine .congr (fun others => by rw [Manifest.ofElement, opened]) ?_
    unfold Role.below
    rw [isTag]
    refine .own (fun _ _ => rfl) requireNoOperation_reports fun _ _ => ?_
    cases tag with
    | logical | namedField | condensedTags => exact .refused rfl rfl
    | dict => exact .made (.named fun _ _ => rfl) fun _ _ _ _ => ⟨_, rfl⟩
    | list => exact .items fun _ _ => rfl
    | string | bool | int | float => exact .made .slot fun _ _ _ _ => ⟨_, rfl⟩
    | typeDeclaration =>
      exact .only (fun _ _ => declaredType_eq_ok_iff) (loneChild_reports rfl) (fun _ => rfl) fun _ _ => ⟨_, rfl⟩
    | tagCollection => exact .made (.groups fun _ _ => rfl) fun _ _ _ _ => ⟨_, rfl⟩

theorem Grammar.manifests_hasLevel (role : Role) (e : Element) : Grammar.manifests.HasLevel role e :=
  hasLevel_of_levels (fun e => (Manifest.level e).withoutResult) (fun e => (TypeDecl.level e).withoutResult)
    Dim.hasLevel role e

/-! ## Both grammars -/

namespace Grammar

/-- A value of a grammar that has levels is refused for the first violation in it. -/
theorem exists_isFirst_value {grammar : Grammar α β γ} (levels : ∀ role e, grammar.HasLevel role e) {e : Element}
    {violation : Violation} (failed : grammar.value e = .error violation) :
    ∃ path position, grammar.IsFirst .value grammar.value e violation path position := by
  have checked : grammar.check .value e = .error violation := passes_eq_error_iff.mpr failed
  obtain ⟨path, position, stands, line, earlier, decided⟩ := exists_isFirst levels checked
  exact ⟨path, position, stands, line, earlier, fun other same => passes_eq_error_iff.mp (decided other same)⟩

/-- Filters and manifests are refused for the first violation in document order. -/
theorem first_violation_wins (e : Element) (violation : Violation) :
    (Filter.ofElement e = .error violation →
      ∃ path position, filters.IsFirst .value Filter.ofElement e violation path position) ∧
    (Manifest.ofElement e = .error violation →
      ∃ path position, manifests.IsFirst .value Manifest.ofElement e violation path position) :=
  ⟨exists_isFirst_value filters_hasLevel, exists_isFirst_value manifests_hasLevel⟩

/-- The document of a list, with or without an operation, whose second item is misplaced in both grammars. -/
def misplacedItem (attributes : List (String × String)) : Element :=
  ⟨"list", 1, attributes, none, [⟨"list", 2, attributes, none, []⟩, ⟨"named-field", 3, [], none, []⟩]⟩

theorem misplacedItem_first_violation_wins :
    (∃ path position, filters.IsFirst .value Filter.ofElement (misplacedItem [("filter", "all")])
        ⟨.invalidTag, 3, .misplaced "named-field"⟩ path position) ∧
      ∃ path position, manifests.IsFirst .value Manifest.ofElement (misplacedItem [])
        ⟨.invalidTag, 3, .misplaced "named-field"⟩ path position := by
  have refusedFilter : Filter.ofElement (misplacedItem [("filter", "all")]) =
      .error ⟨.invalidTag, 3, .misplaced "named-field"⟩ := by with_unfolding_all rfl
  have refusedManifest : Manifest.ofElement (misplacedItem []) =
      .error ⟨.invalidTag, 3, .misplaced "named-field"⟩ := by with_unfolding_all rfl
  exact ⟨(first_violation_wins _ _).1 refusedFilter, (first_violation_wins _ _).2 refusedManifest⟩

end Grammar

end ModelCatalog
