import ModelCatalog.Proofs.Grammar.Rules
import Mathlib.Data.List.Forall2
import Mathlib.Data.List.Nodup

/-!
# Reading containers

When the children of an element are read, and to what. A check of the children gives results that stand
side by side with the children that they were read from (`Element.checkChildren_eq_ok_iff`). A check of
named entries does so when each of them has the tag of the entries, a name that no other entry has, and
one child that gives the value (`Element.checkNamed_eq_ok_iff`). A tag collection holds expressions only
(`Element.tagGroups_eq_ok_iff`). Each of these equivalences takes one for the children, so that a check of
a whole tree is described by recursion on the tree.
-/

namespace ModelCatalog

variable {α : Type}

/-- Every member on the left stands beside one on the right. -/
theorem exists_of_forall₂_of_mem {β : Type} {relates : α → β → Prop} {left : List α} {right : List β}
    (each : List.Forall₂ relates left right) {first : α} (member : first ∈ left) :
    ∃ second ∈ right, relates first second := by
  induction each with
  | nil => exact absurd member List.not_mem_nil
  | cons related _ ih =>
    rcases List.mem_cons.mp member with rfl | later
    · exact ⟨_, List.mem_cons_self, related⟩
    · obtain ⟨second, inside, relatedLater⟩ := ih later
      exact ⟨second, List.mem_cons_of_mem _ inside, relatedLater⟩

/-- Lists side by side have the same images where their members have. -/
theorem map_eq_map_of_forall₂ {β γ : Type} {relates : α → β → Prop} {left : List α} {right : List β}
    {first : α → γ} {second : β → γ} (each : List.Forall₂ relates left right)
    (same : ∀ member other, relates member other → first member = second other) :
    left.map first = right.map second := by
  induction each with
  | nil => rfl
  | cons related _ ih => rw [List.map_cons, List.map_cons, same _ _ related, ih]

/-- A walk succeeds with the results of the members in their order. -/
theorem mapM_eq_ok_iff {ε β : Type} {members : List α} {action : α → Except ε β} {results : List β} :
    members.mapM action = .ok results ↔
      List.Forall₂ (fun result member => action member = .ok result) results members := by
  induction members generalizing results with
  | nil =>
    rw [List.forall₂_nil_right_iff, List.mapM_nil]
    exact ⟨fun done => (Except.ok.inj done).symm, fun none => congrArg Except.ok none.symm⟩
  | cons member rest ih =>
    rw [List.mapM_cons]
    constructor
    · intro done
      obtain ⟨first, isFirst, done⟩ := bind_eq_ok_iff.mp done
      obtain ⟨others, areOthers, done⟩ := bind_eq_ok_iff.mp done
      cases done
      exact .cons isFirst (ih.mp areOthers)
    · intro each
      cases each with
      | cons isFirst areOthers =>
        exact bind_eq_ok_iff.mpr ⟨_, isFirst, bind_eq_ok_iff.mpr ⟨_, ih.mpr areOthers, rfl⟩⟩

/-! ## Children -/

section

variable {e : Element} {spelled : α → Element → Prop}

theorem Element.checkChildren_eq_ok_iff {check : (child : Element) → child ∈ e.children → Checked α}
    (given : ∀ child member result, check child member = .ok result ↔ spelled result child)
    {results : List α} : e.checkChildren check = .ok results ↔ List.Forall₂ spelled results e.children := by
  have sameRelation : (fun (result : α) (child : { child // child ∈ e.children }) =>
      check child.1 child.2 = .ok result) = fun result child => spelled result child.1 := by
    funext result child
    exact propext (given child.1 child.2 result)
  rw [checkChildren, mapM_eq_ok_iff, sameRelation, ← List.forall₂_map_right_iff, List.attach_map_subtype_val]

/-- Children that were read, each beside its result. -/
theorem Element.forall₂_of_checkChildren {check : (child : Element) → child ∈ e.children → Checked α}
    {results : List α} (read : e.checkChildren check = .ok results) :
    List.Forall₂ (fun result child => ∃ member, check child member = .ok result) results e.children :=
  (checkChildren_eq_ok_iff fun _ member _ => ⟨fun isResult => ⟨member, isResult⟩, fun ⟨_, isResult⟩ => isResult⟩).mp
    read

/-! ## Named entries -/

namespace EntryRules

variable {rules : EntryRules} {entry : Element}

theorem entryName_eq_ok_iff {container name : String} {seen : List String} :
    rules.entryName container seen entry = .ok name ↔
      entry.tag = rules.tag ∧ entry.attribute? nameAttribute = some name ∧ name ∉ seen := by
  unfold entryName
  by_cases tagged : entry.tag = rules.tag
  · rw [if_neg (not_not.mpr tagged)]
    cases entry.attribute? nameAttribute with
    | none => simp
    | some found =>
      by_cases earlier : found ∈ seen
      · simp only [if_pos earlier]
        constructor
        · intro impossible
          cases impossible
        · rintro ⟨_, same, fresh⟩
          cases same
          exact absurd earlier fresh
      · simp only [if_neg earlier]
        constructor
        · intro read
          cases read
          exact ⟨tagged, rfl, earlier⟩
        · rintro ⟨_, same, _⟩
          cases same
          rfl
  · simp [tagged]

theorem entryValue_eq_ok_iff {value : { value // value ∈ entry.children }} :
    rules.entryValue entry = .ok value ↔ entry.children = [value.1] ∧ entry.hasText = false :=
  Element.loneChild_eq_ok_iff

/-- An element is a named entry: it has the tag of entries and the name, and its only child spells the
    value. -/
inductive SpelledBy (rules : EntryRules) (spelled : α → Element → Prop) : Named α → Element → Prop
  | entry {e inner : Element} {name : String} {value : α} : e.tag = rules.tag →
      e.attribute? nameAttribute = some name → e.hasText = false → e.children = [inner] → spelled value inner →
      SpelledBy rules spelled ⟨name, e.line, value⟩ e

/-- Entries are read when their names are distinct and none of them was seen before. -/
theorem checkEntries_eq_ok_iff {container : String} {seen : List String} {entries : List Element}
    {check : (entry value : Element) → entry ∈ entries → value ∈ entry.children → Checked α}
    (given : ∀ entry value member inner result,
      check entry value member inner = .ok result ↔ spelled result value)
    {results : List (Named α)} :
    rules.checkEntries container seen entries check = .ok results ↔
      List.Forall₂ (rules.SpelledBy spelled) results entries ∧ (results.map (·.name)).Nodup ∧
        ∀ name ∈ results.map (·.name), name ∉ seen := by
  induction entries generalizing seen results with
  | nil =>
    rw [List.forall₂_nil_right_iff]
    constructor
    · intro read
      cases read
      exact ⟨rfl, List.nodup_nil, fun _ member => absurd member List.not_mem_nil⟩
    · rintro ⟨rfl, -, -⟩
      rfl
  | cons entry rest ih =>
    -- The rest is checked with the name of this entry seen as well.
    have others := fun (seen : List String) (results : List (Named α)) =>
      @ih seen _ (fun entry value member inner => given entry value (List.mem_cons_of_mem _ member) inner) results
    rw [checkEntries]
    constructor
    · intro read
      obtain ⟨name, isName, read⟩ := bind_eq_ok_iff.mp read
      obtain ⟨value, isValue, read⟩ := bind_eq_ok_iff.mp read
      obtain ⟨checked, isChecked, read⟩ := bind_eq_ok_iff.mp read
      obtain ⟨later, areLater, read⟩ := bind_eq_ok_iff.mp read
      cases read
      obtain ⟨tagged, named, fresh⟩ := entryName_eq_ok_iff.mp isName
      obtain ⟨alone, noText⟩ := entryValue_eq_ok_iff.mp isValue
      obtain ⟨each, distinct, apart⟩ := (others _ _).mp areLater
      refine ⟨.cons (.entry tagged named noText alone ((given _ _ _ _ _).mp isChecked)) each, ?_, ?_⟩
      · exact List.nodup_cons.mpr ⟨fun again => apart name again List.mem_cons_self, distinct⟩
      · refine List.forall_mem_cons.mpr ⟨fresh, fun other member before => ?_⟩
        exact apart other member (List.mem_cons_of_mem _ before)
    · rintro ⟨each, distinct, apart⟩
      cases each with
      | @cons _ _ later _ first each =>
        cases first with
        | @entry _ inner name value tagged named noText alone isSpelled =>
          obtain ⟨notLater, distinct⟩ := List.nodup_cons.mp distinct
          obtain ⟨fresh, apart⟩ := List.forall_mem_cons.mp apart
          have listed := Element.mem_children_of_alone alone
          have isName : rules.entryName container seen entry = .ok name :=
            entryName_eq_ok_iff.mpr ⟨tagged, named, fresh⟩
          have isValue : rules.entryValue entry = .ok ⟨inner, listed⟩ :=
            entryValue_eq_ok_iff.mpr ⟨alone, noText⟩
          have isChecked : check entry inner List.mem_cons_self listed = .ok value :=
            (given _ _ _ _ _).mpr isSpelled
          have areLater := (others (name :: seen) later).mpr ⟨each, distinct, fun other member => ?_⟩
          · exact bind_eq_ok_iff.mpr ⟨name, isName, bind_eq_ok_iff.mpr ⟨_, isValue, bind_eq_ok_iff.mpr
              ⟨value, isChecked, bind_eq_ok_iff.mpr ⟨later, areLater, rfl⟩⟩⟩⟩
          · refine List.not_mem_cons_of_ne_of_not_mem ?_ (apart other member)
            rintro rfl
            exact notLater member

end EntryRules

/-- The named entries of an element are read when it has no text and their names are distinct. -/
theorem Element.checkNamed_eq_ok_iff {rules : EntryRules}
    {check : (value : Element) → sizeOf value < sizeOf e → Checked α}
    (given : ∀ value smaller result, check value smaller = .ok result ↔ spelled result value)
    {results : List (Named α)} :
    e.checkNamed rules check = .ok results ↔
      e.hasText = false ∧ List.Forall₂ (rules.SpelledBy spelled) results e.children ∧
        (results.map (·.name)).Nodup := by
  rw [checkNamed, andThen_eq_ok_iff, requireNoText_eq_ok_iff]
  refine and_congr_right fun _ => ?_
  refine (EntryRules.checkEntries_eq_ok_iff fun entry value member inner => given value _).trans ?_
  exact and_congr_right fun _ => and_iff_left fun _ _ => List.not_mem_nil

/-- Named entries that were read have distinct names and stand beside their results. -/
theorem Element.forall₂_of_checkNamed {rules : EntryRules}
    {check : (value : Element) → sizeOf value < sizeOf e → Checked α} {results : List (Named α)}
    (read : e.checkNamed rules check = .ok results) :
    List.Forall₂ (rules.SpelledBy fun result value => ∃ smaller, check value smaller = .ok result)
      results e.children ∧ (results.map (·.name)).Nodup :=
  ((checkNamed_eq_ok_iff fun _ smaller _ => ⟨fun isResult => ⟨smaller, isResult⟩, fun ⟨_, isResult⟩ => isResult⟩).mp
    read).2

end

/-! ## What holds children only -/

section

variable {β : Type} {e : Element} {spelled : α → Element → Prop} {result : β}

namespace Element

/-- An element without text is read with the results of its children. -/
theorem elements_eq_ok_iff {check : (child : Element) → child ∈ e.children → Checked α}
    (given : ∀ child member result, check child member = .ok result ↔ spelled result child) {make : List α → β} :
    (do
      e.requireNoText
      return make (← e.checkChildren check)) = Except.ok result ↔
      e.hasText = false ∧ ∃ results, List.Forall₂ spelled results e.children ∧ make results = result := by
  rw [andThen_eq_ok_iff, requireNoText_eq_ok_iff, returns_eq_ok_iff]
  simp only [checkChildren_eq_ok_iff given]

/-- An element without text is read with the results of its entries. -/
theorem entries_eq_ok_iff {rules : EntryRules} {check : (value : Element) → sizeOf value < sizeOf e → Checked α}
    (given : ∀ value smaller result, check value smaller = .ok result ↔ spelled result value)
    {make : List (Named α) → β} :
    (do return make (← e.checkNamed rules check)) = Except.ok result ↔
      e.hasText = false ∧ ∃ results, List.Forall₂ (rules.SpelledBy spelled) results e.children ∧
        (results.map (·.name)).Nodup ∧ make results = result := by
  rw [returns_eq_ok_iff]
  simp only [checkNamed_eq_ok_iff given, and_assoc, exists_and_left]

/-- An element without text is read with the result of its only child. -/
theorem only_eq_ok_iff {only : Checked { child // child ∈ e.children }}
    (isOnly : ∀ child, only = .ok child ↔ e.children = [child.1] ∧ e.hasText = false)
    {check : { child // child ∈ e.children } → Checked α}
    (given : ∀ child result, check child = .ok result ↔ spelled result child.1) {make : α → β} :
    (do
      let child ← only
      return make (← check child)) = Except.ok result ↔
      e.hasText = false ∧ ∃ child value, e.children = [child] ∧ spelled value child ∧ make value = result := by
  rw [bind_eq_ok_iff]
  constructor
  · rintro ⟨child, isChild, read⟩
    obtain ⟨alone, noText⟩ := (isOnly child).mp isChild
    obtain ⟨value, isValue, same⟩ := returns_eq_ok_iff.mp read
    exact ⟨noText, child.1, value, alone, (given child value).mp isValue, same⟩
  · rintro ⟨noText, child, value, alone, isSpelled, same⟩
    have listed := mem_children_of_alone alone
    refine ⟨⟨child, listed⟩, (isOnly _).mpr ⟨alone, noText⟩, returns_eq_ok_iff.mpr ⟨value, ?_, same⟩⟩
    exact (given _ value).mpr isSpelled

end Element

end

/-! ## Tag collections -/

/-- An element is a condensed tag expression and spells the group of its tags. -/
structure TagGroup.SpelledBy (group : TagGroup) (e : Element) : Prop where
  tag : e.tag = ValueTag.condensedTags.name
  noOperation : e.hasAttribute filterAttribute = false
  childless : e.children = []
  notBlank : e.trimmedText ≠ ""
  line : group.line = e.line
  text : group.text = e.trimmedText
  tags : Condensed.parse e.trimmedText = .ok group.tags

/-- Blanks around an expression do not count for what it is read to. -/
theorem Condensed.parse_trimmed (text : String) : parse (trimmed text) = parse text := by
  simp only [parse, trimmed, String.toList_ofList, Text.strip_trim]

/-- The tags of a group are those of the text of its element. -/
theorem TagGroup.SpelledBy.parse_text {group : TagGroup} {e : Element} (spelled : group.SpelledBy e) :
    Condensed.parse (e.text.getD "") = .ok group.tags := by
  have parsed := spelled.tags
  unfold Element.trimmedText at parsed
  cases written : e.text with
  | none =>
    rw [written] at parsed
    exact parsed
  | some text =>
    rw [written] at parsed
    exact (Condensed.parse_trimmed text).symm.trans parsed

namespace Element

variable {e : Element}

theorem tagGroup_eq_ok_iff {group : TagGroup} (tagged : e.tag = ValueTag.condensedTags.name) :
    e.tagGroup = .ok group ↔ group.SpelledBy e := by
  constructor
  · intro read
    rw [tagGroup] at read
    by_cases operates : e.hasAttribute filterAttribute = true
    · rw [if_pos operates] at read
      cases read
    rw [if_neg operates] at read
    obtain ⟨childless, read⟩ := andThen_eq_ok_iff.mp read
    by_cases blank : e.trimmedText = ""
    · rw [if_pos blank] at read
      cases read
    rw [if_neg blank] at read
    cases isTags : Condensed.parse e.trimmedText with
    | error error =>
      rw [isTags] at read
      cases read
    | ok tags =>
      rw [isTags] at read
      cases read
      exact ⟨tagged, Bool.eq_false_iff.mpr operates, requireNoChildren_eq_ok_iff.mp childless, blank, rfl, rfl,
        isTags⟩
  · rintro ⟨-, noOperation, childless, notBlank, sameLine, sameText, isTags⟩
    obtain ⟨line, text, tags⟩ := group
    cases sameLine
    cases sameText
    rw [tagGroup, if_neg (Bool.eq_false_iff.mp noOperation)]
    refine andThen_eq_ok_iff.mpr ⟨requireNoChildren_eq_ok_iff.mpr childless, ?_⟩
    rw [if_neg notBlank, isTags]
    rfl

/-- The groups of a tag collection are read when it has no text and holds expressions only. -/
theorem tagGroups_eq_ok_iff {groups : List TagGroup} :
    e.tagGroups = .ok groups ↔ e.hasText = false ∧ List.Forall₂ TagGroup.SpelledBy groups e.children := by
  rw [tagGroups, andThen_eq_ok_iff, requireNoText_eq_ok_iff, mapM_eq_ok_iff]
  refine and_congr_right fun _ => ?_
  have same : ∀ (group : TagGroup) (child : Element), (if child.tag ≠ ValueTag.condensedTags.name then
      .error (child.violation .tagCollectionInvalidChild (.foundInstead child.tag))
      else child.tagGroup) = Except.ok group ↔ group.SpelledBy child := by
    intro group child
    by_cases tagged : child.tag = ValueTag.condensedTags.name
    · rw [if_neg (not_not.mpr tagged), tagGroup_eq_ok_iff tagged]
    · rw [if_pos tagged]
      exact ⟨fun impossible => (nomatch impossible), fun spelled => absurd spelled.tag tagged⟩
  simp only [same]

end Element

end ModelCatalog
