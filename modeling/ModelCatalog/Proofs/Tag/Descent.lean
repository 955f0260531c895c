import ModelCatalog.Proofs.Tag.Braces
import Mathlib.Data.List.Chain

/-!
# The braces of an expression are checked once

The expansion of an expression goes down into its components, and from a component into the body of its group
(`LeadsTo`). Tokens cut from a text have no two words in a row, and those that pass the check of the braces are nested.
The components and the bodies that the expansion comes to are the same (`WellCut`): each step down keeps this, and so do
all of them (`LeadsTo.wellCut`). So the count of open groups never falls below zero again, every group is found closed,
and a component is a word or begins with a group behind at most one word (`WellCutComponent.regular`). Main statement: a
text is refused for its braces exactly when they do not balance, and the expansion of one that passes meets only parts
of this form (`braces_checked_once`).
-/

namespace ModelCatalog

namespace Condensed

/-! ## The parts that the expansion comes to -/

/-- A part of an expression that is expanded by itself. -/
inductive Part where
  | expression (tokens : List Token)
  | component (tokens : List Token)

/-- The expansion of an expression comes to a part, `levels` groups deep: to itself, to one of its components, or to
    what the expansion of the body of a component's group comes to. Components behind a refused one count as well. -/
inductive LeadsTo : List Token → Nat → Part → Prop
  | whole {tokens : List Token} : LeadsTo tokens 0 (.expression tokens)
  | component {tokens component : List Token} : component ∈ allComponents tokens → component ≠ [] →
      LeadsTo tokens 0 (.component component)
  | inside {tokens before group body : List Token} {levels : Nat} {part : Part} :
      before ++ .opening :: group ∈ allComponents tokens → .opening ∉ before → closeGroup 0 group = some (body, []) →
      LeadsTo body levels part → LeadsTo tokens (levels + 1) part

/-- The number of open groups behind tokens, as the search for commas counts them. -/
def openAfter (tokens : List Token) : Nat := tokens.foldl Token.depthAfter 0

/-- In an expression no brace closes a group that is not open. -/
def RegularExpression (tokens : List Token) : Prop :=
  ∀ read rest, tokens = read ++ .closing :: rest → 0 < openAfter read

/-- A component is expanded as a word, or as a group that is found closed. -/
structure RegularComponent (component : List Token) : Prop where
  /-- Without a group there is nothing but a word, which is expanded as a chain. -/
  chain : .opening ∉ component → ∃ word, component = [.text word] ∧
    expandAlone component = expandChain word >>= fun expansion => .ok expansion.chains
  /-- Before the first group stands a word at most. -/
  before : ∀ before group, component = before ++ .opening :: group → .opening ∉ before →
    before = [] ∨ ∃ word, before = [.text word]
  /-- The first group is found closed: within it the count of open groups does not come back to zero, and it does with
      the brace that is found. Then the body is expanded, provided that nothing stands behind. -/
  group : ∀ before group, component = before ++ .opening :: group → .opening ∉ before → ∃ body after,
    closeGroup 0 group = some (body, after) ∧ group = body ++ .closing :: after ∧
    (∀ read, read <+: body → 0 < openAfter (.opening :: read)) ∧ openAfter (.opening :: (body ++ [.closing])) = 0 ∧
    expandAlone component =
      if after = [] then expandExpression body >>= expandBefore before else .error .nestingAfterGroup

def Part.Regular : Part → Prop
  | .expression tokens => RegularExpression tokens
  | .component tokens => RegularComponent tokens

/-! ## Counting -/

variable {tokens read rest before group body component : List Token} {levels depth : Nat} {part : Part}
  {word : List Char}

/-- The braces behind tokens balance with the groups that these leave open. -/
theorem balanced_behind (isBalanced : balanced depth (read ++ rest) = true) :
    balanced (read.foldl Token.depthAfter depth) rest = true := by
  induction read generalizing depth with
  | nil => exact isBalanced
  | cons token read ih =>
    cases token with
    | opening | comma | text => exact ih isBalanced
    | closing =>
      cases depth with
      | zero => simp [balanced] at isBalanced
      | succ depth => exact ih isBalanced

/-- With one more group open at the beginning, one more is open all along. -/
theorem foldl_depthAfter_succ (isBalanced : balanced depth (read ++ rest) = true) :
    read.foldl Token.depthAfter (depth + 1) = read.foldl Token.depthAfter depth + 1 := by
  induction read generalizing depth with
  | nil => rfl
  | cons token read ih =>
    cases token with
    | opening | comma | text => exact ih isBalanced
    | closing =>
      cases depth with
      | zero => simp [balanced] at isBalanced
      | succ depth => exact ih isBalanced

/-- When the braces of tokens balance, none closes a group that is not open. -/
theorem Nested.regular (nested : Nested tokens) : RegularExpression tokens := by
  rintro read rest rfl
  have behind : Condensed.balanced (openAfter read) (.closing :: rest) = true := balanced_behind nested.balanced
  cases count : openAfter read with
  | zero =>
    rw [count] at behind
    simp [Condensed.balanced] at behind
  | succ levels => exact Nat.succ_pos levels

/-- Within a group whose body is nested, the group stays open. -/
theorem Nested.openAfter_group (nested : Nested body) (begins : read <+: body) :
    openAfter (.opening :: read) = openAfter read + 1 := by
  obtain ⟨rest, rfl⟩ := begins
  exact foldl_depthAfter_succ nested.balanced

/-- Behind nested tokens no group is open. -/
theorem Nested.openAfter_eq (nested : Nested tokens) : openAfter tokens = 0 := by
  have whole : Condensed.balanced 0 (tokens ++ []) = true := by
    rw [List.append_nil]
    exact nested.balanced
  exact beq_iff_eq.mp (balanced_behind whole)

/-- The brace behind the body of a group closes the group. -/
theorem Nested.openAfter_closing (nested : Nested body) : openAfter (.opening :: (body ++ [.closing])) = 0 := by
  have last : openAfter (.opening :: (body ++ [.closing])) = openAfter (.opening :: body) - 1 :=
    List.foldl_append ..
  rw [last, nested.openAfter_group (List.prefix_refl body), nested.openAfter_eq]

/-! ## Tokens as a text is cut into them -/

/-- Two tokens that may follow each other: they are not both words. -/
def Token.Meets : Token → Token → Prop
  | .text _, .text _ => False
  | _, _ => True

/-- The words of a text stand apart. -/
theorem tokens_apart (word : List Char) : (Condensed.tokens word).IsChain Token.Meets := by
  fun_induction Condensed.tokens word with
  | case1 => exact .nil
  | case2 c rest token isDelimiter ih =>
    refine List.isChain_cons.mpr ⟨fun next _ => ?_, ih⟩
    cases token with
    | text word => exact absurd rfl (delimiter?_ne_text isDelimiter)
    | opening | closing | comma => trivial
  | case3 c rest _ word after cut ih =>
    rw [cut, List.isChain_cons] at ih
    refine List.isChain_cons.mpr ⟨fun next isNext => ?_, ih.2⟩
    cases next with
    | text other => exact ih.1 _ isNext
    | opening | closing | comma => trivial
  | case4 c rest _ noWord ih =>
    refine List.isChain_cons.mpr ⟨fun next isNext => ?_, ih⟩
    cases next with
    | text word =>
      obtain ⟨after, split⟩ := List.head?_eq_some_iff.mp isNext
      exact absurd split (noWord word after)
    | opening | closing | comma => trivial

/-- Tokens in which the groups are closed and the words stand apart. -/
structure WellCut (tokens : List Token) : Prop where
  nested : Nested tokens
  apart : tokens.IsChain Token.Meets

/-- A part of well-cut tokens whose groups are closed is well cut. -/
theorem WellCut.of_isInfix (wellCut : WellCut tokens) (inside : body <:+: tokens) (nested : Nested body) :
    WellCut body :=
  ⟨nested, wellCut.apart.infix inside⟩

theorem WellCut.inGroup {after : List Token} (wellCut : WellCut (before ++ .opening :: (body ++ .closing :: after)))
    (nested : Nested body) : WellCut body :=
  wellCut.of_isInfix ⟨before ++ [.opening], .closing :: after, by simp⟩ nested

/-- Tokens of a component: no comma stands outside all groups. -/
structure WellCutComponent (component : List Token) : Prop extends WellCut component where
  whole : components 0 component = (component, [])
  some : component ≠ []

/-! ## Components -/

/-- The components of nested tokens are nested and have no comma outside all groups. -/
theorem Nested.of_mem_allComponents (nested : Nested tokens) (member : component ∈ allComponents tokens) :
    Nested component ∧ components 0 component = (component, []) := by
  induction nested generalizing component with
  | nil =>
    rw [List.mem_singleton.mp member]
    exact ⟨.nil, rfl⟩
  | @text word rest _ ih =>
    have split : allComponents (.text word :: rest) =
        (.text word :: (components 0 rest).1) :: (components 0 rest).2 := by
      simp [allComponents, components, Token.depthAfter]
    rw [split] at member
    rcases List.mem_cons.mp member with rfl | later
    · obtain ⟨firstNested, whole⟩ := ih List.mem_cons_self
      refine ⟨.text firstNested, ?_⟩
      simp [components, Token.depthAfter, whole]
    · exact ih (List.mem_cons_of_mem _ later)
  | @comma rest _ ih =>
    have split : allComponents (.comma :: rest) = [] :: allComponents rest := by
      simp [allComponents, components]
    rw [split] at member
    rcases List.mem_cons.mp member with rfl | later
    · exact ⟨.nil, rfl⟩
    · exact ih later
  | @group inner rest innerNested _ _ ih =>
    have split : allComponents (.opening :: (inner ++ .closing :: rest)) =
        (.opening :: (inner ++ .closing :: (components 0 rest).1)) :: (components 0 rest).2 := by
      rw [allComponents, innerNested.components_group]
    rw [split] at member
    rcases List.mem_cons.mp member with rfl | later
    · obtain ⟨firstNested, whole⟩ := ih List.mem_cons_self
      refine ⟨.group innerNested firstNested, ?_⟩
      rw [innerNested.components_group, whole]
    · exact ih (List.mem_cons_of_mem _ later)

/-- A component is a stretch of the tokens. -/
theorem isInfix_of_mem_allComponents (member : component ∈ allComponents tokens) : component <:+: tokens := by
  rw [← components_join 0 tokens]
  rcases List.mem_cons.mp member with rfl | later
  · exact (List.prefix_append _ _).isInfix
  · obtain ⟨before, after, split⟩ := List.append_of_mem later
    refine ⟨(components 0 tokens).1 ++ before.flatMap (.comma :: ·) ++ [.comma], after.flatMap (.comma :: ·), ?_⟩
    rw [split]
    simp

theorem WellCut.of_mem_allComponents (wellCut : WellCut tokens) (member : component ∈ allComponents tokens)
    (some : component ≠ []) : WellCutComponent component := by
  obtain ⟨nested, whole⟩ := wellCut.nested.of_mem_allComponents member
  exact ⟨wellCut.of_isInfix (isInfix_of_mem_allComponents member) nested, whole, some⟩

/-- A component is a word, or begins with a group behind at most one word. -/
theorem WellCutComponent.cases (wellCut : WellCutComponent component) : (∃ word, component = [.text word]) ∨
    ∃ before body after, component = before ++ .opening :: (body ++ .closing :: after) ∧
      (before = [] ∨ ∃ word, before = [.text word]) ∧ Nested body := by
  obtain ⟨⟨nested, apart⟩, whole, some⟩ := wellCut
  cases nested with
  | nil => exact absurd rfl some
  | comma _ => simp [components] at whole
  | @group inner rest innerNested _ => exact .inr ⟨[], inner, rest, rfl, .inl rfl, innerNested⟩
  | @text word rest restNested =>
    cases restNested with
    | nil => exact .inl ⟨word, rfl⟩
    | text _ => exact (List.isChain_cons_cons.mp apart).1.elim
    | comma _ => simp [components, Token.depthAfter] at whole
    | @group inner rest innerNested _ => exact .inr ⟨[.text word], inner, rest, rfl, .inr ⟨word, rfl⟩, innerNested⟩

theorem opening_notMem_before (atMostWord : before = [] ∨ ∃ word, before = [.text word]) : Token.opening ∉ before := by
  rcases atMostWord with rfl | ⟨word, rfl⟩
  · exact List.not_mem_nil
  · exact opening_notMem_text

/-- Tokens have one first opening brace. -/
theorem first_opening_unique {otherBefore otherGroup : List Token} (none : .opening ∉ before)
    (otherNone : .opening ∉ otherBefore)
    (same : before ++ .opening :: group = otherBefore ++ .opening :: otherGroup) :
    before = otherBefore ∧ group = otherGroup := by
  have beforeSame : before = otherBefore := by
    rw [← takeWhile_before none, same, takeWhile_before otherNone]
  subst beforeSame
  exact ⟨rfl, (List.cons.inj (List.append_cancel_left same)).2⟩

/-- Where a component has a group, the group is closed and stands behind at most one word. -/
theorem WellCutComponent.exists_body (wellCut : WellCutComponent (before ++ .opening :: group))
    (none : .opening ∉ before) : (before = [] ∨ ∃ word, before = [.text word]) ∧
      ∃ body after, group = body ++ .closing :: after ∧ WellCut body := by
  rcases wellCut.cases with ⟨word, alone⟩ | ⟨otherBefore, body, after, split, atMostWord, nested⟩
  · have member : Token.opening ∈ before ++ .opening :: group := by simp
    rw [alone] at member
    exact absurd member opening_notMem_text
  · obtain ⟨rfl, rfl⟩ := first_opening_unique none (opening_notMem_before atMostWord) split
    exact ⟨atMostWord, body, after, rfl, wellCut.inGroup nested⟩

/-- The first group of a component is expanded when nothing stands behind it. -/
theorem expandAlone_first_group (none : .opening ∉ before) (nested : Nested body) (after : List Token) :
    expandAlone (before ++ .opening :: (body ++ .closing :: after)) =
      if after = [] then expandExpression body >>= expandBefore before else .error .nestingAfterGroup :=
  expandComponent_closed none (nested.closeGroup_closing after)

theorem WellCutComponent.regular (wellCut : WellCutComponent component) : RegularComponent component where
  chain none := by
    rcases wellCut.cases with ⟨word, rfl⟩ | ⟨before, body, after, rfl, _⟩
    · exact ⟨word, rfl, expandAlone_text word⟩
    · exact absurd (by simp) none
  before before group := by
    rintro rfl none
    exact (wellCut.exists_body none).1
  group before group := by
    rintro rfl none
    obtain ⟨body, after, rfl, bodyCut⟩ := (wellCut.exists_body none).2
    refine ⟨body, after, bodyCut.nested.closeGroup_closing after, rfl, fun read begins => ?_,
      bodyCut.nested.openAfter_closing, expandAlone_first_group none bodyCut.nested after⟩
    rw [bodyCut.nested.openAfter_group begins]
    exact Nat.succ_pos _

/-! ## The way down -/

/-- What every part that the expansion comes to keeps of the tokens of the text. -/
def Part.WellCut : Part → Prop
  | .expression tokens => Condensed.WellCut tokens
  | .component tokens => WellCutComponent tokens

/-- The body of a group in well-cut tokens is well cut. -/
theorem WellCut.body_of_mem (wellCut : WellCut tokens) (member : before ++ .opening :: group ∈ allComponents tokens)
    (none : .opening ∉ before) (closed : closeGroup 0 group = some (body, [])) : WellCut body := by
  have componentCut := wellCut.of_mem_allComponents member (by simp)
  obtain ⟨found, after, rfl, bodyCut⟩ := (componentCut.exists_body none).2
  cases closed.symm.trans (bodyCut.nested.closeGroup_closing after)
  exact bodyCut

/-- Each step down keeps the tokens well cut, and so do all steps. -/
theorem LeadsTo.wellCut (leads : LeadsTo tokens levels part) (wellCut : WellCut tokens) : part.WellCut := by
  induction leads with
  | whole => exact wellCut
  | component member some => exact wellCut.of_mem_allComponents member some
  | inside member none closed _ ih => exact ih (wellCut.body_of_mem member none closed)

theorem Part.WellCut.regular (wellCut : part.WellCut) : part.Regular := by
  cases part with
  | expression tokens => exact Nested.regular (Condensed.WellCut.nested wellCut)
  | component tokens => exact WellCutComponent.regular wellCut

/-! ## What is refused for its braces -/

/-- A computation that is not refused for its braces. -/
def BracesFine {α : Type} (result : Except Error α) : Prop := Ends (· ≠ .unbalancedBraces) (fun _ => True) result

theorem checkPiece_bracesFine (inner last : Bool) (piece : List Char) : BracesFine (checkPiece inner last piece) := by
  unfold checkPiece missingName
  split_ifs <;> first | trivial | exact nofun

theorem expandPieces_bracesFine (outer : Chain) (inner : Bool) (piece : List Char)
    (others : List (Separator × List Char)) : BracesFine (expandPieces outer inner piece others) := by
  induction others generalizing outer inner piece with
  | nil => exact (checkPiece_bracesFine inner true piece).bind fun _ _ => trivial
  | cons link others ih =>
    obtain ⟨separator, next⟩ := link
    have later := ih (outer ++ [piece]) true next
    refine (checkPiece_bracesFine inner false piece).bind fun _ _ => later.bind fun _ _ => ?_
    cases separator <;> trivial

theorem expandChain_bracesFine (word : List Char) : BracesFine (expandChain word) :=
  expandPieces_bracesFine ..

theorem splitGroupPrefix_bracesFine (word : List Char) : BracesFine (splitGroupPrefix word) := by
  unfold splitGroupPrefix
  split <;> first | trivial | exact nofun

theorem expandBefore_bracesFine (before : List Token) (inner : List Chain) :
    BracesFine (expandBefore before inner) := by
  unfold expandBefore
  split
  next => trivial
  next word =>
    refine (splitGroupPrefix_bracesFine word).bind fun cut _ => ?_
    by_cases none : cut.1 = []
    · simp only [none, if_true]
      exact nofun
    · simp only [none, if_false]
      exact (expandChain_bracesFine cut.1).bind fun _ _ => trivial
  next => exact nofun

/-- Well-cut tokens are not refused for their braces, whatever else is wrong with them. -/
theorem WellCut.expandExpression_bracesFine {tokens : List Token} (wellCut : WellCut tokens) :
    BracesFine (expandExpression tokens) := by
  by_cases none : tokens = []
  · rw [none, expandExpression, if_pos rfl]
    trivial
  rw [expandExpression_eq none]
  refine Ends.bind (Ends.mapM fun component member => ?_) fun _ _ => trivial
  by_cases empty : component = []
  · subst empty
    show Error.emptyComponent ≠ .unbalancedBraces
    decide
  have componentCut := wellCut.of_mem_allComponents member empty
  have shorter := length_le_of_mem_components member
  rcases componentCut.cases with ⟨word, rfl⟩ | ⟨before, body, after, rfl, atMostWord, nested⟩
  · rw [expandAlone_text]
    exact (expandChain_bracesFine word).bind fun _ _ => trivial
  · rw [expandAlone_first_group (opening_notMem_before atMostWord) nested after]
    split_ifs
    · have inner : BracesFine (expandExpression body) := (componentCut.inGroup nested).expandExpression_bracesFine
      exact inner.bind fun chains _ => expandBefore_bracesFine before chains
    · show Error.nestingAfterGroup ≠ .unbalancedBraces
      decide
termination_by tokens.length
decreasing_by
  simp only [List.length_append, List.length_cons] at shorter
  omega

/-- A text is well cut when its braces balance. -/
theorem wellCut_tokens (isBalanced : balanced 0 (Condensed.tokens word) = true) : WellCut (Condensed.tokens word) :=
  ⟨nested_of_balanced isBalanced, tokens_apart word⟩

/-- Braces do not balance when a beginning closes more groups than it opens, or when the text as a whole leaves
    groups open or closes too many. -/
theorem not_closes_iff : ¬Closes 0 word ↔
    (∃ before, before <+: word ∧ before.count '\x7b' < before.count '\x7d') ∨
      word.count '\x7b' ≠ word.count '\x7d' := by
  constructor
  · intro unbalanced
    by_contra none
    simp only [not_or, not_exists, not_and, not_lt, ne_eq, not_not] at none
    refine unbalanced ⟨fun before begins => ?_, ?_⟩
    · rw [Nat.zero_add]
      exact none.1 before begins
    · rw [Nat.zero_add]
      exact none.2.symm
  · rintro (⟨before, begins, below⟩ | uneven) ⟨neverBelow, even⟩
    · have bound := neverBelow before begins
      omega
    · omega

/-- A text is refused for its braces exactly when, its blanks left out, a beginning closes more groups than it opens or
    the text does not close as many as it opens, whatever else is wrong with it. In a text that passes this check, every
    expression that the expansion comes to closes only groups that are open, and every component is a word or has a
    group that is found closed behind at most one word. -/
theorem braces_checked_once (text : String) :
    (parse text = .error .unbalancedBraces ↔
      (∃ before, before <+: Text.strip text.toList ∧ before.count '\x7b' < before.count '\x7d') ∨
        (Text.strip text.toList).count '\x7b' ≠ (Text.strip text.toList).count '\x7d') ∧
    (balanced 0 (Condensed.tokens (Text.strip text.toList)) = true →
      ∀ levels part, LeadsTo (Condensed.tokens (Text.strip text.toList)) levels part → part.Regular) := by
  refine ⟨?_, fun isBalanced levels part leads => (leads.wellCut (wellCut_tokens isBalanced)).regular⟩
  rw [← not_closes_iff, ← balanced_tokens_iff]
  constructor
  · intro refused isBalanced
    have wellCut := wellCut_tokens isBalanced
    have fine : BracesFine (parse text) := by
      rw [parse_of_nested wellCut.nested]
      exact wellCut.expandExpression_bracesFine.bind fun _ _ => trivial
    exact fine.of_error refused rfl
  · intro unbalanced
    rw [parse]
    simp only [unbalanced]
    rfl

/-- In `a.{b,c::{d}}` the expansion comes to a component `c::{d}`, whose group is found closed behind one word. -/
theorem innerGroup_braces_checked_once :
    parse "a.\x7bb,c::\x7bd\x7d\x7d" ≠ .error .unbalancedBraces ∧
    RegularComponent [.text ['c', ':', ':'], .opening, .text ['d'], .closing] := by
  have checked := braces_checked_once "a.\x7bb,c::\x7bd\x7d\x7d"
  have isBalanced : balanced 0 (Condensed.tokens (Text.strip "a.\x7bb,c::\x7bd\x7d\x7d".toList)) = true := by
    decide +kernel
  refine ⟨?_, checked.2 isBalanced 1 (.component _) ?_⟩
  · decide +kernel
  · have outer : [.text ['a', '.']] ++ .opening :: ([.text ['b'], .comma, .text ['c', ':', ':'], .opening, .text ['d'],
        .closing] ++ [.closing]) ∈
          allComponents (Condensed.tokens (Text.strip "a.\x7bb,c::\x7bd\x7d\x7d".toList)) := by
      decide +kernel
    exact .inside outer (by decide) rfl (.component (by decide) (by decide))

end Condensed

end ModelCatalog
