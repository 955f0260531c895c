import ModelCatalog.Proofs.Tag.Drafts

/-!
# Separators where none belongs

What is reported when a separator is put into an expression that is accepted. A chain with two separators in a row,
with one at its end, or with one at its beginning has an empty piece, and the first such piece decides the error
(`expandPieces_missing`). A separator in a text stands in one chain, or between a chain and a group
(`Written.exists_link`, `Written.exists_link_before`), so that a second one beside it is a mistake in one component,
and the whole text is refused for it. Main statement: at every place of every accepted text the error says what the
mistake is (`misplaced_separators`), but for a second separator directly before a group, where the chain before the
group is cut off with one separator at its end.
-/

namespace ModelCatalog

namespace Condensed

variable {separator : Separator} {word before after : List Char}

/-! ## Pieces that are missing -/

theorem checkPiece_name {inner last : Bool} (name : Name) : checkPiece inner last name.1 = .ok () := by
  obtain ⟨some, letters⟩ := isName_iff.mp name.2
  rw [checkPiece, if_neg some, if_pos (List.all_eq_true.mpr letters)]

/-- Behind names, an empty piece decides the error: another separator follows it, or none. -/
theorem expandPieces_missing {outer : Chain} {inner : Bool} {first : Name} {links : List (Separator × Name)}
    {others : List (Separator × List Char)} :
    expandPieces outer inner first.1 (links.map (fun link => (link.1, link.2.1)) ++ (separator, []) :: others) =
      .error (missingName true others.isEmpty) := by
  induction links generalizing outer inner first with
  | nil =>
    rw [List.map_nil, List.nil_append, expandPieces, checkPiece_name]
    cases others <;> rfl
  | cons link links ih =>
    rw [List.map_cons, List.cons_append, expandPieces, checkPiece_name]
    simp only [ih, bind, Except.bind]

/-- The pieces of a chain with a separator behind it are its names, and then those of the rest. -/
theorem Written.pieces_separator (written : Written) (separator : Separator) (word : List Char) :
    pieces (written.word ++ (separator.word ++ word)) =
      (written.first.1,
        written.rest.map (fun link => (link.1, link.2.1)) ++ (separator, (pieces word).1) :: (pieces word).2) := by
  have startsNew := congrArg Prod.fst (Condensed.pieces_separator separator word)
  rw [written.pieces_append startsNew, Condensed.pieces_separator]

theorem expandChain_adjacent (written : Written) (first second : Separator) (word : List Char) :
    expandChain (written.word ++ first.word ++ second.word ++ word) = .error .adjacentSeparators := by
  have cut := written.pieces_separator first (second.word ++ word)
  rw [pieces_separator] at cut
  rw [expandChain, List.append_assoc, List.append_assoc, cut]
  exact expandPieces_missing

theorem expandChain_trailing (written : Written) (separator : Separator) :
    expandChain (written.word ++ separator.word) = .error .trailingSeparator := by
  have cut := written.pieces_separator separator []
  rw [List.append_nil] at cut
  rw [expandChain, cut]
  exact expandPieces_missing

theorem expandChain_leading (separator : Separator) (word : List Char) :
    expandChain (separator.word ++ word) = .error .leadingSeparator := by
  rw [expandChain, pieces_separator]
  rfl

/-! ## Components that are refused -/

variable {error : Error}

/-- Before a group one separator is cut off, and the rest is refused as it is alone. -/
theorem expandBefore_error (inner : List Chain) (refused : expandChain word = .error error) :
    expandBefore [.text (word ++ separator.word)] inner = .error error := by
  rw [expandBefore, splitGroupPrefix_eq_ok_iff.mpr rfl]
  by_cases none : word = []
  · subst none
    have leading : expandChain [] = .error .leadingSeparator := rfl
    cases leading.symm.trans refused
    rfl
  · simp only [none, if_false, refused, bind, Except.bind]

theorem expandExpression_draft (body : Expression) :
    ∃ chains, expandExpression (draftTokens (body.map Component.draft)) = .ok chains := by
  obtain ⟨expanded, done, _⟩ := Expression.expandsEach body
  refine ⟨expanded.flatten, ?_⟩
  rw [expandExpression_draftTokens, List.map_map]
  exact bind_eq_ok_iff.mpr ⟨expanded, done, rfl⟩

/-- A chain before a group is refused as it is alone. -/
theorem ComponentRefused.beforeGroup (plain : Plain word) (refused : expandChain word = .error error)
    (separator : Separator) (body : Expression) :
    ComponentRefused (word ++ separator.word ++ '\x7b' :: (Expression.word body ++ ['\x7d'])) error := by
  have bothPlain := plain.append separator.plain_word
  obtain ⟨chains, expanded⟩ := expandExpression_draft body
  refine ⟨.group (word ++ separator.word) bothPlain (body.map Component.draft), ?_, ?_⟩
  · have written : draftWord (body.map Component.draft) = Expression.word body := draftWord_map body
    simp [Draft.group, written]
  · have some : word ++ separator.word ≠ [] := List.append_ne_nil_of_right_ne_nil _ separator.word_ne_nil
    rw [Draft.expandAlone_group, expanded, bothPlain.tokens_eq, if_neg some]
    exact expandBefore_error chains refused

/-- With a separator before it, a component starts with a separator. -/
theorem Component.refused_behind (separator : Separator) (component : Component) :
    ComponentRefused (separator.word ++ component.word) .leadingSeparator := by
  cases component with
  | chain written =>
    exact .chain (separator.plain_word.append written.plain_word)
      (List.append_ne_nil_of_left_ne_nil separator.word_ne_nil _) (expandChain_leading separator _)
  | group body =>
    have plain : Plain [] := fun _ member => absurd member List.not_mem_nil
    have leading : expandChain [] = .error .leadingSeparator := rfl
    have refused := ComponentRefused.beforeGroup plain leading separator body
    simpa [Component.word] using refused
  | nested written between body =>
    have refused := ComponentRefused.beforeGroup (separator.plain_word.append written.plain_word)
      (expandChain_leading separator _) between body
    simpa [Component.word] using refused

/-- With a separator behind it, a chain ends with a separator. -/
theorem Written.refused_before (written : Written) (separator : Separator) :
    ComponentRefused (written.word ++ separator.word) .trailingSeparator :=
  .chain (written.plain_word.append separator.plain_word)
    (List.append_ne_nil_of_left_ne_nil written.word_ne_nil _) (expandChain_trailing written separator)

/-! ## Places of a separator -/

/-- A part of a text without some character of the text is on one side of that character. -/
theorem part_beside {c : Char} {left right part : List Char} (absent : c ∉ part)
    (cut : left ++ c :: right = before ++ part ++ after) :
    (∃ between, left = before ++ part ++ between ∧ after = between ++ c :: right) ∨
      ∃ between, before = left ++ c :: between ∧ right = between ++ part ++ after := by
  rcases List.append_eq_append_iff.mp cut with ⟨tail, reached, behind⟩ | ⟨between, whole, behind⟩
  · cases tail with
    | nil => exact .inl ⟨[], by simpa using reached.symm, behind.symm⟩
    | cons d tail =>
      obtain ⟨rfl, rest⟩ := List.cons.inj behind
      rcases List.append_eq_append_iff.mp reached with ⟨head, _, inside⟩ | ⟨head, isBefore, inside⟩
      · exact absurd (inside ▸ List.mem_append_right head List.mem_cons_self) absent
      · cases head with
        | nil =>
          have same : c :: tail = part := inside
          exact absurd (same ▸ List.mem_cons_self) absent
        | cons e head =>
          obtain ⟨rfl, isTail⟩ := List.cons.inj inside
          have inTail : tail = head ++ part := isTail
          exact .inr ⟨head, isBefore, inTail ▸ rest⟩
  · exact .inl ⟨between, whole, behind⟩

theorem Separator.exists_first (separator : Separator) :
    ∃ c rest, separator.word = c :: rest ∧ isNameChar c = false := by
  cases separator with
  | strict => exact ⟨':', [':'], rfl, by decide⟩
  | accumulating => exact ⟨'.', [], rfl, by decide⟩

/-- A separator stands behind the name with which a text starts. -/
theorem Separator.behind_name (name : Name) (cut : name.1 ++ word = before ++ separator.word ++ after) :
    ∃ between, before = name.1 ++ between ∧ word = between ++ separator.word ++ after := by
  obtain ⟨c, rest, isWord, noLetter⟩ := separator.exists_first
  have absent : c ∉ name.1 := by
    intro member
    exact absurd ((isName_iff.mp name.2).2 c member) (by simp [noLetter])
  have found : before ++ c :: (rest ++ after) = [] ++ name.1 ++ word := by
    rw [List.nil_append, cut, isWord]
    simp
  rcases part_beside absent found with ⟨between, isBefore, isRest⟩ | ⟨between, impossible, _⟩
  · exact ⟨between, isBefore, by rw [isRest, isWord]; simp⟩
  · cases List.append_ne_nil_of_right_ne_nil before (List.cons_ne_nil c between) impossible.symm

/-- Where a text starts with a separator and a name, a separator is that one, or it stands behind it. -/
theorem Separator.first_or_behind {first : Separator} {name : Name}
    (cut : first.word ++ (name.1 ++ word) = before ++ separator.word ++ after) :
    (before = [] ∧ separator = first ∧ after = name.1 ++ word) ∨
      ∃ between, before = first.word ++ between ∧ name.1 ++ word = between ++ separator.word ++ after := by
  cases before with
  | nil =>
    cases first <;> cases separator <;> simp_all [Separator.word]
  | cons c before =>
    cases first with
    | accumulating =>
      obtain ⟨rfl, rest⟩ := List.cons.inj cut
      exact .inr ⟨before, rfl, rest⟩
    | strict =>
      obtain ⟨rfl, rest⟩ := List.cons.inj cut
      cases before with
      | nil =>
        -- The second colon would begin the separator, and the name would go on with the rest of it.
        obtain ⟨some, letters⟩ := isName_iff.mp name.2
        obtain ⟨letter, others, isName⟩ := List.exists_cons_of_ne_nil some
        have isLetter := letters letter (isName ▸ List.mem_cons_self)
        rw [isName] at rest
        cases separator with
        | strict =>
          obtain ⟨_, colon⟩ := List.cons.inj rest
          cases List.head_eq_of_cons_eq colon
          exact absurd isLetter (by decide)
        | accumulating => exact absurd (List.head_eq_of_cons_eq rest) (by decide)
      | cons d before =>
        obtain ⟨rfl, later⟩ := List.cons.inj rest
        exact .inr ⟨before, rfl, later⟩

namespace Written

/-- Around a separator in a chain two chains stand. -/
theorem exists_link {written : Written} (cut : written.word = before ++ separator.word ++ after) :
    ∃ left right : Written, written = left.link separator right ∧ before = left.word ∧ after = right.word := by
  obtain ⟨first, rest⟩ := written
  induction rest generalizing first before with
  | nil =>
    obtain ⟨between, _, none⟩ := separator.behind_name first cut
    have empty : between ++ separator.word ++ after = [] := none.symm
    exact absurd empty (by simp [separator.word_ne_nil])
  | cons next rest ih =>
    obtain ⟨between, isBefore, behind⟩ := separator.behind_name first cut
    rw [List.flatMap_cons, List.append_assoc] at behind
    rcases Separator.first_or_behind behind with ⟨rfl, rfl, rfl⟩ | ⟨inner, rfl, later⟩
    · exact ⟨⟨first, []⟩, ⟨next.2, rest⟩, rfl, by simpa [word] using isBefore, rfl⟩
    · obtain ⟨left, right, isLink, rfl, rfl⟩ := ih next.2 later
      obtain ⟨isFirst, isRest⟩ := Written.mk.inj isLink
      refine ⟨⟨first, (next.1, left.first) :: left.rest⟩, right, ?_, ?_, rfl⟩
      · rw [isRest, ← isFirst]
        rfl
      · rw [isBefore]
        simp [word]

/-- A separator in a chain with a separator behind it is the one behind, or it stands in the chain. -/
theorem exists_link_before {written : Written} {between : Separator}
    (cut : written.word ++ between.word = before ++ separator.word ++ after) :
    (before = written.word ∧ after = []) ∨
      ∃ left right : Written, before = left.word ∧ after = right.word ++ between.word := by
  -- With a name at the end, both are one chain.
  have letter : isName ['x'] = true := by decide
  have whole : (written.link between ⟨⟨['x'], letter⟩, []⟩).word = before ++ separator.word ++ (after ++ ['x']) := by
    have last : (⟨⟨['x'], letter⟩, []⟩ : Written).word = ['x'] := rfl
    rw [word_link, last, cut, List.append_assoc]
  obtain ⟨left, right, isLink, rfl, isAfter⟩ := exists_link whole
  obtain ⟨isFirst, isRest⟩ := Written.mk.inj isLink
  obtain ⟨first, rest⟩ := right
  rcases List.eq_nil_or_concat rest with rfl | ⟨inner, last, rfl⟩
  · obtain ⟨same, isLast⟩ := List.append_inj' isRest rfl
    cases isLast
    refine .inl ⟨?_, by simpa [word] using isAfter⟩
    rw [word, word, isFirst, same]
  · have ends : written.rest ++ [(between, ⟨['x'], letter⟩)] = (left.rest ++ (separator, first) :: inner) ++ [last] := by
      simpa using isRest
    obtain ⟨_, isLast⟩ := List.append_inj' ends rfl
    cases isLast
    have reached : after ++ ['x'] = (⟨first, inner⟩ : Written).word ++ between.word ++ ['x'] := by
      simpa [word] using isAfter
    exact .inr ⟨left, ⟨first, inner⟩, rfl, List.append_cancel_right reached⟩

end Written

/-- A part of a component with a group is in the word before the group, or in the group. -/
theorem Component.Holds.part {component : Component} {first part : List Char} {body : Expression}
    (holds : component.Holds first body) (plain : Plain part) (some : part ≠ [])
    (cut : component.word = before ++ part ++ after) :
    (∃ between, first = before ++ part ++ between ∧ after = between ++ '\x7b' :: (Expression.word body ++ ['\x7d'])) ∨
      ∃ inner behind, before = first ++ '\x7b' :: inner ∧ after = behind ++ ['\x7d'] ∧
        Expression.word body = inner ++ part ++ behind := by
  have apart : ∀ {c : Char} {token : Token}, delimiter? c = Option.some token → c ∉ part := by
    intro c token isDelimiter member
    cases isDelimiter.symm.trans (plain c member)
  rw [holds.word_eq] at cut
  rcases part_beside (apart rfl) cut with inWord | ⟨inner, isBefore, inGroup⟩
  · exact .inl inWord
  · rcases part_beside (apart rfl) inGroup with ⟨behind, isBody, isAfter⟩ | ⟨behind, _, none⟩
    · exact .inr ⟨inner, behind, isBefore, isAfter, isBody⟩
    · have empty : behind ++ part ++ after = [] := none.symm
      exact absurd empty (by simp [some])

/-! ## Two separators in a row -/

/-- What is reported of two separators in a row: with a group behind them, the chain before the group ends with the
    first. -/
def doubled (after : List Char) : Error :=
  if after.head? = some '\x7b' then .trailingSeparator else .adjacentSeparators

theorem doubled_append (notEmpty : word ≠ []) (after : List Char) : doubled (word ++ after) = doubled word := by
  obtain ⟨c, rest, rfl⟩ := List.exists_cons_of_ne_nil notEmpty
  rfl

theorem Written.doubled_word (written : Written) : doubled written.word = .adjacentSeparators := by
  have noGroup : written.word.head? ≠ some '\x7b' := by
    intro isFirst
    have plain : delimiter? '\x7b' = none := written.plain_word _ (List.mem_of_head? isFirst)
    cases plain
  rw [doubled, if_neg noGroup]

section

variable (first second : Separator)

/-- Two separators in a row in the word before a group. The one that is cut off before the group is the second of them,
    or it stands behind both. -/
theorem ComponentRefused.doubled_before_group {written : Written} {last : Separator} {between : List Char}
    (cut : written.word ++ last.word = before ++ separator.word ++ between) (body : Expression) :
    ComponentRefused (before ++ first.word ++ second.word ++ (between ++ '\x7b' :: (Expression.word body ++ ['\x7d'])))
      (doubled (between ++ '\x7b' :: (Expression.word body ++ ['\x7d']))) := by
  rcases Written.exists_link_before cut with ⟨rfl, rfl⟩ | ⟨left, right, rfl, rfl⟩
  · exact .beforeGroup (written.plain_word.append first.plain_word) (expandChain_trailing written first) second body
  · have plain := ((left.plain_word.append first.plain_word).append second.plain_word).append right.plain_word
    have refused := ComponentRefused.beforeGroup plain (expandChain_adjacent left first second right.word) last body
    rw [List.append_assoc right.word, doubled_append right.word_ne_nil, right.doubled_word]
    simpa using refused

/-- Two separators in a row in a component with a group, when those in the group are refused. -/
theorem Component.Holds.refused_doubled {component : Component} {word : List Char} {body : Expression}
    (holds : component.Holds word body)
    (inside : ∀ {before after : List Char}, Expression.word body = before ++ separator.word ++ after →
      after ≠ [] ∧ ExpressionRefused (before ++ first.word ++ second.word ++ after) (doubled after))
    (cut : component.word = before ++ separator.word ++ after) :
    after ≠ [] ∧ ComponentRefused (before ++ first.word ++ second.word ++ after) (doubled after) := by
  rcases holds.part separator.plain_word separator.word_ne_nil cut with
    ⟨between, isWord, rfl⟩ | ⟨inner, behind, rfl, rfl, isBody⟩
  · refine ⟨by simp, ?_⟩
    cases holds with
    | group => exact absurd isWord.symm (by simp [separator.word_ne_nil])
    | nested => exact .doubled_before_group first second isWord body
  · obtain ⟨notEmpty, refused⟩ := inside isBody
    refine ⟨by simp, ?_⟩
    rw [doubled_append notEmpty]
    simpa using refused.inGroup holds.plain

mutual

/-- A component with two separators in the place of one is refused. -/
theorem Component.refused_doubled (component : Component) {before after : List Char}
    (cut : component.word = before ++ separator.word ++ after) :
    after ≠ [] ∧ ComponentRefused (before ++ first.word ++ second.word ++ after) (doubled after) := by
  cases component with
  | chain written =>
    obtain ⟨left, right, rfl, rfl, rfl⟩ := Written.exists_link cut
    have plain := ((left.plain_word.append first.plain_word).append second.plain_word).append right.plain_word
    refine ⟨right.word_ne_nil, ?_⟩
    rw [right.doubled_word]
    exact .chain plain (List.append_ne_nil_of_right_ne_nil _ right.word_ne_nil) (expandChain_adjacent left first second _)
  | group body => exact Component.Holds.group.refused_doubled first second (Expression.refused_doubled body) cut
  | nested written last body =>
    exact Component.Holds.nested.refused_doubled first second (Expression.refused_doubled body) cut

/-- An expression with two separators in the place of one is refused. -/
theorem Expression.refused_doubled (expression : Expression) {before after : List Char}
    (cut : Expression.word expression = before ++ separator.word ++ after) :
    after ≠ [] ∧ ExpressionRefused (before ++ first.word ++ second.word ++ after) (doubled after) := by
  match expression with
  | [] => exact absurd cut.symm (by simp [separator.word_ne_nil, Expression.word])
  | [component] =>
    obtain ⟨notEmpty, refused⟩ := Component.refused_doubled component cut
    have alone := refused.first []
    rw [Expression.behind, List.flatMap_nil, List.append_nil] at alone
    exact ⟨notEmpty, alone⟩
  | component :: next :: rest =>
    have noComma : ',' ∉ separator.word := fun member => absurd (separator.plain_word _ member) (by decide)
    rcases part_beside noComma cut with ⟨between, isWord, rfl⟩ | ⟨inner, rfl, isRest⟩
    · obtain ⟨notEmpty, refused⟩ := Component.refused_doubled component isWord
      refine ⟨by simp, ?_⟩
      rw [doubled_append notEmpty, ← Expression.behind_cons, ← List.append_assoc]
      exact refused.first (next :: rest)
    · obtain ⟨notEmpty, refused⟩ := Expression.refused_doubled (next :: rest) isRest
      refine ⟨notEmpty, ?_⟩
      simpa using refused.later component

end

end

/-! ## Texts -/

/-- What is reported of a separator that is put into an expression that is accepted. Directly beside another separator
    it makes two in a row, unless a group follows them: then the chain before the group ends with a separator. Before a
    component, also inside groups, the expression starts with a separator, and behind a component without braces it
    ends with one. -/
theorem misplaced_separators {text : String} {tags : NameSet} (read : parse text = .ok tags) :
    (∀ (separator extra : Separator) (before after : List Char) (mistaken : String),
      Text.strip text.toList = before ++ separator.word ++ after →
      Text.strip mistaken.toList = before ++ extra.word ++ separator.word ++ after ∨
        Text.strip mistaken.toList = before ++ separator.word ++ extra.word ++ after →
      parse mistaken = .error (if after.head? = some '\x7b' then .trailingSeparator else .adjacentSeparators)) ∧
    (∃ expression, Expression.word expression = Text.strip text.toList) ∧
    ∀ expression, Expression.word expression = Text.strip text.toList →
      ∀ component left right, StandsIn component expression left right →
        Text.strip text.toList = left ++ component.word ++ right ∧
        ∀ (separator : Separator) (mistaken : String),
          (Text.strip mistaken.toList = left ++ (separator.word ++ component.word) ++ right →
            parse mistaken = .error .leadingSeparator) ∧
          ('\x7b' ∉ component.word → Text.strip mistaken.toList = left ++ (component.word ++ separator.word) ++ right →
            parse mistaken = .error .trailingSeparator) := by
  obtain ⟨found, derived⟩ := exists_expression_of_parse read
  refine ⟨fun separator extra before after mistaken cut doubled => ?_, ⟨found, derived⟩,
    fun expression isWord component left right stands => ⟨isWord ▸ stands.word_eq, fun separator mistaken => ⟨?_, ?_⟩⟩⟩
  · have isCut := derived.trans cut
    apply ExpressionRefused.parse_eq_error
    rcases doubled with first | second
    · rw [first]
      exact (Expression.refused_doubled extra separator found isCut).2
    · rw [second]
      exact (Expression.refused_doubled separator extra found isCut).2
  · intro written
    apply ExpressionRefused.parse_eq_error
    rw [written]
    exact stands.refused (component.refused_behind separator)
  · intro noGroup written
    apply ExpressionRefused.parse_eq_error
    rw [written]
    cases component with
    | chain chain => exact stands.refused (chain.refused_before separator)
    | group body => exact absurd (by simp [Component.word]) noGroup
    | nested chain between body => exact absurd (by simp [Component.word]) noGroup

/-- A separator put into a chain, before a group, and around a component in the group. -/
theorem twoComponents_misplaced_separators :
    parse "a..b,c::\x7bd\x7d" = .error .adjacentSeparators ∧ parse "a.b, c.::\x7bd\x7d" = .error .trailingSeparator ∧
      parse "a.b,c::\x7b.d\x7d" = .error .leadingSeparator ∧ parse "a.b,c::\x7bd::\x7d" = .error .trailingSeparator := by
  have accepted : (parse "a.b,c::\x7bd\x7d").isOk = true := by decide +kernel
  obtain ⟨tags, read⟩ := exists_of_isOk accepted
  obtain ⟨beside, _, around⟩ := misplaced_separators read
  let outer : Component := .chain ⟨⟨['a'], by decide⟩, [(.accumulating, ⟨['b'], by decide⟩)]⟩
  let inner : Component := .chain ⟨⟨['d'], by decide⟩, []⟩
  let group : Component := .nested ⟨⟨['c'], by decide⟩, []⟩ .strict [inner]
  have stands : StandsIn inner ([outer] ++ group :: []) _ _ := .inside .nested (@StandsIn.member inner [] [])
  obtain ⟨_, misplaced⟩ := around _ (by decide) inner _ _ stands
  refine ⟨?_, ?_, ?_, ?_⟩
  · exact beside .accumulating .accumulating ['a'] "b,c::\x7bd\x7d".toList _ (by decide) (.inl (by decide))
  · exact beside .strict .accumulating "a.b,c".toList "\x7bd\x7d".toList _ (by decide) (.inl (by decide))
  · exact (misplaced .accumulating _).1 (by decide)
  · exact (misplaced .strict _).2 (by decide) (by decide)

/-- Of two points in a row before a group, the end of an expression is reported. -/
theorem twoPoints_before_group :
    (parse "a.\x7bb\x7d").isOk = true ∧ parse "a..\x7bb\x7d" = .error .trailingSeparator ∧
      parse "a..\x7bb\x7d" ≠ .error .adjacentSeparators := by
  have accepted : (parse "a.\x7bb\x7d").isOk = true := by decide +kernel
  have refused : parse "a..\x7bb\x7d" = .error .trailingSeparator := by decide +kernel
  refine ⟨accepted, refused, fun adjacent => ?_⟩
  cases refused.symm.trans adjacent

end Condensed

end ModelCatalog
