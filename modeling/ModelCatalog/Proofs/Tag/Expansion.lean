import ModelCatalog.Proofs.Tag.Chains
import ModelCatalog.Proofs.Tag.Groups
import Mathlib.Data.List.TakeWhile
import Mathlib.Data.Set.List

/-!
# What expressions are accepted, and what they mean

Each step of the expansion succeeds on exactly one form of its input (`expandBefore_eq_ok_iff`,
`expandComponent_eq_ok_iff`). So the tokens of a tree expand to the chains behind its tags
(`Expression.expands`, by recursion on the tree), and tokens that expand are those of a tree
(`exists_expression_of_expandExpression`, by recursion on their number). Together: a text is read exactly
when it is derived from the grammar, and to the tags of its derivation (`parse_correct`).
-/

namespace ModelCatalog

namespace Condensed

/-! ## Components -/

/-- A separator stands at the end of the word before a group. -/
theorem splitGroupPrefix_eq_ok_iff {word chain : List Char} {separator : Separator} :
    splitGroupPrefix word = .ok (chain, separator) ↔ word = chain ++ separator.word := by
  constructor
  · intro done
    unfold splitGroupPrefix at done
    split at done
    next rest reversed =>
      cases done
      rw [← List.reverse_reverse word, reversed]
      simp [Separator.word]
    next rest reversed =>
      cases done
      rw [← List.reverse_reverse word, reversed]
      simp [Separator.word]
    next => cases done
  · rintro rfl
    cases separator <;> simp [splitGroupPrefix, Separator.word]

/-- What stands before a group is nothing, or a chain with a separator behind it. -/
theorem expandBefore_eq_ok_iff {before : List Token} {inner chains : List Chain} :
    expandBefore before inner = .ok chains ↔ before = [] ∧ chains = inner ∨
      ∃ word separator expansion, before = [.text (word ++ separator.word)] ∧ word ≠ [] ∧
        expandChain word = .ok expansion ∧ chains = expansion.continue separator inner := by
  constructor
  · intro done
    unfold expandBefore at done
    split at done
    next => exact .inl ⟨rfl, (Except.ok.inj done).symm⟩
    next whole =>
      obtain ⟨⟨word, separator⟩, cut, done⟩ := bind_eq_ok_iff.mp done
      rw [splitGroupPrefix_eq_ok_iff.mp cut]
      by_cases none : word = []
      · simp only [none, if_true] at done
        cases done
      · simp only [none, if_false] at done
        obtain ⟨expansion, expanded, done⟩ := bind_eq_ok_iff.mp done
        exact .inr ⟨word, separator, expansion, rfl, none, expanded, (Except.ok.inj done).symm⟩
    next => cases done
  · rintro (⟨rfl, rfl⟩ | ⟨word, separator, expansion, rfl, some, expanded, rfl⟩)
    · rfl
    · rw [expandBefore, splitGroupPrefix_eq_ok_iff.mpr rfl]
      simp [some, expanded, bind, Except.bind, pure, Except.pure]

/-- Behind the tokens before the first opening brace stands this brace. -/
theorem eq_takeWhile_append {component group : List Token} {token : Token}
    (found : component.dropWhile (· ≠ .opening) = token :: group) :
    component = component.takeWhile (· ≠ .opening) ++ .opening :: group := by
  have first := List.head?_dropWhile_not (· ≠ Token.opening) component
  rw [found] at first
  have isOpening : token = .opening := by simpa using first
  have whole : component.takeWhile (· ≠ .opening) ++ component.dropWhile (· ≠ .opening) = component :=
    List.takeWhile_append_dropWhile
  rw [found, isOpening] at whole
  exact whole.symm

theorem ne_opening_of_notMem {before : List Token} (none : .opening ∉ before) :
    ∀ token ∈ before, decide (token ≠ .opening) = true := by
  intro token member
  rw [decide_eq_true_iff]
  rintro rfl
  exact none member

/-- The search for the first opening brace passes over tokens without one. -/
theorem dropWhile_before {before group : List Token} (none : .opening ∉ before) :
    (before ++ .opening :: group).dropWhile (· ≠ .opening) = .opening :: group := by
  rw [List.dropWhile_append_of_pos (ne_opening_of_notMem none)]
  rfl

theorem takeWhile_before {before group : List Token} (none : .opening ∉ before) :
    (before ++ .opening :: group).takeWhile (· ≠ .opening) = before := by
  rw [List.takeWhile_append_of_pos (ne_opening_of_notMem none)]
  exact List.append_nil before

theorem expandComponent_text {word : List Char} {expand : List Token → Except Error (List Chain)} :
    expandComponent [.text word] (fun body _ => expand body) =
      expandChain word >>= fun expansion => .ok expansion.chains := rfl

/-- Behind the first group of a component nothing may stand. Then its body is expanded first, and then what stands
    before it. -/
theorem expandComponent_closed {before group body after : List Token} {expand : List Token → Except Error (List Chain)}
    (none : .opening ∉ before) (closed : closeGroup 0 group = some (body, after)) :
    expandComponent (before ++ .opening :: group) (fun body _ => expand body) =
      if after = [] then expand body >>= expandBefore before else .error .nestingAfterGroup := by
  have found : _ = Token.opening :: group := dropWhile_before none
  unfold expandComponent
  split
  next empty => simp at empty
  next =>
    split
    next split => cases found.symm.trans split
    next token group split =>
      cases found.symm.trans split
      split
      next missing => cases closed.symm.trans missing
      next other behind same =>
        cases closed.symm.trans same
        rw [ite_not, takeWhile_before none]

/-- Of a group at the end of a component the body is expanded first, and then what stands before it. -/
theorem expandComponent_group {before body : List Token} {expand : List Token → Except Error (List Chain)}
    (none : .opening ∉ before) (closed : closeGroup 0 (body ++ [.closing]) = some (body, [])) :
    expandComponent (before ++ .opening :: (body ++ [.closing])) (fun body _ => expand body) =
      expand body >>= expandBefore before := by
  rw [expandComponent_closed none closed, if_pos rfl]

/-- A component is expanded when it is a chain, or ends with a group whose body is expanded. -/
theorem expandComponent_eq_ok_iff {component : List Token}
    {expand : List Token → Except Error (List Chain)} {chains : List Chain} :
    expandComponent component (fun body _ => expand body) = .ok chains ↔
      (∃ word expansion, component = [.text word] ∧ expandChain word = .ok expansion ∧
        chains = expansion.chains) ∨
      ∃ before body inner, component = before ++ .opening :: (body ++ [.closing]) ∧ .opening ∉ before ∧
        closeGroup 0 (body ++ [.closing]) = some (body, []) ∧ expand body = .ok inner ∧
        expandBefore before inner = .ok chains := by
  constructor
  · intro done
    unfold expandComponent at done
    split at done
    · cases done
    · split at done
      next split =>
        split at done
        next word _ =>
          obtain ⟨expansion, expanded, done⟩ := bind_eq_ok_iff.mp done
          exact .inl ⟨word, expansion, rfl, expanded, (Except.ok.inj done).symm⟩
        next => cases done
      next token group split =>
        split at done
        · cases done
        next body after closed =>
          split at done
          · cases done
          next last =>
            obtain ⟨inner, expanded, continued⟩ := bind_eq_ok_iff.mp done
            have none : after = [] := not_not.mp last
            subst none
            have whole := closeGroup_join closed
            subst whole
            refine .inr ⟨_, body, inner, eq_takeWhile_append split, ?_, closed, expanded, continued⟩
            intro member
            simpa using List.mem_takeWhile_imp member
  · rintro (⟨word, expansion, rfl, expanded, rfl⟩ | ⟨before, body, inner, rfl, none, closed, expanded, done⟩)
    · rw [expandComponent_text, expanded]
      rfl
    · rw [expandComponent_group none closed]
      exact bind_eq_ok_iff.mpr ⟨inner, expanded, done⟩

/-! ## Expressions -/

/-- The expansion of a component by itself, its group expanded as an expression. -/
def expandAlone (component : List Token) : Except Error (List Chain) :=
  expandComponent component fun body _ => expandExpression body

theorem expandExpression_eq {tokens : List Token} (some : tokens ≠ []) :
    expandExpression tokens =
      (allComponents tokens).mapM expandAlone >>= fun expanded => .ok expanded.flatten := by
  rw [expandExpression, if_neg some]
  have each : (allComponents tokens).attach.mapM (fun component => expandAlone component.1) =
      (allComponents tokens).mapM expandAlone := by
    conv => rhs; rw [← List.attach_map_subtype_val (allComponents tokens), List.mapM_map]
    rfl
  rw [← each]
  rfl

/-- A chain with a group behind it goes on with what the group names. -/
theorem mem_continue_iff {expansion : Expansion} {separator : Separator} {inner : List Chain}
    {chain : Chain} : chain ∈ expansion.continue separator inner ↔
      chain ∈ expansion.chains ∧ (chain = expansion.deepest → separator = .accumulating) ∨
        ∃ tail ∈ inner, chain = expansion.deepest ++ tail := by
  unfold Expansion.continue
  simp only [List.mem_append, List.mem_map]
  refine or_congr ?_ (exists_congr fun tail => and_congr_right fun _ => eq_comm)
  cases separator with
  | strict => simp
  | accumulating => simp

theorem opening_notMem_text {word : List Char} : Token.opening ∉ [.text word] := by
  simp

theorem Expression.tokens_ne_nil (component : Component) (rest : Expression) :
    Expression.tokens (component :: rest) ≠ [] := by
  rw [Expression.tokens_cons]
  cases component <;> simp [Component.tokens]

/-- An expression whose components expand expands. -/
theorem Expression.expands_of_each {expression : Expression}
    (each : ∃ expanded, (expression.map Component.tokens).mapM expandAlone = .ok expanded ∧
      ∀ chain, chain ∈ expanded.flatten ↔ chain ∈ Expression.chains expression) :
    ∃ chains, expandExpression (Expression.tokens expression) = .ok chains ∧
      ∀ chain, chain ∈ chains ↔ chain ∈ Expression.chains expression := by
  cases expression with
  | nil => exact ⟨[], by rw [Expression.tokens, expandExpression, if_pos rfl], by simp [Expression.chains]⟩
  | cons component rest =>
    obtain ⟨expanded, done, named⟩ := each
    refine ⟨expanded.flatten, ?_, named⟩
    rw [expandExpression_eq (Expression.tokens_ne_nil component rest), Expression.allComponents_tokens, done]
    rfl

mutual

/-- The tokens of a component expand to the chains behind its tags. -/
theorem Component.expands (component : Component) : ∃ chains, expandAlone component.tokens = .ok chains ∧
    ∀ chain, chain ∈ chains ↔ chain ∈ component.chains := by
  cases component with
  | chain written =>
    obtain ⟨expansion, expanded, _, named⟩ := expandChain_word written
    exact ⟨expansion.chains,
      expandComponent_eq_ok_iff.mpr (.inl ⟨written.word, expansion, rfl, expanded, rfl⟩), named⟩
  | group body =>
    obtain ⟨inner, done, named⟩ := Expression.expands_of_each (Expression.expandsEach body)
    refine ⟨inner, expandComponent_eq_ok_iff.mpr (.inr ?_), named⟩
    exact ⟨[], Expression.tokens body, inner, rfl, List.not_mem_nil, Expression.closeGroup_tokens body, done,
      expandBefore_eq_ok_iff.mpr (.inl ⟨rfl, rfl⟩)⟩
  | nested written separator body =>
    obtain ⟨inner, done, named⟩ := Expression.expands_of_each (Expression.expandsEach body)
    obtain ⟨expansion, expanded, deepest, chains⟩ := expandChain_word written
    refine ⟨expansion.continue separator inner, expandComponent_eq_ok_iff.mpr (.inr ?_), fun chain => ?_⟩
    · exact ⟨[.text (written.word ++ separator.word)], Expression.tokens body, inner, rfl,
        opening_notMem_text, Expression.closeGroup_tokens body, done, expandBefore_eq_ok_iff.mpr
          (.inr ⟨written.word, separator, expansion, rfl, written.word_ne_nil, expanded, rfl⟩)⟩
    · rw [mem_continue_iff, chains, deepest]
      simp only [named]
      rfl

/-- The components of an expression expand to the chains behind its tags. -/
theorem Expression.expandsEach (expression : Expression) :
    ∃ expanded, (expression.map Component.tokens).mapM expandAlone = .ok expanded ∧
      ∀ chain, chain ∈ expanded.flatten ↔ chain ∈ Expression.chains expression := by
  cases expression with
  | nil => exact ⟨[], rfl, by simp [Expression.chains]⟩
  | cons component rest =>
    obtain ⟨first, isFirst, firstNamed⟩ := component.expands
    obtain ⟨others, areOthers, othersNamed⟩ := Expression.expandsEach rest
    refine ⟨first :: others, ?_, fun chain => ?_⟩
    · rw [List.map_cons, List.mapM_cons, isFirst, areOthers]
      rfl
    · rw [List.flatten_cons, List.mem_append, firstNamed, othersNamed]
      rfl

end

/-- The tokens of an expression expand to the chains behind its tags. -/
theorem Expression.expands (expression : Expression) :
    ∃ chains, expandExpression (Expression.tokens expression) = .ok chains ∧
      ∀ chain, chain ∈ chains ↔ chain ∈ Expression.chains expression :=
  Expression.expands_of_each (Expression.expandsEach expression)

/-- Trees of the components of tokens make a tree of the tokens. -/
theorem Expression.tokens_eq_of_components {expression : Expression} {tokens : List Token}
    (same : expression.map Component.tokens = allComponents tokens) : Expression.tokens expression = tokens := by
  cases expression with
  | nil => cases same
  | cons component rest =>
    obtain ⟨first, others⟩ := List.cons.inj same
    rw [Expression.tokens_cons, ← components_join 0 tokens, ← first, ← others, List.flatMap_map]

/-- Tokens that expand are those of an expression. -/
theorem exists_expression_of_expandExpression {tokens : List Token} {chains : List Chain}
    (done : expandExpression tokens = .ok chains) :
    ∃ expression : Expression, Expression.tokens expression = tokens := by
  by_cases none : tokens = []
  · exact ⟨[], none.symm⟩
  · rw [expandExpression_eq none] at done
    obtain ⟨expanded, done, _⟩ := bind_eq_ok_iff.mp done
    have each : ∀ component ∈ allComponents tokens, component ∈ Set.range Component.tokens := by
      intro component member
      obtain ⟨named, done⟩ := forall_ok_of_mapM done component member
      have shorter := length_le_of_mem_components member
      rcases expandComponent_eq_ok_iff.mp done with
        ⟨word, expansion, rfl, chain, _⟩ | ⟨before, body, inner, rfl, _, _, bodyDone, beforeDone⟩
      · obtain ⟨written, rfl⟩ := exists_written_of_expandChain chain
        exact ⟨.chain written, rfl⟩
      · obtain ⟨expression, rfl⟩ := exists_expression_of_expandExpression bodyDone
        rcases expandBefore_eq_ok_iff.mp beforeDone with
          ⟨rfl, _⟩ | ⟨word, separator, expansion, rfl, _, chain, _⟩
        · exact ⟨.group expression, rfl⟩
        · obtain ⟨written, rfl⟩ := exists_written_of_expandChain chain
          exact ⟨.nested written separator expression, rfl⟩
    have trees : allComponents tokens ∈ Set.range (List.map Component.tokens) := by
      rw [Set.range_list_map]
      exact each
    obtain ⟨expression, same⟩ := trees
    exact ⟨expression, Expression.tokens_eq_of_components same⟩
termination_by tokens.length
decreasing_by
  simp only [List.length_append, List.length_cons] at shorter
  omega

/-! ## Texts -/

theorem Expression.tokens_of_word (expression : Expression) :
    Condensed.tokens (Expression.word expression) = Expression.tokens expression := by
  have cut := Expression.tokens_word expression ended_nil
  rw [List.append_nil] at cut
  rw [cut]
  exact List.append_nil _

/-- The word of an expression is that of its tokens. -/
theorem Expression.word_eq_of_tokens {expression : Expression} {word : List Char}
    (same : Expression.tokens expression = Condensed.tokens word) : Expression.word expression = word := by
  rw [← tokens_join word, ← same, ← Expression.tokens_of_word, tokens_join]

/-- Reading the word of an expression gives the tags of its tree. -/
theorem parse_word {text : String} {expression : Expression}
    (derived : Expression.word expression = Text.strip text.toList) :
    ∃ tags, parse text = .ok tags ∧ ∀ tag, tag ∈ tags ↔ tag ∈ Expression.tags expression := by
  obtain ⟨chains, done, named⟩ := Expression.expands expression
  refine ⟨NameSet.ofList (chains.map Chain.identifier), ?_, fun tag => ?_⟩
  · rw [parse, ← derived, Expression.tokens_of_word]
    simp only [Expression.balanced_tokens expression, if_true, done]
    rfl
  · rw [NameSet.mem_ofList, List.mem_map, Expression.tags_eq]
    exact exists_congr fun chain => and_congr_left fun _ => named chain

/-- A text that is read is the word of an expression, its blanks left out. -/
theorem exists_expression_of_parse {text : String} {tags : NameSet} (read : parse text = .ok tags) :
    ∃ expression : Expression, Expression.word expression = Text.strip text.toList := by
  rw [parse] at read
  by_cases closed : balanced 0 (tokens (Text.strip text.toList)) = true
  · simp only [closed, if_true] at read
    obtain ⟨chains, done, _⟩ := bind_eq_ok_iff.mp read
    obtain ⟨expression, same⟩ := exists_expression_of_expandExpression done
    exact ⟨expression, Expression.word_eq_of_tokens same⟩
  · simp only [closed] at read
    cases read

/-- A text is accepted exactly when it is empty without its blanks or is then derived from the grammar.
    Whatever its derivation, it stands for the tags of the tree. And no two of the chains that the
    expansion names have the same identifier. -/
theorem parse_correct (text : String) :
    ((∃ tags, parse text = .ok tags) ↔ Text.strip text.toList = [] ∨
      ∃ expression : Expression, expression ≠ [] ∧ Expression.word expression = Text.strip text.toList) ∧
    (∀ expression : Expression, Expression.word expression = Text.strip text.toList →
      ∃ tags, parse text = .ok tags ∧ ∀ tag, tag ∈ tags ↔ tag ∈ Expression.tags expression) ∧
    (∀ chains, expandExpression (tokens (Text.strip text.toList)) = .ok chains →
      Set.InjOn Chain.identifier {chain | chain ∈ chains}) := by
  refine ⟨⟨?_, ?_⟩, fun _ derived => parse_word derived, ?_⟩
  · rintro ⟨tags, read⟩
    obtain ⟨expression, derived⟩ := exists_expression_of_parse read
    cases expression with
    | nil => exact .inl derived.symm
    | cons component rest => exact .inr ⟨component :: rest, List.cons_ne_nil _ _, derived⟩
  · rintro (empty | ⟨expression, _, derived⟩)
    · have derived : Expression.word [] = Text.strip text.toList := empty.symm
      obtain ⟨tags, read, _⟩ := parse_word derived
      exact ⟨tags, read⟩
    · obtain ⟨tags, read, _⟩ := parse_word derived
      exact ⟨tags, read⟩
  · intro chains done
    obtain ⟨expression, same⟩ := exists_expression_of_expandExpression done
    obtain ⟨others, othersDone, named⟩ := Expression.expands expression
    rw [same, done] at othersDone
    cases othersDone
    exact (Expression.identifier_injOn expression).mono fun chain => (named chain).mp

end Condensed

end ModelCatalog
