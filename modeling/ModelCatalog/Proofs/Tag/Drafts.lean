import ModelCatalog.Proofs.Tag.Braces

/-!
# Components with mistakes

A draft is a word with the form of one component, whatever its chains look like (`Draft`): it is cut into tokens of
its own, and the searches for commas and braces pass over it. Drafts with commas between them fall into these
drafts again, and expand one after the other (`expandExpression_draftTokens`). So a text that is refused as a component
or as an expression is refused in larger ones as well: in a group, before other components, and behind components that
are expanded. Main statement: a text that is refused in the place of one component of an expression, at any depth, has
the whole refused for the same reason (`StandsIn.refused`).
-/

namespace ModelCatalog

namespace Condensed

/-- A word with the form of a component, and its tokens. -/
structure Draft where
  word : List Char
  tokens : List Token
  cut : ∀ rest, Ended rest → Condensed.tokens (word ++ rest) = tokens ++ Condensed.tokens rest
  nested : Nested tokens
  whole : ∀ after, components 0 (tokens ++ after) = (tokens ++ (components 0 after).1, (components 0 after).2)
  notEmpty : tokens ≠ []

/-! ## Drafts in a row -/

/-- The words of drafts with a comma before each. -/
def behindWord (drafts : List Draft) : List Char := drafts.flatMap fun draft => ',' :: draft.word

/-- The tokens of drafts with a comma before each. -/
def behindTokens (drafts : List Draft) : List Token := drafts.flatMap fun draft => .comma :: draft.tokens

/-- The words of drafts with commas between them. -/
def draftWord : List Draft → List Char
  | [] => []
  | draft :: rest => draft.word ++ behindWord rest

/-- The tokens of drafts with commas between them. -/
def draftTokens : List Draft → List Token
  | [] => []
  | draft :: rest => draft.tokens ++ behindTokens rest

theorem ended_behindWord (drafts : List Draft) {after : List Char} (ended : Ended after) :
    Ended (behindWord drafts ++ after) := by
  cases drafts with
  | nil => exact ended
  | cons draft rest => exact ended_delimiter rfl _

theorem tokens_behindWord (drafts : List Draft) {after : List Char} (ended : Ended after) :
    tokens (behindWord drafts ++ after) = behindTokens drafts ++ tokens after := by
  induction drafts with
  | nil => rfl
  | cons draft rest ih =>
    have split : behindWord (draft :: rest) ++ after = ',' :: (draft.word ++ (behindWord rest ++ after)) := by
      simp [behindWord]
    rw [split, tokens_delimiter rfl, draft.cut _ (ended_behindWord rest ended), ih]
    simp [behindTokens]

/-- Drafts with commas between them are cut into their tokens. -/
theorem tokens_draftWord (drafts : List Draft) {after : List Char} (ended : Ended after) :
    tokens (draftWord drafts ++ after) = draftTokens drafts ++ tokens after := by
  cases drafts with
  | nil => rfl
  | cons draft rest =>
    rw [draftWord, draftTokens, List.append_assoc, draft.cut _ (ended_behindWord rest ended),
      tokens_behindWord rest ended, List.append_assoc]

theorem nested_behindTokens (drafts : List Draft) : Nested (behindTokens drafts) := by
  induction drafts with
  | nil => exact .nil
  | cons draft rest ih => exact .comma (draft.nested.append ih)

theorem nested_draftTokens (drafts : List Draft) : Nested (draftTokens drafts) := by
  cases drafts with
  | nil => exact .nil
  | cons draft rest => exact draft.nested.append (nested_behindTokens rest)

theorem components_behindTokens (drafts : List Draft) :
    components 0 (behindTokens drafts) = ([], drafts.map Draft.tokens) := by
  induction drafts with
  | nil => rfl
  | cons draft rest ih =>
    have split : behindTokens (draft :: rest) = .comma :: (draft.tokens ++ behindTokens rest) := by
      simp [behindTokens]
    rw [split, components, draft.whole, ih]
    simp

/-- Drafts with commas between them expand one after the other. -/
theorem expandExpression_draftTokens (drafts : List Draft) :
    expandExpression (draftTokens drafts) =
      (drafts.map Draft.tokens).mapM expandAlone >>= fun expanded => .ok expanded.flatten := by
  cases drafts with
  | nil =>
    rw [draftTokens, expandExpression, if_pos rfl]
    rfl
  | cons draft rest =>
    have all : allComponents (draftTokens (draft :: rest)) = (draft :: rest).map Draft.tokens := by
      rw [allComponents, draftTokens, draft.whole, components_behindTokens]
      simp
    have some : draftTokens (draft :: rest) ≠ [] := List.append_ne_nil_of_left_ne_nil draft.notEmpty _
    rw [expandExpression_eq some, all]

/-- When the first draft is refused, so is the row. -/
theorem expandExpression_first_error {draft : Draft} {error : Error} (refused : expandAlone draft.tokens = .error error)
    (rest : List Draft) : expandExpression (draftTokens (draft :: rest)) = .error error := by
  rw [expandExpression_draftTokens, List.map_cons, List.mapM_cons, refused]
  rfl

/-- Behind a draft that is expanded, the others are refused as they are alone. -/
theorem expandExpression_later_error {draft : Draft} {rest : List Draft} {chains : List Chain} {error : Error}
    (expanded : expandAlone draft.tokens = .ok chains) (refused : expandExpression (draftTokens rest) = .error error) :
    expandExpression (draftTokens (draft :: rest)) = .error error := by
  rw [expandExpression_draftTokens] at refused ⊢
  rw [List.map_cons, List.mapM_cons, expanded]
  cases walk : (rest.map Draft.tokens).mapM expandAlone with
  | error other =>
    rw [walk] at refused
    exact refused
  | ok others =>
    rw [walk] at refused
    cases refused

/-- A text of drafts is read as these expand. -/
theorem parse_of_drafts {text : String} {drafts : List Draft} (written : Text.strip text.toList = draftWord drafts) :
    parse text = expandExpression (draftTokens drafts) >>= fun chains => .ok (tagsOf chains) := by
  have cut := tokens_draftWord drafts ended_nil
  rw [List.append_nil, ← written] at cut
  have same : tokens (Text.strip text.toList) = draftTokens drafts := cut.trans (List.append_nil _)
  have nested : Nested (tokens (Text.strip text.toList)) := by
    rw [same]
    exact nested_draftTokens drafts
  rw [parse_of_nested nested, same]

/-! ## Drafts of each form -/

/-- No character of a word is a delimiter. -/
def Plain (word : List Char) : Prop := ∀ c ∈ word, delimiter? c = none

variable {word : List Char}

theorem Plain.append {left right : List Char} (leftPlain : Plain left) (rightPlain : Plain right) :
    Plain (left ++ right) := by
  intro c member
  rcases List.mem_append.mp member with first | later
  · exact leftPlain c first
  · exact rightPlain c later

theorem Separator.plain_word (separator : Separator) : Plain separator.word :=
  fun _ member => delimiter?_of_mem_separator member

theorem Written.plain_word (written : Written) : Plain written.word :=
  fun _ member => written.delimiter?_of_mem_word member

theorem Separator.word_ne_nil (separator : Separator) : separator.word ≠ [] := by
  cases separator <;> exact List.cons_ne_nil _ _

/-- A plain word is one token, unless it is empty. -/
theorem Plain.tokens_eq (plain : Plain word) : tokens word = if word = [] then [] else [.text word] := by
  by_cases none : word = []
  · rw [if_pos none, none, tokens]
  · have cut := tokens_text plain none ended_nil
    rw [List.append_nil] at cut
    rw [if_neg none, cut, tokens]

/-- A component is a draft. -/
def Component.draft (component : Component) : Draft where
  word := component.word
  tokens := component.tokens
  cut _ ended := component.tokens_word ended
  nested := component.nested_tokens
  whole := component.components_append
  notEmpty := by
    have some := Expression.tokens_ne_nil component []
    rwa [Expression.tokens] at some

/-- A plain word as a draft. -/
def Draft.chain (word : List Char) (plain : Plain word) (some : word ≠ []) : Draft where
  word := word
  tokens := [.text word]
  cut _ ended := tokens_text plain some ended
  nested := .text .nil
  whole after := by simp [components, Token.depthAfter]
  notEmpty := List.cons_ne_nil _ _

/-- A group of drafts with a plain word before it, which may be empty. -/
def Draft.group (before : List Char) (plain : Plain before) (body : List Draft) : Draft where
  word := before ++ '\x7b' :: (draftWord body ++ ['\x7d'])
  tokens := Condensed.tokens before ++ .opening :: (draftTokens body ++ [.closing])
  cut rest ended := by
    simp only [List.append_assoc, List.cons_append, List.nil_append]
    rw [tokens_append_delimiter rfl, tokens_draftWord body (ended_delimiter rfl rest), tokens_delimiter rfl]
  nested := by
    have group : Nested (.opening :: (draftTokens body ++ [.closing])) := .group (nested_draftTokens body) .nil
    rw [plain.tokens_eq]
    split
    · exact group
    · exact .text group
  whole after := by
    have group := (nested_draftTokens body).components_group after
    rw [plain.tokens_eq]
    split
    · simpa using group
    · simp [components, Token.depthAfter, (nested_draftTokens body).components_append]
  notEmpty := by simp

/-- The body of a group is expanded first, and then the word before it. -/
theorem Draft.expandAlone_group {before : List Char} (plain : Plain before) (body : List Draft) :
    expandAlone (Draft.group before plain body).tokens =
      expandExpression (draftTokens body) >>= expandBefore (Condensed.tokens before) := by
  have none : .opening ∉ Condensed.tokens before := by
    rw [plain.tokens_eq]
    split <;> simp
  exact Condensed.expandAlone_group none (nested_draftTokens body)

/-! ## Places in an expression -/

/-- The texts of components with a comma behind each. -/
def Expression.ahead (components : Expression) : List Char := components.flatMap fun component => component.word ++ [',']

/-- The texts of components with a comma before each. -/
def Expression.behind (components : Expression) : List Char := components.flatMap fun component => ',' :: component.word

/-- A component holds a group: the word before the group, and the expression in it. -/
inductive Component.Holds : Component → List Char → Expression → Prop
  | group {body : Expression} : Holds (.group body) [] body
  | nested {written : Written} {separator : Separator} {body : Expression} :
      Holds (.nested written separator body) (written.word ++ separator.word) body

/-- A component stands in an expression, also inside groups, with a text to its left and a text to its right. -/
inductive StandsIn (component : Component) : Expression → List Char → List Char → Prop
  | member {before after : Expression} :
      StandsIn component (before ++ component :: after) (Expression.ahead before) (Expression.behind after)
  | inside {before after body : Expression} {outer : Component} {first left right : List Char} :
      outer.Holds first body → StandsIn component body left right →
      StandsIn component (before ++ outer :: after) (Expression.ahead before ++ (first ++ '\x7b' :: left))
        (right ++ '\x7d' :: Expression.behind after)

theorem Component.Holds.word_eq {component : Component} {first : List Char} {body : Expression}
    (holds : component.Holds first body) : component.word = first ++ '\x7b' :: (Expression.word body ++ ['\x7d']) := by
  cases holds with
  | group => rw [Component.word, List.nil_append]
  | nested => rw [Component.word]

theorem Component.Holds.plain {component : Component} {first : List Char} {body : Expression}
    (holds : component.Holds first body) : Plain first := by
  cases holds with
  | group => exact fun _ member => absurd member List.not_mem_nil
  | @nested written separator => exact written.plain_word.append separator.plain_word

theorem behindWord_map (components : Expression) :
    behindWord (components.map Component.draft) = Expression.behind components :=
  List.flatMap_map ..

/-- The text of an expression is that of its first component and what is behind it. -/
theorem Expression.word_cons (component : Component) (rest : Expression) :
    Expression.word (component :: rest) = component.word ++ Expression.behind rest := by
  induction rest generalizing component with
  | nil => exact (List.append_nil _).symm
  | cons next rest ih =>
    rw [Expression.word, ih next]
    · rfl
    · exact List.cons_ne_nil _ _

theorem Expression.behind_cons (component : Component) (rest : Expression) :
    Expression.behind (component :: rest) = ',' :: Expression.word (component :: rest) := by
  rw [Expression.word_cons]
  rfl

/-- The drafts of an expression write it. -/
theorem draftWord_map (expression : Expression) :
    draftWord (expression.map Component.draft) = Expression.word expression := by
  cases expression with
  | nil => rfl
  | cons component rest =>
    rw [Expression.word_cons, ← behindWord_map]
    rfl

/-- The text of an expression around one of its components. -/
theorem Expression.word_around (before : Expression) (component : Component) (after : Expression) :
    Expression.word (before ++ component :: after) =
      Expression.ahead before ++ component.word ++ Expression.behind after := by
  induction before with
  | nil => exact Expression.word_cons component after
  | cons first rest ih =>
    rw [List.cons_append, Expression.word, ih]
    · simp [Expression.ahead]
    · simp

/-! ## What is refused -/

/-- A text with the form of a component is refused. -/
def ComponentRefused (word : List Char) (error : Error) : Prop :=
  ∃ draft : Draft, draft.word = word ∧ expandAlone draft.tokens = .error error

/-- A text with the form of an expression is refused. -/
def ExpressionRefused (word : List Char) (error : Error) : Prop :=
  ∃ drafts, draftWord drafts = word ∧ expandExpression (draftTokens drafts) = .error error

variable {error : Error}

/-- A chain is refused as it is expanded. -/
theorem ComponentRefused.chain (plain : Plain word) (some : word ≠ []) (refused : expandChain word = .error error) :
    ComponentRefused word error := by
  refine ⟨.chain word plain some, rfl, ?_⟩
  have alone : expandAlone (Draft.chain word plain some).tokens = _ := expandAlone_text word
  rw [alone, refused]
  rfl

/-- Of a group the body is refused first. -/
theorem ExpressionRefused.inGroup {before : List Char} (plain : Plain before) (refused : ExpressionRefused word error) :
    ComponentRefused (before ++ '\x7b' :: (word ++ ['\x7d'])) error := by
  obtain ⟨body, rfl, alone⟩ := refused
  refine ⟨.group before plain body, rfl, ?_⟩
  rw [Draft.expandAlone_group, alone]
  rfl

/-- Of several components the first is refused first. -/
theorem ComponentRefused.first (refused : ComponentRefused word error) (rest : Expression) :
    ExpressionRefused (word ++ Expression.behind rest) error := by
  obtain ⟨draft, rfl, alone⟩ := refused
  refine ⟨draft :: rest.map Component.draft, ?_, expandExpression_first_error alone _⟩
  rw [draftWord, behindWord_map]

/-- Behind a component that is expanded, an expression is refused as it is alone. -/
theorem ExpressionRefused.later (refused : ExpressionRefused word error) (component : Component) :
    ExpressionRefused (component.word ++ ',' :: word) error := by
  obtain ⟨drafts, rfl, alone⟩ := refused
  obtain ⟨chains, expanded, _⟩ := component.expands
  refine ⟨component.draft :: drafts, ?_, expandExpression_later_error expanded alone⟩
  cases drafts with
  | nil =>
    rw [draftTokens, expandExpression, if_pos rfl] at alone
    cases alone
  | cons draft rest => rfl

/-- A component that is refused among others. -/
theorem ComponentRefused.among (refused : ComponentRefused word error) (before after : Expression) :
    ExpressionRefused (Expression.ahead before ++ word ++ Expression.behind after) error := by
  induction before with
  | nil => exact refused.first after
  | cons component rest ih =>
    have later := ih.later component
    simpa [Expression.ahead] using later

/-- A text with the form of an expression is refused when this is. -/
theorem ExpressionRefused.parse_eq_error {text : String} (refused : ExpressionRefused (Text.strip text.toList) error) :
    parse text = .error error := by
  obtain ⟨drafts, written, whole⟩ := refused
  rw [parse_of_drafts written.symm, whole]
  rfl

namespace StandsIn

variable {component : Component} {expression : Expression} {left right : List Char}

/-- The texts around a component and the component write the expression. -/
theorem word_eq (stands : StandsIn component expression left right) :
    Expression.word expression = left ++ component.word ++ right := by
  induction stands with
  | member => exact Expression.word_around _ component _
  | inside holds _ ih =>
    rw [Expression.word_around, holds.word_eq, ih]
    simp

/-- Where a component stands, a text that is refused has the whole refused. -/
theorem refused (stands : StandsIn component expression left right) (refused : ComponentRefused word error) :
    ExpressionRefused (left ++ word ++ right) error := by
  induction stands with
  | @member before after => exact refused.among before after
  | @inside before after body outer first left right holds _ ih =>
    have around := (ih.inGroup holds.plain).among before after
    simpa using around

end StandsIn

end Condensed

end ModelCatalog
