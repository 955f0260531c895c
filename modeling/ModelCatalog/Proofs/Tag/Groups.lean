import ModelCatalog.Proofs.Tag.Tokens

/-!
# Groups and components

Tokens in which every group is closed (`Nested`), as those of an expression are: the count of open
groups, the search for the brace that closes a group, and the search for commas inside a group pass over
them. So an expression falls into the components of its tree (`allComponents_tokens`), and a group ends
with its own brace (`closeGroup_tokens`). For any tokens, components and commas write them again
(`components_join`), and so do a group, its closing brace and what stands behind (`closeGroup_join`).
-/

namespace ModelCatalog

namespace Condensed

/-- Tokens in which every group is closed. -/
inductive Nested : List Token → Prop
  | nil : Nested []
  | text {word : List Char} {rest : List Token} : Nested rest → Nested (.text word :: rest)
  | comma {rest : List Token} : Nested rest → Nested (.comma :: rest)
  | group {inner rest : List Token} : Nested inner → Nested rest →
      Nested (.opening :: (inner ++ .closing :: rest))

namespace Nested

variable {tokens : List Token}

theorem append {others : List Token} (left : Nested tokens) (right : Nested others) :
    Nested (tokens ++ others) := by
  induction left with
  | nil => exact right
  | text _ ih => exact .text ih
  | comma _ ih => exact .comma ih
  | group inner _ _ ih =>
    rw [List.cons_append, List.append_assoc, List.cons_append]
    exact .group inner ih

/-- The count of open groups passes over closed ones. -/
theorem balanced_append (nested : Nested tokens) (depth : Nat) (after : List Token) :
    balanced depth (tokens ++ after) = balanced depth after := by
  induction nested generalizing depth after with
  | nil => rfl
  | text _ ih => exact ih depth after
  | comma _ ih => exact ih depth after
  | group _ _ inner rest =>
    rw [List.cons_append, balanced, List.append_assoc, inner, List.cons_append, balanced, rest]

theorem balanced (nested : Nested tokens) : balanced 0 tokens = true := by
  have whole := nested.balanced_append 0 []
  rw [List.append_nil] at whole
  rw [whole]
  rfl

/-- The search for the brace that closes a group passes over closed groups. -/
theorem closeGroup_append (nested : Nested tokens) (depth : Nat) (after : List Token) :
    closeGroup depth (tokens ++ after) =
      (closeGroup depth after).map fun (body, behind) => (tokens ++ body, behind) := by
  induction nested generalizing depth after with
  | nil => simp
  | text _ ih => simp [closeGroup, ih, Function.comp_def]
  | comma _ ih => simp [closeGroup, ih, Function.comp_def]
  | group _ _ inner rest => simp [closeGroup, inner, rest, Function.comp_def]

/-- A group whose body is nested ends with the brace behind the body. -/
theorem closeGroup_closing (nested : Nested tokens) (after : List Token) :
    closeGroup 0 (tokens ++ .closing :: after) = some (tokens, after) := by
  simp [nested.closeGroup_append, closeGroup]

/-- Inside a group, the search for commas passes over closed groups and the commas between them. -/
theorem components_append (nested : Nested tokens) (depth : Nat) (after : List Token) :
    components (depth + 1) (tokens ++ after) =
      (tokens ++ (components (depth + 1) after).1, (components (depth + 1) after).2) := by
  induction nested generalizing depth after with
  | nil => rfl
  | text _ ih => simp [components, Token.depthAfter, ih]
  | comma _ ih => simp [components, Token.depthAfter, ih]
  | group _ _ inner rest => simp [components, Token.depthAfter, inner, rest]

end Nested

mutual

theorem Component.nested_tokens : (component : Component) → Nested component.tokens
  | .chain _ => .text .nil
  | .group body => .group (Expression.nested_tokens body) .nil
  | .nested _ _ body => .text (.group (Expression.nested_tokens body) .nil)

theorem Expression.nested_tokens : (expression : Expression) → Nested (Expression.tokens expression)
  | [] => .nil
  | [component] => component.nested_tokens
  | component :: next :: rest => component.nested_tokens.append (.comma (Expression.nested_tokens (next :: rest)))

end

theorem Expression.balanced_tokens (expression : Expression) : balanced 0 (Expression.tokens expression) :=
  (Expression.nested_tokens expression).balanced

/-- A group ends with the brace behind the expression in it. -/
theorem Expression.closeGroup_tokens (expression : Expression) :
    closeGroup 0 (Expression.tokens expression ++ [.closing]) = some (Expression.tokens expression, []) :=
  (Expression.nested_tokens expression).closeGroup_closing []

/-! ## Components -/

/-- Outside all groups, the search for commas passes over a component. -/
theorem Component.components_append (component : Component) (after : List Token) :
    components 0 (component.tokens ++ after) =
      (component.tokens ++ (components 0 after).1, (components 0 after).2) := by
  cases component with
  | chain written => simp [Component.tokens, components, Token.depthAfter]
  | group body =>
    simp [Component.tokens, components, Token.depthAfter, (Expression.nested_tokens body).components_append]
  | nested written separator body =>
    simp [Component.tokens, components, Token.depthAfter, (Expression.nested_tokens body).components_append]

/-- The components of an expression are those of its tree. -/
theorem Expression.allComponents_tokens (component : Component) (rest : Expression) :
    allComponents (Expression.tokens (component :: rest)) = (component :: rest).map Component.tokens := by
  induction rest generalizing component with
  | nil =>
    have whole := component.components_append []
    rw [List.append_nil] at whole
    rw [Expression.tokens, allComponents, whole]
    simp [components]
  | cons next rest ih =>
    have behind : (components 0 (Expression.tokens (next :: rest))).1 ::
        (components 0 (Expression.tokens (next :: rest))).2 = (next :: rest).map Component.tokens := ih next
    rw [Expression.tokens, allComponents, component.components_append, components]
    · simp only [and_self, if_true, List.append_nil]
      rw [behind]
      rfl
    · exact List.cons_ne_nil next rest

/-- Components with commas between them write the tokens that they were cut from. -/
theorem components_join (depth : Nat) (tokens : List Token) :
    (components depth tokens).1 ++ (components depth tokens).2.flatMap (.comma :: ·) = tokens := by
  induction tokens generalizing depth with
  | nil => rfl
  | cons token rest ih =>
    rw [components]
    by_cases separates : token = .comma ∧ depth = 0
    · rw [if_pos separates, List.flatMap_cons, List.nil_append, List.cons_append, ih, separates.1]
    · rw [if_neg separates, List.cons_append, ih]

theorem Expression.tokens_cons (component : Component) (rest : Expression) :
    Expression.tokens (component :: rest) =
      component.tokens ++ rest.flatMap fun next => .comma :: next.tokens := by
  induction rest generalizing component with
  | nil => rw [Expression.tokens, List.flatMap_nil, List.append_nil]
  | cons next rest ih =>
    rw [Expression.tokens, ih next, List.flatMap_cons, List.cons_append]
    exact List.cons_ne_nil next rest

/-- A group, its closing brace and the tokens behind write the tokens that they were cut from. -/
theorem closeGroup_join {depth : Nat} {tokens body after : List Token}
    (closed : closeGroup depth tokens = some (body, after)) : tokens = body ++ .closing :: after := by
  induction tokens generalizing depth body after with
  | nil => cases closed
  | cons token rest ih =>
    cases token with
    | closing =>
      cases depth with
      | zero =>
        cases closed
        rfl
      | succ depth =>
        obtain ⟨⟨inner, behind⟩, found, same⟩ := Option.map_eq_some_iff.mp closed
        cases same
        rw [ih found, List.cons_append]
    | opening | comma | text =>
      obtain ⟨⟨inner, behind⟩, found, same⟩ := Option.map_eq_some_iff.mp closed
      cases same
      rw [ih found, List.cons_append]

end Condensed

end ModelCatalog
