import ModelCatalog.Proofs.Tag.Braces
import ModelCatalog.Proofs.Tag.Naming

/-!
# Composing expressions

Expressions are put together on their texts. The tokens of a text with a brace around it or with a comma in it are
those of its parts, and a nested expression keeps its components there; so braces change nothing (`parse_group`), and
a comma joins the tags of two expressions, the first that is refused deciding the error (`parse_comma`). A text
without braces and commas that is read is a chain (`exists_written_of_parse`), whose whole identifier is the one tag
that all others are around (`Written.isDeepest_deepest`); with a separator and a group or a name behind it, it is read
as its tree says (`reads_chain_group`, `reads_chain_name`). The laws together are `expressions_compose`.
-/

namespace ModelCatalog

namespace Condensed

/-! ## Tokens -/

variable {left right body : List Token}

/-- An expression in braces expands as it does without them. -/
theorem expandExpression_group (nested : Nested body) :
    expandExpression (.opening :: (body ++ [.closing])) = expandExpression body := by
  have alone : allComponents (.opening :: (body ++ [.closing])) = [.opening :: (body ++ [.closing])] := by
    rw [allComponents, nested.components_group []]
    rfl
  have group : expandAlone (.opening :: (body ++ [.closing])) = expandExpression body >>= expandBefore [] :=
    expandAlone_group List.not_mem_nil nested
  rw [expandExpression_eq (List.cons_ne_nil _ _), alone, List.mapM_cons, List.mapM_nil, group]
  cases expandExpression body with
  | error error => rfl
  | ok inner =>
    have flat : [inner].flatten = inner := List.append_nil inner
    exact congrArg Except.ok flat

/-- Two expressions with a comma between them expand one after the other. -/
theorem expandExpression_comma (nested : Nested left) (leftSome : left ≠ []) (rightSome : right ≠ []) :
    expandExpression (left ++ .comma :: right) =
      expandExpression left >>= fun first => expandExpression right >>= fun second => .ok (first ++ second) := by
  have some : left ++ .comma :: right ≠ [] := List.append_ne_nil_of_left_ne_nil leftSome _
  rw [expandExpression_eq some, expandExpression_eq leftSome, expandExpression_eq rightSome,
    nested.allComponents_append, List.mapM_append]
  cases (allComponents left).mapM expandAlone with
  | error error => rfl
  | ok first =>
    cases (allComponents right).mapM expandAlone with
    | error error => rfl
    | ok second => exact congrArg Except.ok List.flatten_append

/-! ## Texts -/

/-- The braces of a text balance. -/
def IsBalanced (text : String) : Prop := Closes 0 text.toList

theorem tagsOf_append (first second : List Chain) : tagsOf (first ++ second) = tagsOf first ∪ tagsOf second := by
  apply NameSet.ext_mem
  intro tag
  simp only [tagsOf, NameSet.mem_union, NameSet.mem_ofList, List.map_append, List.mem_append]

variable {text : String}

/-- Braces around an expression change neither its tags nor its error. -/
theorem parse_group (isBalanced : IsBalanced text) : parse ("\x7b" ++ text ++ "\x7d") = parse text := by
  have nested := closes_iff_nested.mp isBalanced
  have cut : tokens (Text.strip ("\x7b" ++ text ++ "\x7d").toList) =
      .opening :: (tokens (Text.strip text.toList) ++ [.closing]) := by
    have stripped : Text.strip ("\x7b" ++ text ++ "\x7d").toList = '\x7b' :: (Text.strip text.toList ++ ['\x7d']) := by
      simp only [String.toList_append, Text.strip_append]
      rfl
    rw [stripped, tokens_delimiter rfl, tokens_append_delimiter rfl]
    rfl
  have whole : Nested (tokens (Text.strip ("\x7b" ++ text ++ "\x7d").toList)) := by
    rw [cut]
    exact .group nested .nil
  rw [parse_of_nested whole, cut, expandExpression_group nested, parse_of_nested nested]

/-- A text with other characters than blanks has tokens. -/
theorem tokens_ne_nil {word : List Char} (some : word ≠ []) : tokens word ≠ [] := by
  intro none
  have joined := tokens_join word
  rw [none] at joined
  exact some joined.symm

/-- A comma joins the tags of two expressions. When one of them is refused, the error is that of the first that
    is. -/
theorem parse_comma {first second : String} (firstBalanced : IsBalanced first) (secondBalanced : IsBalanced second)
    (firstSome : Text.strip first.toList ≠ []) (secondSome : Text.strip second.toList ≠ []) :
    parse (first ++ "," ++ second) =
      parse first >>= fun tags => parse second >>= fun others => .ok (tags ∪ others) := by
  have firstNested := closes_iff_nested.mp firstBalanced
  have secondNested := closes_iff_nested.mp secondBalanced
  have cut : tokens (Text.strip (first ++ "," ++ second).toList) =
      tokens (Text.strip first.toList) ++ .comma :: tokens (Text.strip second.toList) := by
    have stripped : Text.strip (first ++ "," ++ second).toList =
        Text.strip first.toList ++ ',' :: Text.strip second.toList := by
      simp only [String.toList_append, Text.strip_append, List.append_assoc]
      rfl
    rw [stripped, tokens_append_delimiter rfl]
  have whole : Nested (tokens (Text.strip (first ++ "," ++ second).toList)) := by
    rw [cut]
    exact firstNested.append (.comma secondNested)
  rw [parse_of_nested whole, cut, parse_of_nested firstNested, parse_of_nested secondNested,
    expandExpression_comma firstNested (tokens_ne_nil firstSome) (tokens_ne_nil secondSome)]
  cases expandExpression (tokens (Text.strip first.toList)) with
  | error error => rfl
  | ok chains =>
    cases expandExpression (tokens (Text.strip second.toList)) with
    | error error => rfl
    | ok others => exact congrArg Except.ok (tagsOf_append chains others)

/-! ## Chains continued -/

/-- The deepest of several tags: every other one is a tag around it. -/
structure IsDeepest (tags : NameSet) (deepest : String) : Prop where
  member : deepest ∈ tags
  around : ∀ tag ∈ tags, tag ≠ deepest → ∃ inner, deepest = tag ++ "::" ++ inner

/-- Of several tags one at most is the deepest. -/
theorem IsDeepest.unique {tags : NameSet} {deepest other : String} (isDeepest : IsDeepest tags deepest)
    (isOther : IsDeepest tags other) : other = deepest := by
  by_contra different
  obtain ⟨inner, within⟩ := isDeepest.around other isOther.member different
  obtain ⟨outer, around⟩ := isOther.around deepest isDeepest.member (Ne.symm different)
  have longer := congrArg String.length within
  have shorter := congrArg String.length around
  simp only [String.length_append] at longer shorter
  have separates : "::".length = 2 := rfl
  omega

namespace Written

variable {written : Written} {separator : Separator} {name : Name} {chain : Chain} {tag : String}

/-- A chain with one more name behind it. -/
def snoc (written : Written) (separator : Separator) (name : Name) : Written :=
  written.link separator ⟨name, []⟩

theorem word_snoc : (written.snoc separator name).word = written.word ++ separator.word ++ name.1 := by
  simp [snoc, link, word]

theorem names_snoc : (written.snoc separator name).names = written.names ++ [name.1] := by
  simp [snoc, link, names]

theorem length_names : written.names.length = written.rest.length + 1 := by
  simp [names]

/-- A beginning that ends before the last name is not the whole chain. -/
theorem take_ne_names {position : Nat} (below : position < written.rest.length) :
    written.names.take (position + 1) ≠ written.names := by
  intro same
  have lengths := congrArg List.length same
  rw [List.length_take, length_names] at lengths
  omega

/-- A chain with one more name stands for what it stood for, its whole identifier only behind a point, and for the
    longer chain. -/
theorem mem_chains_snoc : chain ∈ (written.snoc separator name).chains ↔
    (chain ∈ written.chains ∧ (chain = written.names → separator = .accumulating)) ∨
      chain = written.names ++ [name.1] := by
  have links : (written.snoc separator name).rest = written.rest ++ [(separator, name)] := rfl
  have begins : ∀ position ≤ written.rest.length,
      (written.names ++ [name.1]).take (position + 1) = written.names.take (position + 1) := by
    intro position below
    rw [List.take_append_of_le_length (by rw [length_names]; omega)]
  constructor
  · rintro (rfl | ⟨position, below, point, rfl⟩)
    · exact .inr names_snoc
    · rw [names_snoc]
      simp only [links, List.length_append, List.length_singleton] at below point
      rw [begins position (by omega)]
      by_cases last : position = written.rest.length
      · subst last
        rw [List.getElem_append_right (Nat.le_refl _)] at point
        rw [← length_names, List.take_length]
        exact .inl ⟨.inl rfl, fun _ => by simpa using point⟩
      · have earlier : position < written.rest.length := by omega
        rw [List.getElem_append_left earlier] at point
        exact .inl ⟨.inr ⟨position, earlier, point, rfl⟩, fun whole => absurd whole (take_ne_names earlier)⟩
  · rintro (⟨rfl | ⟨position, below, point, rfl⟩, whole⟩ | rfl)
    · refine .inr ⟨written.rest.length, by simp [links], ?_, ?_⟩
      · simpa [links] using whole rfl
      · rw [names_snoc, begins _ (Nat.le_refl _), ← length_names, List.take_length]
    · refine .inr ⟨position, by simp only [links, List.length_append]; omega, ?_, ?_⟩
      · simp only [links]
        rw [List.getElem_append_left below]
        exact point
      · rw [names_snoc, begins position (by omega)]
    · exact .inl names_snoc.symm

theorem mem_tags_snoc : tag ∈ (written.snoc separator name).tags ↔
    (tag ∈ written.tags ∧ (tag = written.deepest → separator = .accumulating)) ∨
      tag = written.deepest ++ "::" ++ String.ofList name.1 := by
  have longer : Chain.identifier (written.names ++ [name.1]) = written.deepest ++ "::" ++ String.ofList name.1 :=
    Chain.identifier_append isNamed_names.1 (List.cons_ne_nil _ _)
  rw [tags_eq, tags_eq]
  constructor
  · rintro ⟨chain, member, rfl⟩
    rcases mem_chains_snoc.mp member with ⟨listed, whole⟩ | rfl
    · exact .inl ⟨⟨chain, listed, rfl⟩, fun same => whole ((identifier_eq_deepest_iff listed).mp same)⟩
    · exact .inr longer
  · rintro (⟨⟨chain, listed, rfl⟩, whole⟩ | rfl)
    · exact ⟨chain, mem_chains_snoc.mpr (.inl ⟨listed, fun same => whole (same ▸ rfl)⟩), rfl⟩
    · exact ⟨_, mem_chains_snoc.mpr (.inr rfl), longer⟩

/-- The whole identifier of a chain is the deepest of its tags. -/
theorem isDeepest_deepest {tags : NameSet} (isTags : ∀ tag, tag ∈ tags ↔ tag ∈ written.tags) :
    IsDeepest tags written.deepest := by
  refine ⟨(isTags _).mpr (.inl rfl), fun tag member other => ?_⟩
  rcases (isTags tag).mp member with rfl | ⟨position, below, _, rfl⟩
  · exact absurd rfl other
  · have inside : written.names.drop (position + 1) ≠ [] := by
      intro none
      have lengths := congrArg List.length none
      rw [List.length_drop, length_names, List.length_nil] at lengths
      omega
    have begun : written.names.take (position + 1) ≠ [] := List.cons_ne_nil _ _
    refine ⟨Chain.identifier (written.names.drop (position + 1)), ?_⟩
    rw [← Chain.identifier_append begun inside, List.take_append_drop]
    rfl

end Written

/-- A text without braces and commas that is read writes a chain, unless it is blank. -/
theorem exists_written_of_parse {tags : NameSet} (plain : ∀ c ∈ ['\x7b', '\x7d', ','], c ∉ text.toList)
    (some : Text.strip text.toList ≠ []) (read : parse text = .ok tags) :
    ∃ written : Written, written.word = Text.strip text.toList ∧ ∀ tag, tag ∈ tags ↔ tag ∈ written.tags := by
  obtain ⟨expression, derived⟩ := exists_expression_of_parse read
  have absent : ∀ c ∈ ['\x7b', '\x7d', ','], c ∉ Expression.word expression := by
    intro c delimiter member
    rw [derived] at member
    exact plain c delimiter (List.mem_filter.mp member).1
  obtain ⟨others, isRead, named⟩ := reads_of_word derived
  cases read.symm.trans isRead
  match expression with
  | [] => exact absurd derived.symm some
  | [.chain written] => exact ⟨written, derived, fun tag => (named tag).trans (by simp [Expression.tags, Component.tags])⟩
  | [.group body] => exact absurd (by simp [Expression.word, Component.word]) (absent '\x7b' (by decide))
  | [.nested written separator body] =>
    exact absurd (by simp [Expression.word, Component.word]) (absent '\x7b' (by decide))
  | component :: next :: rest => exact absurd (by simp [Expression.word]) (absent ',' (by decide))

/-- The tags of a chain that are left when it goes on behind a separator: all of them behind a point, and all but
    the deepest one behind the other separator. -/
def kept (tags : NameSet) (deepest : String) (separator : Separator) : Set String :=
  {tag | tag ∈ tags ∧ (tag = deepest → separator = .accumulating)}

theorem kept_strict {tags : NameSet} {deepest : String} :
    kept tags deepest .strict = {tag | tag ∈ tags ∧ tag ≠ deepest} := by
  ext tag
  simp [kept]

theorem kept_accumulating {tags : NameSet} {deepest : String} : kept tags deepest .accumulating = {tag | tag ∈ tags} := by
  ext tag
  simp [kept]

/-- The tags of a set inside an outer tag. -/
def under (outer : String) (tags : NameSet) : Set String := {tag | ∃ inner ∈ tags, tag = outer ++ "::" ++ inner}

section

variable {written : Written} {tags : NameSet} {separator : Separator} {outer : String}
  (isTags : ∀ tag, tag ∈ tags ↔ tag ∈ written.tags) (isOuter : Text.strip outer.toList = written.word)

include isTags isOuter

/-- A chain with a group behind it is read to what is kept of the chain, and to what the group stands for inside
    the chain. -/
theorem reads_chain_group {inner : String} {innerTags : NameSet} (innerRead : parse inner = .ok innerTags)
    (composed : text.toList = outer.toList ++ separator.word ++ '\x7b' :: (inner.toList ++ ['\x7d'])) :
    Reads text (kept tags written.deepest separator ∪ under written.deepest innerTags) := by
  obtain ⟨body, isBody⟩ := exists_expression_of_parse innerRead
  have innerNamed := (reads_of_word isBody).eq_of_parse innerRead
  have isWritten : Expression.word [.nested written separator body] = Text.strip text.toList := by
    have closing : Text.strip ['\x7d'] = ['\x7d'] := rfl
    rw [composed, Text.strip_append, Text.strip_append, Text.strip_of_not_isBlank (by decide), Text.strip_append,
      separator.strip_word, isOuter, closing, ← isBody, Expression.word, Component.word]
  obtain ⟨found, read, named⟩ := reads_of_word isWritten
  refine ⟨found, read, fun tag => (named tag).trans ?_⟩
  simp only [Expression.tags, Component.tags, Set.union_empty, Set.mem_union]
  simp [kept, under, isTags, innerNamed]

/-- A chain with a name behind it is read to what is kept of the chain, and to the name inside the chain. -/
theorem reads_chain_name {name : String} (named : isName name.toList)
    (composed : text.toList = outer.toList ++ separator.word ++ name.toList) :
    Reads text (kept tags written.deepest separator ∪ {written.deepest ++ "::" ++ name}) := by
  have isWritten : Expression.word [.chain (written.snoc separator ⟨name.toList, named⟩)] = Text.strip text.toList := by
    rw [composed, Text.strip_append, Text.strip_append, separator.strip_word, isOuter, strip_of_isName named,
      Expression.word, Component.word, Written.word_snoc]
  obtain ⟨found, read, isFound⟩ := reads_of_word isWritten
  refine ⟨found, read, fun tag => (isFound tag).trans ?_⟩
  simp only [Expression.tags, Component.tags, Set.union_empty, Set.mem_union]
  rw [Written.mem_tags_snoc, String.ofList_toList]
  simp [kept, isTags]

end

/-- Expressions compose. Braces around one change nothing. A comma joins the tags of two, and the first of the two
    that is refused decides the error. A chain goes on behind a separator with a group or with a name: its deepest
    tag stays only behind a point, and every tag of the group, or the name, is named inside of it. -/
theorem expressions_compose :
    (∀ e : String, IsBalanced e → parse ("\x7b" ++ e ++ "\x7d") = parse e) ∧
    (∀ a b : String, IsBalanced a → IsBalanced b → Text.strip a.toList ≠ [] → Text.strip b.toList ≠ [] →
      parse (a ++ "," ++ b) = parse a >>= fun tags => parse b >>= fun others => .ok (tags ∪ others)) ∧
    ∀ (p : String) (tags : NameSet), (∀ c ∈ ['\x7b', '\x7d', ','], c ∉ p.toList) → Text.strip p.toList ≠ [] →
      parse p = .ok tags → ∃ deepest, IsDeepest tags deepest ∧ (∀ other, IsDeepest tags other → other = deepest) ∧
        (∀ (e : String) (inner : NameSet), parse e = .ok inner →
          Reads (p ++ "::\x7b" ++ e ++ "\x7d") ({tag | tag ∈ tags ∧ tag ≠ deepest} ∪ under deepest inner) ∧
          Reads (p ++ ".\x7b" ++ e ++ "\x7d") ({tag | tag ∈ tags} ∪ under deepest inner)) ∧
        ∀ n : String, isName n.toList →
          Reads (p ++ "::" ++ n) ({tag | tag ∈ tags ∧ tag ≠ deepest} ∪ {deepest ++ "::" ++ n}) ∧
          Reads (p ++ "." ++ n) ({tag | tag ∈ tags} ∪ {deepest ++ "::" ++ n}) := by
  refine ⟨fun e => parse_group, fun a b => parse_comma, fun p tags plain some read => ?_⟩
  obtain ⟨written, isWord, isTags⟩ := exists_written_of_parse plain some read
  have isDeepest := written.isDeepest_deepest isTags
  refine ⟨written.deepest, isDeepest, fun other => isDeepest.unique, fun e inner innerRead => ?_, fun n named => ?_⟩
  · rw [← kept_strict, ← kept_accumulating]
    constructor
    · exact reads_chain_group isTags isWord.symm innerRead (by simp [Separator.word])
    · exact reads_chain_group isTags isWord.symm innerRead (by simp [Separator.word])
  · rw [← kept_strict, ← kept_accumulating]
    constructor
    · exact reads_chain_name isTags isWord.symm named (by simp [Separator.word])
    · exact reads_chain_name isTags isWord.symm named (by simp [Separator.word])

/-- Braces around a text that is refused, two texts that are refused for different reasons, and a chain that goes
    on. -/
theorem chainWithPoint_expressions_compose :
    parse "\x7ba,,\x7bb\x7d\x7d" = parse "a,,\x7bb\x7d" ∧
      (parse "x.,.y" = parse "x." >>= fun tags => parse ".y" >>= fun others => .ok (tags ∪ others)) ∧
      ∃ tags inner, parse "a.b" = .ok tags ∧ parse "c.d,e" = .ok inner ∧ IsDeepest tags "a::b" ∧
        Reads "a.b::\x7bc.d,e\x7d" ({tag | tag ∈ tags ∧ tag ≠ "a::b"} ∪ under "a::b" inner) ∧
        Reads "a.b.n" ({tag | tag ∈ tags} ∪ {"a::b::n"}) := by
  obtain ⟨group, comma, chain⟩ := expressions_compose
  have read : parse "a.b" = .ok (NameSet.ofList ["a", "a::b"]) := by decide +kernel
  have innerAccepted : (parse "c.d,e").isOk = true := by decide +kernel
  obtain ⟨inner, innerRead⟩ := exists_of_isOk innerAccepted
  have isDeepest : IsDeepest (NameSet.ofList ["a", "a::b"]) "a::b" := by
    refine ⟨NameSet.mem_ofList.mpr (by simp), fun tag member other => ?_⟩
    rcases List.mem_cons.mp (NameSet.mem_ofList.mp member) with rfl | last
    · exact ⟨"b", by decide⟩
    · exact absurd (List.mem_singleton.mp last) other
  have noDelimiter : ∀ c ∈ ['\x7b', '\x7d', ','], c ∉ "a.b".toList := by
    have letters : "a.b".toList = ['a', '.', 'b'] := by decide
    rw [letters]
    simp
  obtain ⟨deepest, _, unique, goesOn⟩ := chain "a.b" _ noDelimiter (by decide) read
  cases unique _ isDeepest
  have grouped := (goesOn.1 "c.d,e" inner innerRead).1
  have named := (goesOn.2 "n" (by decide)).2
  have leftBalanced : IsBalanced "a,,\x7bb\x7d" := balanced_tokens_iff.mp (by decide)
  refine ⟨group _ leftBalanced, ?_, _, inner, read, innerRead, isDeepest, grouped, named⟩
  exact comma "x." ".y" (balanced_tokens_iff.mp (by decide)) (balanced_tokens_iff.mp (by decide)) (by decide) (by decide)

end Condensed

end ModelCatalog
