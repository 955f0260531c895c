import ModelCatalog.Proofs.Tag.Expansion

/-!
# Identifiers as expressions

Every tag that an expression stands for is an identifier (`isIdentifier_of_parse`), and an identifier is an
expression that stands for itself alone. So identifiers with commas between them, in any order and with blanks
anywhere, are read to just these identifiers (`reads_join`). Main statement: the identifiers and the tags of
expressions are the same texts, and what is read stays the same when it is written with commas and read again
(`identifiers_agree`).
-/

namespace ModelCatalog

/-! ## Blanks -/

/-- No name character is a blank. -/
theorem isBlank_of_isNameChar {c : Char} (letter : isNameChar c) : Text.isBlank c = false := by
  have ascii : 0x2d ≤ c.toNat ∧ c.toNat ≤ 0x7a := by
    have alphanumeric : c.isAlphanum = (c.isUpper || c.isLower || c.isDigit) := rfl
    have upperCase : c.isUpper = decide (c.val ≥ 'A'.val ∧ c.val ≤ 'Z'.val) := rfl
    have lowerCase : c.isLower = (c.val ≥ 'a'.val && c.val ≤ 'z'.val) := rfl
    have digit : c.isDigit = (c.val ≥ '0'.val && c.val ≤ '9'.val) := rfl
    rw [isNameChar, alphanumeric, upperCase, lowerCase, digit] at letter
    simp [UInt32.le_iff_toNat_le] at letter
    rcases letter with (((upper | lower) | digit) | rfl) | rfl
    · omega
    · omega
    · omega
    · decide
    · decide
  simp [Text.isBlank]
  omega

namespace Text

/-- The second word is the first one with blanks put in anywhere. -/
inductive Spaced : List Char → List Char → Prop
  | nil : Spaced [] []
  | blank {c : Char} {word spaced : List Char} : isBlank c → Spaced word spaced → Spaced word (c :: spaced)
  | keep {c : Char} {word spaced : List Char} : Spaced word spaced → Spaced (c :: word) (c :: spaced)

theorem Spaced.refl (word : List Char) : Spaced word word := by
  induction word with
  | nil => exact .nil
  | cons c word ih => exact .keep ih

/-- Blanks that are put in are stripped again. -/
theorem Spaced.strip_eq {word spaced : List Char} (puts : Spaced word spaced) : strip spaced = strip word := by
  induction puts with
  | nil => rfl
  | blank blank _ ih => rw [strip_of_isBlank blank, ih]
  | @keep c _ _ _ ih =>
    cases blank : isBlank c with
    | true => rw [strip_of_isBlank blank, strip_of_isBlank blank, ih]
    | false => rw [strip_of_not_isBlank blank, strip_of_not_isBlank blank, ih]

end Text

theorem strip_of_isName {word : List Char} (named : isName word) : Text.strip word = word :=
  Text.strip_eq_self fun c member => isBlank_of_isNameChar ((isName_iff.mp named).2 c member)

namespace Condensed

variable {text : String} {tags : NameSet}

/-- A text is read to exactly the given tags. -/
def Reads (text : String) (tags : Set String) : Prop :=
  ∃ found, parse text = .ok found ∧ ∀ tag, tag ∈ found ↔ tag ∈ tags

/-- A text that writes an expression is read to the tags of the expression. -/
theorem reads_of_word {expression : Expression} (written : Expression.word expression = Text.strip text.toList) :
    Reads text (Expression.tags expression) := parse_word written

theorem Reads.eq_of_parse {members : Set String} (reads : Reads text members) (read : parse text = .ok tags) :
    ∀ tag, tag ∈ tags ↔ tag ∈ members := by
  obtain ⟨found, isRead, named⟩ := reads
  cases read.symm.trans isRead
  exact named

/-- A text is read to the tags that it is known to be read to. -/
theorem Reads.parse_eq {members : Set String} (reads : Reads text members) (same : ∀ tag, tag ∈ tags ↔ tag ∈ members) :
    parse text = .ok tags := by
  obtain ⟨found, isRead, named⟩ := reads
  rw [isRead, NameSet.ext_mem fun tag => (named tag).trans (same tag).symm]

/-- The tags of an expression are identifiers. -/
theorem isIdentifier_of_parse (read : parse text = .ok tags) {tag : String} (member : tag ∈ tags) :
    isIdentifier tag := by
  obtain ⟨expression, derived⟩ := exists_expression_of_parse read
  have inside := ((reads_of_word derived).eq_of_parse read tag).mp member
  rw [Expression.tags_eq] at inside
  obtain ⟨chain, listed, rfl⟩ := inside
  exact isIdentifier_iff.mpr ⟨chain, Expression.isNamed_of_mem_chains expression listed, rfl⟩

/-! ## Identifiers -/

/-- A chain of names with the separator that names the nested tag only. -/
theorem exists_strict {chain : Chain} (named : chain.IsNamed) : ∃ written : Written,
    written.word = chain.word ∧ written.names = chain ∧ ∀ link ∈ written.rest, link.1 = .strict := by
  obtain ⟨some, names⟩ := named
  induction chain with
  | nil => exact absurd rfl some
  | cons name rest ih =>
    obtain ⟨first, others⟩ := List.forall_mem_cons.mp names
    cases rest with
    | nil => exact ⟨⟨⟨name, first⟩, []⟩, List.append_nil name, rfl, fun _ member => absurd member List.not_mem_nil⟩
    | cons next rest =>
      obtain ⟨written, isWord, isNames, strict⟩ := ih (List.cons_ne_nil _ _) others
      refine ⟨⟨⟨name, first⟩, (.strict, written.first) :: written.rest⟩, ?_, ?_, ?_⟩
      · rw [Chain.word_cons_cons, ← isWord]
        simp [Written.word, Separator.word]
      · rw [← isNames]
        rfl
      · exact List.forall_mem_cons.mpr ⟨rfl, strict⟩

/-- Such a chain stands for its whole identifier alone. -/
theorem Written.tags_of_strict {written : Written} (strict : ∀ link ∈ written.rest, link.1 = .strict) :
    written.tags = {written.deepest} := by
  ext tag
  constructor
  · rintro (rfl | ⟨position, below, point, _⟩)
    · rfl
    · cases (strict _ (List.getElem_mem below)).symm.trans point
  · rintro rfl
    exact .inl rfl

theorem Separator.strip_word (separator : Separator) : Text.strip separator.word = separator.word := by
  cases separator <;> rfl

/-- A chain is written without blanks. -/
theorem Written.strip_word (written : Written) : Text.strip written.word = written.word := by
  have links : ∀ rest : List (Separator × Name), Text.strip (rest.flatMap fun link => link.1.word ++ link.2.1) =
      rest.flatMap fun link => link.1.word ++ link.2.1 := by
    intro rest
    induction rest with
    | nil => rfl
    | cons link rest ih =>
      rw [List.flatMap_cons, Text.strip_append, Text.strip_append, link.1.strip_word, strip_of_isName link.2.2, ih]
  rw [Written.word, Text.strip_append, strip_of_isName written.first.2, links]

/-- An identifier is written without blanks, as a component that stands for it alone. -/
theorem exists_component {name : String} (canonical : isIdentifier name) : ∃ component : Component,
    component.word = name.toList ∧ component.tags = {name} ∧ Text.strip name.toList = name.toList := by
  obtain ⟨chain, named, rfl⟩ := isIdentifier_iff.mp canonical
  obtain ⟨written, isWord, isNames, strict⟩ := exists_strict named
  have sameText : chain.identifier.toList = written.word := by rw [Chain.identifier, String.toList_ofList, isWord]
  refine ⟨.chain written, sameText.symm, ?_, ?_⟩
  · rw [Component.tags, Written.tags_of_strict strict, Written.deepest, isNames]
  · rw [sameText, written.strip_word]

/-- Identifiers with commas between them are written without blanks, as an expression that stands for just these. -/
theorem exists_expression_of_identifiers {names : List String} (canonical : ∀ name ∈ names, isIdentifier name) :
    ∃ expression : Expression, Expression.word expression = (",".intercalate names).toList ∧
      Expression.tags expression = {name | name ∈ names} ∧
      Text.strip (",".intercalate names).toList = (",".intercalate names).toList := by
  have comma : ",".toList = [','] := rfl
  rw [String.toList_intercalate, comma]
  induction names with
  | nil => exact ⟨[], rfl, by simp [Expression.tags], rfl⟩
  | cons name rest ih =>
    obtain ⟨first, others⟩ := List.forall_mem_cons.mp canonical
    obtain ⟨component, isWord, isTags, stripped⟩ := exists_component first
    cases rest with
    | nil => exact ⟨[component], by simp [Expression.word, isWord], by simp [Expression.tags, isTags], by simp [stripped]⟩
    | cons next rest =>
      obtain ⟨expression, areWords, areTags, othersStripped⟩ := ih others
      have notEmpty : expression ≠ [] := by
        rintro rfl
        have inside : next ∈ Expression.tags [] := areTags ▸ List.mem_cons_self
        exact inside
      have joined : [','].intercalate ((name :: next :: rest).map String.toList) =
          name.toList ++ ',' :: [','].intercalate ((next :: rest).map String.toList) := by
        simp
      refine ⟨component :: expression, ?_, ?_, ?_⟩
      · rw [Expression.word, isWord, areWords]
        · exact joined.symm
        · exact notEmpty
      · rw [Expression.tags, isTags, areTags]
        ext tag
        simp
      · rw [joined, Text.strip_append, stripped, Text.strip_of_not_isBlank (by decide), othersStripped]

/-- Identifiers with commas between them and blanks anywhere are read to just these identifiers. -/
theorem reads_join {names : List String} (canonical : ∀ name ∈ names, isIdentifier name)
    (spaced : Text.Spaced (",".intercalate names).toList text.toList) : Reads text {name | name ∈ names} := by
  obtain ⟨expression, isWord, isTags, stripped⟩ := exists_expression_of_identifiers canonical
  rw [← isTags]
  exact reads_of_word (by rw [isWord, spaced.strip_eq, stripped])

/-- An identifier is read to itself alone. -/
theorem reads_identifier (canonical : isIdentifier text) : Reads text {text} := by
  obtain ⟨component, isWord, isTags, stripped⟩ := exists_component canonical
  have isWritten : Expression.word [component] = Text.strip text.toList := by
    rw [stripped, Expression.word, isWord]
  have reads := reads_of_word isWritten
  rw [Expression.tags, Expression.tags, Set.union_empty, isTags] at reads
  exact reads

/-- Identifiers and the tags of expressions agree. A text is an identifier exactly when it is read to itself alone,
    and every tag that is read is an identifier. Identifiers with commas between them, in any order and with blanks
    put in anywhere, are read to just these identifiers; in particular, the tags of an expression are read to
    themselves when they are written with commas. -/
theorem identifiers_agree :
    (∀ text : String, isIdentifier text ↔ parse text = .ok (NameSet.ofList [text])) ∧
    (∀ (text : String) (tags : NameSet), parse text = .ok tags → ∀ tag ∈ tags, isIdentifier tag) ∧
    (∀ (names : List String) (text : String), (∀ name ∈ names, isIdentifier name) →
      Text.Spaced (",".intercalate names).toList text.toList → parse text = .ok (NameSet.ofList names)) ∧
    ∀ (text : String) (tags : NameSet), parse text = .ok tags → parse (tags.join ",") = .ok tags := by
  have joined : ∀ (names : List String) (text : String), (∀ name ∈ names, isIdentifier name) →
      Text.Spaced (",".intercalate names).toList text.toList → parse text = .ok (NameSet.ofList names) := by
    intro names text canonical spaced
    exact (reads_join canonical spaced).parse_eq fun tag => NameSet.mem_ofList
  refine ⟨fun text => ⟨fun canonical => ?_, fun read => ?_⟩, fun text tags read tag => isIdentifier_of_parse read,
    joined, fun text tags read => ?_⟩
  · refine (reads_identifier canonical).parse_eq fun tag => ?_
    rw [NameSet.mem_ofList, List.mem_singleton]
    rfl
  · exact isIdentifier_of_parse read (NameSet.mem_ofList.mpr (List.mem_singleton_self text))
  · have canonical : ∀ name ∈ tags.toList, isIdentifier name := fun name member => isIdentifier_of_parse read member
    rw [joined tags.toList (tags.join ",") canonical (.refl _)]
    exact congrArg Except.ok (NameSet.ext_mem fun tag => NameSet.mem_ofList)

/-- A nested identifier, two identifiers with blanks put in, and the tags of a group read again. -/
theorem nestedTag_identifiers_agree :
    parse "a::b" = .ok (NameSet.ofList ["a::b"]) ∧ parse "c ,a:: b" = .ok (NameSet.ofList ["c", "a::b"]) ∧
      ∃ tags, parse "x.\x7by, z::w\x7d" = .ok tags ∧ (∀ tag ∈ tags, isIdentifier tag) ∧
        parse (tags.join ",") = .ok tags := by
  obtain ⟨alone, canonical, joined, again⟩ := identifiers_agree
  have spaced : Text.Spaced (",".intercalate ["c", "a::b"]).toList "c ,a:: b".toList := by
    have plain : (",".intercalate ["c", "a::b"]).toList = ['c', ',', 'a', ':', ':', 'b'] := by decide
    have written : "c ,a:: b".toList = ['c', ' ', ',', 'a', ':', ':', ' ', 'b'] := by decide
    rw [plain, written]
    exact .keep (.blank rfl (.keep (.keep (.keep (.keep (.blank rfl (.keep .nil)))))))
  have accepted : (parse "x.\x7by, z::w\x7d").isOk = true := by decide +kernel
  obtain ⟨tags, read⟩ := exists_of_isOk accepted
  exact ⟨(alone "a::b").mp (by decide), joined ["c", "a::b"] _ (by decide) spaced, tags, read,
    canonical _ tags read, again _ tags read⟩

end Condensed

end ModelCatalog
