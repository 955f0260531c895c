import ModelCatalog.Markup.Document
import ModelCatalog.Proofs.Markup.Escaping
import ModelCatalog.Proofs.Markup.Events

/-!
# Documents as they are written

The ways to write an element tree as a document (`WritesDocument`): names are plain, values stand between
quotation marks, texts are escaped or character data, and comments and processing instructions may stand
between any two parts. The attributes of the tree stand in the order in which they are written. There is
a document for every tree with plain names (`Writable.exists_writesDocument`). A start tag is cut off whole
(`WritesTag.passes`), and its name and attributes are read back (`WritesTag.read_eq`); comments, processing
instructions and character data end where they were ended (`eventsOf_aside`, `eventsOf_cdata`).
-/

namespace ModelCatalog

namespace Markup

/-- The letters, digits and hyphens of the ASCII range. -/
def isNameChar (c : Char) : Bool := c.isAlphanum || c == '-'

/-- A name of letters, digits and hyphens that starts with a letter. -/
def PlainName (name : List Char) : Prop :=
  ∃ first rest, name = first :: rest ∧ first.isAlpha ∧ rest.all isNameChar

/-- Attributes as they may be written behind a name, each with blanks before it and maybe around its `=`. -/
inductive WritesAttributes : List (String × String) → List Char → Prop
  | nil {blanks : List Char} : blanks.all isSpace → WritesAttributes [] blanks
  | cons {name value : String} {attributes : List (String × String)} {word gap before after : List Char} :
    PlainName name.toList → gap ≠ [] → gap.all isSpace → before.all isSpace → after.all isSpace →
    WritesAttributes attributes word →
    WritesAttributes ((name, value) :: attributes)
      (gap ++ (name.toList ++ (before ++ '=' :: (after ++ '"' :: (escape value.toList ++ '"' :: word)))))

/-- What a start tag of an element may say: its name, and its attributes with different names. -/
inductive WritesTag (e : Element) : List Char → Prop
  | intro {word : List Char} : PlainName e.tag.toList → (e.attributes.map (·.1)).Nodup →
    WritesAttributes e.attributes word → WritesTag e (e.tag.toList ++ word)

/-- A comment, or a processing instruction. -/
inductive Aside : List Char → Prop
  | comment {content : List Char} : ¬['-', '-'] <:+: content ++ ['-'] →
    Aside ('<' :: '!' :: '-' :: '-' :: (content ++ ['-', '-', '>']))
  | instruction {content : List Char} : ¬['?', '>'] <:+: '?' :: content →
    Aside ('<' :: '?' :: (content ++ ['?', '>']))

/-- What character data starts with. -/
def cdataOpening : List Char := ['!', '[', 'C', 'D', 'A', 'T', 'A', '[']

mutual

/-- An element as it may be written: with two tags around its content, or with one if it has none. -/
inductive Writes : Element → List Char → Prop
  | single {e : Element} {tag : List Char} : WritesTag e tag → e.text = none → e.children = [] →
    Writes e ('<' :: (tag ++ ['/', '>']))
  | paired {e : Element} {tag content blanks : List Char} : WritesTag e tag →
    WritesContent e.text e.children content → blanks.all isSpace →
    Writes e ('<' :: (tag ++ '>' :: (content ++ '<' :: '/' :: (e.tag.toList ++ (blanks ++ ['>'])))))

/-- The text and the children of an element as they may be written: pieces of the text that are not empty,
    escaped or as character data, children, and asides, in any order. -/
inductive WritesContent : Option String → List Element → List Char → Prop
  | nil : WritesContent none [] []
  | text {text : Option String} {children : List Element} {piece word : List Char} : piece ≠ [] →
    WritesContent text children word →
    WritesContent (some (String.ofList piece ++ text.getD "")) children (escape piece ++ word)
  | cdata {text : Option String} {children : List Element} {piece word : List Char} : piece ≠ [] →
    ¬[']', ']', '>'] <:+: piece → WritesContent text children word →
    WritesContent (some (String.ofList piece ++ text.getD "")) children
      ('<' :: (cdataOpening ++ (piece ++ ']' :: ']' :: '>' :: word)))
  | aside {text : Option String} {children : List Element} {aside word : List Char} : Aside aside →
    WritesContent text children word → WritesContent text children (aside ++ word)
  | child {text : Option String} {child : Element} {children : List Element} {part word : List Char} :
    Writes child part → WritesContent text children word →
    WritesContent text (child :: children) (part ++ word)

end

/-- What may stand around the root: blanks, comments and processing instructions. -/
inductive Surrounds : List Char → Prop
  | nil : Surrounds []
  | blanks {blanks word : List Char} : blanks.all isSpace → Surrounds word → Surrounds (blanks ++ word)
  | aside {aside word : List Char} : Aside aside → Surrounds word → Surrounds (aside ++ word)

/-- A document with a root as it may be written. -/
inductive WritesDocument (root : Element) : List Char → Prop
  | intro {before word after : List Char} : Surrounds before → Writes root word → Surrounds after →
    WritesDocument root (before ++ (word ++ after))

/-- An element tree that can be written: its names are plain, those of the attributes of one element differ,
    and a text that is there is not empty. -/
inductive Writable : Element → Prop
  | intro {e : Element} : PlainName e.tag.toList → (∀ pair ∈ e.attributes, PlainName pair.1.toList) →
    (e.attributes.map (·.1)).Nodup → e.text ≠ some "" → (∀ child ∈ e.children, Writable child) → Writable e

theorem exists_writesAttributes {attributes : List (String × String)}
    (plain : ∀ pair ∈ attributes, PlainName pair.1.toList) : ∃ word, WritesAttributes attributes word := by
  induction attributes with
  | nil => exact ⟨[], .nil rfl⟩
  | cons pair rest ih =>
    obtain ⟨first, others⟩ := List.forall_mem_cons.mp plain
    obtain ⟨word, writes⟩ := ih others
    exact ⟨_, .cons first (List.cons_ne_nil ' ' []) rfl (rfl : [].all isSpace) (rfl : [].all isSpace) writes⟩

theorem exists_writesContent {text : Option String} {children : List Element} (notEmpty : text ≠ some "")
    (each : ∀ child ∈ children, ∃ word, Writes child word) : ∃ word, WritesContent text children word := by
  have inner : ∃ word, WritesContent none children word := by
    induction children with
    | nil => exact ⟨[], .nil⟩
    | cons child rest ih =>
      obtain ⟨⟨part, first⟩, others⟩ := List.forall_mem_cons.mp each
      obtain ⟨word, writes⟩ := ih others
      exact ⟨part ++ word, .child first writes⟩
  obtain ⟨word, writes⟩ := inner
  cases text with
  | none => exact ⟨word, writes⟩
  | some piece =>
    have nonempty : piece.toList ≠ [] := fun isEmpty =>
      notEmpty (congrArg some (String.toList_eq_nil_iff.mp isEmpty))
    have written := WritesContent.text nonempty writes
    rw [String.ofList_toList, Option.getD_none, String.append_empty] at written
    exact ⟨_, written⟩

/-- There is a document for every tree that can be written. -/
theorem Writable.exists_writesDocument {root : Element} (writable : Writable root) :
    ∃ text : String, WritesDocument root text.toList := by
  have written : ∃ word, Writes root word := by
    induction writable with
    | intro plain plainNames distinct notEmpty _ ih =>
      obtain ⟨attributes, writes⟩ := exists_writesAttributes plainNames
      obtain ⟨content, writesContent⟩ := exists_writesContent notEmpty ih
      exact ⟨_, .paired (.intro plain distinct writes) writesContent (rfl : [].all isSpace)⟩
  obtain ⟨word, writes⟩ := written
  refine ⟨String.ofList word, ?_⟩
  have document := WritesDocument.intro .nil writes .nil
  rwa [List.nil_append, List.append_nil, ← String.toList_ofList (l := word)] at document

/-! ## Names and blanks -/

theorem isNameChar_of_isAlpha {c : Char} (letter : c.isAlpha) : isNameChar c := by
  simp [isNameChar, Char.isAlphanum, letter]

/-- The characters of a name mean nothing to the markup around it. -/
theorem ne_of_isNameChar {c other : Char} (inName : isNameChar c) (special : isNameChar other = false) :
    c ≠ other := by
  rintro rfl
  rw [inName] at special
  cases special

theorem isSpace_cases {c : Char} (space : isSpace c) : c = ' ' ∨ c = '\t' ∨ c = '\r' ∨ c = '\n' := by
  simpa [isSpace, or_assoc] using space

theorem isSpace_of_isNameChar {c : Char} (inName : isNameChar c) : isSpace c = false := by
  rw [Bool.eq_false_iff]
  intro space
  rcases isSpace_cases space with rfl | rfl | rfl | rfl <;> cases inName

namespace PlainName

variable {name : List Char}

theorem all (plain : PlainName name) : name.all isNameChar := by
  obtain ⟨first, rest, rfl, letter, others⟩ := plain
  rw [List.all_cons, isNameChar_of_isAlpha letter, others]
  rfl

theorem not_isSpace (plain : PlainName name) : ∀ c ∈ name, isSpace c = false :=
  fun c member => isSpace_of_isNameChar (List.all_eq_true.mp plain.all c member)

end PlainName

/-- A run is taken off whole when what follows it does not belong to it. -/
theorem span_run {p : Char → Bool} {run rest : List Char} (inside : ∀ c ∈ run, p c)
    (outside : ∀ c, rest.head? = some c → p c = false) :
    (run ++ rest).takeWhile p = run ∧ (run ++ rest).dropWhile p = rest := by
  rw [List.takeWhile_append_of_pos inside, List.dropWhile_append_of_pos inside]
  cases rest with
  | nil => exact ⟨by simp, rfl⟩
  | cons c after =>
    have stop := outside c rfl
    rw [List.takeWhile_cons_of_neg (by simp [stop]), List.dropWhile_cons_of_neg (by simp [stop])]
    exact ⟨List.append_nil _, rfl⟩

/-! ## Attributes -/

theorem not_isSpace_of_head {c : Char} {rest : List Char} (no : isSpace c = false) :
    ∀ other, (c :: rest).head? = some other → isSpace other = false := by
  rintro other ⟨⟩
  exact no

/-- A value between quotation marks is read up to the second. -/
theorem readValue_quoted {after value rest : List Char} (total position : Nat) (blank : after.all isSpace)
    (noMark : '"' ∉ value) :
    ∃ length, readValue total position (after ++ '"' :: (value ++ '"' :: rest)) = .ok { value, length, rest } := by
  have quoted : (after ++ '"' :: (value ++ '"' :: rest)).dropWhile isSpace = '"' :: (value ++ '"' :: rest) :=
    (span_run (List.all_eq_true.mp blank) (not_isSpace_of_head rfl)).2
  have inside : ∀ c ∈ value, decide (c ≠ '"') = true := by
    intro c member
    exact decide_eq_true fun same => noMark (same ▸ member)
  have closing : ∀ c, ('"' :: rest).head? = some c → decide (c ≠ '"') = false := by
    rintro c ⟨⟩
    rfl
  obtain ⟨isValue, isRest⟩ := span_run inside closing
  rw [readValue, quoted]
  dsimp only
  rw [if_pos (.inl rfl), isValue, isRest]
  exact ⟨_, rfl⟩

/-- A key is taken off up to the blanks or the `=` behind it. -/
theorem span_key {key before : List Char} (inName : key.all isNameChar) (blank : before.all isSpace)
    (rest : List Char) :
    (key ++ (before ++ '=' :: rest)).takeWhile (fun c => !isSpace c && c != '=') = key ∧
    (key ++ (before ++ '=' :: rest)).dropWhile (fun c => !isSpace c && c != '=') = before ++ '=' :: rest := by
  refine span_run (fun c member => ?_) fun c isHead => ?_
  · have nameChar := List.all_eq_true.mp inName c member
    rw [isSpace_of_isNameChar nameChar]
    simpa using ne_of_isNameChar nameChar (by rfl)
  · cases before with
    | nil =>
      cases isHead
      rfl
    | cons first more =>
      cases isHead
      rw [List.all_cons, Bool.and_eq_true] at blank
      rw [blank.1]
      rfl

/-- An attribute is read, and then those behind it. -/
theorem attributesFrom_cons {total position : Nat} {seen : List (List Char × Nat)}
    {key gap before after value rest : List Char} (plain : PlainName key) (gapBlank : gap.all isSpace)
    (beforeBlank : before.all isSpace) (afterBlank : after.all isSpace) (noMark : '"' ∉ value)
    (new : seen.lookup key = none) :
    ∃ next start, attributesFrom total position seen
        (gap ++ (key ++ (before ++ '=' :: (after ++ '"' :: (value ++ '"' :: rest))))) =
      ({ key, value } :: (attributesFrom total next ((key, start) :: seen) rest).1,
        (attributesFrom total next ((key, start) :: seen) rest).2) := by
  obtain ⟨head, tail, rfl, letter, others⟩ := plain
  generalize isMore : after ++ '"' :: (value ++ '"' :: rest) = more
  obtain ⟨isKey, isBehind⟩ := span_key others beforeBlank more
  have sign : (before ++ '=' :: more).dropWhile isSpace = '=' :: more :=
    (span_run (List.all_eq_true.mp beforeBlank) (not_isSpace_of_head rfl)).2
  have start : (gap ++ (head :: tail ++ (before ++ '=' :: more))).dropWhile isSpace =
      head :: (tail ++ (before ++ '=' :: more)) :=
    (span_run (List.all_eq_true.mp gapBlank)
      (not_isSpace_of_head (isSpace_of_isNameChar (isNameChar_of_isAlpha letter)))).2
  rw [attributesFrom]
  -- The branches depend on what is matched, so each match is decided by refuting its other branches.
  split
  next nothing =>
    rw [start] at nothing
    cases nothing
  next isStart =>
    cases start.symm.trans isStart
    dsimp only
    split
    next nothing =>
      rw [isBehind, sign] at nothing
      cases nothing
    next isEquals =>
      rw [isBehind, sign] at isEquals
      cases isEquals
      rw [if_neg (by simp), isKey, new]
      dsimp only
      split
      next isError =>
        obtain ⟨_, isValue⟩ := readValue_quoted total _ afterBlank noMark
        rw [← isMore, isValue] at isError
        cases isError
      next isFound =>
        obtain ⟨_, isValue⟩ := readValue_quoted total _ afterBlank noMark
        rw [← isMore, isValue] at isFound
        cases isFound
        exact ⟨_, _, rfl⟩

/-- An attribute with its value as written. -/
def rawAttribute (pair : String × String) : RawAttribute :=
  { key := pair.1.toList, value := escape pair.2.toList }

/-- Attributes that are written with different names are read in order. -/
theorem WritesAttributes.attributesFrom_eq {attributes : List (String × String)} {word : List Char}
    (writes : WritesAttributes attributes word) (distinct : (attributes.map (·.1)).Nodup) {total position : Nat}
    {seen : List (List Char × Nat)} (new : ∀ pair ∈ attributes, seen.lookup pair.1.toList = none) :
    attributesFrom total position seen word = (attributes.map rawAttribute, none) := by
  induction writes generalizing position seen with
  | nil blank =>
    rw [attributesFrom]
    split
    · rfl
    next isStart =>
      have nothing : ∀ c, [].head? = some c → isSpace c = false := fun c isHead => by cases isHead
      have all := (span_run (List.all_eq_true.mp blank) nothing).2
      rw [List.append_nil, isStart] at all
      cases all
  | @cons name value attributes word gap before after plain _ gapBlank beforeBlank afterBlank _ ih =>
    obtain ⟨isNew, othersNew⟩ := List.forall_mem_cons.mp new
    rw [List.map_cons, List.nodup_cons] at distinct
    have noMark : '"' ∉ escape value.toList := not_mem_escape (.inr (.inr (.inl rfl)))
    obtain ⟨next, start, isRead⟩ := attributesFrom_cons plain gapBlank beforeBlank afterBlank noMark isNew
    rw [isRead, ih distinct.2]
    · rfl
    · intro other member
      have differs : (other.1.toList == name.toList) = false := by
        rw [beq_eq_false_iff_ne]
        intro same
        exact distinct.1 (List.mem_map.mpr ⟨other, member, String.toList_inj.mp same⟩)
      rw [List.lookup_cons, differs]
      exact othersNew other member

/-! ## Tags -/

theorem WritesAttributes.isSpace_of_head {attributes : List (String × String)} {word : List Char}
    (writes : WritesAttributes attributes word) : ∀ c, word.head? = some c → isSpace c := by
  intro c isHead
  cases writes with
  | nil blank => exact List.all_eq_true.mp blank c (List.mem_of_mem_head? isHead)
  | cons _ notEmpty gapBlank =>
    rw [List.head?_append, Option.or_eq_some_iff] at isHead
    rcases isHead with isHead | ⟨isEmpty, _⟩
    · exact List.all_eq_true.mp gapBlank c (List.mem_of_mem_head? isHead)
    · exact absurd (List.head?_eq_none_iff.mp isEmpty) notEmpty

/-- A tag without quotation marks and without `>`. -/
theorem Passes.of_inTag {word : List Char} (inTag : ∀ c ∈ word, isSpace c ∨ isNameChar c ∨ c = '=' ∨ c = '/') :
    Passes word := by
  refine .of_plain fun c member => ?_
  rcases inTag c member with space | inName | rfl | rfl
  · rcases isSpace_cases space with rfl | rfl | rfl | rfl <;> decide
  · exact ⟨ne_of_isNameChar inName rfl, ne_of_isNameChar inName rfl, ne_of_isNameChar inName rfl⟩
  · decide
  · decide

theorem WritesAttributes.passes {attributes : List (String × String)} {word : List Char}
    (writes : WritesAttributes attributes word) : Passes word := by
  induction writes with
  | nil blank => exact .of_inTag fun c member => .inl (List.all_eq_true.mp blank c member)
  | @cons name value attributes word gap before after plain _ gapBlank beforeBlank afterBlank _ ih =>
    have front : Passes (gap ++ (name.toList ++ (before ++ '=' :: after))) := by
      refine .of_inTag fun c member => ?_
      simp only [List.mem_append, List.mem_cons] at member
      rcases member with inGap | inName | inBefore | isSign | inAfter
      · exact .inl (List.all_eq_true.mp gapBlank c inGap)
      · exact .inr (.inl (List.all_eq_true.mp plain.all c inName))
      · exact .inl (List.all_eq_true.mp beforeBlank c inBefore)
      · exact .inr (.inr (.inl isSign))
      · exact .inl (List.all_eq_true.mp afterBlank c inAfter)
    have quoted : Passes ('"' :: (escape value.toList ++ ['"'])) :=
      .quoted (not_mem_escape (.inr (.inr (.inl rfl))))
    simpa using front.append (quoted.append ih)

/-- Attributes end in a blank or a quotation mark. -/
theorem WritesAttributes.getLast_cases {attributes : List (String × String)} {word : List Char}
    (writes : WritesAttributes attributes word) : ∀ c, word.getLast? = some c → isSpace c ∨ c = '"' := by
  induction writes with
  | nil blank => exact fun c isLast => .inl (List.all_eq_true.mp blank c (List.mem_of_getLast? isLast))
  | @cons name value attributes word gap before after _ _ _ _ _ _ ih =>
    intro c isLast
    have split : gap ++ (name.toList ++ (before ++ '=' :: (after ++ '"' :: (escape value.toList ++ '"' :: word)))) =
        (gap ++ (name.toList ++ (before ++ '=' :: (after ++ '"' :: escape value.toList)))) ++ ['"'] ++ word := by
      simp
    rw [split, List.getLast?_append, List.getLast?_concat, Option.or_eq_some_iff] at isLast
    rcases isLast with isLast | ⟨_, isMark⟩
    · exact ih c isLast
    · exact .inr (Option.some.inj isMark).symm

/-- What the start tag of an element says. -/
def tagContent (e : Element) : TagContent :=
  { name := e.tag.toList, attributes := e.attributes.map rawAttribute, error := none }

namespace WritesTag

variable {e : Element} {tag : List Char}

/-- A start tag is read as it was written. -/
theorem read_eq (writes : WritesTag e tag) : TagContent.read tag = tagContent e := by
  obtain ⟨plain, distinct, attributes⟩ := writes
  have inName : ∀ c ∈ e.tag.toList, (!isSpace c) = true := by
    intro c member
    rw [plain.not_isSpace c member]
    rfl
  obtain ⟨isName, isRest⟩ := span_run inName fun c isHead => by rw [attributes.isSpace_of_head c isHead]; rfl
  rw [TagContent.read, isName, isRest, attributes.attributesFrom_eq distinct fun _ _ => rfl]
  rfl

theorem passes (writes : WritesTag e tag) : Passes tag := by
  obtain ⟨plain, _, attributes⟩ := writes
  exact .append (.of_inTag fun c member => .inr (.inl (List.all_eq_true.mp plain.all c member))) attributes.passes

/-- A start tag does not look like an empty one. -/
theorem getLast_ne (writes : WritesTag e tag) : tag.getLast? ≠ some '/' := by
  obtain ⟨plain, _, attributes⟩ := writes
  intro isLast
  rw [List.getLast?_append, Option.or_eq_some_iff] at isLast
  rcases isLast with isLast | ⟨_, isLast⟩
  · rcases attributes.getLast_cases _ isLast with impossible | impossible <;> cases impossible
  · have inName := List.all_eq_true.mp plain.all _ (List.mem_of_getLast? isLast)
    cases inName

theorem kind_eq (writes : WritesTag e tag) (rest : List Char) : MarkupKind.of (tag ++ rest) = .ok .startTag := by
  obtain ⟨⟨first, more, isName, letter, _⟩, _, _⟩ := writes
  have differs {other : Char} (special : isNameChar other = false) : first ≠ other :=
    ne_of_isNameChar (isNameChar_of_isAlpha letter) special
  rw [isName, List.cons_append, List.cons_append]
  unfold MarkupKind.of
  split
  all_goals first
    | rfl
    | (next same => exact absurd (List.cons.inj same).1 (differs rfl))

end WritesTag

/-! ## Events of what is written -/

theorem eventsOf_single {e : Element} {tag : List Char} (writes : WritesTag e tag) (rest : List Char) :
    eventsOf ('<' :: (tag ++ '/' :: '>' :: rest)) = .emptyTag (tagContent e) :: eventsOf rest := by
  have slash : Passes ['/'] := .of_inTag (by simp)
  have cut := (writes.passes.append slash).cutTag rest
  rw [List.append_assoc, List.singleton_append] at cut
  rw [eventsOf_markup (writes.kind_eq _) cut, MarkupKind.event, if_pos List.getLast?_concat,
    List.dropLast_concat, writes.read_eq]

theorem eventsOf_startTag {e : Element} {tag : List Char} (writes : WritesTag e tag) (rest : List Char) :
    eventsOf ('<' :: (tag ++ '>' :: rest)) = .startTag (tagContent e) :: eventsOf rest := by
  rw [eventsOf_markup (writes.kind_eq _) (writes.passes.cutTag rest), MarkupKind.event, if_neg writes.getLast_ne,
    writes.read_eq]

/-- Blanks behind the name in an end tag do not count. -/
theorem endTagName_append {name blanks : List Char} (plain : PlainName name) (blank : blanks.all isSpace) :
    endTagName (name ++ blanks) = name := by
  have notAll : ¬(name ++ blanks).all isSpace := by
    rw [List.all_append, Bool.and_eq_true]
    rintro ⟨allBlank, _⟩
    obtain ⟨first, more, rfl, letter, _⟩ := plain
    rw [List.all_cons, isSpace_of_isNameChar (isNameChar_of_isAlpha letter)] at allBlank
    cases allBlank
  have trailing : ∀ c ∈ blanks.reverse, isSpace c := fun c member =>
    List.all_eq_true.mp blank c (List.mem_reverse.mp member)
  have behind : ∀ c, name.reverse.head? = some c → isSpace c = false := fun c isLast =>
    plain.not_isSpace c (List.mem_reverse.mp (List.mem_of_mem_head? isLast))
  rw [endTagName, if_neg notAll, List.reverse_append, (span_run trailing behind).2, List.reverse_reverse]

theorem eventsOf_endTag {name blanks : List Char} (plain : PlainName name) (blank : blanks.all isSpace)
    (rest : List Char) :
    eventsOf ('<' :: '/' :: (name ++ (blanks ++ '>' :: rest))) = .endTag name :: eventsOf rest := by
  have passes : Passes ('/' :: (name ++ blanks)) := by
    refine .of_inTag fun c member => ?_
    rw [List.mem_cons, List.mem_append] at member
    rcases member with isSlash | inName | inBlanks
    · exact .inr (.inr (.inr isSlash))
    · exact .inr (.inl (List.all_eq_true.mp plain.all c inName))
    · exact .inl (List.all_eq_true.mp blank c inBlanks)
  have cut := passes.cutTag rest
  rw [List.cons_append, List.append_assoc] at cut
  have isKind : MarkupKind.of ('/' :: (name ++ (blanks ++ '>' :: rest))) = .ok .endTag := rfl
  rw [eventsOf_markup isKind cut, MarkupKind.event, List.drop_one, List.tail_cons, endTagName_append plain blank]

/-- A `>` in a word with a beginning and an end that have none stands between the two. -/
theorem split_at_close {start word tail early late : List Char} (noneBefore : '>' ∉ start)
    (split : start ++ (word ++ tail) = early ++ '>' :: late) (noneBehind : '>' ∉ tail) :
    ∃ inner more, early = start ++ inner ∧ word = inner ++ '>' :: more := by
  obtain ⟨inner, isEarly, split⟩ : ∃ inner, early = start ++ inner ∧ word ++ tail = inner ++ '>' :: late := by
    rcases List.append_eq_append_iff.mp split with ⟨inner, isEarly, isWord⟩ | ⟨between, isStart, isLate⟩
    · exact ⟨inner, isEarly, isWord⟩
    · cases between with
      | nil => exact ⟨[], by simpa using isStart.symm, by simpa using isLate.symm⟩
      | cons c more =>
        cases isLate
        exact absurd (isStart ▸ List.mem_append_right _ List.mem_cons_self) noneBefore
  rcases List.append_eq_append_iff.mp split with ⟨between, _, isTail⟩ | ⟨between, isWord, isLate⟩
  · exact absurd (isTail ▸ List.mem_append_right _ List.mem_cons_self) noneBehind
  · cases between with
    | nil =>
      rw [List.nil_append] at isLate
      exact absurd (isLate ▸ List.mem_cons_self) noneBehind
    | cons c more =>
      cases isLate
      exact ⟨inner, more, isEarly, isWord⟩

/-- Markup that opens with some characters and closes with others, and that no `>` inside closes, is cut off
    whole. -/
theorem cutAt_markup {closes : List Char → Bool} {opening content closing : List Char} (rest : List Char)
    (noneBefore : '>' ∉ opening) (noneBehind : '>' ∉ closing)
    (closed : closes (opening ++ (content ++ closing)).reverse)
    (inside : ∀ inner more, content = inner ++ '>' :: more → closes (inner.reverse ++ opening.reverse) = false) :
    cutAt closes [] ((opening ++ (content ++ closing)) ++ '>' :: rest) =
      some (opening ++ (content ++ closing), rest) := by
  refine cutAt_append (by rwa [List.append_nil]) fun early late split => ?_
  obtain ⟨inner, more, rfl, isContent⟩ := split_at_close noneBefore split noneBehind
  rw [List.append_nil, List.reverse_append]
  exact inside inner more isContent

theorem eq_append_of_reverse {word before : List Char} {last : List Char}
    (isReverse : word.reverse = last.reverse ++ before) : word = before.reverse ++ last := by
  have same := congrArg List.reverse isReverse
  rwa [List.reverse_reverse, List.reverse_append, List.reverse_reverse] at same

theorem closesCData_iff {before : List Char} : closesCData before ↔ ∃ more, before = ']' :: ']' :: more := by
  unfold closesCData
  split <;> simp_all

theorem closesComment_iff {before : List Char} :
    closesComment before ↔ ∃ more, before = '-' :: '-' :: more ∧ 3 ≤ more.length := by
  unfold closesComment
  split
  next third fourth fifth more => simp
  next other =>
    constructor
    · intro impossible
      cases impossible
    · rintro ⟨more, rfl, long⟩
      match more, long with
      | third :: fourth :: fifth :: more, _ => exact absurd rfl (other third fourth fifth more)

theorem closesInstruction_iff {before : List Char} : closesInstruction before ↔ ∃ more, before = '?' :: more := by
  unfold closesInstruction
  split <;> simp_all

/-- Character data ends at the brackets behind its piece. -/
theorem eventsOf_cdata {piece : List Char} (noEnd : ¬[']', ']', '>'] <:+: piece) (rest : List Char) :
    eventsOf ('<' :: (cdataOpening ++ (piece ++ ']' :: ']' :: '>' :: rest))) = .cdata piece :: eventsOf rest := by
  have inside (inner more : List Char) (isPiece : piece = inner ++ '>' :: more) :
      closesCData (inner.reverse ++ cdataOpening.reverse) = false := by
    rw [Bool.eq_false_iff]
    intro closing
    obtain ⟨before, isBefore⟩ := closesCData_iff.mp closing
    rcases isReverse : inner.reverse with _ | ⟨c, _ | ⟨d, early⟩⟩
    all_goals
      rw [isReverse] at isBefore
      simp [cdataOpening] at isBefore
    obtain ⟨rfl, rfl, _⟩ := isBefore
    have isInner : inner = early.reverse ++ [']', ']'] := eq_append_of_reverse isReverse
    exact noEnd ⟨early.reverse, more, by rw [isPiece, isInner]; simp⟩
  have closed : closesCData (cdataOpening ++ (piece ++ [']', ']'])).reverse := by simp [closesCData_iff]
  have cut := cutAt_markup rest (by decide) (by decide) closed inside
  have split : cdataOpening ++ (piece ++ ']' :: ']' :: '>' :: rest) =
      cdataOpening ++ (piece ++ [']', ']']) ++ '>' :: rest := by simp
  have isKind : MarkupKind.of (cdataOpening ++ (piece ++ [']', ']']) ++ '>' :: rest) = .ok .cdata := rfl
  rw [split, eventsOf_markup isKind cut]
  change Event.cdata (piece ++ [']', ']']).dropLast.dropLast :: _ = _
  simp

/-- A comment ends at the first two hyphens behind its start. -/
theorem eventsOf_comment {content : List Char} (noEnd : ¬['-', '-'] <:+: content ++ ['-']) (rest : List Char) :
    eventsOf ('<' :: '!' :: '-' :: '-' :: (content ++ ['-', '-', '>']) ++ rest) = .skipped :: eventsOf rest := by
  have inside (inner more : List Char) (isContent : content = inner ++ '>' :: more) :
      closesComment (inner.reverse ++ ['!', '-', '-'].reverse) = false := by
    rw [Bool.eq_false_iff]
    intro closing
    obtain ⟨before, isBefore, long⟩ := closesComment_iff.mp closing
    rcases isReverse : inner.reverse with _ | ⟨c, _ | ⟨d, early⟩⟩
    all_goals
      rw [isReverse] at isBefore
      cases isBefore
    · exact absurd long (by decide)
    · exact absurd long (by decide)
    · have isInner : inner = early.reverse ++ ['-', '-'] := eq_append_of_reverse isReverse
      exact noEnd ⟨early.reverse, '>' :: (more ++ ['-']), by rw [isContent, isInner]; simp⟩
  have closed : closesComment (['!', '-', '-'] ++ (content ++ ['-', '-'])).reverse :=
    closesComment_iff.mpr ⟨content.reverse ++ ['-', '-', '!'], by simp, by simp⟩
  have cut := cutAt_markup rest (by decide) (by decide) closed inside
  have split : '<' :: '!' :: '-' :: '-' :: (content ++ ['-', '-', '>']) ++ rest =
      '<' :: (['!', '-', '-'] ++ (content ++ ['-', '-']) ++ '>' :: rest) := by simp
  have isKind : MarkupKind.of (['!', '-', '-'] ++ (content ++ ['-', '-']) ++ '>' :: rest) = .ok .comment := rfl
  rw [split, eventsOf_markup isKind cut]
  rfl

/-- A processing instruction ends at the first question mark behind its start that a `>` follows. -/
theorem eventsOf_instruction {content : List Char} (noEnd : ¬['?', '>'] <:+: '?' :: content) (rest : List Char) :
    eventsOf ('<' :: '?' :: (content ++ ['?', '>']) ++ rest) = .skipped :: eventsOf rest := by
  have inside (inner more : List Char) (isContent : content = inner ++ '>' :: more) :
      closesInstruction (inner.reverse ++ ['?'].reverse) = false := by
    rw [Bool.eq_false_iff]
    intro closing
    obtain ⟨before, isBefore⟩ := closesInstruction_iff.mp closing
    rcases isReverse : inner.reverse with _ | ⟨c, early⟩
    · rw [List.reverse_eq_nil_iff] at isReverse
      exact noEnd ⟨[], more, by rw [isContent, isReverse]; rfl⟩
    · rw [isReverse] at isBefore
      cases isBefore
      have isInner : inner = early.reverse ++ ['?'] := eq_append_of_reverse isReverse
      exact noEnd ⟨'?' :: early.reverse, more, by rw [isContent, isInner]; simp⟩
  have closed : closesInstruction (['?'] ++ (content ++ ['?'])).reverse := by simp [closesInstruction_iff]
  have cut := cutAt_markup rest (by decide) (by decide) closed inside
  have split : '<' :: '?' :: (content ++ ['?', '>']) ++ rest =
      '<' :: (['?'] ++ (content ++ ['?']) ++ '>' :: rest) := by simp
  have isKind : MarkupKind.of (['?'] ++ (content ++ ['?']) ++ '>' :: rest) = .ok .instruction := rfl
  have long : ¬(['?'] ++ (content ++ ['?'])).length < 2 := by simp
  rw [split, eventsOf_markup isKind cut, MarkupKind.event, if_neg long]

theorem eventsOf_aside {aside : List Char} (isAside : Aside aside) (rest : List Char) :
    eventsOf (aside ++ rest) = .skipped :: eventsOf rest := by
  cases isAside with
  | comment noEnd => exact eventsOf_comment noEnd rest
  | instruction noEnd => exact eventsOf_instruction noEnd rest

end Markup

end ModelCatalog
