import ModelCatalog.Markup.Event

/-!
# Cutting documents

What is cut off at a `>` and what follows make up the word that was cut (`MarkupKind.cut_eq`), and each
kind of markup is cut where it ends: at the first `>` that closes it (`cutAt_append`), or for tags at the
first outside quotation marks (`Passes.cutTag`). So the events of a document are those of its first part
and then those of the rest (`eventsFrom_markup`, `eventsFrom_text`).
-/

namespace ModelCatalog.Markup

/-! ## Words that were cut -/

theorem cutAt_eq {closes : List Char → Bool} {before word content rest : List Char}
    (cut : cutAt closes before word = some (content, rest)) :
    before.reverse ++ word = content ++ '>' :: rest := by
  induction word generalizing before with
  | nil => cases cut
  | cons c tail ih =>
    rw [cutAt] at cut
    split at cut
    next closing =>
      cases cut
      rw [closing.1]
    · have onward := ih cut
      rwa [List.reverse_cons, List.append_assoc, List.singleton_append] at onward

theorem cutDoctype_eq {depth : Nat} {word content rest : List Char}
    (cut : cutDoctype depth word = some (content, rest)) : word = content ++ '>' :: rest := by
  induction word generalizing depth content with
  | nil => cases cut
  | cons c tail ih =>
    rw [cutDoctype] at cut
    split at cut
    next closing =>
      cases cut
      rw [closing.1, List.nil_append]
    · obtain ⟨⟨inner, after⟩, onward, same⟩ := Option.map_eq_some_iff.mp cut
      cases same
      rw [List.cons_append, ← ih onward]

theorem cutTag_eq {quote : Option Char} {word content rest : List Char}
    (cut : cutTag quote word = some (content, rest)) : word = content ++ '>' :: rest := by
  induction word generalizing quote content with
  | nil => cases cut
  | cons c tail ih =>
    unfold cutTag at cut
    split at cut
    next closing =>
      cases cut
      rw [closing.1, List.nil_append]
    · obtain ⟨⟨inner, after⟩, onward, same⟩ := Option.map_eq_some_iff.mp cut
      cases same
      rw [List.cons_append, ← ih onward]

/-- Markup that was cut off, its `>` and what follows make up the word. -/
theorem MarkupKind.cut_eq {kind : MarkupKind} {word content rest : List Char}
    (cut : kind.cut word = some (content, rest)) : word = content ++ '>' :: rest := by
  cases kind with
  | comment | cdata | instruction => exact cutAt_eq cut
  | doctype => exact cutDoctype_eq cut
  | endTag | startTag => exact cutTag_eq cut

/-! ## Where words are cut -/

/-- A word is cut at a `>` that closes it when none before does. -/
theorem cutAt_append {closes : List Char → Bool} {before content rest : List Char}
    (closed : closes (content.reverse ++ before))
    (first : ∀ early late, content = early ++ '>' :: late → closes (early.reverse ++ before) = false) :
    cutAt closes before (content ++ '>' :: rest) = some (before.reverse ++ content, rest) := by
  induction content generalizing before with
  | nil =>
    rw [List.nil_append, cutAt, if_pos ⟨rfl, closed⟩, List.append_nil]
  | cons c content ih =>
    have onward : ¬(c = '>' ∧ closes before) := by
      rintro ⟨rfl, closing⟩
      have open_ := first [] content rfl
      rw [List.reverse_nil, List.nil_append, closing] at open_
      cases open_
    rw [List.cons_append, cutAt, if_neg onward, ih]
    · rw [List.reverse_cons, List.append_assoc, List.singleton_append]
    · rwa [List.reverse_cons, List.append_assoc, List.singleton_append] at closed
    · intro early late split
      have open_ := first (c :: early) late (by rw [split, List.cons_append])
      rwa [List.reverse_cons, List.append_assoc, List.singleton_append] at open_

/-- A word in a tag at whose end no quotation mark is open, and that holds no `>` outside them. -/
def Passes (word : List Char) : Prop :=
  ∀ rest, cutTag none (word ++ rest) = (cutTag none rest).map fun (content, after) => (word ++ content, after)

namespace Passes

variable {word other : List Char}

theorem nil : Passes [] := by
  intro rest
  cases h : cutTag none rest <;> simp [h]

theorem append (first : Passes word) (second : Passes other) : Passes (word ++ other) := by
  intro rest
  rw [List.append_assoc, first, second, Option.map_map]
  refine congrFun (congrArg Option.map (funext fun cut => ?_)) _
  simp [List.append_assoc]

theorem of_plain (plain : ∀ c ∈ word, c ≠ '>' ∧ c ≠ '"' ∧ c ≠ '\'') : Passes word := by
  intro rest
  induction word with
  | nil => exact nil rest
  | cons c word ih =>
    obtain ⟨⟨noEnd, noMark, noApostrophe⟩, others⟩ := List.forall_mem_cons.mp plain
    rw [List.cons_append, cutTag, if_neg (fun closing => noEnd closing.1)]
    simp only [noMark, noApostrophe, or_self, if_false, ih others, Option.map_map]
    rfl

/-- Between quotation marks everything passes but a quotation mark. -/
theorem quoted (noMark : '"' ∉ word) : Passes ('"' :: (word ++ ['"'])) := by
  have inside (rest : List Char) : cutTag (some '"') (word ++ '"' :: rest) =
      (cutTag none rest).map fun (content, after) => (word ++ '"' :: content, after) := by
    induction word with
    | nil =>
      rw [List.nil_append, cutTag, if_neg (by simp)]
      simp
    | cons c word ih =>
      rw [List.mem_cons, not_or] at noMark
      rw [List.cons_append, cutTag, if_neg (by simp)]
      simp only [Ne.symm noMark.1, if_false, ih noMark.2, Option.map_map]
      rfl
  intro rest
  rw [List.cons_append, List.append_assoc, List.singleton_append, cutTag, if_neg (by simp)]
  simp only [true_or, if_true, inside, Option.map_map]
  refine congrFun (congrArg Option.map (funext fun cut => ?_)) _
  simp

theorem cutTag (passes : Passes word) (rest : List Char) :
    Markup.cutTag none (word ++ '>' :: rest) = some (word, rest) := by
  rw [passes, Markup.cutTag, if_pos ⟨rfl, rfl⟩]
  simp

end Passes

/-! ## Events -/

variable {position : Nat}

theorem eventsFrom_nil : eventsFrom position [] = [] := by rw [eventsFrom]

theorem eventsFrom_markup {markup content rest : List Char} {kind : MarkupKind}
    (isKind : MarkupKind.of markup = .ok kind) (cut : kind.cut markup = some (content, rest)) :
    eventsFrom position ('<' :: markup) =
      (position, kind.event content) :: eventsFrom (position + Text.byteLength content + 2) rest := by
  rw [eventsFrom]
  split
  next impossible =>
    rw [isKind] at impossible
    cases impossible
  next other isOther =>
    cases isKind.symm.trans isOther
    split
    next impossible =>
      rw [cut] at impossible
      cases impossible
    next isCut =>
      cases cut.symm.trans isCut
      rfl

theorem eventsFrom_text {c : Char} (isText : c ≠ '<') (tail : List Char) :
    eventsFrom position (c :: tail) = (position, .text (c :: tail.takeWhile (· ≠ '<'))) ::
      eventsFrom (position + Text.byteLength (c :: tail.takeWhile (· ≠ '<'))) (tail.dropWhile (· ≠ '<')) := by
  rw [eventsFrom]
  exact isText

/-- A document without the byte order mark before it. -/
def withoutMark : List Char → List Char
  | [] => []
  | c :: rest => if c = byteOrderMark then rest else c :: rest

theorem events_eq (text : List Char) : events text = eventsFrom 0 (withoutMark text) := by
  cases text with
  | nil => rw [events, withoutMark, eventsFrom]
  | cons c rest =>
    rw [events, withoutMark]
    split <;> rfl

/-! ## Events without their positions -/

/-- The events of a word, whatever its position. -/
def eventsOf (word : List Char) : List Event := (eventsFrom 0 word).map (·.2)

theorem map_eventsFrom (position : Nat) (word : List Char) : (eventsFrom position word).map (·.2) = eventsOf word := by
  have same (other : Nat) : (eventsFrom position word).map (·.2) = (eventsFrom other word).map (·.2) := by
    fun_induction eventsFrom position word generalizing other with
    | case1 => rw [eventsFrom_nil]
    | case2 position markup error isError =>
      rw [eventsFrom]
      split
      next isOther =>
        cases isError.symm.trans isOther
        rfl
      next impossible =>
        rw [isError] at impossible
        cases impossible
    | case3 position markup kind isKind open_ =>
      rw [eventsFrom]
      split
      next impossible =>
        rw [isKind] at impossible
        cases impossible
      next isOther =>
        cases isKind.symm.trans isOther
        split
        · rfl
        next impossible =>
          rw [open_] at impossible
          cases impossible
    | case4 position markup kind isKind content rest cut ih =>
      rw [eventsFrom_markup isKind cut, List.map_cons, List.map_cons, ih]
    | case5 position c tail isText run ih =>
      rw [eventsFrom_text isText, List.map_cons, List.map_cons, ih]
  exact same 0

theorem eventsOf_nil : eventsOf [] = [] := by rw [eventsOf, eventsFrom_nil, List.map_nil]

theorem eventsOf_markup {markup content rest : List Char} {kind : MarkupKind}
    (isKind : MarkupKind.of markup = .ok kind) (cut : kind.cut markup = some (content, rest)) :
    eventsOf ('<' :: markup) = kind.event content :: eventsOf rest := by
  rw [eventsOf, eventsFrom_markup isKind cut, List.map_cons, map_eventsFrom]

/-- A text runs to the next `<`. -/
theorem eventsOf_text {c : Char} (isText : c ≠ '<') (tail : List Char) :
    eventsOf (c :: tail) =
      .text (c :: tail.takeWhile (· ≠ '<')) :: eventsOf (tail.dropWhile (· ≠ '<')) := by
  rw [eventsOf, eventsFrom_text isText, List.map_cons, map_eventsFrom]

end ModelCatalog.Markup
