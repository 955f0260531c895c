import ModelCatalog.Proofs.Markup.Events
import ModelCatalog.Proofs.Markup.Steps
import Mathlib.Data.List.Forall2

/-!
# Lines of elements

The elements of a document that was read stand at its start tags, in the same order, each at a `<` with its
name behind it (`Element.StandsAt`, `Markup.elements_stand_at_tags`). Positions of events never fall, so
that walking on from one to the next finds the line that a walk from the start would find
(`LineCounter.advance_advance`). Positions leave a byte order mark out, but lines are counted in the text
with it: there the line ends in the last three bytes before a tag are missed.
-/

namespace ModelCatalog

namespace Text

/-! ## Walks through a text -/

theorem byteLength_append (first second : List Char) :
    byteLength (first ++ second) = byteLength first + byteLength second := by
  induction first with
  | nil => exact (Nat.zero_add _).symm
  | cons c rest ih =>
    change c.utf8Size + byteLength (rest ++ second) = c.utf8Size + byteLength rest + byteLength second
    rw [ih, Nat.add_assoc]

/-- What stands behind a position does not count. -/
theorem newlinesBefore_append {position : Nat} {before : List Char} (inside : position ≤ byteLength before)
    (after : List Char) : newlinesBefore position (before ++ after) = newlinesBefore position before := by
  induction before generalizing position with
  | nil =>
    cases Nat.le_zero.mp inside
    cases after <;> rfl
  | cons c rest ih =>
    change position ≤ c.utf8Size + byteLength rest at inside
    rw [List.cons_append, newlinesBefore, newlinesBefore, ih (by omega)]

theorem newlinesBefore_byteLength (word : List Char) : newlinesBefore (byteLength word) word = newlines word := by
  induction word with
  | nil => rfl
  | cons c rest ih =>
    have size : byteLength (c :: rest) = c.utf8Size + byteLength rest := rfl
    have inside : c.utf8Size + byteLength rest ≠ 0 := by
      have := c.utf8Size_pos
      omega
    rw [size, newlinesBefore, if_neg inside, Nat.add_sub_cancel_left, ih, newlines, newlines, List.count_cons,
      Nat.add_comm]
    simp only [beq_iff_eq]

namespace LineCounter

variable {position next : Nat}

theorem line_walk (rest : List Char) (reached line : Nat) :
    (advance.walk position rest reached line).line = line + newlinesBefore (position - reached) rest := by
  induction rest generalizing reached line with
  | nil => rfl
  | cons c after ih =>
    rw [advance.walk, newlinesBefore]
    by_cases onward : reached < position
    · rw [if_pos onward, if_neg (Nat.sub_ne_zero_of_lt onward), ih, Nat.sub_add_eq]
      split <;> omega
    · rw [if_neg onward, if_pos (Nat.sub_eq_zero_of_le (Nat.not_lt.mp onward)), Nat.add_zero]

/-- The line that a walk from the start has reached at a position. -/
theorem line_start_advance (position : Nat) (text : List Char) :
    ((start text).advance position).line = 1 + newlinesBefore position text := line_walk text 0 1

theorem walk_walk (le : position ≤ next) (rest : List Char) (reached line : Nat) :
    (advance.walk position rest reached line).advance next = advance.walk next rest reached line := by
  induction rest generalizing reached line with
  | nil => rfl
  | cons c after ih =>
    rw [advance.walk]
    by_cases onward : reached < position
    · rw [if_pos onward, ih, advance.walk, if_pos (Nat.lt_of_lt_of_le onward le)]
    · rw [if_neg onward]
      rfl

/-- A walk that rests on its way finds what it would have found. -/
theorem advance_advance (le : position ≤ next) (counter : LineCounter) :
    (counter.advance position).advance next = counter.advance next :=
  walk_walk le counter.rest counter.position counter.line

theorem start_advance_zero (text : List Char) : (start text).advance 0 = start text := by
  cases text <;> rfl

end LineCounter

end Text

open Text

namespace Markup

/-! ## Where events stand -/

/-- The name in a start tag. -/
def Event.tagName? : Event → Option (List Char)
  | .startTag content | .emptyTag content => some content.name
  | _ => none

theorem TagContent.read_name_prefix (content : List Char) : (read content).name <+: content :=
  List.takeWhile_prefix _

/-- What a tag says starts with the name in it. -/
theorem MarkupKind.tagName?_event {kind : MarkupKind} {content name : List Char}
    (isName : (kind.event content).tagName? = some name) : name <+: content := by
  unfold event at isName
  repeat' split at isName
  all_goals cases isName
  · exact (TagContent.read_name_prefix _).trans (List.dropLast_prefix _)
  · exact TagContent.read_name_prefix _

/-- An event stands in a word that starts at a position: where its own position says, and a start tag at a
    `<` with its name behind it. -/
def StandsIn (start : Nat) (word : List Char) (place : Nat × Event) : Prop :=
  ∃ before after, word = before ++ after ∧ place.1 = start + byteLength before ∧
    ∀ name, place.2.tagName? = some name → ∃ more, after = '<' :: (name ++ more)

theorem StandsIn.behind {start : Nat} {part rest : List Char} {place : Nat × Event}
    (stands : StandsIn (start + byteLength part) rest place) : StandsIn start (part ++ rest) place := by
  obtain ⟨before, after, split, isPosition, named⟩ := stands
  refine ⟨part ++ before, after, ?_, ?_, named⟩
  · rw [split, List.append_assoc]
  · rw [isPosition, byteLength_append, Nat.add_assoc]

theorem standsIn_of_mem_eventsFrom {position : Nat} {word : List Char} {place : Nat × Event}
    (member : place ∈ eventsFrom position word) : StandsIn position word place := by
  fun_induction eventsFrom position word with
  | case1 => exact absurd member List.not_mem_nil
  | case2 position markup error isError =>
    cases List.mem_singleton.mp member
    exact ⟨[], _, rfl, rfl, fun _ isName => by cases isName⟩
  | case3 position markup kind isKind open_ =>
    cases List.mem_singleton.mp member
    exact ⟨[], _, rfl, rfl, fun _ isName => by cases isName⟩
  | case4 position markup kind isKind content rest cut ih =>
    rcases List.mem_cons.mp member with rfl | later
    · refine ⟨[], _, rfl, rfl, fun name isName => ?_⟩
      obtain ⟨more, split⟩ := MarkupKind.tagName?_event isName
      refine ⟨more ++ '>' :: rest, ?_⟩
      rw [MarkupKind.cut_eq cut, ← split, List.append_assoc]
    · have whole : '<' :: markup = '<' :: (content ++ ['>']) ++ rest := by
        rw [MarkupKind.cut_eq cut, List.cons_append, List.append_assoc, List.singleton_append]
      have size : byteLength ('<' :: (content ++ ['>'])) = byteLength content + 2 := by
        change 1 + byteLength (content ++ ['>']) = _
        rw [byteLength_append]
        exact Nat.add_comm 1 _
      rw [whole]
      refine StandsIn.behind ?_
      rw [size, ← Nat.add_assoc]
      exact ih later
  | case5 position c tail isText run ih =>
    rcases List.mem_cons.mp member with rfl | later
    · exact ⟨[], _, rfl, rfl, fun _ isName => by cases isName⟩
    · have whole : c :: tail = run ++ tail.dropWhile (· ≠ '<') :=
        congrArg (c :: ·) List.takeWhile_append_dropWhile.symm
      rw [whole]
      exact StandsIn.behind (ih later)

theorem le_of_mem_eventsFrom {position : Nat} {word : List Char} {place : Nat × Event}
    (member : place ∈ eventsFrom position word) : position ≤ place.1 := by
  obtain ⟨before, _, _, isPosition, _⟩ := standsIn_of_mem_eventsFrom member
  omega

/-- Positions of events never fall. -/
theorem pairwise_eventsFrom (position : Nat) (word : List Char) :
    (eventsFrom position word).Pairwise (·.1 ≤ ·.1) := by
  fun_induction eventsFrom position word with
  | case1 => exact .nil
  | case2 => exact List.pairwise_singleton _ _
  | case3 => exact List.pairwise_singleton _ _
  | case4 position markup kind isKind content rest cut ih =>
    refine .cons (fun place member => ?_) ih
    have := le_of_mem_eventsFrom member
    omega
  | case5 position c tail isText run ih =>
    refine .cons (fun place member => ?_) ih
    have := le_of_mem_eventsFrom member
    omega

end Markup

/-! ## Elements that were read -/

namespace Element

/-- The elements of a tree, each before those in it. -/
def preorder : Element → List Element
  | ⟨tag, line, attributes, text, children⟩ => ⟨tag, line, attributes, text, children⟩ :: all children
where
  all : List Element → List Element
    | [] => []
    | child :: rest => child.preorder ++ all rest

/-- The tags of the elements of a tree with their lines, each before those in it. -/
def headings (e : Element) : List (String × Nat) := e.preorder.map fun part => (part.tag, part.line)

theorem preorder_eq (e : Element) : e.preorder = e :: e.children.flatMap preorder := by
  have each (children : List Element) : preorder.all children = children.flatMap preorder := by
    induction children with
    | nil => rfl
    | cons child rest ih => rw [preorder.all, ih, List.flatMap_cons]
  obtain ⟨tag, line, attributes, text, children⟩ := e
  rw [preorder, each]

theorem headings_eq (e : Element) : e.headings = (e.tag, e.line) :: e.children.flatMap headings := by
  rw [headings, preorder_eq, List.map_cons, List.map_flatMap]
  rfl

end Element

namespace Markup

namespace Progress

variable {progress next : Progress} {line : Nat}

/-- The headings of what has been read. -/
def headings (progress : Progress) : List (String × Nat) :=
  (progress.root.toList ++ progress.stack.reverse).flatMap Element.headings

theorem headings_attach {element : Element} (attached : progress.attach element = .ok next) :
    next.headings = progress.headings ++ element.headings := by
  obtain ⟨stack, root⟩ := progress
  rcases attach_cases attached with ⟨parent, outer, rfl, rfl⟩ | ⟨rfl, rfl, rfl⟩
  · simp [headings, Element.headings_eq parent, Element.headings_eq { parent with children := _ }]
  · simp [headings]

theorem headings_append {text : List Char} (appended : progress.append line text = .ok next) :
    next.headings = progress.headings := by
  obtain ⟨stack, root⟩ := progress
  rcases append_cases appended with ⟨top, outer, written, rfl, rfl⟩ | rfl
  · simp [headings, Element.headings_eq top, Element.headings_eq { top with text := _ }]
  · rfl

theorem headings_of_openElement {content : TagContent} {element : Element}
    (opened : openElement line content = .ok element) :
    element.headings = [(String.ofList content.name, line)] := by
  obtain ⟨attributes, rfl⟩ := exists_of_openElement opened
  rw [Element.headings_eq]
  rfl

/-- An event adds the heading of its tag, if it is a start tag. -/
theorem headings_step {event : Event} (done : progress.step line event = .ok next) :
    next.headings = progress.headings ++ (event.tagName?.map fun name => (String.ofList name, line)).toList := by
  cases takes_of_step done with
  | opened _ opened => simp [headings, headings_of_openElement opened, Event.tagName?]
  | single _ opened attached =>
    rw [headings_attach attached, headings_of_openElement opened]
    rfl
  | closed isStack attached =>
    rw [headings_attach attached]
    simp [headings, isStack, Event.tagName?]
  | text _ appended => exact (headings_append appended).trans (List.append_nil _).symm
  | cdata appended => exact (headings_append appended).trans (List.append_nil _).symm
  | skipped => exact (List.append_nil _).symm

end Progress

/-! ## Start tags and elements -/

/-- The start tags among events, with their positions. -/
def tagsAmong (events : List (Nat × Event)) : List (Nat × List Char) :=
  events.filterMap fun (position, event) => event.tagName?.map (position, ·)

theorem tagsAmong_cons (position : Nat) (event : Event) (rest : List (Nat × Event)) :
    tagsAmong ((position, event) :: rest) = (event.tagName?.map (position, ·)).toList ++ tagsAmong rest := by
  cases named : event.tagName? <;> simp [tagsAmong, named]

/-- The start tags of a document, each with its position and its name, in order. -/
def startTags (text : List Char) : List (Nat × List Char) := tagsAmong (events text)

/-- The heading that a start tag at a position of a text leads to. -/
def headingIn (text : List Char) (tag : Nat × List Char) : String × Nat :=
  (String.ofList tag.2, 1 + newlinesBefore tag.1 text)

/-- Events whose positions do not fall add the headings of their start tags, in order. -/
theorem Progress.headings_run {progress next : Progress} {text : List Char} {reached : Nat}
    {events : List (Nat × Event)} (later : ∀ place ∈ events, reached ≤ place.1)
    (rising : events.Pairwise (·.1 ≤ ·.1))
    (done : progress.run ((LineCounter.start text).advance reached) events = .ok next) :
    next.headings = progress.headings ++ (tagsAmong events).map (headingIn text) := by
  induction events generalizing progress reached with
  | nil =>
    cases done
    exact (List.append_nil _).symm
  | cons place rest ih =>
    obtain ⟨position, event⟩ := place
    obtain ⟨above, others⟩ := List.pairwise_cons.mp rising
    rw [run, LineCounter.advance_advance (later _ List.mem_cons_self)] at done
    obtain ⟨stepped, isStep, done⟩ := bind_eq_ok_iff.mp done
    rw [ih above others done, headings_step isStep, LineCounter.line_start_advance, tagsAmong_cons,
      List.map_append, List.append_assoc]
    cases event.tagName? <;> rfl

/-- The headings of a tree that was read are those of the start tags. -/
theorem headings_of_parse {text : String} {root : Element} (read : parse text = .ok root) :
    root.headings = (startTags text.toList).map (headingIn text.toList) := by
  obtain ⟨⟨stack, found⟩, done, finished⟩ := bind_eq_ok_iff.mp read
  rw [← LineCounter.start_advance_zero] at done
  rw [startTags]
  rw [events_eq] at done ⊢
  have headings := Progress.headings_run (fun _ _ => Nat.zero_le _) (pairwise_eventsFrom _ _) done
  cases stack with
  | cons top outer => cases finished
  | nil =>
    cases found with
    | none => cases finished
    | some element =>
      cases finished
      simpa [Progress.headings] using headings

/-- The bytes of the byte order mark before a document. -/
def markSize (text : List Char) : Nat :=
  if text.head? = some byteOrderMark then byteOrderMark.utf8Size else 0

/-- Lines are counted in the text with the mark. -/
theorem newlinesBefore_eq (position : Nat) (text : List Char) :
    newlinesBefore position text = newlinesBefore (position - markSize text) (withoutMark text) := by
  cases text with
  | nil => rfl
  | cons c rest =>
    by_cases marked : c = byteOrderMark
    · subst marked
      rw [withoutMark, if_pos rfl, markSize, List.head?_cons, if_pos rfl, newlinesBefore,
        if_neg (by decide : byteOrderMark ≠ '\n'), Nat.zero_add]
      split
      next start =>
        rw [start, Nat.zero_sub]
        cases rest <;> rfl
      · rfl
    · rw [withoutMark, if_neg marked, markSize, List.head?_cons, if_neg (marked <| Option.some.inj ·), Nat.sub_zero]

end Markup

open Markup

/-- An element stands at a start tag of a text, which has a position and a name. The element has this name,
    and its line is one more than the line ends before the tag, but for those in the last bytes before it,
    as many as a byte order mark takes: without a mark its line is exact. -/
structure Element.StandsAt (text : List Char) (tag : Nat × List Char) (e : Element) : Prop where
  name : e.tag = String.ofList tag.2
  place : ∃ before after, withoutMark text = before ++ '<' :: (tag.2 ++ after) ∧ byteLength before = tag.1 ∧
    e.line = 1 + newlinesBefore (tag.1 - markSize text) before ∧
    (text.head? ≠ some byteOrderMark → e.line = 1 + newlines before)

theorem Element.standsAt_of_heading {text : List Char} {tag : Nat × List Char} {e : Element}
    (isTag : tag ∈ startTags text) (same : headingIn text tag = (e.tag, e.line)) : e.StandsAt text tag := by
  obtain ⟨⟨position, event⟩, member, isName⟩ := List.mem_filterMap.mp isTag
  obtain ⟨name, named, isName⟩ := Option.map_eq_some_iff.mp isName
  cases isName
  rw [events_eq] at member
  obtain ⟨before, after, split, isPosition, starts⟩ := standsIn_of_mem_eventsFrom member
  obtain ⟨more, rfl⟩ := starts name named
  change position = 0 + byteLength before at isPosition
  rw [Nat.zero_add] at isPosition
  obtain ⟨isTag, isLine⟩ := Prod.mk.inj same
  have line : e.line = 1 + newlinesBefore (position - markSize text) before := by
    rw [← isLine, newlinesBefore_eq, split, newlinesBefore_append]
    change position - markSize text ≤ byteLength before
    omega
  refine ⟨isTag.symm, before, more, split, isPosition.symm, line, fun unmarked => ?_⟩
  rw [line, markSize, if_neg unmarked, Nat.sub_zero, isPosition, newlinesBefore_byteLength]

/-- The elements of a document that was read stand at its start tags, in the same order. -/
theorem Markup.elements_stand_at_tags {text : String} {root : Element} (read : parse text = .ok root) :
    List.Forall₂ (Element.StandsAt text.toList) (startTags text.toList) root.preorder := by
  have same := headings_of_parse read
  rw [Element.headings, eq_comm, ← List.forall₂_eq_eq_eq, List.forall₂_map_left_iff,
    List.forall₂_map_right_iff, List.forall₂_iff_zip] at same
  exact List.forall₂_iff_zip.mpr ⟨same.1, fun member =>
    Element.standsAt_of_heading (List.of_mem_zip member).1 (same.2 member)⟩

/-- A document of two elements on different lines. -/
def Markup.twoLines : String := "<a>\n<b/></a>"

theorem Markup.twoLines_elements_stand_at_tags :
    ∃ root, parse twoLines = .ok root ∧
      List.Forall₂ (Element.StandsAt twoLines.toList) (startTags twoLines.toList) root.preorder := by
  have readable : (parse twoLines).isOk = true := by decide +kernel
  obtain ⟨root, read⟩ := exists_of_isOk readable
  exact ⟨root, read, elements_stand_at_tags read⟩

/-- Behind a byte order mark the line end right before a tag is missed. -/
theorem Markup.marked_line_missed :
    "\ufeff\n<a/>".toList = "\ufeff\n".toList ++ "<a/>".toList ∧
    (parse "\ufeff\n<a/>").toOption.map (·.line) = some 1 ∧ 1 + newlines "\ufeff\n".toList = 2 := by
  decide +kernel

end ModelCatalog
