import ModelCatalog.Proofs.Markup.Nesting
import ModelCatalog.Proofs.Markup.Written

/-!
# Reading what was written

A document that writes an element tree is read as that tree, up to its lines, when the tree nests within
the limit, and is refused when it does not (`Markup.parse_written`). The lines of elements decide nothing,
so that reading is the same without them (`Progress.unlined_run`). Behind an element that is written the
reader has attached it, and behind a content it has filled it in; one induction over both shows this for
any rest of the document.
-/

namespace ModelCatalog

namespace Element

/-- An element tree without its lines. -/
def unlined : Element → Element
  | ⟨tag, _, attributes, text, children⟩ => ⟨tag, 0, attributes, text, all children⟩
where
  all : List Element → List Element
    | [] => []
    | child :: rest => child.unlined :: all rest

theorem unlined_eq (e : Element) : e.unlined = { e with line := 0, children := e.children.map unlined } := by
  have each (children : List Element) : unlined.all children = children.map unlined := by
    induction children with
    | nil => rfl
    | cons child rest ih => rw [unlined.all, ih, List.map_cons]
  obtain ⟨tag, line, attributes, text, children⟩ := e
  rw [unlined, each]

end Element

namespace Markup

/-! ## Without lines -/

namespace Progress

/-- What has been read, without lines. -/
def unlined (progress : Progress) : Progress :=
  { stack := progress.stack.map Element.unlined, root := progress.root.map Element.unlined }

variable {progress : Progress} {line : Nat}

theorem unlined_attach (element : Element) :
    (progress.attach element).toOption.map unlined = (progress.unlined.attach element.unlined).toOption := by
  obtain ⟨stack, root⟩ := progress
  cases stack with
  | nil => cases root <;> rfl
  | cons parent outer =>
    simp [attach, unlined, Except.toOption, Element.unlined_eq parent, Element.unlined_eq { parent with children := _ }]

theorem unlined_append (text : List Char) :
    (progress.append line text).toOption.map unlined = (progress.unlined.append 0 text).toOption := by
  obtain ⟨stack, root⟩ := progress
  cases stack with
  | nil =>
    simp only [append, unlined, List.map_nil]
    split <;> rfl
  | cons top outer =>
    simp [append, unlined, Except.toOption, Element.unlined_eq top, Element.unlined_eq { top with text := _ }]

theorem unlined_close (name : List Char) :
    (progress.close line name).toOption.map unlined = (progress.unlined.close 0 name).toOption := by
  obtain ⟨stack, root⟩ := progress
  cases stack with
  | nil => rfl
  | cons top outer =>
    have sameTag : top.unlined.tag = top.tag := by rw [Element.unlined_eq]
    simp only [close, unlined, List.map_cons, sameTag]
    split
    · exact unlined_attach top
    · rfl

theorem toOption_readAttributes (line : Nat) (attributes : List RawAttribute) :
    (readAttributes line attributes).toOption = (readAttributes 0 attributes).toOption := by
  induction attributes with
  | nil => rfl
  | cons raw rest ih =>
    simp only [readAttributes]
    split
    · rfl
    · rw [toOption_bind, toOption_bind, ih]

theorem unlined_openElement (line : Nat) (content : TagContent) :
    (openElement line content).toOption.map Element.unlined = (openElement 0 content).toOption := by
  have same := toOption_readAttributes line content.attributes
  rw [openElement, openElement, toOption_bind, toOption_bind, same]
  cases (readAttributes 0 content.attributes).toOption with
  | none => rfl
  | some attributes => cases content.error <;> rfl

theorem toOption_step_startTag (content : TagContent) :
    (progress.step line (.startTag content)).toOption =
      if progress.stack.length < maxDepth then
        (openElement line content).toOption.map fun element => { progress with stack := element :: progress.stack }
      else none := by
  rw [step, checkDepth]
  split
  · cases openElement line content <;> rfl
  · rfl

theorem toOption_step_emptyTag (content : TagContent) :
    (progress.step line (.emptyTag content)).toOption =
      if progress.stack.length < maxDepth then
        (openElement line content).toOption.bind fun element => (progress.attach element).toOption
      else none := by
  rw [step, checkDepth]
  split
  · cases openElement line content <;> rfl
  · rfl

/-- The lines of elements decide nothing. -/
theorem unlined_step (line : Nat) (event : Event) :
    (progress.step line event).toOption.map unlined = (progress.unlined.step 0 event).toOption := by
  have sameLength : progress.unlined.stack.length = progress.stack.length := List.length_map _
  cases event with
  | startTag content =>
    rw [toOption_step_startTag, toOption_step_startTag, sameLength, ← unlined_openElement line]
    split
    · cases (openElement line content).toOption <;> rfl
    · rfl
  | emptyTag content =>
    rw [toOption_step_emptyTag, toOption_step_emptyTag, sameLength, ← unlined_openElement line]
    split
    · cases (openElement line content).toOption with
      | none => rfl
      | some element => exact unlined_attach element
    · rfl
  | endTag name => exact unlined_close name
  | text raw =>
    simp only [step]
    cases unescape raw with
    | error cause => rfl
    | ok text => exact unlined_append text
  | cdata raw => exact unlined_append raw
  | skipped => rfl
  | broken error => rfl

/-- What events lead to, when no element has a line. -/
def replay (progress : Progress) : List Event → Option Progress
  | [] => some progress
  | event :: rest => (progress.step 0 event).toOption.bind (·.replay rest)

/-- Without lines, events lead to the same. -/
theorem unlined_run (progress : Progress) (lines : Text.LineCounter) (events : List (Nat × Event)) :
    (progress.run lines events).toOption.map unlined = progress.unlined.replay (events.map (·.2)) := by
  induction events generalizing progress lines with
  | nil => rfl
  | cons place rest ih =>
    obtain ⟨position, event⟩ := place
    rw [run, List.map_cons, replay, ← unlined_step (lines.advance position).line event, toOption_bind]
    cases (progress.step (lines.advance position).line event).toOption with
    | none => rfl
    | some next => exact ih next (lines.advance position)

/-! ## Events of what is written -/

theorem replay_skipped (rest : List Event) : progress.replay (.skipped :: rest) = progress.replay rest := rfl

theorem replay_text (raw : List Char) (rest : List Event) : progress.replay (.text raw :: rest) =
    (unescaped? raw).bind fun text => (progress.append 0 text).toOption.bind (·.replay rest) := by
  rw [replay, step, unescaped?]
  cases unescape raw <;> rfl

/-- Two pieces of text one after the other are one piece. -/
theorem append_append (first second : List Char) :
    (progress.append line (first ++ second)).toOption =
      (progress.append line first).toOption.bind fun next => (next.append line second).toOption := by
  obtain ⟨stack, root⟩ := progress
  cases stack with
  | cons top outer => simp [append, Except.toOption, String.append_assoc]
  | nil =>
    simp only [append, List.all_append, Bool.and_eq_true]
    by_cases firstBlank : first.all Text.isBlank = true
    · simp only [firstBlank, true_and, if_true]
      rfl
    · rw [if_neg firstBlank, if_neg fun both => firstBlank both.1]
      rfl

theorem eventsOf_run {word : List Char} (notEmpty : word ≠ []) (noMarkup : '<' ∉ word) (rest : List Char) :
    eventsOf (word ++ rest) =
      .text (word ++ rest.takeWhile (· ≠ '<')) :: eventsOf (rest.dropWhile (· ≠ '<')) := by
  cases word with
  | nil => exact absurd rfl notEmpty
  | cons c tail =>
    rw [List.mem_cons, not_or] at noMarkup
    have inside : ∀ other ∈ tail, decide (other ≠ '<') = true := fun other member =>
      decide_eq_true fun same => noMarkup.2 (same ▸ member)
    rw [List.cons_append, eventsOf_text (Ne.symm noMarkup.1), List.takeWhile_append_of_pos inside,
      List.dropWhile_append_of_pos inside, List.cons_append]

/-- An escaped piece is put in front of what follows, also where a text goes on. -/
theorem replay_escape {piece : List Char} (notEmpty : piece ≠ []) (rest : List Char) :
    progress.replay (eventsOf (escape piece ++ rest)) =
      (progress.append 0 piece).toOption.bind (·.replay (eventsOf rest)) := by
  rw [eventsOf_run (escape_ne_nil notEmpty) (not_mem_escape (.inl rfl)), replay_text, unescaped?_escape_append]
  cases rest with
  | nil => exact congrArg (fun text => (progress.append 0 text).toOption.bind _) (List.append_nil piece)
  | cons c tail =>
    by_cases markup : c = '<'
    · rw [List.takeWhile_cons_of_neg (by simp [markup]), List.dropWhile_cons_of_neg (by simp [markup])]
      exact congrArg (fun text => (progress.append 0 text).toOption.bind _) (List.append_nil piece)
    · rw [List.takeWhile_cons_of_pos (by simp [markup]), List.dropWhile_cons_of_pos (by simp [markup]),
        eventsOf_text markup]
      simp only [replay_text]
      cases unescaped? (c :: tail.takeWhile (· ≠ '<')) with
      | none => simp
      | some text => simp [append_append, Option.bind_assoc]

end Progress

end Markup

/-! ## Elements that are written -/

namespace Element

/-- An element that was opened by the start tag of another. -/
def opened (e : Element) : Element := { tag := e.tag, line := 0, attributes := e.attributes }

/-- An element with more text and more children. -/
def filled (e : Element) (text : Option String) (children : List Element) : Element :=
  { e with text := e.text.merge (· ++ ·) text, children := e.children ++ children.map unlined }

theorem opened_filled (e : Element) : e.opened.filled e.text e.children = e.unlined := by
  rw [unlined_eq, filled, opened]
  cases h : e.text <;> simp

theorem filled_nil (e : Element) : e.filled none [] = e := by
  obtain ⟨tag, line, attributes, text, children⟩ := e
  cases text <;> simp [filled]

theorem filled_piece (e : Element) (piece : String) (text : Option String) (children : List Element) :
    filled { e with text := some (e.text.getD "" ++ piece) } text children =
      e.filled (some (piece ++ text.getD "")) children := by
  rw [filled, filled]
  cases e.text <;> cases text <;> simp [String.append_assoc]

theorem filled_child (e child : Element) (text : Option String) (children : List Element) :
    filled { e with children := e.children ++ [child.unlined] } text children =
      e.filled text (child :: children) := by
  simp [filled]

end Element

namespace Markup

theorem readAttributes_map (line : Nat) (attributes : List (String × String)) :
    readAttributes line (attributes.map rawAttribute) = .ok attributes := by
  induction attributes with
  | nil => rfl
  | cons pair rest ih =>
    obtain ⟨name, value⟩ := pair
    rw [List.map_cons, readAttributes, rawAttribute, unescape_escape]
    simp only [ih, String.ofList_toList]
    rfl

theorem openElement_tagContent (e : Element) : openElement 0 (tagContent e) = .ok e.opened := by
  rw [openElement, tagContent, readAttributes_map]
  simp only [String.ofList_toList]
  rfl

namespace Progress

variable {progress : Progress}

theorem replay_emptyTag (e : Element) (rest : List Event) :
    progress.replay (.emptyTag (tagContent e) :: rest) =
      if progress.stack.length < maxDepth then (progress.attach e.opened).toOption.bind (·.replay rest)
      else none := by
  rw [replay, toOption_step_emptyTag, openElement_tagContent]
  split <;> rfl

theorem replay_startTag (e : Element) (rest : List Event) :
    progress.replay (.startTag (tagContent e) :: rest) =
      if progress.stack.length < maxDepth then
        replay { progress with stack := e.opened :: progress.stack } rest
      else none := by
  rw [replay, toOption_step_startTag, openElement_tagContent]
  split <;> rfl

theorem replay_endTag {top : Element} {outer : List Element} {root : Option Element} {name : List Char}
    (sameTag : top.tag = String.ofList name) (rest : List Event) :
    replay ⟨top :: outer, root⟩ (.endTag name :: rest) =
      (attach ⟨outer, root⟩ top).toOption.bind (·.replay rest) := by
  have closed : (close ⟨top :: outer, root⟩ 0 name) = attach ⟨outer, root⟩ top := if_pos sameTag
  rw [replay, step, closed]

end Progress

mutual

/-- Behind an element that is written the reader has attached it, if there was room. -/
theorem Writes.replay_eq {e : Element} {word : List Char} (writes : Writes e word) (progress : Progress)
    (rest : List Char) : progress.replay (eventsOf (word ++ rest)) =
      if progress.stack.length + e.nesting ≤ maxDepth then
        (progress.attach e.unlined).toOption.bind (·.replay (eventsOf rest))
      else none := by
  match writes with
  | @Writes.single e tag writesTag noText noChildren =>
    have whole : '<' :: (tag ++ ['/', '>']) ++ rest = '<' :: (tag ++ '/' :: '>' :: rest) := by simp
    have same : e.unlined = e.opened := by rw [← e.opened_filled, noText, noChildren, e.opened.filled_nil]
    have nesting : e.nesting = 1 := by rw [e.nesting_eq, noChildren, Element.nesting.deepest]
    rw [whole, eventsOf_single writesTag, Progress.replay_emptyTag, same, nesting]
    rfl
  | @Writes.paired e tag content blanks writesTag writesContent blank =>
    have whole : '<' :: (tag ++ '>' :: (content ++ '<' :: '/' :: (e.tag.toList ++ (blanks ++ ['>'])))) ++ rest =
        '<' :: (tag ++ '>' :: (content ++ '<' :: '/' :: (e.tag.toList ++ (blanks ++ '>' :: rest)))) := by simp
    rw [whole, eventsOf_startTag writesTag, Progress.replay_startTag, e.nesting_eq]
    split
    next room =>
      obtain ⟨plain, _, _⟩ := writesTag
      have sameTag : (e.opened.filled e.text e.children).tag = String.ofList e.tag.toList := by
        rw [String.ofList_toList]
        rfl
      have depth : progress.stack.length + (Element.nesting.deepest e.children + 1) =
          progress.stack.length + 1 + Element.nesting.deepest e.children := by omega
      rw [writesContent.replay_eq room, eventsOf_endTag plain blank, Progress.replay_endTag sameTag,
        e.opened_filled, depth]
    next full => rw [if_neg (by omega)]

/-- Behind a content that is written the reader has filled it into the innermost open element. -/
theorem WritesContent.replay_eq {text : Option String} {children : List Element} {word : List Char}
    (writes : WritesContent text children word) {outer : List Element} (room : outer.length + 1 ≤ maxDepth)
    (top : Element) (root : Option Element) (rest : List Char) :
    Progress.replay ⟨top :: outer, root⟩ (eventsOf (word ++ rest)) =
      if outer.length + 1 + Element.nesting.deepest children ≤ maxDepth then
        Progress.replay ⟨top.filled text children :: outer, root⟩ (eventsOf rest)
      else none := by
  match writes with
  | .nil =>
    rw [top.filled_nil]
    exact (if_pos room).symm
  | @WritesContent.text text children piece word notEmpty content =>
    rw [List.append_assoc, Progress.replay_escape notEmpty, ← Element.filled_piece]
    exact content.replay_eq room _ root rest
  | @WritesContent.cdata text children piece word notEmpty noEnd content =>
    have whole : '<' :: (cdataOpening ++ (piece ++ ']' :: ']' :: '>' :: word)) ++ rest =
        '<' :: (cdataOpening ++ (piece ++ ']' :: ']' :: '>' :: (word ++ rest))) := by simp
    rw [whole, eventsOf_cdata noEnd, ← Element.filled_piece]
    exact content.replay_eq room _ root rest
  | .aside isAside content =>
    rw [List.append_assoc, eventsOf_aside isAside]
    exact content.replay_eq room top root rest
  | @WritesContent.child text child children part word element content =>
    rw [List.append_assoc, element.replay_eq, Element.nesting.deepest, ← Element.filled_child]
    by_cases fits : (top :: outer).length + child.nesting ≤ maxDepth
    · have both : outer.length + 1 + max child.nesting (Element.nesting.deepest children) ≤ maxDepth ↔
          outer.length + 1 + Element.nesting.deepest children ≤ maxDepth := by
        rw [List.length_cons] at fits
        omega
      rw [if_pos fits]
      simp only [both]
      exact content.replay_eq room { top with children := top.children ++ [child.unlined] } root rest
    · rw [if_neg fits, if_neg]
      rw [List.length_cons] at fits
      omega

end

/-! ## Documents that are written -/

theorem escape_of_isSpace {blanks : List Char} (blank : blanks.all isSpace) : escape blanks = blanks := by
  induction blanks with
  | nil => rfl
  | cons c rest ih =>
    rw [List.all_cons, Bool.and_eq_true] at blank
    have plain : entityName? c = none := by
      rcases isSpace_cases blank.1 with rfl | rfl | rfl | rfl <;> rfl
    rw [escape_cons, ih blank.2, escapeChar_of_plain plain, List.singleton_append]

theorem isBlank_of_isSpace {c : Char} (space : isSpace c) : Text.isBlank c := by
  rcases isSpace_cases space with rfl | rfl | rfl | rfl <;> rfl

/-- What surrounds the root changes nothing. -/
theorem Surrounds.replay_eq {word : List Char} (surrounds : Surrounds word) (root : Option Element)
    (rest : List Char) :
    Progress.replay ⟨[], root⟩ (eventsOf (word ++ rest)) = Progress.replay ⟨[], root⟩ (eventsOf rest) := by
  induction surrounds with
  | nil => rfl
  | @blanks blanks word blank _ ih =>
    by_cases isEmpty : blanks = []
    · rw [isEmpty, List.nil_append, ih]
    · have allBlank : blanks.all Text.isBlank := List.all_eq_true.mpr fun c member =>
        isBlank_of_isSpace (List.all_eq_true.mp blank c member)
      have kept : Progress.append ⟨[], root⟩ 0 blanks = .ok ⟨[], root⟩ := if_pos allBlank
      have read : Progress.replay ⟨[], root⟩ (eventsOf (escape blanks ++ (word ++ rest))) = _ :=
        Progress.replay_escape isEmpty _
      rw [escape_of_isSpace blank, kept] at read
      rw [List.append_assoc, read]
      exact ih
  | aside isAside _ ih => rw [List.append_assoc, eventsOf_aside isAside, Progress.replay_skipped, ih]

theorem WritesDocument.replay_eq {root : Element} {text : List Char} (writes : WritesDocument root text) :
    ({} : Progress).replay (eventsOf text) =
      if root.nesting ≤ maxDepth then some ⟨[], some root.unlined⟩ else none := by
  obtain ⟨before, written, after⟩ := writes
  have behind := after.replay_eq (some root.unlined) []
  rw [List.append_nil, eventsOf_nil] at behind
  rw [before.replay_eq, written.replay_eq, List.length_nil, Nat.zero_add]
  split
  · exact behind
  · rfl

/-- A document that is written does not start with a byte order mark. -/
theorem WritesDocument.head_cases {root : Element} {text : List Char} (writes : WritesDocument root text) :
    ∀ c, text.head? = some c → c = '<' ∨ isSpace c := by
  obtain ⟨before, written, _⟩ := writes
  intro c isHead
  induction before with
  | nil =>
    cases written <;> cases isHead <;> exact .inl rfl
  | @blanks blanks word blank _ ih =>
    cases blanks with
    | nil => exact ih isHead
    | cons first rest =>
      cases isHead
      exact .inr (List.all_eq_true.mp blank _ List.mem_cons_self)
  | aside isAside _ _ => cases isAside <;> cases isHead <;> exact .inl rfl

theorem WritesDocument.withoutMark_eq {root : Element} {text : List Char} (writes : WritesDocument root text) :
    withoutMark text = text := by
  cases text with
  | nil => rfl
  | cons c rest =>
    rw [withoutMark, if_neg]
    rintro rfl
    rcases writes.head_cases _ rfl with impossible | impossible <;> cases impossible

/-- Behind a document that is written the reader has its tree, up to the lines, if the tree nests within the limit. -/
theorem WritesDocument.run_eq {root : Element} {text : String} (writes : WritesDocument root text.toList) :
    (Progress.run {} (.start text.toList) (events text.toList)).toOption.map Progress.unlined =
      if root.nesting ≤ maxDepth then some ⟨[], some root.unlined⟩ else none := by
  have start : ({} : Progress).unlined = {} := rfl
  rw [Progress.unlined_run, start, events_eq, map_eventsFrom, writes.withoutMark_eq, writes.replay_eq]

/-- A tree that nests within the limit is read from every document that writes it, up to its lines. -/
theorem WritesDocument.exists_parse {root : Element} {text : String} (writes : WritesDocument root text.toList)
    (fits : root.nesting ≤ maxDepth) : ∃ read, parse text = .ok read ∧ read.unlined = root.unlined := by
  have run := writes.run_eq
  rw [if_pos fits] at run
  obtain ⟨⟨stack, found⟩, isRun, same⟩ := Option.map_eq_some_iff.mp run
  obtain ⟨isStack, isRoot⟩ := Progress.mk.inj same
  cases List.map_eq_nil_iff.mp isStack
  obtain ⟨read, rfl, sameTree⟩ := Option.map_eq_some_iff.mp isRoot
  refine ⟨read, ?_, sameTree⟩
  rw [parse]
  simp only [toOption_eq_some_iff.mp isRun]
  rfl

/-- Every tree that can be written is written by some document. A tree that nests within the limit is read from
    every document that writes it, up to its lines, and one that nests deeper from none. No tree that is read
    nests deeper. -/
theorem parse_written :
    (∀ root : Element, Writable root → ∃ text : String, WritesDocument root text.toList) ∧
    (∀ (root : Element) (text : String), WritesDocument root text.toList →
      (root.nesting ≤ maxDepth → ∃ read, parse text = .ok read ∧ read.unlined = root.unlined) ∧
      (maxDepth < root.nesting → ∃ error, parse text = .error error)) ∧
    ∀ (text : String) (root : Element), parse text = .ok root → root.nesting ≤ maxDepth := by
  refine ⟨fun root writable => writable.exists_writesDocument, fun root text writes => ?_,
    fun text root read => nesting_le_of_parse read⟩
  refine ⟨writes.exists_parse, fun tooDeep => ?_⟩
  have run := writes.run_eq
  rw [if_neg (Nat.not_le.mpr tooDeep), Option.map_eq_none_iff, toOption_eq_none_iff] at run
  obtain ⟨error, isError⟩ := run
  refine ⟨error, ?_⟩
  rw [parse]
  simp only [isError]
  rfl

/-- A document with an attribute, text, character data, a comment and an empty element. -/
def writtenText : String := "<a b=\"&lt;\">x<!----><![CDATA[<y>]]><c/></a>\n"

/-- The tree of this document. -/
def writtenRoot : Element :=
  { tag := "a", line := 1, attributes := [("b", "<")], text := some "x<y>", children := [{ tag := "c", line := 1 }] }

theorem writtenText_writes : WritesDocument writtenRoot writtenText.toList := by
  have plain {name : String} (c : Char) (same : name.toList = [c]) (letter : c.isAlpha) : PlainName name.toList :=
    ⟨c, [], same, letter, rfl⟩
  have child : Writes { tag := "c", line := 1 } ('<' :: ("c".toList ++ [] ++ ['/', '>'])) :=
    .single (.intro (plain 'c' (by decide +kernel) rfl) .nil (.nil rfl)) rfl rfl
  have aside : Aside ('<' :: '!' :: '-' :: '-' :: ([] ++ ['-', '-', '>'])) := .comment (by decide)
  have content := WritesContent.text (List.cons_ne_nil 'x' [])
    (.aside aside (.cdata (List.cons_ne_nil '<' ['y', '>']) (by decide) (.child child .nil)))
  have tag : WritesTag writtenRoot ("a".toList ++ ([' '] ++ ("b".toList ++ ([] ++
      '=' :: ([] ++ '"' :: (escape "<".toList ++ '"' :: [])))))) :=
    .intro (plain 'a' (by decide +kernel) rfl) (by decide)
      (.cons (plain 'b' (by decide +kernel) rfl) (List.cons_ne_nil _ _) rfl rfl rfl (.nil rfl))
  have isText : some (String.ofList ['x'] ++ (some (String.ofList ['<', 'y', '>'] ++ none.getD "")).getD "") =
      writtenRoot.text := by decide +kernel
  rw [isText] at content
  have around : Surrounds (['\n'] ++ []) := .blanks rfl .nil
  have document := WritesDocument.intro .nil (.paired tag content (rfl : [].all isSpace)) around
  exact Eq.mp (congrArg (WritesDocument writtenRoot) (by decide +kernel)) document

theorem writtenText_parse_written :
    WritesDocument writtenRoot writtenText.toList ∧
      ∃ read, parse writtenText = .ok read ∧ read.unlined = writtenRoot.unlined ∧ read.nesting ≤ maxDepth := by
  obtain ⟨_, reads, bounded⟩ := parse_written
  obtain ⟨read, isRead, same⟩ := (reads writtenRoot writtenText writtenText_writes).1 (by decide)
  exact ⟨writtenText_writes, read, isRead, same, bounded writtenText read isRead⟩

end Markup

end ModelCatalog
