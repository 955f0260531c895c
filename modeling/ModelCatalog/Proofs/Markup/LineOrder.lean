import ModelCatalog.Proofs.Markup.Lines
import ModelCatalog.Proofs.Text.ByteOrder

/-!
# The order of lines

A line counter that is asked for one position after another counts every line end once. Its answers are those of a
count of line ends in the bytes before each position (`LineCounter.lines_eq`), since no other character has the byte
of a line end in its encoding. More bytes hold no fewer line ends, and the start tags of a document stand one behind
the other. So the lines of a tree that was read never fall in document order, and none is beyond the last line of the
text (`Markup.lines_exact_and_ordered`).
-/

namespace ModelCatalog

namespace Text

/-- The byte of a line end. -/
def newlineByte : UInt8 := 10

/-- The line of a position, counted from the start: one more than the line ends in the bytes before it. -/
def lineAt (text : String) (position : Nat) : Nat := 1 + ((bytes text).take position).count newlineByte

/-! ## Bytes of line ends -/

theorem newlineByte_notMem {c : Char} (other : c ≠ '\n') : newlineByte ∉ String.utf8EncodeChar c := by
  have bound : c.val.toNat < 0x110000 := by
    rcases c.valid with low | high
    · omega
    · exact high.2
  have notTen : c.val.toNat ≠ 10 := by
    intro same
    exact other (Char.ext (UInt32.toNat_inj.mp same))
  simp only [String.utf8EncodeChar, newlineByte]
  generalize c.val.toNat = code at bound notTen
  -- A byte of a longer encoding is above those of ASCII.
  repeat' split
  all_goals
    simp only [List.mem_cons, List.not_mem_nil, or_false, not_or, ← UInt8.toNat_inj, UInt8.toNat_ofNat']
    simp
    omega

/-- The line ends in the first bytes of a character: the character is one, or none of its bytes is. -/
theorem count_take_encoding (c : Char) (position : Nat) :
    ((String.utf8EncodeChar c).take position).count newlineByte = if c = '\n' ∧ position ≠ 0 then 1 else 0 := by
  by_cases newline : c = '\n'
  · subst newline
    have encoded : String.utf8EncodeChar '\n' = [newlineByte] := by decide
    cases position with
    | zero => simp
    | succ position => simp [encoded]
  · have absent : newlineByte ∉ (String.utf8EncodeChar c).take position :=
      fun member => newlineByte_notMem newline (List.mem_of_mem_take member)
    simp [newline, List.count_eq_zero_of_not_mem absent]

/-- The line ends among the first bytes of a word are those among its characters that begin there. -/
theorem count_take_bytes (word : List Char) (position : Nat) :
    ((word.flatMap String.utf8EncodeChar).take position).count newlineByte = newlinesBefore position word := by
  induction word generalizing position with
  | nil => simp [newlinesBefore]
  | cons c rest ih =>
    rw [List.flatMap_cons, List.take_append, List.count_append, String.length_utf8EncodeChar, ih, count_take_encoding,
      newlinesBefore]
    by_cases start : position = 0
    · subst start
      cases rest <;> simp [newlinesBefore]
    · simp [start]

theorem newlinesBefore_eq_lineAt (position : Nat) (text : String) :
    1 + newlinesBefore position text.toList = lineAt text position := by
  rw [lineAt, bytes_eq, count_take_bytes]

/-- Lines never fall. -/
theorem lineAt_mono (text : String) {position next : Nat} (le : position ≤ next) :
    lineAt text position ≤ lineAt text next := by
  have fewer : ((bytes text).take position).count newlineByte ≤ ((bytes text).take next).count newlineByte :=
    (List.take_sublist_take_left le).count_le newlineByte
  simp only [lineAt]
  omega

theorem newlinesBefore_le (position : Nat) (word : List Char) : newlinesBefore position word ≤ newlines word := by
  induction word generalizing position with
  | nil => simp [newlinesBefore]
  | cons c rest ih =>
    have later := ih (position - c.utf8Size)
    have counted : newlines (c :: rest) = newlines rest + if c = '\n' then 1 else 0 := by
      simp [newlines, List.count_cons]
    rw [newlinesBefore, counted]
    split <;> omega

/-- No line is beyond the last. -/
theorem lineAt_le (text : String) (position : Nat) : lineAt text position ≤ 1 + newlines text.toList := by
  have bound := newlinesBefore_le position text.toList
  rw [← newlinesBefore_eq_lineAt]
  omega

/-! ## A counter that is asked again and again -/

namespace LineCounter

/-- The answers to questions for the lines of positions, one after the other. -/
def lines (counter : LineCounter) : List Nat → List Nat
  | [] => []
  | position :: rest => (counter.advance position).line :: (counter.advance position).lines rest

/-- A counter answers as one that starts anew for each position, when no position is before the one it has reached. -/
theorem lines_advance {text : List Char} {positions : List Nat} (rising : positions.Pairwise (· ≤ ·)) {reached : Nat}
    (later : ∀ position ∈ positions, reached ≤ position) :
    ((start text).advance reached).lines positions =
      positions.map fun position => ((start text).advance position).line := by
  induction positions generalizing reached with
  | nil => rfl
  | cons position rest ih =>
    obtain ⟨above, others⟩ := List.pairwise_cons.mp rising
    rw [lines, advance_advance (later position List.mem_cons_self), ih others above, List.map_cons]

theorem lines_start {text : List Char} {positions : List Nat} (rising : positions.Pairwise (· ≤ ·)) :
    (start text).lines positions = positions.map fun position => ((start text).advance position).line := by
  rw [← lines_advance rising fun position _ => Nat.zero_le position, start_advance_zero]

/-- Asked for positions that never fall, a counter counts the line ends before each of them. -/
theorem lines_eq (text : String) {positions : List Nat} (rising : positions.Pairwise (· ≤ ·)) :
    (start text.toList).lines positions = positions.map (lineAt text) := by
  rw [lines_start rising]
  refine List.map_congr_left fun position _ => ?_
  rw [line_start_advance, newlinesBefore_eq_lineAt]

end LineCounter

end Text

open Text

/-! ## Lines of a tree -/

namespace Element

/-- A part of a tree has its own parts in the same order. -/
theorem preorder_sublist {part root : Element} (member : part ∈ root.preorder) :
    part.preorder.Sublist root.preorder := by
  rw [preorder_eq root, List.mem_cons] at member
  rcases member with rfl | below
  · exact List.Sublist.refl _
  · obtain ⟨child, isChild, inside⟩ := List.mem_flatMap.mp below
    have smaller := sizeOf_lt_of_mem_children isChild
    have among : child.preorder.Sublist (root.children.flatMap preorder) :=
      List.sublist_flatten_of_mem (List.mem_map_of_mem isChild)
    rw [preorder_eq root]
    exact (preorder_sublist inside).trans (among.trans (List.sublist_cons_self _ _))
termination_by sizeOf root

/-- Lines never fall in document order. -/
def LinesRise (root : Element) : Prop := root.preorder.Pairwise (·.line ≤ ·.line)

/-- Where lines rise, all below a child stand no earlier than the parent and than all in the children before it. -/
theorem LinesRise.child {root parent child : Element} {before after : List Element} (rise : root.LinesRise)
    (within : parent ∈ root.preorder) (isChild : parent.children = before ++ child :: after) {part : Element}
    (inside : part ∈ child.preorder) :
    parent.line ≤ part.line ∧ ∀ sibling ∈ before, ∀ other ∈ sibling.preorder, other.line ≤ part.line := by
  have own : parent.preorder.Pairwise (·.line ≤ ·.line) := rise.sublist (preorder_sublist within)
  rw [preorder_eq, isChild, List.flatMap_append, List.flatMap_cons, List.pairwise_cons, List.pairwise_append] at own
  obtain ⟨below, _, _, across⟩ := own
  have later : part ∈ child.preorder ++ after.flatMap preorder := List.mem_append_left _ inside
  refine ⟨below part (List.mem_append_right _ later), fun sibling isSibling other isOther => ?_⟩
  exact across other (List.mem_flatMap.mpr ⟨sibling, isSibling, isOther⟩) part later

end Element

namespace Markup

theorem startTags_rise (text : List Char) : (startTags text).Pairwise (·.1 ≤ ·.1) := by
  rw [startTags, events_eq, tagsAmong]
  refine (pairwise_eventsFrom _ _).filterMap _ fun first second le => ?_
  simp only [Option.map_eq_some_iff]
  rintro _ ⟨name, _, rfl⟩ _ ⟨other, _, rfl⟩
  exact le

/-- The lines of a tree that was read are those of the start tags. -/
theorem lines_of_parse {text : String} {root : Element} (read : parse text = .ok root) :
    root.preorder.map (·.line) = (startTags text.toList).map fun tag => lineAt text tag.1 := by
  have same := congrArg (List.map Prod.snd) (headings_of_parse read)
  simpa [Element.headings, headingIn, Function.comp_def, newlinesBefore_eq_lineAt] using same

theorem linesRise_of_parse {text : String} {root : Element} (read : parse text = .ok root) : root.LinesRise := by
  have rising : (root.preorder.map (·.line)).Pairwise (· ≤ ·) := by
    rw [lines_of_parse read, List.pairwise_map]
    exact (startTags_rise text.toList).imp fun le => lineAt_mono text le
  exact List.pairwise_map.mp rising

/-- Asked for positions that never fall, also beyond the end of a text, a line counter answers as one that starts anew
    each time: with one more than the line ends in the bytes before each position. In a tree that was read the lines
    never fall in document order, so that no element stands before its parent or before anything in the children
    ahead of it, and no line is beyond the last line of the text. -/
theorem lines_exact_and_ordered (text : String) :
    (∀ positions : List Nat, positions.Pairwise (· ≤ ·) →
      (LineCounter.start text.toList).lines positions =
          positions.map (fun position => 1 + ((bytes text).take position).count newlineByte) ∧
        (LineCounter.start text.toList).lines positions =
          positions.map fun position => ((LineCounter.start text.toList).advance position).line) ∧
    ∀ root : Element, parse text = .ok root →
      root.LinesRise ∧
      (∀ parent ∈ root.preorder, ∀ before child after, parent.children = before ++ child :: after →
        ∀ part ∈ child.preorder, parent.line ≤ part.line ∧
          ∀ sibling ∈ before, ∀ other ∈ sibling.preorder, other.line ≤ part.line) ∧
      ∀ part ∈ root.preorder, part.line ≤ 1 + newlines text.toList := by
  refine ⟨fun positions rising => ⟨LineCounter.lines_eq text rising, LineCounter.lines_start rising⟩, ?_⟩
  intro root read
  have rise := linesRise_of_parse read
  refine ⟨rise, fun parent within before child after isChild part inside => rise.child within isChild inside, ?_⟩
  intro part member
  have isLine : part.line ∈ root.preorder.map (·.line) := List.mem_map_of_mem member
  rw [lines_of_parse read] at isLine
  obtain ⟨tag, _, same⟩ := List.mem_map.mp isLine
  rw [← same]
  exact lineAt_le text tag.1

/-- Two questions for one position, and one beyond the end of the text. -/
theorem twoLines_lines_exact_and_ordered :
    (LineCounter.start twoLines.toList).lines [0, 4, 4, 11, 99] = [1, 2, 2, 2, 2] ∧
      ∃ root, parse twoLines = .ok root ∧ root.LinesRise ∧ ∀ part ∈ root.preorder, part.line ≤ 2 := by
  have readable : (parse twoLines).isOk = true := by decide +kernel
  obtain ⟨root, read⟩ := exists_of_isOk readable
  obtain ⟨answers, ordered⟩ := lines_exact_and_ordered twoLines
  obtain ⟨rise, _, last⟩ := ordered root read
  exact ⟨(answers [0, 4, 4, 11, 99] (by decide)).1.trans (by decide +kernel), root, read, rise, last⟩

end Markup

end ModelCatalog
