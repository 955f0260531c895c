/-!
# Blank characters

Blanks are the characters with the Unicode property White_Space. Texts are trimmed of them at both
ends, and a tag expression is stripped of them altogether. Main statements: trimming
takes off a blank run at either end and nothing else (`trim_append`), and a trimmed word neither
starts nor ends with a blank (`isBlank_head_trim`, `isBlank_getLast_trim`).
-/

namespace ModelCatalog.Text

/-- Exactly the twenty-five code points with the property White_Space. -/
def isBlank (c : Char) : Bool :=
  let code := c.toNat
  (0x09 ≤ code && code ≤ 0x0d) || code == 0x20 || code == 0x85 || code == 0xa0 || code == 0x1680 ||
    (0x2000 ≤ code && code ≤ 0x200a) || code == 0x2028 || code == 0x2029 || code == 0x202f ||
    code == 0x205f || code == 0x3000

/-- A word without the blanks it starts with. -/
def trimLeft (word : List Char) : List Char := word.dropWhile isBlank

/-- A word without the blanks it ends with. -/
def trimRight (word : List Char) : List Char := (word.reverse.dropWhile isBlank).reverse

/-- A word without the blanks at either end. -/
def trim (word : List Char) : List Char := trimRight (trimLeft word)

/-- A word without any of its blanks. -/
def strip (word : List Char) : List Char := word.filter (!isBlank ·)

theorem trimLeft_append (word : List Char) : word.takeWhile isBlank ++ trimLeft word = word :=
  List.takeWhile_append_dropWhile

theorem trimRight_append (word : List Char) :
    trimRight word ++ (word.reverse.takeWhile isBlank).reverse = word := by
  rw [trimRight, ← List.reverse_append, List.takeWhile_append_dropWhile, List.reverse_reverse]

/-- Trimming takes a blank run from either end and nothing else. -/
theorem trim_append (word : List Char) :
    ∃ before after, word = before ++ trim word ++ after ∧ before.all isBlank ∧ after.all isBlank := by
  refine ⟨word.takeWhile isBlank, ((trimLeft word).reverse.takeWhile isBlank).reverse, ?_, ?_, ?_⟩
  · rw [trim, List.append_assoc, trimRight_append, trimLeft_append]
  · exact List.all_takeWhile
  · rw [List.all_reverse]; exact List.all_takeWhile

theorem isBlank_head_trimLeft {c : Char} {rest word : List Char} (h : trimLeft word = c :: rest) :
    isBlank c = false := by
  have first := List.head?_dropWhile_not isBlank word
  rw [show word.dropWhile isBlank = c :: rest from h] at first
  exact first

/-- A trimmed word does not start with a blank. -/
theorem isBlank_head_trim {c : Char} {rest word : List Char} (h : trim word = c :: rest) :
    isBlank c = false := by
  have whole := trimRight_append (trimLeft word)
  rw [show trimRight (trimLeft word) = c :: rest from h] at whole
  exact isBlank_head_trimLeft whole.symm

/-- A trimmed word does not end with a blank. -/
theorem isBlank_getLast_trim {c : Char} {rest word : List Char} (h : trim word = rest ++ [c]) :
    isBlank c = false := by
  have reversed := congrArg List.reverse h
  rw [trim, trimRight, List.reverse_reverse, List.reverse_append] at reversed
  exact isBlank_head_trimLeft reversed

theorem strip_append (left right : List Char) : strip (left ++ right) = strip left ++ strip right :=
  List.filter_append left right

theorem strip_of_isBlank {c : Char} (blank : isBlank c = true) (word : List Char) : strip (c :: word) = strip word :=
  List.filter_cons_of_neg (by simp [blank])

theorem strip_of_not_isBlank {c : Char} (letter : isBlank c = false) (word : List Char) :
    strip (c :: word) = c :: strip word :=
  List.filter_cons_of_pos (by simp [letter])

/-- A word without blanks stays as it is. -/
theorem strip_eq_self {word : List Char} (letters : ∀ c ∈ word, isBlank c = false) : strip word = word :=
  List.filter_eq_self.mpr fun c member => by simp [letters c member]

/-- Trimming a word takes off blanks only, which stripping it takes off as well. -/
theorem strip_trim (word : List Char) : strip (trim word) = strip word := by
  obtain ⟨before, after, split, blankBefore, blankAfter⟩ := trim_append word
  have stripped : ∀ run : List Char, run.all isBlank = true → strip run = [] := by
    intro run blank
    rw [strip, List.filter_eq_nil_iff]
    intro c member
    simp [List.all_eq_true.mp blank c member]
  calc strip (trim word)
    _ = strip before ++ strip (trim word) ++ strip after := by simp [stripped, blankBefore, blankAfter]
    _ = strip (before ++ trim word ++ after) := by simp [strip]
    _ = strip word := by rw [← split]

end ModelCatalog.Text
