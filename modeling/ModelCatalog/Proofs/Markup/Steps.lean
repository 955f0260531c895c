import ModelCatalog.Markup.Document
import ModelCatalog.Proofs.Results

/-!
# Steps of reading

All that one event can do to what has been read of a document (`Progress.Takes`, `Progress.takes_of_step`):
a tag opens an element, puts an empty one into its place, or closes the innermost open one, a text goes to
the innermost open element, and anything else changes nothing.
-/

namespace ModelCatalog.Markup

variable {line : Nat}

/-- An element that is opened has the name and the line of its tag, and no content. -/
theorem exists_of_openElement {content : TagContent} {element : Element}
    (opened : openElement line content = .ok element) :
    ∃ attributes, element = { tag := String.ofList content.name, line, attributes } := by
  obtain ⟨attributes, _, opened⟩ := bind_eq_ok_iff.mp opened
  split at opened
  · cases opened
  · cases opened
    exact ⟨attributes, rfl⟩

namespace Progress

variable {progress next : Progress}

/-- A complete element goes into the innermost open one, or becomes the root. -/
theorem attach_cases {element : Element} (attached : progress.attach element = .ok next) :
    (∃ parent outer, progress.stack = parent :: outer ∧
      next = { progress with stack := { parent with children := parent.children ++ [element] } :: outer }) ∨
    (progress.stack = [] ∧ progress.root = none ∧ next = { progress with root := some element }) := by
  obtain ⟨stack, root⟩ := progress
  cases stack with
  | cons parent outer =>
    cases attached
    exact .inl ⟨parent, outer, rfl, rfl⟩
  | nil =>
    cases root with
    | none =>
      cases attached
      exact .inr ⟨rfl, rfl, rfl⟩
    | some other => cases attached

/-- A text goes into the innermost open element, or is nothing but blanks. -/
theorem append_cases {text : List Char} (appended : progress.append line text = .ok next) :
    (∃ top outer written, progress.stack = top :: outer ∧
      next = { progress with stack := { top with text := written } :: outer }) ∨ next = progress := by
  obtain ⟨stack, root⟩ := progress
  cases stack with
  | cons top outer =>
    cases appended
    exact .inl ⟨top, outer, _, rfl, rfl⟩
  | nil =>
    rw [append] at appended
    dsimp only at appended
    split at appended <;> cases appended
    exact .inr rfl

/-- What an event at a line makes of what has been read. -/
inductive Takes (progress : Progress) (line : Nat) : Event → Progress → Prop
  | opened {content : TagContent} {element : Element} : progress.stack.length < maxDepth →
    openElement line content = .ok element →
    Takes progress line (.startTag content) { progress with stack := element :: progress.stack }
  | single {content : TagContent} {element : Element} {next : Progress} : progress.stack.length < maxDepth →
    openElement line content = .ok element → progress.attach element = .ok next →
    Takes progress line (.emptyTag content) next
  | closed {top : Element} {outer : List Element} {next : Progress} : progress.stack = top :: outer →
    attach { progress with stack := outer } top = .ok next →
    Takes progress line (.endTag top.tag.toList) next
  | text {raw text : List Char} {next : Progress} : unescape raw = .ok text →
    progress.append line text = .ok next → Takes progress line (.text raw) next
  | cdata {raw : List Char} {next : Progress} : progress.append line raw = .ok next →
    Takes progress line (.cdata raw) next
  | skipped : Takes progress line .skipped progress

theorem lt_of_checkDepth {done : Unit} (checked : progress.checkDepth line = .ok done) :
    progress.stack.length < maxDepth := by
  rw [checkDepth] at checked
  split at checked
  next room => exact room
  · cases checked

/-- Nothing else can come of an event. -/
theorem takes_of_step {event : Event} (done : progress.step line event = .ok next) :
    progress.Takes line event next := by
  cases event with
  | startTag content =>
    obtain ⟨_, room, done⟩ := bind_eq_ok_iff.mp done
    obtain ⟨element, opened, done⟩ := bind_eq_ok_iff.mp done
    cases done
    exact .opened (lt_of_checkDepth room) opened
  | emptyTag content =>
    obtain ⟨_, room, done⟩ := bind_eq_ok_iff.mp done
    obtain ⟨element, opened, attached⟩ := bind_eq_ok_iff.mp done
    exact .single (lt_of_checkDepth room) opened attached
  | endTag name =>
    rw [step, close] at done
    split at done
    · cases done
    next top outer isStack =>
      split at done
      next sameTag =>
        rw [← String.toList_ofList (l := name), ← sameTag]
        exact .closed isStack done
      · cases done
  | text raw =>
    rw [step] at done
    cases unescaped : unescape raw with
    | error cause =>
      rw [unescaped] at done
      cases done
    | ok text =>
      rw [unescaped] at done
      exact .text unescaped done
  | cdata raw => exact .cdata done
  | skipped =>
    cases done
    exact .skipped
  | broken error => cases done

end Progress

end ModelCatalog.Markup
