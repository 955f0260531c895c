import ModelCatalog.Proofs.Markup.Steps

/-!
# Nesting of documents

A document that is read nests at most as deep as allowed (`Markup.nesting_le_of_parse`). While it is
read, an open element stands on the elements around it, and what it holds so far stands on it; the
number of the first and the nesting of the second together stay within the limit (`Progress.Shallow`).
Every event keeps this.
-/

namespace ModelCatalog

namespace Element

theorem deepest_le_iff {elements : List Element} {bound : Nat} :
    nesting.deepest elements ≤ bound ↔ ∀ e ∈ elements, e.nesting ≤ bound := by
  induction elements with
  | nil => simp [nesting.deepest]
  | cons e rest ih => rw [nesting.deepest, Nat.max_le, ih, List.forall_mem_cons]

theorem nesting_eq (e : Element) : e.nesting = nesting.deepest e.children + 1 := by
  obtain ⟨tag, line, attributes, text, children⟩ := e
  rw [nesting]

theorem nesting_pos (e : Element) : 0 < e.nesting := by
  rw [nesting_eq]
  exact Nat.succ_pos _

/-- An element with one more child. -/
theorem nesting_append_le {e child : Element} {bound : Nat} (own : e.nesting ≤ bound)
    (below : child.nesting + 1 ≤ bound) :
    nesting { e with children := e.children ++ [child] } ≤ bound := by
  rw [nesting_eq] at own ⊢
  have children : nesting.deepest e.children ≤ bound - 1 := by omega
  have all : nesting.deepest (e.children ++ [child]) ≤ bound - 1 := by
    rw [deepest_le_iff] at children ⊢
    intro part member
    rcases List.mem_append.mp member with before | last
    · exact children part before
    · rw [List.mem_singleton.mp last]
      omega
  dsimp only
  omega

end Element

namespace Markup

/-- Open elements, each of which nests within what the elements around it leave. -/
def FitIn : List Element → Prop
  | [] => True
  | top :: outer => outer.length + top.nesting ≤ maxDepth ∧ FitIn outer

/-- What has been read of a document nests within the limit. -/
structure Progress.Shallow (progress : Progress) : Prop where
  stack : FitIn progress.stack
  root : ∀ root, progress.root = some root → root.nesting ≤ maxDepth

namespace Progress

variable {progress next : Progress} {line : Nat}

theorem Shallow.attach {element : Element} (shallow : progress.Shallow)
    (fits : progress.stack.length + element.nesting ≤ maxDepth) (attached : progress.attach element = .ok next) :
    next.Shallow := by
  obtain ⟨stack, root⟩ := progress
  rcases attach_cases attached with ⟨parent, outer, rfl, rfl⟩ | ⟨rfl, rfl, rfl⟩
  · obtain ⟨own, around⟩ := shallow.stack
    refine ⟨⟨?_, around⟩, shallow.root⟩
    rw [List.length_cons] at fits
    have bounded : Element.nesting { parent with children := parent.children ++ [element] } ≤
        maxDepth - outer.length := Element.nesting_append_le (by omega) (by omega)
    omega
  · refine ⟨trivial, fun found isRoot => ?_⟩
    cases isRoot
    simpa using fits

theorem Shallow.append {text : List Char} (shallow : progress.Shallow)
    (appended : progress.append line text = .ok next) : next.Shallow := by
  obtain ⟨stack, root⟩ := progress
  rcases append_cases appended with ⟨top, outer, written, rfl, rfl⟩ | rfl
  · obtain ⟨own, around⟩ := shallow.stack
    rw [Element.nesting_eq] at own
    refine ⟨⟨?_, around⟩, shallow.root⟩
    rw [Element.nesting_eq]
    exact own
  · exact shallow

/-- An element that is opened nests no elements. -/
theorem nesting_of_openElement {content : TagContent} {element : Element}
    (opened : openElement line content = .ok element) : element.nesting = 1 := by
  obtain ⟨attributes, rfl⟩ := exists_of_openElement opened
  rfl

/-- Every event keeps what has been read within the limit. -/
theorem Shallow.step {event : Event} (shallow : progress.Shallow) (done : progress.step line event = .ok next) :
    next.Shallow := by
  cases takes_of_step done with
  | opened room opened =>
    refine ⟨⟨?_, shallow.stack⟩, shallow.root⟩
    rw [nesting_of_openElement opened]
    exact room
  | single room opened attached =>
    refine shallow.attach ?_ attached
    rw [nesting_of_openElement opened]
    exact room
  | @closed top outer _ isStack attached =>
    have fitting := shallow.stack
    rw [isStack] at fitting
    have popped : Shallow { progress with stack := outer } := ⟨fitting.2, shallow.root⟩
    exact popped.attach fitting.1 attached
  | text _ appended => exact shallow.append appended
  | cdata appended => exact shallow.append appended
  | skipped => exact shallow

theorem Shallow.run {lines : Text.LineCounter} {events : List (Nat × Event)} (shallow : progress.Shallow)
    (done : progress.run lines events = .ok next) : next.Shallow := by
  induction events generalizing progress lines with
  | nil =>
    cases done
    exact shallow
  | cons place rest ih =>
    obtain ⟨stepped, isStep, done⟩ := bind_eq_ok_iff.mp done
    exact ih (shallow.step isStep) done

end Progress

/-- A document that is read nests within the limit. -/
theorem nesting_le_of_parse {text : String} {root : Element} (read : parse text = .ok root) :
    root.nesting ≤ maxDepth := by
  obtain ⟨progress, done, finished⟩ := bind_eq_ok_iff.mp read
  have start : ({} : Progress).Shallow := ⟨trivial, fun _ none => nomatch none⟩
  have shallow := start.run done
  obtain ⟨stack, root⟩ := progress
  cases stack with
  | cons top outer => cases finished
  | nil =>
    cases root with
    | none => cases finished
    | some found =>
      cases finished
      exact shallow.root _ rfl

end Markup

end ModelCatalog
