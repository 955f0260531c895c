import ModelCatalog.Literal

/-!
# Elements

The tree of elements that a document is read to. Everything behind the reader looks at this tree
only.
-/

namespace ModelCatalog

/-- An element with its attributes, the text directly in it and the line of its start tag. An
    element without any piece of text has no text at all. -/
structure Element where
  tag : String
  line : Nat
  attributes : List (String × String) := []
  text : Option String := none
  children : List Element := []

namespace Element

/-- The value of an attribute. -/
def attribute? (e : Element) (name : String) : Option String := e.attributes.lookup name

def hasAttribute (e : Element) (name : String) : Bool := (e.attribute? name).isSome

/-- The text without surrounding blanks; empty when there is none. -/
def trimmedText (e : Element) : String := (e.text.map trimmed).getD ""

/-- The element holds text other than blanks. -/
def hasText (e : Element) : Bool := e.trimmedText ≠ ""

/-- The element holds neither elements nor text. -/
def isEmpty (e : Element) : Bool := e.children.isEmpty && !e.hasText

/-- The element that a path of child indices leads to. -/
def at? (e : Element) : List Nat → Option Element
  | [] => some e
  | index :: path => e.children[index]?.bind (·.at? path)

/-- Two attribute lists give every name the same value. -/
def sameAttributes (left right : List (String × String)) : Bool :=
  left.all (fun (name, value) => right.lookup name == some value) &&
    right.all (fun (name, value) => left.lookup name == some value)

/-- Two elements are equal; the order of attributes does not count. -/
def same (left right : Element) : Bool :=
  match left, right with
  | ⟨tag, line, attributes, text, children⟩, right =>
    tag == right.tag && line == right.line && sameAttributes attributes right.attributes &&
      text == right.text && sameLists children right.children
where
  sameLists : List Element → List Element → Bool
    | [], [] => true
    | left :: lefts, right :: rights => left.same right && sameLists lefts rights
    | _, _ => false

/-- The nesting of elements, the element itself included. -/
def nesting : Element → Nat
  | ⟨_, _, _, _, children⟩ => deepest children + 1
where
  deepest : List Element → Nat
    | [] => 0
    | child :: rest => max child.nesting (deepest rest)

theorem sizeOf_lt_of_mem_children {e child : Element} (h : child ∈ e.children) :
    sizeOf child < sizeOf e := by
  obtain ⟨tag, line, attributes, text, children⟩ := e
  have := List.sizeOf_lt_of_mem (show child ∈ children from h)
  simp only [mk.sizeOf_spec]
  omega

end Element

end ModelCatalog
