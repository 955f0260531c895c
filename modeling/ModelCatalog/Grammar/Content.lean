import ModelCatalog.Entry
import ModelCatalog.Violation

/-!
# Content of elements

The rules that filters and manifests share: what an element may hold beside its children, named
entries, and tag collections. Every rule looks at one element and reports the element that breaks it.
A rule for the children of an element is told that they belong to it, so that a check of a whole tree
ends with the tree.
-/

namespace ModelCatalog

/-- The outcome of checking a part of a document. -/
abbrev Checked (α : Type) := Except Violation α

namespace Element

/-! ## Operations -/

/-- The operation of a filter element, one of those that its tag allows. -/
def operation (e : Element) (legal : List Operation) : Checked Operation :=
  match e.attribute? filterAttribute with
  | none => .error (e.violation .missingFilterOperation (.operationRequired e.tag))
  | some text =>
    match (Operation.ofName? text).filter (· ∈ legal) with
    | none => .error (e.violation .invalidFilterOperation (.operationNotAllowed text e.tag))
    | some operation => .ok operation

/-- An element of a manifest has no operation. -/
def requireNoOperation (e : Element) : Checked Unit :=
  if e.hasAttribute filterAttribute then
    .error (e.violation .illegalFilterAttribute (.operationInManifest e.tag))
  else .ok ()

/-! ## Content -/

/-- An element that only asks for a kind is empty. -/
def requireEmpty (e : Element) : Checked Unit :=
  if e.isEmpty then .ok () else .error (e.violation .illegalContentWhenNone)

/-- A container holds elements only. -/
def requireNoText (e : Element) : Checked Unit :=
  if e.hasText then .error (e.violation .illegalTextOnContainer (.strayText e.tag e.trimmedText))
  else .ok ()

/-- An element without children; the rule names the first child. -/
def requireNoChildren (e : Element) (rule : Rule) : Checked Unit :=
  match e.children with
  | [] => .ok ()
  | child :: _ => .error (child.violation rule (.forbiddenChild e.tag child.tag))

/-- A primitive type holds nothing. -/
def requirePrimitive (e : Element) : Checked Unit :=
  if e.isEmpty then .ok ()
  else .error (e.violation .typeDeclarationIllegalContentOnPrimitive)

/-- The value of a literal. -/
def literal (e : Element) (rule : Rule) (read : String → Option α) : Checked α :=
  match read e.trimmedText with
  | some value => .ok value
  | none => .error (e.violation rule (.literal e.trimmedText))

def invalidTag (e : Element) : Violation := e.violation .invalidTag (.misplaced e.tag)

def invalidType (e : Element) : Violation :=
  e.violation .typeDeclarationInvalidTag (.misplaced e.tag)

/-! ## Children -/

/-- The only child of an element. -/
def onlyChild (e : Element) (violation : Violation) : Checked { child // child ∈ e.children } :=
  match h : e.children with
  | [child] => .ok ⟨child, by simp⟩
  | _ => .error violation

/-- Check every child in order. -/
def checkChildren (e : Element) (check : (child : Element) → child ∈ e.children → Checked α) :
    Checked (List α) :=
  e.children.attach.mapM fun child => check child.1 child.2

/-- The type in a type declaration. -/
def declaredType (e : Element) : Checked { child // child ∈ e.children } := do
  let child ← e.onlyChild
    (e.violation .typeDeclarationWrongChildCount (.childCount e.children.length))
  e.requireNoText
  return child

/-- The item type of a list type. -/
def itemType (e : Element) : Checked { child // child ∈ e.children } := do
  let child ← e.onlyChild (e.violation .typeDeclarationListWrongChildCount)
  e.requireNoText
  return child

end Element

/-! ## Named entries -/

/-- The tag of the entries of a container and the rules they can break. -/
structure EntryRules where
  tag : String
  invalidChild : Rule
  missingName : Rule
  duplicateName : Rule
  wrongChildCount : Rule

/-- The fields of a dict. -/
def EntryRules.field : EntryRules where
  tag := ValueTag.namedField.name
  invalidChild := .dictInvalidChild
  missingName := .namedFieldMissingName
  duplicateName := .dictDuplicateKeys
  wrongChildCount := .namedFieldWrongChildCount

/-- The values of a named-value collection. -/
def EntryRules.namedValue : EntryRules where
  tag := TypeTag.namedValue.name
  invalidChild := .typeDeclarationNamedValueCollectionInvalidChild
  missingName := .typeDeclarationNamedValueMissingName
  duplicateName := .typeDeclarationNamedValueCollectionDuplicateKeys
  wrongChildCount := .typeDeclarationNamedValueWrongChildCount

/-- The name of an entry, which none of the entries before it has. -/
def EntryRules.entryName (rules : EntryRules) (container : String) (seen : List String)
    (entry : Element) : Checked String :=
  if entry.tag ≠ rules.tag then
    .error (entry.violation rules.invalidChild (.entry container rules.tag entry.tag))
  else
    match entry.attribute? nameAttribute with
    | none => .error (entry.violation rules.missingName)
    | some name =>
      if name ∈ seen then .error (entry.violation rules.duplicateName (.repeatedKey name))
      else .ok name

/-- The value in an entry. -/
def EntryRules.entryValue (rules : EntryRules) (entry : Element) :
    Checked { value // value ∈ entry.children } := do
  let value ← entry.onlyChild
    (entry.violation rules.wrongChildCount (.childCount entry.children.length))
  entry.requireNoText
  return value

/-- Check entries in order; each entry wholly, its value included, before the next. -/
def EntryRules.checkEntries (rules : EntryRules) (container : String) (seen : List String) :
    (entries : List Element) →
    ((entry value : Element) → entry ∈ entries → value ∈ entry.children → Checked α) →
    Checked (List (Named α))
  | [], _ => return []
  | entry :: rest, check => do
    let name ← rules.entryName container seen entry
    let value ← rules.entryValue entry
    let checked ← check entry value.1 List.mem_cons_self value.2
    let others ← rules.checkEntries container (name :: seen) rest
      fun entry value mem inner => check entry value (List.mem_cons_of_mem _ mem) inner
    return { name, line := entry.line, value := checked } :: others

/-- The named entries of a container. -/
def Element.checkNamed (e : Element) (rules : EntryRules)
    (check : (value : Element) → sizeOf value < sizeOf e → Checked α) :
    Checked (List (Named α)) := do
  e.requireNoText
  rules.checkEntries e.tag [] e.children fun _ value mem inner =>
    check value (Nat.lt_trans (sizeOf_lt_of_mem_children inner) (sizeOf_lt_of_mem_children mem))

/-! ## Tag collections -/

/-- The tags of a condensed tag expression. -/
def Element.tagGroup (e : Element) : Checked TagGroup := do
  if e.hasAttribute filterAttribute then
    throw (e.violation .condensedTagsIllegalFilterAttribute)
  e.requireNoChildren .condensedTagsIllegalChild
  if e.trimmedText = "" then
    throw (e.violation .condensedTagsEmpty)
  match Condensed.parse e.trimmedText with
  | .error error => .error (e.violation .condensedTagsInvalidSyntax (.expression error))
  | .ok tags => .ok { line := e.line, text := e.trimmedText, tags }

/-- The groups of a tag collection. -/
def Element.tagGroups (e : Element) : Checked (List TagGroup) := do
  e.requireNoText
  e.children.mapM fun child =>
    if child.tag ≠ ValueTag.condensedTags.name then
      .error (child.violation .tagCollectionInvalidChild (.foundInstead child.tag))
    else child.tagGroup

end ModelCatalog
