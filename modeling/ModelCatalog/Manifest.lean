import ModelCatalog.Entry

/-!
# Manifests

A manifest describes a model by values. Each node keeps the line of its element.
-/

namespace ModelCatalog

open Number (Binary64)

/-- One dimension of a tensor. -/
structure Dim where
  line : Nat
  size : Slot Int
deriving DecidableEq, Repr

/-- A type that a manifest declares. -/
inductive TypeDecl where
  | primitive (line : Nat) (type : PrimitiveType)
  | tensor (line : Nat) (dims : List Dim)
  | list (line : Nat) (item : TypeDecl)
  | tuple (line : Nat) (items : List TypeDecl)
  | namedValues (line : Nat) (values : List (Named TypeDecl))

/-- A value of a manifest. The names in a dict and in a collection of named values are distinct. -/
inductive Manifest where
  | dict (line : Nat) (fields : List (Named Manifest))
  | list (line : Nat) (items : List Manifest)
  | string (line : Nat) (slot : Slot String)
  | bool (line : Nat) (slot : Slot Bool)
  | int (line : Nat) (slot : Slot Int)
  | float (line : Nat) (slot : Slot Binary64)
  | typeDeclaration (line : Nat) (type : TypeDecl)
  | tagCollection (line : Nat) (groups : List TagGroup)

namespace TypeDecl

def line : TypeDecl → Nat
  | .primitive line _ | .tensor line _ | .list line _ | .tuple line _ | .namedValues line _ => line

def kind : TypeDecl → TypeKind
  | .primitive _ type => type.kind
  | .tensor .. => .tensor
  | .list .. => .list
  | .tuple .. => .tuple
  | .namedValues .. => .namedValues

mutual

/-- The line of the first dimension in document order that is still to be filled in. -/
def firstUnfilled? : TypeDecl → Option Nat
  | .primitive .. => none
  | .tensor _ dims => (dims.find? (·.size.isUnfilled)).map (·.line)
  | .list _ item => item.firstUnfilled?
  | .tuple _ items => firstUnfilledIn? items
  | .namedValues _ values => firstUnfilledNamed? values

/-- The same for several types. -/
def firstUnfilledIn? : List TypeDecl → Option Nat
  | [] => none
  | item :: rest => item.firstUnfilled?.or (firstUnfilledIn? rest)

/-- The same for the types in several entries. -/
def firstUnfilledNamed? : List (Named TypeDecl) → Option Nat
  | [] => none
  | ⟨_, _, value⟩ :: rest => value.firstUnfilled?.or (firstUnfilledNamed? rest)

end

end TypeDecl

namespace Manifest

def line : Manifest → Nat
  | .dict line _ | .list line _ | .string line _ | .bool line _ | .int line _ | .float line _
  | .typeDeclaration line _ | .tagCollection line _ => line

def kind : Manifest → ValueKind
  | .dict .. => .dict
  | .list .. => .list
  | .string .. => .string
  | .bool .. => .bool
  | .int .. => .int
  | .float .. => .float
  | .typeDeclaration .. => .typeDeclaration
  | .tagCollection .. => .tagCollection

/-- The field of a name. Only a dict has fields. -/
def field? (manifest : Manifest) (name : String) : Option (Named Manifest) :=
  match manifest with
  | .dict _ fields => findEntry name fields
  | _ => none

/-- The line of a value when its slot is still to be filled in. -/
def unfilledLine? (line : Nat) (slot : Slot α) : Option Nat :=
  if slot.isUnfilled then some line else none

mutual

/-- The line of the first value or dimension in document order that is still to be filled in. -/
def firstUnfilled? : Manifest → Option Nat
  | .dict _ fields => firstUnfilledNamed? fields
  | .list _ items => firstUnfilledIn? items
  | .string line slot => unfilledLine? line slot
  | .bool line slot => unfilledLine? line slot
  | .int line slot => unfilledLine? line slot
  | .float line slot => unfilledLine? line slot
  | .typeDeclaration _ type => type.firstUnfilled?
  | .tagCollection .. => none

/-- The same for several values. -/
def firstUnfilledIn? : List Manifest → Option Nat
  | [] => none
  | item :: rest => item.firstUnfilled?.or (firstUnfilledIn? rest)

/-- The same for the values in several entries. -/
def firstUnfilledNamed? : List (Named Manifest) → Option Nat
  | [] => none
  | ⟨_, _, value⟩ :: rest => value.firstUnfilled?.or (firstUnfilledNamed? rest)

end

mutual

/-- The tags that the tag collections of a manifest declare. -/
def declaredTags : Manifest → NameSet
  | .dict _ fields => entryDeclaredTags fields
  | .list _ items => listDeclaredTags items
  | .tagCollection _ groups => unionTags groups
  | .string .. | .bool .. | .int .. | .float .. | .typeDeclaration .. => ∅

/-- The tags that several values declare. -/
def listDeclaredTags : List Manifest → NameSet
  | [] => ∅
  | item :: rest => item.declaredTags ∪ listDeclaredTags rest

/-- The tags that the values in several entries declare. -/
def entryDeclaredTags : List (Named Manifest) → NameSet
  | [] => ∅
  | ⟨_, _, value⟩ :: rest => value.declaredTags ∪ entryDeclaredTags rest

end

end Manifest

end ModelCatalog
