import ModelCatalog.Filter
import ModelCatalog.NameMap

/-!
# Tag registries

A registry holds the definition of every registered tag, a filter. Main statement: with each tag under
resolution fewer registered tags remain (`remaining_push_lt`), which is why every resolution ends.
-/

namespace ModelCatalog

/-- Tag definitions by name. -/
structure Registry where
  definitions : NameMap Filter

namespace Registry

def empty : Registry := ⟨∅⟩

/-- The registered names in increasing order. -/
def names (registry : Registry) : List String := registry.definitions.keys

/-- The definition of a tag. -/
def get? (registry : Registry) (name : String) : Option Filter := registry.definitions.get? name

def contains (registry : Registry) (name : String) : Bool := (registry.get? name).isSome

def size (registry : Registry) : Nat := registry.definitions.size

/-- A registry with one more definition. -/
def insert (registry : Registry) (name : String) (definition : Filter) : Registry :=
  ⟨registry.definitions.insert name definition⟩

@[simp] theorem get?_insert {registry : Registry} {name other : String} {definition : Filter} :
    (registry.insert name definition).get? other =
      if other = name then some definition else registry.get? other := NameMap.get?_insert

/-- Exactly the registered tags have a definition. -/
theorem mem_names {registry : Registry} {name : String} :
    name ∈ registry.names ↔ (registry.get? name).isSome := NameMap.mem_keys

/-- The number of registered tags that are not under resolution. Each resolution lowers it. -/
def remaining (registry : Registry) (stack : List String) : Nat :=
  (registry.names.filter (!stack.contains ·)).length

theorem remaining_push_lt {registry : Registry} {stack : List String} {tag : String}
    (new : ¬tag ∈ stack) (registered : (registry.get? tag).isSome) :
    registry.remaining (stack ++ [tag]) < registry.remaining stack := by
  have fewer : registry.names.filter (fun name => !(stack ++ [tag]).contains name) =
      (registry.names.filter (fun name => !stack.contains name)).filter (· != tag) := by
    rw [List.filter_filter]
    congr 1
    funext name
    simp only [List.contains_append, List.contains_cons, List.contains_nil, Bool.or_false,
      Bool.not_or, bne, Bool.and_comm]
  rw [remaining, remaining, fewer, List.length_filter_lt_length_iff_exists]
  exact ⟨tag, by simp [mem_names.2 registered, new], by simp⟩

end Registry

end ModelCatalog
