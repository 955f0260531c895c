import ModelCatalog.Proofs.Grammar.Containers
import ModelCatalog.Proofs.Registry.Loading

/-!
# Tags that are listed more than once

The text of an index writes entries, a tag and a path each (`TagIndex.Writes`). The index that is read from it has one
path for a tag, that of its last entry (`TagIndex.get?_ofEntries`). A list of definitions with two of one tag is
refused, but the definitions of an index never make such a list (`TagIndex.build_ne_duplicate`). So a registry that is
loaded holds the filters of the last entries, and an entry with another one of its tag behind it has no part in it
(`Registry.load_keeps_last_entries`).
-/

namespace ModelCatalog

open Storage

namespace TagIndex

/-! ## Entries of an index text -/

/-- A text writes entries in order: it is an object of tags with a path each. -/
def Writes (text : String) (entries : List (String × String)) : Prop :=
  (Json.tokens text.toList).bind Json.object? = some (entries.map fun entry => (entry.1, some entry.2))

instance (text : String) (entries : List (String × String)) : Decidable (Writes text entries) :=
  inferInstanceAs (Decidable (_ = _))

theorem Writes.unique {text : String} {entries others : List (String × String)} (first : Writes text entries)
    (second : Writes text others) : entries = others := by
  have injective : Function.Injective fun entry : String × String => (entry.1, some entry.2) := by
    rintro ⟨tag, path⟩ ⟨other, source⟩ same
    simpa using same
  exact injective.list_map (Option.some.inj (first.symm.trans second))

/-- An entry with no entry of the same tag behind it. -/
def IsLast (entries : List (String × String)) (tag path : String) : Prop :=
  ∃ before after, entries = before ++ (tag, path) :: after ∧ ∀ entry ∈ after, entry.1 ≠ tag

/-- The index of entries in order. -/
def ofEntries (entries : List (String × String)) : TagIndex :=
  entries.foldl (fun index entry => index.insert entry.1 entry.2) ∅

variable {entries : List (String × String)} {tag path : String}

theorem not_isLast_nil : ¬IsLast [] tag path := by
  rintro ⟨before, after, split, _⟩
  simp at split

/-- A first entry is the last one of its tag when no other entry has the tag. -/
theorem isLast_cons_iff {entry : String × String} : IsLast (entry :: entries) tag path ↔
    (entry = (tag, path) ∧ ∀ other ∈ entries, other.1 ≠ tag) ∨ IsLast entries tag path := by
  constructor
  · rintro ⟨before, after, split, others⟩
    cases before with
    | nil =>
      obtain ⟨rfl, rfl⟩ := List.cons.inj split
      exact .inl ⟨rfl, others⟩
    | cons first before =>
      obtain ⟨_, rest⟩ := List.cons.inj split
      exact .inr ⟨before, after, rest, others⟩
  · rintro (⟨rfl, others⟩ | ⟨before, after, rfl, others⟩)
    · exact ⟨[], entries, rfl, others⟩
    · exact ⟨entry :: before, after, rfl, others⟩

/-- Every tag of an entry has a last entry. -/
theorem exists_isLast (member : (tag, path) ∈ entries) : ∃ last, IsLast entries tag last := by
  induction entries generalizing path with
  | nil => simp at member
  | cons entry rest ih =>
    by_cases again : ∃ other, (tag, other) ∈ rest
    · obtain ⟨other, later⟩ := again
      obtain ⟨last, isLast⟩ := ih later
      exact ⟨last, isLast_cons_iff.mpr (.inr isLast)⟩
    · have notLater : (tag, path) ∉ rest := fun later => again ⟨path, later⟩
      have isFirst : entry = (tag, path) := by simpa [notLater, eq_comm] using member
      refine ⟨path, isLast_cons_iff.mpr (.inl ⟨isFirst, ?_⟩)⟩
      rintro ⟨name, other⟩ later rfl
      exact again ⟨other, later⟩

/-- Where no tag is listed twice, every entry is a last one. -/
theorem isLast_of_nodup (distinct : (entries.map (·.1)).Nodup) (member : (tag, path) ∈ entries) :
    IsLast entries tag path := by
  induction entries with
  | nil => simp at member
  | cons entry rest ih =>
    obtain ⟨absent, others⟩ := List.nodup_cons.mp distinct
    rcases List.mem_cons.mp member with rfl | later
    · refine isLast_cons_iff.mpr (.inl ⟨rfl, fun other isOther same => absent ?_⟩)
      exact List.mem_map.mpr ⟨other, isOther, same⟩
    · exact isLast_cons_iff.mpr (.inr (ih others later))

/-- Entries put into an index one after the other leave the last path of each tag, or the one it had. -/
theorem get?_foldl_insert {index : TagIndex} :
    (entries.foldl (fun index entry => index.insert entry.1 entry.2) index).get? tag = some path ↔
      IsLast entries tag path ∨ (∀ entry ∈ entries, entry.1 ≠ tag) ∧ index.get? tag = some path := by
  induction entries generalizing index with
  | nil => simp [not_isLast_nil]
  | cons entry rest ih =>
    rw [List.foldl_cons, ih, isLast_cons_iff, NameMap.get?_insert, List.forall_mem_cons]
    by_cases same : tag = entry.1
    · subst same
      simp [Prod.ext_iff, or_comm, and_comm]
    · have other : entry ≠ (tag, path) := fun isEntry => same (isEntry ▸ rfl)
      simp [same, other, Ne.symm same]

/-- The index of entries has the path of the last entry of a tag. -/
theorem get?_ofEntries : (ofEntries entries).get? tag = some path ↔ IsLast entries tag path := by
  simp [ofEntries, get?_foldl_insert]

/-- Members are put into an index one after the other when each has a path. -/
theorem foldlM_insert_eq_some_iff {members : List (String × Option String)} {index result : TagIndex} :
    members.foldlM (fun index (tag, path) => path.map (index.insert tag)) index = some result ↔
      ∃ entries : List (String × String), members = entries.map (fun entry => (entry.1, some entry.2)) ∧
        entries.foldl (fun index entry => index.insert entry.1 entry.2) index = result := by
  induction members generalizing index with
  | nil => simp
  | cons member rest ih =>
    obtain ⟨tag, path⟩ := member
    rw [List.foldlM_cons]
    constructor
    · intro inserted
      obtain ⟨next, isNext, inserted⟩ := Option.bind_eq_some_iff.mp inserted
      obtain ⟨path, rfl, rfl⟩ := Option.map_eq_some_iff.mp isNext
      obtain ⟨entries, rfl, same⟩ := ih.mp inserted
      exact ⟨(tag, path) :: entries, rfl, same⟩
    · rintro ⟨entries, split, same⟩
      cases entries with
      | nil => cases split
      | cons entry entries =>
        obtain ⟨isEntry, rfl⟩ := List.cons.inj split
        cases isEntry
        exact ih.mpr ⟨entries, rfl, same⟩

/-- A text is read to the index of the entries that it writes. -/
theorem read_eq_some_iff {text : String} {index : TagIndex} :
    read text = some index ↔ ∃ entries, Writes text entries ∧ ofEntries entries = index := by
  constructor
  · intro isRead
    obtain ⟨tokens, isCut, isRead⟩ := Option.bind_eq_some_iff.mp isRead
    obtain ⟨members, isObject, isRead⟩ := Option.bind_eq_some_iff.mp isRead
    obtain ⟨entries, rfl, same⟩ := foldlM_insert_eq_some_iff.mp isRead
    exact ⟨entries, Option.bind_eq_some_iff.mpr ⟨tokens, isCut, isObject⟩, same⟩
  · rintro ⟨entries, writes, same⟩
    obtain ⟨tokens, isCut, isObject⟩ := Option.bind_eq_some_iff.mp writes
    refine Option.bind_eq_some_iff.mpr ⟨tokens, isCut, Option.bind_eq_some_iff.mpr ⟨_, isObject, ?_⟩⟩
    exact foldlM_insert_eq_some_iff.mpr ⟨entries, rfl, same⟩

/-! ## Building a registry -/

variable {files : FileAccess Id} {base : String} {index : TagIndex}

/-- Reading definitions finds no fault of a registry. -/
theorem readDefinitions_ne_unsound (fault : RegistryFault) :
    Id.run (readDefinitions files base entries).run ≠ .error (.unsound fault) := by
  intro refused
  induction entries with
  | nil => cases refused
  | cons entry rest ih =>
    obtain ⟨tag, path⟩ := entry
    rw [run_readDefinitions_cons] at refused
    cases document : Id.run (files.document (join base path)).run with
    | error cause =>
      rw [document] at refused
      cases refused
    | ok root =>
      rw [document, definitionOf] at refused
      cases filter : Filter.ofElement root with
      | error violation =>
        rw [filter] at refused
        cases refused
      | ok definition =>
        rw [filter] at refused
        cases others : Id.run (readDefinitions files base rest).run with
        | error error =>
          rw [others] at refused ih
          exact ih refused
        | ok definitions =>
          rw [others] at refused
          cases refused

/-- The definitions of an index are never two of one tag. -/
theorem build_ne_duplicate (name : String) :
    Id.run (index.build files base).run ≠ .error (.unsound (.duplicate name)) := by
  intro refused
  cases read : Id.run (readDefinitions files base index.entries).run with
  | error error =>
    rw [run_build, read] at refused
    cases refused
    exact readDefinitions_ne_unsound _ read
  | ok definitions =>
    obtain ⟨fault, same, tells⟩ := (build_ends_of_forall₂ (readDefinitions_eq_ok_iff.mp read)).of_error refused
    cases same
    exact tells

/-- Before a registry is built, each file of the index is read. -/
theorem forall₂_readFor_of_build {registry : Registry} (built : Id.run (index.build files base).run = .ok registry) :
    ∃ definitions, List.Forall₂ (ReadFor files base) index.entries definitions := by
  rw [run_build] at built
  obtain ⟨definitions, read, _⟩ := bind_eq_ok_iff.mp built
  exact ⟨definitions, readDefinitions_eq_ok_iff.mp read⟩

/-- Each file of an index that was built holds a filter. -/
theorem exists_holdsFilter_of_build {registry : Registry} (built : Id.run (index.build files base).run = .ok registry)
    (listed : (tag, path) ∈ index.entries) : ∃ definition, HoldsFilter files base path definition := by
  obtain ⟨definitions, each⟩ := forall₂_readFor_of_build built
  obtain ⟨read, _, _, holds⟩ := exists_of_forall₂_of_mem each listed
  exact ⟨read.2, holds⟩

/-- A registry that was built from the index of entries holds the filters of the last ones. -/
theorem get?_of_build {registry : Registry} {definition : Filter}
    (built : Id.run ((ofEntries entries).build files base).run = .ok registry) :
    registry.get? tag = some definition ↔ ∃ path, IsLast entries tag path ∧ HoldsFilter files base path definition := by
  obtain ⟨definitions, each⟩ := forall₂_readFor_of_build built
  have holds : registry.Holds = (ofEntries entries).defines files base := ((build_ends_of_forall₂ each).of_ok built).1
  change registry.Holds tag definition ↔ _
  rw [holds]
  refine exists_congr fun path => and_congr_left fun _ => ?_
  rw [NameMap.mem_entries_iff]
  exact get?_ofEntries

end TagIndex

namespace Registry

variable {files : FileAccess Id} {path : String} {registry : Registry}

/-- Loading a registry reads an index and builds the registry of it. -/
theorem run_load : Id.run (load files path).run =
    indexOf path (Id.run (files.read path)) >>= fun index => Id.run (index.build files (directory path)).run := by
  rw [load]
  simp only [run_bind, run_ofExcept]
  rfl

/-- The definition of a tag is the filter in the file at a path, as seen from a directory. -/
def Registers (registry : Registry) (files : FileAccess Id) (base tag path : String) : Prop :=
  ∃ definition, HoldsFilter files base path definition ∧ registry.get? tag = some definition

/-- What is read of an index file is the index of the entries in it. -/
theorem indexOf_eq_ok_iff {text : Except ReadFailure String} {index : TagIndex} :
    indexOf path text = .ok index ↔ ∃ written entries, text = .ok written ∧ TagIndex.Writes written entries ∧
      TagIndex.ofEntries entries = index := by
  cases text with
  | error cause => simp [indexOf]
  | ok written =>
    rw [indexOf]
    cases read : TagIndex.read written with
    | none =>
      have nothing : ¬∃ entries, TagIndex.Writes written entries ∧ TagIndex.ofEntries entries = index :=
        fun some => nomatch read.symm.trans (TagIndex.read_eq_some_iff.mpr some)
      simpa using nothing
    | some found =>
      have whole : TagIndex.read written = some index ↔ _ := TagIndex.read_eq_some_iff
      rw [read] at whole
      simpa using whole

theorem indexOf_ne_unsound {text : Except ReadFailure String} (fault : RegistryFault) :
    indexOf path text ≠ .error (.unsound fault) := by
  cases text with
  | error cause => exact nofun
  | ok written =>
    rw [indexOf]
    cases TagIndex.read written <;> exact nofun

section

variable {entries : List (String × String)} {base tag source : String}

/-- The last entry of a tag is registered. -/
theorem registers_of_isLast (built : Id.run ((TagIndex.ofEntries entries).build files base).run = .ok registry)
    (isLast : TagIndex.IsLast entries tag source) : registry.Registers files base tag source := by
  have listed : (tag, source) ∈ (TagIndex.ofEntries entries).entries :=
    NameMap.mem_entries_iff.mpr (TagIndex.get?_ofEntries.mpr isLast)
  obtain ⟨definition, holds⟩ := TagIndex.exists_holdsFilter_of_build built listed
  exact ⟨definition, holds, (TagIndex.get?_of_build built).mpr ⟨source, isLast, holds⟩⟩

/-- An entry is registered when the last one of its tag leads to the same filter. -/
theorem registers_iff {last : String}
    (built : Id.run ((TagIndex.ofEntries entries).build files base).run = .ok registry)
    (isLast : TagIndex.IsLast entries tag last) : registry.Registers files base tag source ↔
      ∃ definition, HoldsFilter files base source definition ∧ HoldsFilter files base last definition := by
  obtain ⟨registered, lastHolds, found⟩ := registers_of_isLast built isLast
  constructor
  · rintro ⟨_, holds, isDefinition⟩
    cases found.symm.trans isDefinition
    exact ⟨registered, holds, lastHolds⟩
  · rintro ⟨definition, holds, alsoLast⟩
    exact ⟨definition, holds, lastHolds.unique alsoLast ▸ found⟩

end

/-- No index is refused for listing a tag twice. A registry that is loaded has exactly the filters of the last entries,
    each of which is registered; so every entry is registered exactly when no tag is listed with another filter before
    its last one, and in particular when no tag is listed twice. -/
theorem load_keeps_last_entries (files : FileAccess Id) (path : String) :
    (∀ name, Id.run (load files path).run ≠ .error (.unsound (.duplicate name))) ∧
    ∀ registry, Id.run (load files path).run = .ok registry →
      ∃ text entries, Id.run (files.read path) = .ok text ∧ TagIndex.Writes text entries ∧
        (∀ tag definition, registry.get? tag = some definition ↔
          ∃ source, TagIndex.IsLast entries tag source ∧ HoldsFilter files (directory path) source definition) ∧
        (∀ tag source, TagIndex.IsLast entries tag source → registry.Registers files (directory path) tag source) ∧
        ((∀ tag source, (tag, source) ∈ entries → registry.Registers files (directory path) tag source) ↔
          ∀ tag source last, (tag, source) ∈ entries → TagIndex.IsLast entries tag last →
            ∃ definition, HoldsFilter files (directory path) source definition ∧
              HoldsFilter files (directory path) last definition) ∧
        ((entries.map (·.1)).Nodup →
          ∀ tag source, (tag, source) ∈ entries → registry.Registers files (directory path) tag source) := by
  constructor
  · intro name refused
    rw [run_load] at refused
    cases read : indexOf path (Id.run (files.read path)) with
    | error error =>
      rw [read] at refused
      cases refused
      exact indexOf_ne_unsound _ read
    | ok index =>
      rw [read] at refused
      exact TagIndex.build_ne_duplicate name refused
  · intro registry loaded
    rw [run_load] at loaded
    obtain ⟨index, read, built⟩ := bind_eq_ok_iff.mp loaded
    obtain ⟨text, entries, isText, writes, rfl⟩ := indexOf_eq_ok_iff.mp read
    refine ⟨text, entries, isText, writes, fun _ _ => TagIndex.get?_of_build built,
      fun _ _ => registers_of_isLast built, ⟨?_, ?_⟩, ?_⟩
    · intro all tag source last listed isLast
      exact (registers_iff built isLast).mp (all tag source listed)
    · intro same tag source listed
      obtain ⟨last, isLast⟩ := TagIndex.exists_isLast listed
      exact (registers_iff built isLast).mpr (same tag source last listed isLast)
    · intro distinct tag source listed
      exact registers_of_isLast built (TagIndex.isLast_of_nodup distinct listed)

/-- An index that lists one tag twice, and the two files. -/
def repeatingFiles : FileAccess Id where
  read path :=
    if path = "index.json" then .ok "\x7b\"a\": \"first.xml\", \"a\": \"second.xml\"\x7d"
    else if path = "first.xml" then .ok "<dict filter=\"none\"/>"
    else if path = "second.xml" then .ok "<list filter=\"all\"><int filter=\"none\"/></list>"
    else .error .notFound
  exists? _ := (true : Bool)

/-- The entries of this index. -/
def repeatingEntries : List (String × String) := [("a", "first.xml"), ("a", "second.xml")]

theorem repeatingEntries_written {text : String} (isText : Id.run (repeatingFiles.read "index.json") = .ok text) :
    TagIndex.Writes text repeatingEntries := by
  cases isText
  decide +kernel

/-- The index is loaded, and the last entry is registered. -/
theorem repeatingFiles_load_keeps_last_entries :
    ∃ registry, Id.run (load repeatingFiles "index.json").run = .ok registry ∧
      registry.Registers repeatingFiles "" "a" "second.xml" := by
  have loads : (Id.run (load repeatingFiles "index.json").run).isOk = true := by decide +kernel
  obtain ⟨registry, isRegistry⟩ := exists_of_isOk loads
  obtain ⟨_, entries, isText, writes, _, registers, _⟩ :=
    (load_keeps_last_entries repeatingFiles "index.json").2 registry isRegistry
  have isLast : TagIndex.IsLast entries "a" "second.xml" := by
    rw [writes.unique (repeatingEntries_written isText)]
    exact ⟨[("a", "first.xml")], [], rfl, nofun⟩
  exact ⟨registry, isRegistry, registers "a" "second.xml" isLast⟩

/-- The index lists two filters for one tag and is loaded all the same; the first is not registered. -/
theorem repeatingFiles_first_entry_dropped :
    ∃ text registry, Id.run (repeatingFiles.read "index.json") = .ok text ∧ TagIndex.Writes text repeatingEntries ∧
      Id.run (load repeatingFiles "index.json").run = .ok registry ∧ ("a", "first.xml") ∈ repeatingEntries ∧
      ¬registry.Registers repeatingFiles "" "a" "first.xml" := by
  have loads : (Id.run (load repeatingFiles "index.json").run).isOk = true := by decide +kernel
  obtain ⟨registry, isRegistry⟩ := exists_of_isOk loads
  refine ⟨_, registry, rfl, repeatingEntries_written rfl, isRegistry, List.mem_cons_self, ?_⟩
  rintro ⟨definition, ⟨root, document, checked⟩, found⟩
  -- The filter in the first file has no item, and the registered one has.
  have first : ((Id.run (repeatingFiles.document "first.xml").run).toOption.bind fun root =>
      (Filter.ofElement root).toOption.map Filter.depth) = some 1 := by decide +kernel
  have second : ((Id.run (load repeatingFiles "index.json").run).toOption.bind fun registry =>
      (registry.get? "a").map Filter.depth) = some 2 := by decide +kernel
  rw [isRegistry] at second
  have isSecond : (registry.get? "a").map Filter.depth = some 2 := second
  change Id.run (repeatingFiles.document "first.xml").run = .ok root at document
  rw [document] at first
  have isFirst : (Filter.ofElement root).toOption.map Filter.depth = some 1 := first
  rw [checked] at isFirst
  rw [found] at isSecond
  cases isFirst.symm.trans isSecond

end Registry

end ModelCatalog
