import ModelCatalog.Proofs.Registry.Build
import Mathlib.Data.List.Forall2

/-!
# Loading an index

The definitions that an index lists are read from files and built to a registry. An index whose files
all hold filters loads exactly when the definitions in these files are sound, and to just these
definitions; a reported cycle runs through references, and a reported depth is that of the
costliest path (`build_ok_iff_sound`). Whatever loads is sound (`Registry.Loaded.sound`).
-/

namespace ModelCatalog

open Storage

variable {files : FileAccess Id} {base : String} {index : TagIndex} {registry : Registry}

/-- The file at a path, as seen from a directory, holds a filter. -/
def HoldsFilter (files : FileAccess Id) (base path : String) (definition : Filter) : Prop :=
  ∃ root, Id.run (files.document (join base path)).run = .ok root ∧ Filter.ofElement root = .ok definition

/-- The definitions that an index lists: a tag has the filter in the file at its path. -/
def TagIndex.defines (index : TagIndex) (files : FileAccess Id) (base : String) : Definitions :=
  fun tag definition => ∃ path, (tag, path) ∈ index.entries ∧ HoldsFilter files base path definition

/-- A registry that was built from the definitions of an index. -/
def Registry.Loaded (registry : Registry) : Prop :=
  ∃ (files : FileAccess Id) (base : String) (index : TagIndex),
    Id.run (index.build files base).run = .ok registry

theorem definitionOf_eq_ok_iff {tag path : String} {document : Except FileError Element}
    {definition : Filter} :
    definitionOf tag path document = .ok definition ↔
      ∃ root, document = .ok root ∧ Filter.ofElement root = .ok definition := by
  cases document with
  | error cause => simp [definitionOf]
  | ok root => simp [definitionOf, mapError_eq_ok_iff]

/-- Reading definitions reads the first and then the others. -/
theorem run_readDefinitions_cons {tag path : String} {rest : List (String × String)} :
    Id.run (readDefinitions files base ((tag, path) :: rest)).run =
      definitionOf tag (join base path) (Id.run (files.document (join base path)).run) >>= fun definition =>
        Id.run (readDefinitions files base rest).run >>= fun others => .ok ((tag, definition) :: others) := by
  rw [readDefinitions]
  simp only [run_bind, run_ofExcept, run_pure]
  rfl

theorem run_build :
    Id.run (index.build files base).run = Id.run (readDefinitions files base index.entries).run >>=
      fun definitions => (Registry.build definitions).mapError .unsound := by
  rw [TagIndex.build]
  simp only [run_bind, run_ofExcept]

theorem HoldsFilter.unique {path : String} {left right : Filter}
    (first : HoldsFilter files base path left) (second : HoldsFilter files base path right) : left = right := by
  obtain ⟨root, document, checked⟩ := first
  obtain ⟨other, otherDocument, otherChecked⟩ := second
  cases document.symm.trans otherDocument
  exact Except.ok.inj (checked.symm.trans otherChecked)

/-! ## Reading definitions -/

/-- A definition that was read for an entry of an index: its tag with the filter in its file. -/
def ReadFor (files : FileAccess Id) (base : String) (entry : String × String) (read : String × Filter) : Prop :=
  read.1 = entry.1 ∧ HoldsFilter files base entry.2 read.2

/-- Definitions are read when each file holds the filter of its tag, and in their order. -/
theorem readDefinitions_eq_ok_iff {entries : List (String × String)} {definitions : List (String × Filter)} :
    Id.run (readDefinitions files base entries).run = .ok definitions ↔
      List.Forall₂ (ReadFor files base) entries definitions := by
  induction entries generalizing definitions with
  | nil =>
    rw [List.forall₂_nil_left_iff]
    exact ⟨fun same => (Except.ok.inj same).symm, fun same => same ▸ rfl⟩
  | cons entry rest ih =>
    obtain ⟨tag, path⟩ := entry
    rw [run_readDefinitions_cons, List.forall₂_cons_left_iff]
    simp only [bind_eq_ok_iff, definitionOf_eq_ok_iff, ih]
    constructor
    · rintro ⟨definition, held, others, read, same⟩
      exact ⟨(tag, definition), others, ⟨rfl, held⟩, read, (Except.ok.inj same).symm⟩
    · rintro ⟨⟨_, definition⟩, others, ⟨rfl, held⟩, read, rfl⟩
      exact ⟨definition, held, others, read, rfl⟩

/-- Where each file holds a filter, definitions are read. -/
theorem exists_forall₂_readFor {entries : List (String × String)}
    (readable : ∀ entry ∈ entries, ∃ definition, HoldsFilter files base entry.2 definition) :
    ∃ definitions, List.Forall₂ (ReadFor files base) entries definitions := by
  induction entries with
  | nil => exact ⟨[], .nil⟩
  | cons entry rest ih =>
    obtain ⟨definition, held⟩ := readable entry List.mem_cons_self
    obtain ⟨others, read⟩ := ih fun other member => readable other (List.mem_cons_of_mem _ member)
    exact ⟨(entry.1, definition) :: others, .cons ⟨rfl, held⟩ read⟩

/-- The tags of definitions that were read are those of the index. -/
theorem map_fst_of_forall₂ {entries : List (String × String)} {definitions : List (String × Filter)}
    (each : List.Forall₂ (ReadFor files base) entries definitions) :
    definitions.map (·.1) = entries.map (·.1) := by
  induction each with
  | nil => rfl
  | cons first _ ih => rw [List.map_cons, List.map_cons, ih, first.1]

/-- The definitions that were read are those that the entries define. -/
theorem mem_definitions_iff {entries : List (String × String)} {definitions : List (String × Filter)}
    (each : List.Forall₂ (ReadFor files base) entries definitions) {tag : String} {definition : Filter} :
    (tag, definition) ∈ definitions ↔ ∃ path, (tag, path) ∈ entries ∧ HoldsFilter files base path definition := by
  induction each with
  | nil => simp
  | @cons entry read rest others first _ ih =>
    obtain ⟨name, path⟩ := entry
    obtain ⟨_, held⟩ := read
    obtain ⟨rfl, holds⟩ := first
    rw [List.mem_cons, ih]
    constructor
    · rintro (same | ⟨other, member, otherHolds⟩)
      · cases same
        exact ⟨path, List.mem_cons_self, holds⟩
      · exact ⟨other, List.mem_cons_of_mem _ member, otherHolds⟩
    · rintro ⟨other, member, otherHolds⟩
      rcases List.mem_cons.mp member with same | later
      · cases same
        exact .inl (Prod.ext rfl (otherHolds.unique holds))
      · exact .inr ⟨other, later, otherHolds⟩

theorem TagIndex.keys_nodup (index : TagIndex) : (index.entries.map (·.1)).Nodup :=
  index.sorted.imp String.ne_of_lt

/-! ## Building the registry -/

/-- An index whose files hold definitions that were read builds a registry of just these, or reports a
    fault that is there. -/
theorem build_ends_of_forall₂ {definitions : List (String × Filter)}
    (each : List.Forall₂ (ReadFor files base) index.entries definitions) :
    Ends (fun error => ∃ fault, error = .unsound fault ∧ fault.Tells (index.defines files base))
      (fun registry => registry.Holds = index.defines files base ∧ (index.defines files base).Sound)
      (Id.run (index.build files base).run) := by
  have defined : Definitions.listedIn definitions = index.defines files base := by
    funext tag definition
    exact propext (mem_definitions_iff each)
  have distinct : (definitions.map (·.1)).Nodup := by
    rw [map_fst_of_forall₂ each]
    exact index.keys_nodup
  rw [run_build, readDefinitions_eq_ok_iff.mpr each, ← defined]
  exact (Registry.build_ends distinct).mapError fun fault tells => ⟨fault, rfl, tells⟩

/-- A registry that was loaded is sound. -/
theorem Registry.Loaded.sound (loaded : registry.Loaded) : Definitions.Sound registry.Holds := by
  obtain ⟨files, base, index, built⟩ := loaded
  have opened := built
  rw [run_build] at opened
  obtain ⟨definitions, read, _⟩ := bind_eq_ok_iff.mp opened
  obtain ⟨same, sound⟩ := (build_ends_of_forall₂ (readDefinitions_eq_ok_iff.mp read)).of_ok built
  rw [same]
  exact sound

/-- A registry that was loaded from the file of an index was built from that index. -/
theorem Registry.loaded_of_load {path : String}
    (read : Id.run (Registry.load files path).run = .ok registry) : registry.Loaded := by
  rw [Registry.load] at read
  simp only [run_bind, run_ofExcept] at read
  obtain ⟨text, _, rest⟩ := bind_eq_ok_iff.mp read
  obtain ⟨index, _, built⟩ := bind_eq_ok_iff.mp rest
  exact ⟨files, directory path, index, built⟩

/-- An index whose files all hold filters loads exactly when the definitions in them are sound. It
    loads to just these definitions; a path that is reported as a cycle is one of references that runs
    into itself; and a depth that is reported for a tag is the greatest of its reference paths. -/
theorem build_ok_iff_sound
    (readable : ∀ tag path, (tag, path) ∈ index.entries → ∃ definition, HoldsFilter files base path definition) :
    ((∃ registry, Id.run (index.build files base).run = .ok registry) ↔
      (index.defines files base).Sound) ∧
    (∀ registry, Id.run (index.build files base).run = .ok registry → ∀ tag definition,
      registry.get? tag = some definition ↔ index.defines files base tag definition) ∧
    (∀ start path, Id.run (index.build files base).run = .error (.unsound (.cycle start path)) →
      (index.defines files base).RunsIntoItself path) ∧
    (∀ name depth, Id.run (index.build files base).run = .error (.unsound (.tooDeep name depth)) →
      IsGreatest ((index.defines files base).depths name) depth) := by
  obtain ⟨definitions, each⟩ := exists_forall₂_readFor fun entry member => readable entry.1 entry.2 member
  have ends := build_ends_of_forall₂ each
  refine ⟨⟨?_, ?_⟩, ?_, ?_, ?_⟩
  · rintro ⟨registry, built⟩
    exact (ends.of_ok built).2
  · intro sound
    cases result : Id.run (index.build files base).run with
    | ok registry => exact ⟨registry, rfl⟩
    | error error =>
      obtain ⟨fault, _, tells⟩ := ends.of_error result
      exact absurd sound tells.not_sound
  · intro registry built tag definition
    rw [← (ends.of_ok built).1]
    rfl
  · intro start path reported
    obtain ⟨fault, same, tells⟩ := ends.of_error reported
    cases same
    exact tells.2
  · intro name depth reported
    obtain ⟨fault, same, tells⟩ := ends.of_error reported
    cases same
    exact tells.2.1

/-- Files with two definitions, the second of which implies the tag of the first, and their index. -/
def sampleFiles : FileAccess Id where
  read path :=
    if path = "tags/a.xml" then .ok "<dict filter=\"all\"><named-field name=\"n\"><int filter=\"gt\">1</int></named-field></dict>"
    else if path = "tags/b.xml" then
      .ok "<tag-collection filter=\"implicit-tag-match\"><condensed-tags>a</condensed-tags></tag-collection>"
    else if path = "tags/index.json" then
      .ok "\x7b \"a\": \"a.xml\", \"a::b\": \"b.xml\" \x7d"
    else .error .notFound
  exists? _ := (true : Bool)

/-- The index of the two definitions. -/
def sampleIndex : TagIndex := ((∅ : TagIndex).insert "a" "a.xml").insert "a::b" "b.xml"

theorem sampleIndex_defines_sound :
    (∀ tag path, (tag, path) ∈ sampleIndex.entries →
      ∃ definition, HoldsFilter sampleFiles "tags" path definition) ∧
    (sampleIndex.defines sampleFiles "tags").Sound := by
  have checked : ∀ entry ∈ sampleIndex.entries, (definitionOf entry.1 entry.2
      (Id.run (sampleFiles.document (join "tags" entry.2)).run)).isOk = true := by decide +kernel
  have readable : ∀ tag path, (tag, path) ∈ sampleIndex.entries →
      ∃ definition, HoldsFilter sampleFiles "tags" path definition := by
    intro tag path member
    obtain ⟨definition, read⟩ := exists_of_isOk (checked _ member)
    exact ⟨definition, definitionOf_eq_ok_iff.mp read⟩
  have built : (Id.run (sampleIndex.build sampleFiles "tags").run).isOk = true := by decide +kernel
  exact ⟨readable, (build_ok_iff_sound readable).1.mp (exists_of_isOk built)⟩

/-- The registry of the two definitions. -/
def sampleRegistry : Registry :=
  (Id.run (Registry.load sampleFiles "tags/index.json").run).toOption.getD .empty

theorem sampleRegistry_loaded : sampleRegistry.Loaded := by
  have loads : (Id.run (Registry.load sampleFiles "tags/index.json").run).isOk = true := by decide +kernel
  obtain ⟨registry, isRegistry⟩ := exists_of_isOk loads
  rw [sampleRegistry, isRegistry]
  exact Registry.loaded_of_load isRegistry

end ModelCatalog
