import ModelCatalog.Command.Run
import ModelCatalog.Proofs.Command.Options
import ModelCatalog.Proofs.Manifest.Acceptance
import ModelCatalog.Proofs.Registry.Loading
import ModelCatalog.Storage.FileTree

/-!
# Commands agree with what they ask

Whatever the files answer, every call succeeds and writes to the output only, or fails and writes to the errors
only (`Command.Result.Clear`). It succeeds exactly when every step it consists of does (`Invocation.Accepted`):
the configuration and the registry load, the documents are read, and what is asked of them holds. A step
that is refused ends the call with a failure (`Command.Refuses`), so a sequence of steps succeeds when the
first does and then the others. A manifest that is valid matches the base filter of the configuration, by
itself and as a command (`Command.run_agrees`).
-/

namespace ModelCatalog

open Storage

namespace Command

/-- A result says either of success or of failure, on one stream. -/
inductive Result.Clear : Result → Prop
  | success (output : String) : Clear { exitCode := 0, output }
  | failure {errors : String} : errors ≠ "" → Clear { exitCode := 1, errors }

theorem lines_ne (text : String) : lines [text] ≠ "" := by
  intro isEmpty
  have short := congrArg String.length isEmpty
  simp [lines] at short

namespace Result.Clear

variable {result : Result}

theorem exitCode (clear : result.Clear) : result.exitCode = 0 ∨ result.exitCode = 1 := by
  cases clear with
  | success output => exact .inl rfl
  | failure notEmpty => exact .inr rfl

theorem of_one (clear : result.Clear) (failed : result.exitCode = 1) : result.output = "" ∧ result.errors ≠ "" := by
  cases clear with
  | success output => cases failed
  | failure notEmpty => exact ⟨rfl, notEmpty⟩

theorem of_zero (clear : result.Clear) (succeeded : result.exitCode = 0) : result.errors = "" := by
  cases clear with
  | success output => rfl
  | failure notEmpty => cases succeeded

end Result.Clear

theorem clear_success (texts : List String) : (Result.success texts).Clear := .success _

theorem clear_failure (text : String) : (Result.failure text).Clear := .failure (lines_ne text)

/-! ## Steps -/

/-- A step that is refused ends the call with a failure. -/
def Refuses (step : Except Result α) : Prop :=
  ∀ result, step = .error result → ∃ text, result = .failure text

/-- The rest of a call succeeds. -/
def Succeeds (rest : Except Result Result) : Prop := (Result.merge rest).exitCode = 0

variable {α β : Type} {step : Except Result α} {next : α → Except Result Result}

theorem succeeds_bind_iff (refuses : Refuses step) :
    Succeeds (step >>= next) ↔ ∃ value, step = .ok value ∧ Succeeds (next value) := by
  cases step with
  | error result =>
    obtain ⟨text, rfl⟩ := refuses result rfl
    constructor
    · intro succeeds
      cases succeeds
    · rintro ⟨value, impossible, _⟩
      cases impossible
  | ok value =>
    constructor
    · intro succeeds
      exact ⟨value, rfl, succeeds⟩
    · rintro ⟨_, same, succeeds⟩
      cases same
      exact succeeds

theorem clear_bind (refuses : Refuses step) (onward : ∀ value, (Result.merge (next value)).Clear) :
    (Result.merge (step >>= next)).Clear := by
  cases step with
  | error result =>
    obtain ⟨text, rfl⟩ := refuses result rfl
    exact clear_failure text
  | ok value => exact onward value

/-- A computation whose errors are reported is refused with a failure. -/
theorem refuses_mapError {checked : Except ε α} {report : ε → String} :
    Refuses (checked.mapError fun error => .failure (report error)) := by
  intro result refused
  cases checked with
  | error error =>
    cases refused
    exact ⟨report error, rfl⟩
  | ok value => cases refused

theorem orReport_eq_mapError {path : String} {report : ε → String} {checked : Except ε α} :
    orReport path report checked = checked.mapError fun error => .failure (path ++ ": " ++ report error) := by
  cases checked <;> rfl

theorem run_orLoadError {message : ε → String} {action : ExceptT ε Id α} :
    Id.run (orLoadError message action).run =
      (Id.run action.run).mapError fun error => .failure ("error: " ++ message error) := rfl

theorem succeeds_verdict_iff {path accepted : String} {report : ε → String} {checked : Except ε α} :
    Succeeds (verdict path accepted report checked) ↔ ∃ value, checked = .ok value := by
  cases checked with
  | error error =>
    constructor
    · intro succeeds
      cases succeeds
    · rintro ⟨_, impossible⟩
      cases impossible
  | ok value => exact ⟨fun _ => ⟨value, rfl⟩, fun _ => rfl⟩

theorem clear_verdict {path accepted : String} {report : ε → String} {checked : Except ε α} :
    (Result.merge (verdict path accepted report checked)).Clear := by
  cases checked with
  | error error => exact clear_failure _
  | ok value => exact clear_success _

end Command

/-! ## What is asked -/

open Command

/-- A configuration is that of a call. -/
def Invocation.Configures (invocation : Invocation) (files : FileAccess Id) (config : Config) : Prop :=
  Id.run (Config.resolve files (invocation.config.getD defaultConfigFile) invocation.config.isSome
    invocation.overrides).run = .ok config

/-- A registry is that of a configuration. -/
def Config.Registers (config : Config) (files : FileAccess Id) (registry : Registry) : Prop :=
  Id.run (Registry.load files config.tagIndex).run = .ok registry

/-- A filter is the base filter of a configuration. -/
def Config.HasBase (config : Config) (files : FileAccess Id) (registry : Registry) (base : Filter) : Prop :=
  Id.run (config.loadBaseFilter files registry).run = .ok base

/-- The file at a path holds a document. -/
def Storage.FileAccess.Holds (files : FileAccess Id) (path : String) (root : Element) : Prop :=
  Id.run (files.document path).run = .ok root

/-- All that a call consists of succeeds: what it needs is loaded, and what it asks of that holds. -/
def Invocation.Accepted (invocation : Invocation) (files : FileAccess Id) : Prop :=
  match invocation.command with
  | .expandTags text => ∃ tags, Condensed.parse text = .ok tags
  | .validateFilter path tagName =>
    ∃ config, invocation.Configures files config ∧ ∃ registry, config.Registers files registry ∧
      ∃ root, files.Holds path root ∧ ∃ filter, registry.validateFilter tagName root = .ok filter
  | .validateManifest path =>
    ∃ config, invocation.Configures files config ∧ ∃ registry, config.Registers files registry ∧
      ∃ base, config.HasBase files registry base ∧
        ∃ root, files.Holds path root ∧ ∃ manifest, registry.validateManifest base root = .ok manifest
  | .matchFilter filterPath manifestPath =>
    ∃ config, invocation.Configures files config ∧ ∃ registry, config.Registers files registry ∧
      ∃ filterRoot, files.Holds filterPath filterRoot ∧
        ∃ filter, registry.validateFilter none filterRoot = .ok filter ∧
          ∃ manifestRoot, files.Holds manifestPath manifestRoot ∧
            ∃ manifest, Manifest.ofElement manifestRoot = .ok manifest ∧
              registry.matchManifest filter manifest = .ok ()

namespace Command

variable {files : FileAccess Id} {invocation : Invocation}

theorem refuses_config : Refuses (Id.run (config files invocation).run) := refuses_mapError

theorem config_eq_ok_iff {result : Config} :
    Id.run (config files invocation).run = .ok result ↔ invocation.Configures files result :=
  mapError_eq_ok_iff

theorem refuses_registry {config : Config} : Refuses (Id.run (registry files config).run) := refuses_mapError

theorem registry_eq_ok_iff {config : Config} {result : Registry} :
    Id.run (registry files config).run = .ok result ↔ config.Registers files result :=
  mapError_eq_ok_iff

theorem refuses_document {path : String} : Refuses (Id.run (document files path).run) := refuses_mapError

theorem document_eq_ok_iff {path : String} {root : Element} :
    Id.run (document files path).run = .ok root ↔ files.Holds path root :=
  mapError_eq_ok_iff

/-! ## Calls -/

theorem run_runValidateFilter {path : String} {tagName : Option String} :
    Id.run (runValidateFilter files invocation path tagName).run =
      Id.run (config files invocation).run >>= fun config =>
        Id.run (registry files config).run >>= fun registry =>
          Id.run (document files path).run >>= fun root =>
            verdict path "valid filter" ({} : Reporter).filterInvalidity (registry.validateFilter tagName root) := by
  simp only [runValidateFilter, run_bind, run_ofExcept]

theorem run_runValidateManifest {path : String} :
    Id.run (runValidateManifest files invocation path).run =
      Id.run (config files invocation).run >>= fun config =>
        Id.run (registry files config).run >>= fun registry =>
          Id.run (orLoadError BaseFilterError.message (config.loadBaseFilter files registry)).run >>= fun base =>
            Id.run (document files path).run >>= fun root =>
              verdict path "valid manifest" ({} : Reporter).manifestInvalidity
                (registry.validateManifest base root) := by
  simp only [runValidateManifest, run_bind, run_ofExcept]

/-- The result of a match as that of a command. -/
def matched (filterPath manifestPath : String) : Except MatchFailure Unit → Result
  | .ok () => .success [manifestPath ++ " matches " ++ filterPath]
  | .error failure => .failure (({} : Reporter).matchFailure failure)

theorem run_runMatch {filterPath manifestPath : String} :
    Id.run (runMatch files invocation filterPath manifestPath).run =
      Id.run (config files invocation).run >>= fun config =>
        Id.run (registry files config).run >>= fun registry =>
          Id.run (document files filterPath).run >>= fun filterRoot =>
            orReport filterPath ({} : Reporter).filterInvalidity
                (registry.validateFilter none filterRoot) >>= fun filter =>
              Id.run (document files manifestPath).run >>= fun manifestRoot =>
                orReport manifestPath ({} : Reporter).violation (Manifest.ofElement manifestRoot) >>= fun manifest =>
                  .ok (matched filterPath manifestPath (registry.matchManifest filter manifest)) := by
  simp only [runMatch, run_bind, run_ofExcept]
  congr 1; funext config; congr 1; funext registry; congr 1; funext filterRoot; congr 1; funext filter
  congr 1; funext manifestRoot; congr 1; funext manifest
  cases registry.matchManifest filter manifest <;> rfl

theorem clear_run : (Id.run (run files invocation)).Clear := by
  obtain ⟨configPath, overrides, command⟩ := invocation
  cases command with
  | expandTags text =>
    change (runExpandTags text).Clear
    unfold runExpandTags
    cases Condensed.parse text with
    | error error => exact clear_failure _
    | ok tags => exact clear_success _
  | validateFilter path tagName =>
    change (Result.merge (Id.run (runValidateFilter files _ path tagName).run)).Clear
    rw [run_runValidateFilter]
    refine clear_bind refuses_config fun config => clear_bind refuses_registry fun registry => ?_
    exact clear_bind refuses_document fun root => clear_verdict
  | validateManifest path =>
    change (Result.merge (Id.run (runValidateManifest files _ path).run)).Clear
    rw [run_runValidateManifest]
    refine clear_bind refuses_config fun config => clear_bind refuses_registry fun registry => ?_
    exact clear_bind refuses_mapError fun base => clear_bind refuses_document fun root => clear_verdict
  | matchFilter filterPath manifestPath =>
    change (Result.merge (Id.run (runMatch files _ filterPath manifestPath).run)).Clear
    rw [run_runMatch]
    simp only [orReport_eq_mapError]
    refine clear_bind refuses_config fun config => clear_bind refuses_registry fun registry => ?_
    refine clear_bind refuses_document fun filterRoot => clear_bind refuses_mapError fun filter => ?_
    refine clear_bind refuses_document fun manifestRoot => clear_bind refuses_mapError fun manifest => ?_
    change (matched filterPath manifestPath _).Clear
    cases registry.matchManifest filter manifest with
    | error failure => exact clear_failure _
    | ok done => exact clear_success _

/-- A call succeeds exactly when all that it consists of does. -/
theorem run_succeeds_iff : (Id.run (run files invocation)).exitCode = 0 ↔ invocation.Accepted files := by
  obtain ⟨configPath, overrides, command⟩ := invocation
  cases command with
  | expandTags text =>
    change (runExpandTags text).exitCode = 0 ↔ ∃ tags, Condensed.parse text = .ok tags
    unfold runExpandTags
    cases Condensed.parse text <;> simp [Result.success, Result.failure]
  | validateFilter path tagName =>
    change Succeeds (Id.run (runValidateFilter files _ path tagName).run) ↔ _
    rw [run_runValidateFilter]
    simp only [succeeds_bind_iff refuses_config, succeeds_bind_iff refuses_registry,
      succeeds_bind_iff refuses_document, succeeds_verdict_iff, config_eq_ok_iff, registry_eq_ok_iff,
      document_eq_ok_iff]
    rfl
  | validateManifest path =>
    change Succeeds (Id.run (runValidateManifest files _ path).run) ↔ _
    rw [run_runValidateManifest]
    simp only [succeeds_bind_iff refuses_config, succeeds_bind_iff refuses_registry, run_orLoadError,
      succeeds_bind_iff refuses_mapError, succeeds_bind_iff refuses_document, succeeds_verdict_iff,
      config_eq_ok_iff, registry_eq_ok_iff, document_eq_ok_iff, mapError_eq_ok_iff]
    rfl
  | matchFilter filterPath manifestPath =>
    have succeeds (registry : Registry) (filter : Filter) (manifest : Manifest) :
        Succeeds (.ok (matched filterPath manifestPath (registry.matchManifest filter manifest))) ↔
          registry.matchManifest filter manifest = .ok () := by
      change (matched filterPath manifestPath _).exitCode = 0 ↔ _
      cases registry.matchManifest filter manifest <;> simp [matched, Result.success, Result.failure]
    change Succeeds (Id.run (runMatch files _ filterPath manifestPath).run) ↔ _
    rw [run_runMatch]
    simp only [orReport_eq_mapError, succeeds_bind_iff refuses_config, succeeds_bind_iff refuses_registry,
      succeeds_bind_iff refuses_document, succeeds_bind_iff refuses_mapError, succeeds, config_eq_ok_iff,
      registry_eq_ok_iff, document_eq_ok_iff, mapError_eq_ok_iff]
    rfl

end Command

/-! ## Validation and match -/

variable {files : FileAccess Id} {config : Config} {registry : Registry} {base : Filter}

/-- The base filter of a configuration is the valid filter in the file that it names. -/
theorem Config.hasBase_iff : config.HasBase files registry base ↔ ∃ path, config.baseFilter = some path ∧
    ∃ root, files.Holds path root ∧ registry.validateFilter none root = .ok base := by
  obtain ⟨tagIndex, baseFilter⟩ := config
  rw [HasBase, loadBaseFilter]
  cases baseFilter with
  | none =>
    constructor
    · intro impossible
      cases impossible
    · rintro ⟨path, impossible, _⟩
      cases impossible
  | some path =>
    simp only [run_bind, run_ofExcept, Option.some.injEq, exists_eq_left', FileAccess.Holds]
    change baseFilterOf registry path (Id.run (files.document path).run) = .ok base ↔ _
    cases Id.run (files.document path).run with
    | error cause => simp [baseFilterOf]
    | ok root => simp [baseFilterOf, mapError_eq_ok_iff]

/-- A manifest that is valid is read as one that the base filter matches. -/
theorem Registry.fits_of_validateManifest {root : Element} {manifest : Manifest}
    (valid : registry.validateManifest base root = .ok manifest) : registry.Fits base root manifest := by
  have verdict : registry.Verdict base root (registry.validateManifest base root) := verdict_validateManifest
  rw [valid] at verdict
  exact verdict.1

/-- A call that validates a manifest is configured with a file of a base filter, and every call with the same
    configuration that matches the manifest with that file is accepted too. -/
theorem Invocation.Accepted.exists_base {invocation : Invocation} {path : String} (accepted : invocation.Accepted files)
    (validates : invocation.command = .validateManifest path) :
    ∃ config filter root, invocation.Configures files config ∧ config.baseFilter = some filter ∧
      files.Holds filter root ∧ ∀ matching : Invocation, matching.command = .matchFilter filter path →
        matching.Configures files config → matching.Accepted files := by
  rw [Accepted, validates] at accepted
  obtain ⟨config, configured, registry, registers, base, hasBase, root, holds, manifest, valid⟩ := accepted
  obtain ⟨filter, isBase, filterRoot, filterHolds, filterValid⟩ := Config.hasBase_iff.mp hasBase
  refine ⟨config, filter, filterRoot, configured, isBase, filterHolds, fun matching asks same => ?_⟩
  obtain ⟨read, _, isMatch⟩ := Registry.fits_of_validateManifest valid
  rw [Accepted, asks]
  exact ⟨config, same, registry, registers, filterRoot, filterHolds, base, filterValid, root, holds, manifest,
    read, isMatch⟩

/-! ## All calls -/

/-- Every call that the arguments make, over any files of which none has an empty path, ends with code 0 or 1:
    with 1 it writes to the errors only, and with 0 to the output only. It ends with 0 exactly when all that it
    consists of succeeds. Expanding writes the tags in the order of their bytes, one a line. When a manifest is
    valid, the base filter of the configuration can be given to a match with it, and every call that does so with
    the same configuration ends with 0. -/
theorem Command.run_agrees (unnamed : ∀ root, ¬files.Holds "" root) {arguments : List String} {invocation : Invocation}
    (read : Arguments.read arguments = some invocation) :
    let result := Id.run (run files invocation)
    (result.exitCode = 0 ∨ result.exitCode = 1) ∧
    (result.exitCode = 1 → result.output = "" ∧ result.errors ≠ "") ∧
    (result.exitCode = 0 → result.errors = "") ∧
    (result.exitCode = 0 ↔ invocation.Accepted files) ∧
    (∀ text tags, invocation.command = .expandTags text → Condensed.parse text = .ok tags →
      ∃ names, result.output = lines names ∧ names.Pairwise (bytes · < bytes ·) ∧
        ∀ name, name ∈ names ↔ name ∈ tags) ∧
    ∀ path, invocation.command = .validateManifest path → result.exitCode = 0 →
      ∃ config filter, invocation.Configures files config ∧ config.baseFilter = some filter ∧
        Arguments.read (invocation.matchArguments filter path) =
          some { invocation with command := .matchFilter filter path } ∧
        (Id.run (run files { invocation with command := .matchFilter filter path })).exitCode = 0 ∧
        ∀ others matching, Arguments.read others = some matching →
          matching.command = .matchFilter filter path → matching.Configures files config →
          (Id.run (run files matching)).exitCode = 0 := by
  intro result
  have clear : result.Clear := clear_run
  refine ⟨clear.exitCode, clear.of_one, clear.of_zero, run_succeeds_iff, ?_, ?_⟩
  · intro text tags expands parsed
    refine ⟨tags.toList, ?_, tags.sorted.imp lt_iff_bytes_lt.mp, fun name => NameSet.mem_toList⟩
    have isResult : result = runExpandTags text := by
      simp only [result, run, expands]
      rfl
    rw [isResult, runExpandTags, parsed]
    rfl
  · intro path validates succeeds
    obtain ⟨config, filter, root, configured, isBase, holds, accepts⟩ :=
      (run_succeeds_iff.mp succeeds).exists_base validates
    have proper := Arguments.proper_of_read read
    have isFilter : filter ≠ "" := by
      rintro rfl
      exact unnamed root holds
    have isManifest : path ≠ "" := by
      rintro rfl
      exact proper.manifest validates
    have matches_ {matching : Invocation} (asks : matching.command = .matchFilter filter path)
        (same : matching.Configures files config) : (Id.run (run files matching)).exitCode = 0 :=
      run_succeeds_iff.mpr (accepts matching asks same)
    exact ⟨config, filter, configured, isBase, Arguments.read_matchArguments proper isFilter isManifest,
      matches_ rfl configured, fun _ _ _ asks same => matches_ asks same⟩

/-! ## Files of a tree -/

/-- An empty path leads to no file of a tree. -/
theorem Storage.FileTree.not_holds_empty (tree : FileTree) (root : Element) : ¬tree.access.Holds "" root := by
  intro holds
  cases holds

/-- A tree with a configuration, an index of no tags and a manifest in the working directory, and a base filter
    that the configuration names from the root. -/
def sampleTree : FileTree := .ofFiles [
  ("mercury.json", .text "\x7b \"tag_index\": \"index.json\", \"base_model_filter\": \"/abs/base.xml\" \x7d"),
  ("index.json", .text "\x7b\x7d"),
  ("/abs/base.xml", .text "<dict filter=\"none\"/>"),
  ("model.xml", .text "<dict/>")]

theorem sampleTree_run_agrees :
    Arguments.read ["validate-manifest", "model.xml"] = some { command := .validateManifest "model.xml" } ∧
    (Id.run (run sampleTree.access { command := .validateManifest "model.xml" })).exitCode = 0 ∧
    Arguments.read ["match", "--filter=/abs/base.xml", "--manifest=model.xml"] =
      some { command := .matchFilter "/abs/base.xml" "model.xml" } ∧
    (Id.run (run sampleTree.access { command := .matchFilter "/abs/base.xml" "model.xml" })).exitCode = 0 := by
  have read : Arguments.read ["validate-manifest", "model.xml"] =
      some { command := .validateManifest "model.xml" } := by decide +kernel
  have valid : (Id.run (run sampleTree.access { command := .validateManifest "model.xml" })).exitCode = 0 := by
    decide +kernel
  obtain ⟨_, _, _, _, _, validated⟩ := Command.run_agrees sampleTree.not_holds_empty read
  obtain ⟨config, filter, configured, isBase, given, matched, _⟩ := validated "model.xml" rfl valid
  have resolved : Invocation.Configures { command := .validateManifest "model.xml" } sampleTree.access
      ⟨"index.json", some "/abs/base.xml"⟩ := by
    rw [Invocation.Configures]
    decide +kernel
  cases resolved.symm.trans configured
  cases isBase
  exact ⟨read, valid, given, matched⟩

end ModelCatalog
