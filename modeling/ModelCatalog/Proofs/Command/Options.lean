import ModelCatalog.Command.Arguments

/-!
# Options of a call

What a call gives for its options. A path that an option gives is never empty (`Arguments.Part.Proper`), nor
is that of a document (`Arguments.proper_of_read`). Written with `=`, any text is the value of a long
option, also one that looks like another option; so every path can be given as an option to a match
(`Arguments.read_matchArguments`).
-/

namespace ModelCatalog

namespace Arguments

/-- The paths that a part gives are not empty. -/
def Part.Proper (part : Part) : Prop :=
  ∀ option value, (option, value) ∈ part.values → option.isPath → value ≠ ""

namespace Part

variable {part next : Part} {option : OptionName} {value : String}

theorem Proper.set (proper : part.Proper) (given : part.set option value = some next) : next.Proper := by
  rw [Part.set] at given
  split at given
  · cases given
  next fits =>
    cases given
    intro other text member isPath
    rcases List.mem_cons.mp member with same | before
    · cases same
      exact fun isEmpty => fits (.inr ⟨isPath, isEmpty⟩)
    · exact proper other text before isPath

theorem Proper.setVerbose (proper : part.Proper) (given : part.setVerbose = some next) : next.Proper := by
  rw [Part.setVerbose] at given
  split at given
  · cases given
  · cases given
    exact proper

/-- Every argument keeps the paths of a part from being empty. -/
theorem Proper.read {command : Option CommandName} {reading onward : Reading} {argument : String}
    (proper : part.Proper) (done : part.read command reading argument = some (next, onward)) :
    next.Proper := by
  unfold Part.read at done
  split at done
  · cases done
    exact proper
  · obtain ⟨changed, isSet, done⟩ := Option.bind_eq_some_iff.mp done
    cases done
    exact proper.set isSet
  · cases done
  · cases done
    exact proper
  · split at done
    · obtain ⟨changed, isSet, done⟩ := Option.bind_eq_some_iff.mp done
      cases done
      exact proper.setVerbose isSet
    · cases done
  · split at done
    · obtain ⟨changed, isSet, done⟩ := Option.bind_eq_some_iff.mp done
      cases done
      exact proper.setVerbose isSet
    · obtain ⟨option, _, done⟩ := Option.bind_eq_some_iff.mp done
      cases done
      exact proper
  · obtain ⟨option, _, done⟩ := Option.bind_eq_some_iff.mp done
    obtain ⟨changed, isSet, done⟩ := Option.bind_eq_some_iff.mp done
    cases done
    exact proper.set isSet
  · cases done
    exact proper

theorem Proper.readAll {command : CommandName} {reading : Reading} {arguments : List String}
    (proper : part.Proper) (done : part.readAll command reading arguments = some next) : next.Proper := by
  induction arguments generalizing part reading with
  | nil =>
    unfold Part.readAll at done
    split at done
    · cases done
    · cases done
      exact proper
  | cons argument rest ih =>
    obtain ⟨⟨changed, onward⟩, first, done⟩ := Option.bind_eq_some_iff.mp done
    exact ih (proper.read first) done

theorem Proper.value_ne {option : OptionName} {value : String} (proper : part.Proper)
    (isPath : option.isPath) (found : part.values.lookup option = some value) : value ≠ "" := by
  obtain ⟨before, after, split, _⟩ := List.lookup_eq_some_iff.mp found
  refine proper option value ?_ isPath
  rw [split]
  exact List.mem_append_right _ List.mem_cons_self

end Part

variable {front back : Part}

theorem globalValue_ne {option : OptionName} (frontProper : front.Proper) (backProper : back.Proper)
    (isPath : option.isPath) : globalValue front back option ≠ some "" := by
  intro found
  rcases Option.or_eq_some_iff.mp found with given | ⟨_, given⟩
  · exact backProper.value_ne isPath given rfl
  · exact frontProper.value_ne isPath given rfl

end Arguments

/-- The paths of options of a call are not empty, nor is that of a manifest to validate. -/
structure Invocation.Proper (invocation : Invocation) : Prop where
  config : invocation.config ≠ some ""
  tagIndex : invocation.overrides.tagIndex ≠ some ""
  baseFilter : invocation.overrides.baseFilter ≠ some ""
  manifest : invocation.command ≠ .validateManifest ""

namespace Arguments

theorem command_ne {name : CommandName} {part : Part} {command : Command}
    (isCommand : name.command part = some command) : command ≠ .validateManifest "" := by
  unfold CommandName.command at isCommand
  split at isCommand
  · split at isCommand
    · cases isCommand
    next notEmpty =>
      cases isCommand
      exact fun same => notEmpty (Command.validateManifest.inj same)
  · split at isCommand <;> cases isCommand
    exact nofun
  · obtain ⟨filter, _, isCommand⟩ := Option.bind_eq_some_iff.mp isCommand
    obtain ⟨manifest, _, isCommand⟩ := Option.bind_eq_some_iff.mp isCommand
    cases isCommand
    exact nofun
  · cases isCommand
    exact nofun
  · cases isCommand

theorem proper_of_readFront {front : Part} {reading : Reading} {arguments : List String}
    {invocation : Invocation} (proper : front.Proper)
    (read : readFront front reading arguments = some invocation) : invocation.Proper := by
  induction arguments generalizing front reading with
  | nil => cases read
  | cons argument rest ih =>
    have onward (read : ((front.read none reading argument).bind fun next =>
        if next.1.operands ≠ [] then none else readFront next.1 next.2 rest) = some invocation) :
        invocation.Proper := by
      obtain ⟨next, first, read⟩ := Option.bind_eq_some_iff.mp read
      split at read
      · cases read
      · exact ih (proper.read first) read
    unfold readFront at read
    split at read
    next name _ =>
      obtain ⟨back, isBack, read⟩ := Option.bind_eq_some_iff.mp read
      obtain ⟨command, isCommand, read⟩ := Option.bind_eq_some_iff.mp read
      cases read
      have none : ({} : Part).Proper := fun _ _ member => absurd member List.not_mem_nil
      have backProper := none.readAll isBack
      exact ⟨globalValue_ne proper backProper rfl, globalValue_ne proper backProper rfl,
        globalValue_ne proper backProper rfl, command_ne isCommand⟩
    · exact onward read
    · exact onward read
    · cases read

/-- No call gives an empty path. -/
theorem proper_of_read {arguments : List String} {invocation : Invocation}
    (read : Arguments.read arguments = some invocation) : invocation.Proper :=
  proper_of_readFront (fun _ _ member => absurd member List.not_mem_nil) read

end Arguments

/-! ## Long options -/

namespace Arguments

/-- A long option with its value. -/
def longOption (name value : String) : String := "--" ++ name ++ "=" ++ value

theorem toList_longOption (name value : String) :
    (longOption name value).toList = '-' :: '-' :: (name.toList ++ '=' :: value.toList) := by
  simp [longOption]

/-- Everything behind the first `=` is the value. -/
theorem form_longOption {name value : String} (plain : '=' ∉ name.toList) :
    form (longOption name value) = .long name (some value) := by
  have before : ∀ c ∈ name.toList, decide (c ≠ '=') = true :=
    fun c member => decide_eq_true fun same => plain (same ▸ member)
  have value_ : (name.toList ++ '=' :: value.toList).dropWhile (· ≠ '=') = '=' :: value.toList := by
    rw [List.dropWhile_append_of_pos before]
    rfl
  have name_ : (name.toList ++ '=' :: value.toList).takeWhile (· ≠ '=') = name.toList := by
    rw [List.takeWhile_append_of_pos before]
    simp
  unfold form
  rw [toList_longOption]
  split
  next separator =>
    have short := congrArg List.length separator
    simp at short
  next word same =>
    cases same
    rw [value_, name_]
    simp
  next other same =>
    cases same
    exact (other rfl).elim
  next other => exact (other _ _ rfl).elim

/-- A long option is no command. -/
theorem name?_longOption (name value : String) : name? (longOption name value) = none := by
  have differs {text : String} (first : text.toList.head? ≠ some '-') : longOption name value ≠ text := by
    rintro rfl
    rw [toList_longOption] at first
    exact first rfl
  rw [name?, if_neg (differs (by decide)), if_neg (differs (by decide)), if_neg (differs (by decide)),
    if_neg (differs (by decide))]

/-- A long option is given its value, unless it has one. -/
theorem read_longOption (part : Part) (command : Option CommandName) {name value : String} {option : OptionName}
    (plain : '=' ∉ name.toList) (isOption : option? command name = some option)
    (new : part.values.lookup option = none) (notEmpty : value ≠ "") :
    part.read command .any (longOption name value) =
      some ({ part with values := (option, value) :: part.values }, .any) := by
  have given : part.set option value = some { part with values := (option, value) :: part.values } := by
    rw [Part.set, new, if_neg]
    rintro (impossible | ⟨_, isEmpty⟩)
    · cases impossible
    · exact notEmpty isEmpty
  unfold Part.read
  rw [form_longOption plain]
  simp only [isOption, given, Option.bind_eq_bind, Option.bind_some]
  rfl

/-- A part with an option that may be given. -/
def Part.withOption (part : Part) (option : OptionName) : Option String → Part
  | none => part
  | some value => { part with values := (option, value) :: part.values }

/-- An option in front of the command that may be given. -/
theorem readFront_longOption {front : Part} {value? : Option String} {rest : List String} (name : String)
    (option : OptionName) (plain : '=' ∉ name.toList) (isOption : option? none name = some option)
    (new : front.values.lookup option = none) (noOperands : front.operands = [])
    (notEmpty : value? ≠ some "") :
    readFront front .any ((value?.map (longOption name)).toList ++ rest) =
      readFront (front.withOption option value?) .any rest := by
  obtain ⟨values, verbose, operands⟩ := front
  cases noOperands
  cases value? with
  | none => rfl
  | some value =>
    have read := read_longOption { values, verbose } none plain isOption new
      fun same => notEmpty (congrArg some same)
    change readFront { values, verbose } .any (longOption name value :: rest) = _
    conv => lhs; unfold readFront
    simp only [name?_longOption, read, Option.bind_eq_bind, Option.bind_some, ne_eq, not_true_eq_false,
      if_false]
    rfl

end Arguments

open Arguments

/-- The global options of a call as arguments. -/
def Invocation.globalArguments (invocation : Invocation) : List String :=
  (invocation.config.map (longOption "config")).toList ++
    ((invocation.overrides.tagIndex.map (longOption "tag-index")).toList ++
      (invocation.overrides.baseFilter.map (longOption "base-model-filter")).toList)

/-- The arguments of a match with the global options of a call. -/
def Invocation.matchArguments (invocation : Invocation) (filter manifest : String) : List String :=
  invocation.globalArguments ++ ["match", longOption "filter" filter, longOption "manifest" manifest]

/-- Every filter and every manifest can be given to a match, with the global options of any call. -/
theorem Arguments.read_matchArguments {invocation : Invocation} (proper : invocation.Proper)
    {filter manifest : String} (isFilter : filter ≠ "") (isManifest : manifest ≠ "") :
    Arguments.read (invocation.matchArguments filter manifest) =
      some { invocation with command := .matchFilter filter manifest } := by
  have back : ({} : Part).readAll .matchFilter .any [longOption "filter" filter, longOption "manifest" manifest] =
      some { values := [(.manifest, manifest), (.filter, filter)] } := by
    have isFirst : option? (some .matchFilter) "filter" = some .filter := by decide
    have isSecond : option? (some .matchFilter) "manifest" = some .manifest := by decide
    have first := read_longOption {} (some .matchFilter) (by decide) isFirst rfl isFilter
    have second := read_longOption { values := [(.filter, filter)] } (some .matchFilter) (by decide) isSecond
      rfl isManifest
    simp only [Part.readAll, first, second, Option.bind_eq_bind, Option.bind_some]
  obtain ⟨config, ⟨tagIndex, baseFilter⟩, command⟩ := invocation
  rw [Arguments.read, Invocation.matchArguments, Invocation.globalArguments, List.append_assoc,
    List.append_assoc]
  rw [readFront_longOption "config" .config (by decide) (by decide) rfl rfl proper.config,
    readFront_longOption "tag-index" .tagIndex (by decide) (by decide) (by cases config <;> rfl)
      (by cases config <;> rfl) proper.tagIndex,
    readFront_longOption "base-model-filter" .baseFilter (by decide) (by decide)
      (by cases config <;> cases tagIndex <;> rfl) (by cases config <;> cases tagIndex <;> rfl)
      proper.baseFilter]
  have isCommand : name? "match" = some .matchFilter := by decide
  conv => lhs; unfold readFront
  simp only [isCommand, back, Option.bind_eq_bind, Option.bind_some]
  cases config <;> cases tagIndex <;> cases baseFilter <;> rfl

end ModelCatalog
