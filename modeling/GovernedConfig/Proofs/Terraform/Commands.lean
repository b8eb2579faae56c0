import GovernedConfig.Proofs.Journal
import GovernedConfig.Proofs.Terraform
import GovernedConfig.Proofs.Text.Words
import GovernedConfig.Proofs.Value.Order

/-! # Command lines

Which tokens a command line is made of, and how many: the words of the command, the flags of the options that are
laid over the defaults, and the arguments. Nothing that an option says makes a token more or less.
-/

namespace GovernedConfig

/-- An act only leaves traces in its surroundings and answers nothing but `a`, and it does answer where the journal
takes lines. -/
structure Act.Yields {α : Type} (act : Act Ambient α) (a : α) : Prop where
  keeps : act.Keeps Ambient.Steady
  unique : ∀ {m n : Ambient} {b : α}, act m = .ok b n → b = a
  answers : ∀ {m : Ambient}, m.TakesLines → ∃ n, act m = .ok a n

namespace Act

variable {α β : Type} {a : α} {b : β}

theorem yields_pure (a : α) : (pure a : Act Ambient α).Yields a where
  keeps := keeps_pure a
  unique h := (pure_eq_ok_iff.mp h).1.symm
  answers _ := ⟨_, rfl⟩

theorem yields_suitable {found : Option α} (h : found = some a) : (suitable found : Act Ambient α).Yields a := by
  rw [h]
  exact yields_pure a

theorem Yields.bind {act : Act Ambient α} {next : α → Act Ambient β} (h : act.Yields a)
    (hk : ∀ a, (next a).Keeps Ambient.Steady) (hn : (next a).Yields b) : (act >>= next).Yields b where
  keeps := h.keeps.bind hk
  unique hb := by
    obtain ⟨a', k, ha, hb⟩ := bind_eq_ok_iff.mp hb
    rw [h.unique ha] at hb
    exact hn.unique hb
  answers hm := by
    obtain ⟨k, ha⟩ := h.answers hm
    obtain ⟨n, hb⟩ := hn.answers (hm.of_steady (h.keeps.of_ok ha))
    exact ⟨n, by rw [bind_of_ok ha, hb]⟩

theorem yields_write {level : Level} (hl : level ≠ .silent) (phase message : String) {data : Value}
    (hd : Json.holdsBigint data = false) : (Journal.write level (.text phase) (.text message) data).Yields () where
  keeps := Journal.write_keeps _ _ _ _
  unique _ := rfl
  answers hm := (hm.writes hl phase message data hd).imp fun _ h => h.2

end Act

namespace Terraform

open Act

inductive Scalar where
  | truth (b : Bool)
  | number (x : Binary64)
  | text (s : String)

namespace Scalar

def toValue : Scalar → Value
  | truth b => .bool b
  | number x => .number x
  | text s => .text s

def spelling : Scalar → String
  | truth true => "true"
  | truth false => "false"
  | number x => x.text
  | text s => s

theorem toText?_toValue (s : Scalar) : s.toValue.toText? = some s.spelling := by
  rcases s with (_ | _) | _ | _ <;> rfl

end Scalar

inductive Setting where
  | undefined
  | null
  | single (s : Scalar)
  | list (items : List Scalar)
  | mapping (entries : Record Scalar)

namespace Setting

def toValue : Setting → Value
  | undefined => .undefined
  | null => .null
  | single s => s.toValue
  | list items => .list (items.map Scalar.toValue)
  | mapping entries => .record (entries.mapValues Scalar.toValue)

def tokens (name : String) : Setting → List String
  | undefined => []
  | null => []
  | single s => [flag name s.spelling]
  | list items => items.map fun s => flag name s.spelling
  | mapping entries =>
    if name ∈ mappingOptions then entries.map fun entry => flag name (entry.1 ++ "=" ++ entry.2.spelling) else []

def count (name : String) : Setting → Nat
  | undefined => 0
  | null => 0
  | single _ => 1
  | list items => items.length
  | mapping entries => if name ∈ mappingOptions then entries.length else 0

theorem length_tokens (name : String) (s : Setting) : (s.tokens name).length = s.count name := by
  cases s with
  | mapping entries =>
    rw [tokens, count]
    split_ifs <;> simp
  | _ => simp [tokens, count]

theorem isFlagOf_of_mem {name token : String} {s : Setting} (h : token ∈ s.tokens name) : IsFlagOf name token := by
  have hflag (value : String) : IsFlagOf name (flag name value) := by
    simp [IsFlagOf, flag]
  cases s with
  | undefined => cases h
  | null => cases h
  | single s =>
    rw [List.mem_singleton.mp h]
    exact hflag _
  | list items =>
    obtain ⟨s, -, rfl⟩ := List.mem_map.mp h
    exact hflag _
  | mapping entries =>
    rw [tokens] at h
    split_ifs at h
    · obtain ⟨entry, -, rfl⟩ := List.mem_map.mp h
      exact hflag _
    · cases h

end Setting

section Flags

variable {name : String}

theorem listFlags_scalars (name : String) (items : List Scalar) :
    listFlags name (items.map Scalar.toValue) = some (items.map fun s => flag name s.spelling) := by
  induction items with
  | nil => rfl
  | cons s items ih => rw [List.map_cons, listFlags, s.toText?_toValue, ih, List.map_cons]

theorem mappingFlags_scalars (name : String) (entries : Record Scalar) :
    mappingFlags name (entries.mapValues Scalar.toValue) =
      some (entries.map fun entry => flag name (entry.1 ++ "=" ++ entry.2.spelling)) := by
  induction entries with
  | nil => rfl
  | cons entry entries ih =>
    change mappingFlags name ((entry.1, entry.2.toValue) :: Record.mapValues Scalar.toValue entries) = _
    rw [mappingFlags, entry.2.toText?_toValue, ih, List.map_cons]

theorem optionFlags_yields (option : String) (s : Setting) :
    (optionFlags option s.toValue).Yields (s.tokens (flagName option)) := by
  cases s with
  | undefined => exact yields_pure _
  | null => exact yields_pure _
  | single s =>
    have hone : (suitable (s.toValue.toText?.map fun text => [flag (flagName option) text]) :
        Act Ambient (List String)).Yields [flag (flagName option) s.spelling] :=
      yields_suitable (by rw [s.toText?_toValue, Option.map_some])
    cases s <;> exact hone
  | list items => exact yields_suitable (listFlags_scalars _ items)
  | mapping entries =>
    unfold Setting.tokens Setting.toValue optionFlags
    dsimp only
    split
    · exact yields_suitable (mappingFlags_scalars _ entries)
    · exact (yields_write (by decide) _ _ rfl).bind (fun _ => keeps_pure _) (yields_pure _)

end Flags

def optionTokens (options : Record Setting) : List String :=
  options.flatMap fun entry => entry.2.tokens (flagName entry.1)

theorem optionFlags_keeps (option : String) (v : Value) : (optionFlags option v).Keeps Ambient.Steady := by
  unfold optionFlags
  dsimp only
  split
  · exact keeps_pure _
  · exact keeps_pure _
  · exact keeps_suitable _
  · split
    · exact keeps_suitable _
    · exact (Journal.write_keeps _ _ _ _).bind fun _ => keeps_pure _
  · exact keeps_suitable _

theorem allFlags_keeps (options : Record Value) : (allFlags options).Keeps Ambient.Steady := by
  induction options with
  | nil => exact keeps_pure _
  | cons entry options ih => exact (optionFlags_keeps _ _).bind fun _ => ih.bind fun _ => keeps_pure _

theorem allFlags_yields (options : Record Setting) :
    (allFlags (options.mapValues Setting.toValue)).Yields (optionTokens options) := by
  induction options with
  | nil => exact yields_pure _
  | cons entry options ih =>
    exact (optionFlags_yields entry.1 entry.2).bind
      (fun _ => (allFlags_keeps _).bind fun _ => keeps_pure _) (ih.bind (fun _ => keeps_pure _) (yields_pure _))

def optionCount : Record Setting → Nat
  | [] => 0
  | (name, s) :: options => s.count (flagName name) + optionCount options

theorem length_optionTokens (options : Record Setting) : (optionTokens options).length = optionCount options := by
  induction options with
  | nil => rfl
  | cons entry options ih =>
    change (entry.2.tokens (flagName entry.1) ++ optionTokens options).length = _
    rw [List.length_append, Setting.length_tokens, ih, optionCount]

theorem exists_isFlagOf {options : Record Setting} {token : String} (h : token ∈ optionTokens options) :
    ∃ entry ∈ options, IsFlagOf (flagName entry.1) token := by
  obtain ⟨entry, he, ht⟩ := List.mem_flatMap.mp h
  exact ⟨entry, he, Setting.isFlagOf_of_mem ht⟩

section Deployments

theorem names_defaults (d : Deployment) :
    d.defaults.names = ["state", "target", "var", "var_file", "parallelism", "input"] := rfl

structure AreTyped (options : Value) : Prop where
  stateFile : ∃ s : Setting, options.member? "stateFilePath" = some s.toValue
  bindings : options.member? "terraformVariables" = some .undefined ∨ ∃ bindings : Record Scalar,
    options.member? "terraformVariables" = some (.record (bindings.mapValues Scalar.toValue))
  parallelism : ∃ s : Setting, options.member? "parallelism" = some s.toValue
  targets : options.member? "resourceTargets" = some .undefined ∨ ∃ items : List Scalar,
    options.member? "resourceTargets" = some (.list (items.map Scalar.toValue))
  variableFile : ∃ s : Setting, options.member? "varDefinitionFile" = some s.toValue

variable {options : Value} {d : Deployment} {m n : Ambient}

theorem AreTyped.exists_last {make : List Value → Value → Deployment} (h : AreTyped options)
    (hd : (do
      let targets ← suitable (orElse (← suitable (options.member? "resourceTargets")) (.list [])).walk?
      let file ← suitable (options.member? "varDefinitionFile")
      pure (make targets file) : Act Ambient Deployment) m = .ok d n) :
    ∃ (targets : List Scalar) (file : Setting), d = make (targets.map Scalar.toValue) file.toValue := by
  obtain ⟨offered, _, hoffered, hd⟩ := bind_eq_ok_iff.mp hd
  obtain ⟨targets, _, htargets, hd⟩ := bind_eq_ok_iff.mp hd
  obtain ⟨file, _, hfile, hd⟩ := bind_eq_ok_iff.mp hd
  obtain ⟨rfl, -⟩ := pure_eq_ok_iff.mp hd
  have hoffered := (suitable_eq_ok_iff.mp hoffered).1
  have hwalk := (suitable_eq_ok_iff.mp htargets).1
  have hfile := (suitable_eq_ok_iff.mp hfile).1
  obtain ⟨f, hf⟩ := h.variableFile
  cases hf.symm.trans hfile
  rcases h.targets with hnone | ⟨items, hitems⟩
  · cases hnone.symm.trans hoffered
    cases hwalk
    exact ⟨[], f, rfl⟩
  · cases hitems.symm.trans hoffered
    cases hwalk
    exact ⟨items, f, rfl⟩

theorem AreTyped.exists_defaults (h : AreTyped options) (hd : Deployment.ofOptions options m = .ok d n) :
    ∃ defaults : Record Setting, d.defaults = defaults.mapValues Setting.toValue := by
  obtain ⟨state, _, hstate, hd⟩ := bind_eq_ok_iff.mp hd
  obtain ⟨bindings, _, hbindings, hd⟩ := bind_eq_ok_iff.mp hd
  obtain ⟨given, _, hgiven, hd⟩ := bind_eq_ok_iff.mp hd
  have hbindings := (suitable_eq_ok_iff.mp hbindings).1
  obtain ⟨s, hs⟩ := h.stateFile
  cases hs.symm.trans (suitable_eq_ok_iff.mp hstate).1
  obtain ⟨p, hp⟩ := h.parallelism
  cases hp.symm.trans (suitable_eq_ok_iff.mp hgiven).1
  obtain ⟨b, hb⟩ : ∃ b : Record Scalar, spread bindings = b.mapValues Scalar.toValue := by
    rcases h.bindings with hnone | ⟨b, hb⟩
    · cases hnone.symm.trans hbindings
      exact ⟨[], rfl⟩
    · cases hb.symm.trans hbindings
      exact ⟨Record.ofEntries b, by rw [spread, Record.ofEntries_mapValues]⟩
  have hmade : ∃ (parallelism file : Setting) (targets : List Scalar),
      d = ⟨s.toValue, spread bindings, parallelism.toValue, targets.map Scalar.toValue, file.toValue⟩ := by
    split at hd
    · obtain ⟨t, f, rfl⟩ := h.exists_last hd
      exact ⟨p, f, t, rfl⟩
    · obtain ⟨known, _, -, hd⟩ := bind_eq_ok_iff.mp hd
      obtain ⟨t, f, rfl⟩ := h.exists_last hd
      exact ⟨.single (.number known.parallelism), f, t, rfl⟩
  obtain ⟨p, f, t, rfl⟩ := hmade
  refine ⟨[("state", s), ("target", .list t), ("var", .mapping b), ("var_file", f), ("parallelism", p),
    ("input", .single (.truth input))], ?_⟩
  rw [Deployment.defaults, hb]
  rfl

end Deployments

section Commands

variable {d : Deployment} {defaults options : Record Setting} {words : String} {ws : List (List Char)}

def commandLine (ws : List (List Char)) (options : Record Setting) (args : List String) : List String :=
  "terraform" :: ws.map String.ofList ++ optionTokens options ++ args

/-- The options of a command over the defaults: indices come first, then the defaults with what the options say in
their place, then what is left of the options. -/
def merged (defaults options : Record Setting) : Record Setting :=
  options.indexed ++ (defaults.refreshed options ++ defaults.additions options)

theorem defaultOptions_eq (hd : d.defaults = defaults.mapValues Setting.toValue) (ho : options.InOrder)
    (hi : words ≠ "init") : d.defaultOptions (.text words) (options.mapValues Setting.toValue) =
      (merged defaults options).mapValues Setting.toValue := by
  have hnames : ∀ entry ∈ defaults, Record.isIndex entry.1 = false := by
    have hplain : ∀ name ∈ d.defaults.names, Record.isIndex name = false := by
      rw [names_defaults]
      decide
    rw [hd, Record.names_mapValues] at hplain
    exact fun entry he => hplain entry.1 (List.mem_map_of_mem he)
  have hno : Value.text words ≠ .text "init" := by simpa using hi
  rw [Deployment.defaultOptions, if_neg hno, hd, Record.overlay_mapValues, Record.overlay_eq hnames ho]
  rfl

theorem buildCommand_yields (hd : d.defaults = defaults.mapValues Setting.toValue) (ho : options.InOrder)
    (hs : Text.Splits words.toList ws) (hi : ws.head? ≠ some "init".toList) (args : List String) :
    (d.buildCommand (.text words) (options.mapValues Setting.toValue) (args.map .text)).Yields
      ((commandLine ws (merged defaults options) args).map .text) := by
  have hwords : Text.words words = ws.map String.ofList := by rw [Text.words, hs.eq_runs]
  have hinit : words ≠ "init" := by
    rintro rfl
    rw [hs.eq_runs] at hi
    exact hi rfl
  have hlist : (commandList (.text ("terraform " ++ words))
      ((merged defaults options).mapValues Setting.toValue) (args.map .text)).Yields
        ((commandLine ws (merged defaults options) args).map .text) := by
    refine (allFlags_yields _).bind (fun _ => keeps_pure _) ?_
    rw [words_terraform, hwords, ← List.map_append]
    exact yields_pure _
  have hdebug : ∀ tokens : List Value, (do
      Journal.debug "terraform_command" "Built terraform command" [("tokens", .list tokens)]
      pure tokens : Act Ambient (List Value)).Keeps Ambient.Steady := fun tokens =>
    (Journal.write_keeps _ _ _ _).bind fun _ => keeps_pure _
  have hfree : ∀ line : List String, Json.holdsBigint (.record [("tokens", .list (line.map .text))]) = false :=
    fun line => by simp [Json.holdsBigint, Json.entriesHoldBigint, anyBigint_texts]
  rw [Deployment.buildCommand, defaultOptions_eq hd ho hinit]
  exact (yields_suitable rfl).bind
    (fun _ => ((allFlags_keeps _).bind fun _ => keeps_pure _).bind hdebug)
    (hlist.bind hdebug ((yields_write (by decide) _ _ (hfree _)).bind (fun _ => keeps_pure _) (yields_pure _)))

/-- A deployment that is made of typed options builds the command line over six defaults of its own. -/
theorem AreTyped.builds_commandLine {offered : Value} {m n : Ambient} (h : AreTyped offered)
    (hd : Deployment.ofOptions offered m = .ok d n) (ho : options.InOrder) (hs : Text.Splits words.toList ws)
    (hi : ws.head? ≠ some "init".toList) (args : List String) : ∃ defaults : Record Setting,
      defaults.names = ["state", "target", "var", "var_file", "parallelism", "input"] ∧
        (d.buildCommand (.text words) (options.mapValues Setting.toValue) (args.map .text)).Yields
          ((commandLine ws (merged defaults options) args).map .text) := by
  obtain ⟨defaults, hdefaults⟩ := h.exists_defaults hd
  refine ⟨defaults, ?_, buildCommand_yields hdefaults ho hs hi args⟩
  rw [← names_defaults d, hdefaults, Record.names_mapValues]

/-- What an option says makes no token more or less: a command line is made of the words of the command, the flags of
each option that is laid over the defaults, in property order, and the arguments, and no other is ever built. It is
built wherever the journal takes lines. -/
theorem command_line_is_exact (hd : d.defaults = defaults.mapValues Setting.toValue) (ho : options.InOrder)
    (hs : Text.Splits words.toList ws) (hi : ws.head? ≠ some "init".toList) (args : List String) :
    let line := commandLine ws (merged defaults options) args
    let build := d.buildCommand (.text words) (options.mapValues Setting.toValue) (args.map .text)
    (∀ m tokens n, build m = .ok tokens n → tokens = line.map .text) ∧
      (∀ m, m.TakesLines → ∃ n, build m = .ok (line.map .text) n) ∧
      (∀ token ∈ optionTokens (merged defaults options),
        ∃ entry ∈ merged defaults options, IsFlagOf (flagName entry.1) token) ∧
      line.length = 1 + ws.length + optionCount (merged defaults options) + args.length := by
  have hbuild := buildCommand_yields hd ho hs hi args
  refine ⟨fun _ _ _ h => hbuild.unique h, fun _ hm => hbuild.answers hm, fun _ ht => exists_isFlagOf ht, ?_⟩
  rw [← length_optionTokens, commandLine, List.length_append, List.cons_append, List.length_cons, List.length_append,
    List.length_map]
  omega

def sampleDefaults : Record Setting :=
  [("state", .single (.text "study.tfstate")), ("target", .list [.text "module.study"]),
    ("var", .mapping [("region", .text "us-west-2")]), ("var_file", .single (.text "a.tfvars")),
    ("parallelism", .single (.text "4")), ("input", .single (.truth false))]

/-- An index, a default that is turned off, a value that looks like a flag, and mappings. -/
def sampleOptions : Record Setting :=
  [("7", .list [.text "a b", .truth true]), ("var_file", .null), ("lock_timeout", .single (.text "0s -state=x")),
    ("env", .mapping [("A", .text "1")]), ("backend_config", .mapping [("key", .text "x=y")])]

theorem sample_command_line :
    ∃ n, sample.buildCommand (.text " apply\u00a0 -auto-approve\n") (sampleOptions.mapValues Setting.toValue)
      (["a dir"].map .text) { clock := 0, threshold := .text "silent" } = .ok (["terraform", "apply", "-auto-approve",
        "-7=a b", "-7=true", "-state=study.tfstate", "-target=module.study", "-var=region=us-west-2",
        "-parallelism=4", "-input=false", "-lock-timeout=0s -state=x", "-backend-config=key=x=y",
        "a dir"].map .text) n :=
  (@command_line_is_exact sample sampleDefaults sampleOptions " apply\u00a0 -auto-approve\n"
    ["apply".toList, "-auto-approve".toList] rfl (by decide) (Text.splits_iff.mpr rfl) (by decide) ["a dir"]).2.1 _
      (Ambient.IsSilent.takesLines rfl)

end Commands

end Terraform

end GovernedConfig
