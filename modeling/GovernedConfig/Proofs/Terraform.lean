import Mathlib.Data.List.Forall2
import Mathlib.Data.List.Infix
import GovernedConfig.Proofs.Outcome
import GovernedConfig.Terraform

/-! # Flags that `terraform init` rejects

Which of the flags that a command line spells for its options are among those that `init` rejects: an option has to
be spelled like one of them, have something to say, and not be taken out beforehand.
-/

namespace GovernedConfig

namespace Terraform

open Act

def IsFlagOf (name token : String) : Prop := ("-" ++ name ++ "=").toList <+: token.toList

def rejectedFlags : List String := rejectedByInit.map flagName

def IsRejected (token : String) : Prop := ∃ name ∈ rejectedFlags, IsFlagOf name token

instance (name token : String) : Decidable (IsFlagOf name token) := inferInstanceAs (Decidable (_ <+: _))

instance (token : String) : Decidable (IsRejected token) := inferInstanceAs (Decidable (∃ name ∈ rejectedFlags, _))

/-- An option whose flags start like one that `init` rejects: it is spelled like the name of that flag, or like the
name and a first part of a value. -/
def SpellsRejected (option : String) : Prop :=
  ∃ name ∈ rejectedFlags, flagName option = name ∨ (name ++ "=").toList <+: (flagName option).toList

instance (option : String) : Decidable (SpellsRejected option) :=
  inferInstanceAs (Decidable (∃ name ∈ rejectedFlags, _))

def hasFlags (option : String) : Value → Bool
  | .undefined => false
  | .null => false
  | .list items => !items.isEmpty
  | .record entries => flagName option ∈ mappingOptions && !entries.isEmpty
  | _ => true

section Spelling

/-- A flag is spelled like its option, but for the underscores, in whose place hyphens stand. -/
theorem flagName_eq_iff {name spelled : String} : flagName name = spelled ↔
    List.Forall₂ (fun c d => if c = '_' then d = '-' else d = c) name.toList spelled.toList := by
  have hspell : ∀ c d : Char, (if c = '_' then d = '-' else d = c) ↔ (if c = '_' then '-' else c) = d := by
    intro c d
    split_ifs <;> exact eq_comm
  simp only [hspell]
  rw [← List.forall₂_map_left_iff (R := Eq), List.forall₂_eq_eq_eq, flagName, ← String.toList_inj, String.toList_ofList]

theorem underscore_notMem_flagName (name : String) : '_' ∉ (flagName name).toList := by
  simp only [flagName, String.toList_ofList, List.mem_map, not_exists, not_and]
  intro c _ hc
  split_ifs at hc with hu
  · cases hc
  · exact hu hc

theorem takesMapping_iff {option : String} :
    flagName option ∈ mappingOptions ↔ option ∈ ["backend-config", "backend_config", "var"] := by
  simp only [mappingOptions, List.mem_cons, List.not_mem_nil, or_false]
  constructor
  · rintro (h | h) <;> rw [flagName_eq_iff] at h
    · obtain ⟨c, hc, ho⟩ : ∃ c, (c ≠ '_' → '-' = c) ∧
          option.toList = ['b', 'a', 'c', 'k', 'e', 'n', 'd', c, 'c', 'o', 'n', 'f', 'i', 'g'] := by
        simpa [List.forall₂_cons_right_iff] using h
      by_cases hu : c = '_'
      · simp [← String.toList_inj, ho, hu]
      · simp [← String.toList_inj, ho, ← hc hu]
    · have ho : option.toList = ['v', 'a', 'r'] := by simpa [List.forall₂_cons_right_iff] using h
      simp [← String.toList_inj, ho]
  · rintro (rfl | rfl | rfl) <;> decide

/-- A marked name starts another marked text if it is what stands before the mark there, or if the mark comes later
and the marked name starts what stands before it. -/
theorem marked_prefix_iff {α : Type} {mark : α} {name key value : List α} (h : mark ∉ name) :
    name ++ [mark] <+: key ++ mark :: value ↔ key = name ∨ name ++ [mark] <+: key := by
  induction name generalizing key with
  | nil => cases key <;> simp
  | cons a name ih =>
    rw [List.mem_cons, not_or] at h
    cases key with
    | nil => simp [Ne.symm h.1]
    | cons b key =>
      simp only [List.cons_append, List.cons_prefix_cons, ih h.2, List.cons.injEq]
      constructor
      · rintro ⟨rfl, hk | hk⟩
        · exact .inl ⟨rfl, hk⟩
        · exact .inr ⟨rfl, hk⟩
      · rintro (⟨rfl, hk⟩ | ⟨rfl, hk⟩)
        · exact ⟨rfl, .inl hk⟩
        · exact ⟨rfl, .inr hk⟩

theorem isFlagOf_flag_iff {name key value : String} (h : '=' ∉ name.toList) :
    IsFlagOf name (flag key value) ↔ key = name ∨ (name ++ "=").toList <+: key.toList := by
  have hl : ("-" ++ name ++ "=").toList = '-' :: (name.toList ++ ['=']) := by simp
  have hr : (flag key value).toList = '-' :: (key.toList ++ '=' :: value.toList) := by simp [flag]
  rw [IsFlagOf, hl, hr, List.cons_prefix_cons, marked_prefix_iff h, String.toList_inj]
  simp

/-- A flag is rejected for its name alone, whatever it says. -/
theorem isRejected_flag_iff {option value : String} :
    IsRejected (flag (flagName option) value) ↔ SpellsRejected option := by
  have hplain : ∀ name ∈ rejectedFlags, '=' ∉ name.toList := by decide
  constructor
  · rintro ⟨name, hn, hf⟩
    exact ⟨name, hn, (isFlagOf_flag_iff (hplain name hn)).mp hf⟩
  · rintro ⟨name, hn, hs⟩
    exact ⟨name, hn, (isFlagOf_flag_iff (hplain name hn)).mpr hs⟩

end Spelling

section Flags

variable {name : String} {flags : List String} {m n : Ambient}

theorem listFlags_eq_some {items : List Value} (h : listFlags name items = some flags) :
    (∀ f ∈ flags, ∃ value, f = flag name value) ∧ flags.isEmpty = items.isEmpty := by
  induction items generalizing flags with
  | nil =>
    cases h
    simp
  | cons v items ih =>
    unfold listFlags at h
    split at h
    · rename_i s rest hs hrest
      cases h
      refine ⟨fun f hf => ?_, rfl⟩
      rcases List.mem_cons.mp hf with rfl | hf
      · exact ⟨s, rfl⟩
      · exact (ih hrest).1 f hf
    · cases h

theorem mappingFlags_eq_some {entries : Record Value} (h : mappingFlags name entries = some flags) :
    (∀ f ∈ flags, ∃ value, f = flag name value) ∧ flags.isEmpty = entries.isEmpty := by
  induction entries generalizing flags with
  | nil =>
    cases h
    simp
  | cons entry entries ih =>
    unfold mappingFlags at h
    split at h
    · rename_i s rest hs hrest
      cases h
      refine ⟨fun f hf => ?_, rfl⟩
      rcases List.mem_cons.mp hf with rfl | hf
      · exact ⟨_, rfl⟩
      · exact (ih hrest).1 f hf
    · cases h

theorem optionFlags_eq_ok {option : String} {v : Value} (h : optionFlags option v m = .ok flags n) :
    (∀ f ∈ flags, ∃ value, f = flag (flagName option) value) ∧ flags.isEmpty = !hasFlags option v := by
  have hone : ∀ found : Option String,
      (suitable (found.map fun s => [flag (flagName option) s]) : Act Ambient (List String)) m = .ok flags n →
        (∀ f ∈ flags, ∃ value, f = flag (flagName option) value) ∧ flags.isEmpty = false := by
    intro found hf
    obtain ⟨hs, -⟩ := suitable_eq_ok_iff.mp hf
    obtain ⟨s, -, rfl⟩ := Option.map_eq_some_iff.mp hs
    exact ⟨fun f hf => ⟨s, List.mem_singleton.mp hf⟩, rfl⟩
  cases v with
  | undefined =>
    obtain ⟨rfl, -⟩ := pure_eq_ok_iff.mp h
    simp [hasFlags]
  | null =>
    obtain ⟨rfl, -⟩ := pure_eq_ok_iff.mp h
    simp [hasFlags]
  | list items =>
    obtain ⟨hs, -⟩ := suitable_eq_ok_iff.mp h
    simpa [hasFlags] using listFlags_eq_some hs
  | record entries =>
    unfold optionFlags at h
    dsimp only at h
    split at h
    · rename_i hm
      obtain ⟨hs, -⟩ := suitable_eq_ok_iff.mp h
      simpa [hasFlags, hm] using mappingFlags_eq_some hs
    · rename_i hm
      obtain ⟨_, _, -, h⟩ := bind_eq_ok_iff.mp h
      obtain ⟨rfl, -⟩ := pure_eq_ok_iff.mp h
      simp [hasFlags, hm]
  | bool b => exact hone (Value.toText? (.bool b)) h
  | number x => exact hone (Value.toText? (.number x)) h
  | bigint i => exact hone (Value.toText? (.bigint i)) h
  | text s => exact hone (Value.toText? (.text s)) h
  | callable c => exact hone (Value.toText? (.callable c)) h

/-- Among the flags of all options there is a rejected one if an option is spelled like one and has anything to
say. -/
theorem exists_rejected_iff {options : Record Value} (h : allFlags options m = .ok flags n) :
    (∃ f ∈ flags, IsRejected f) ↔
      ∃ entry ∈ options, SpellsRejected entry.1 ∧ hasFlags entry.1 entry.2 = true := by
  induction options generalizing flags m with
  | nil =>
    obtain ⟨rfl, -⟩ := pure_eq_ok_iff.mp h
    simp
  | cons entry options ih =>
    obtain ⟨option, v⟩ := entry
    obtain ⟨first, k, hfirst, h⟩ := bind_eq_ok_iff.mp h
    obtain ⟨rest, l, hrest, h⟩ := bind_eq_ok_iff.mp h
    obtain ⟨rfl, rfl⟩ := pure_eq_ok_iff.mp h
    obtain ⟨hnames, hempty⟩ := optionFlags_eq_ok hfirst
    have hhead : (∃ f ∈ first, IsRejected f) ↔ SpellsRejected option ∧ hasFlags option v = true := by
      constructor
      · rintro ⟨f, hf, hr⟩
        obtain ⟨value, rfl⟩ := hnames f hf
        refine ⟨isRejected_flag_iff.mp hr, ?_⟩
        rw [List.isEmpty_eq_false_iff_exists_mem.mpr ⟨_, hf⟩] at hempty
        simpa using hempty
      · rintro ⟨hs, hv⟩
        rw [hv] at hempty
        obtain ⟨f, hf⟩ := List.isEmpty_eq_false_iff_exists_mem.mp hempty
        obtain ⟨value, rfl⟩ := hnames f hf
        exact ⟨_, hf, isRejected_flag_iff.mpr hs⟩
    simp only [List.mem_append, or_and_right, exists_or, List.mem_cons, exists_eq_left, hhead, ih hrest]

end Flags

section Commands

variable {d : Deployment} {words : String} {options : Record Value} {args tokens : List Value} {m n : Ambient}

theorem words_terraform (words : String) : Text.words ("terraform " ++ words) = "terraform" :: Text.words words := by
  have hl : ("terraform " ++ words).toList = 't' :: ("erraform".toList ++ ' ' :: words.toList) := by simp
  rw [Text.words, hl, Text.runs_append_blank (by simp [Text.isBlank]) (by decide)]
  rfl

theorem buildCommand_eq_ok (h : d.buildCommand (.text words) options args m = .ok tokens n) :
    ∃ flags k, allFlags (d.defaultOptions (.text words) options) m = .ok flags k ∧
      tokens = ("terraform" :: Text.words words ++ flags).map .text ++ args := by
  obtain ⟨w, _, hw, h⟩ := bind_eq_ok_iff.mp h
  obtain ⟨ht, rfl⟩ := suitable_eq_ok_iff.mp hw
  cases ht
  obtain ⟨tokens', k, hk, h⟩ := bind_eq_ok_iff.mp h
  obtain ⟨_, _, -, h⟩ := bind_eq_ok_iff.mp h
  obtain ⟨rfl, -⟩ := pure_eq_ok_iff.mp h
  obtain ⟨flags, l, hf, hk⟩ := bind_eq_ok_iff.mp hk
  obtain ⟨rfl, -⟩ := pure_eq_ok_iff.mp hk
  exact ⟨flags, l, hf, by rw [words_terraform]⟩

theorem mem_foldl_erase {names : List String} {r : Record Value} {entry : String × Value} :
    entry ∈ names.foldl Record.erase r ↔ entry ∈ r ∧ entry.1 ∉ names := by
  induction names generalizing r with
  | nil => simp
  | cons name names ih =>
    rw [List.foldl_cons, ih, Record.erase, List.mem_filter, List.mem_cons, not_or]
    simp [and_assoc]

/-- Options are taken out for the command `init` alone, and only under the names that the defaults have. -/
theorem mem_defaultOptions_iff {entry : String × Value} :
    entry ∈ d.defaultOptions (.text words) options ↔
      entry ∈ Record.overlay d.defaults options ∧ ¬ (words = "init" ∧ entry.1 ∈ rejectedByInit) := by
  unfold Deployment.defaultOptions
  dsimp only
  split
  · rename_i hi
    have hw : words = "init" := by simpa using hi
    rw [mem_foldl_erase]
    simp [hw]
  · rename_i hi
    have hw : words ≠ "init" := by simpa using hi
    simp [hw]

/-- A deployment whose defaults are all there to be said. -/
def sample : Deployment where
  stateFile := .text "study.tfstate"
  bindings := [("region", .text "us-west-2")]
  parallelism := .text "4"
  targets := [.text "module.study"]
  variableFile := .text "a.tfvars"

/-- None of the flags that a command line spells for its options is one that `init` rejects, exactly if every option
that is spelled like one of these either says nothing or is taken out: the command is `init` and nothing else, and
the option has the very name of a default. -/
theorem no_rejected_flag_iff (h : d.buildCommand (.text words) options args m = .ok tokens n) :
    ∃ flags, tokens = ("terraform" :: Text.words words ++ flags).map .text ++ args ∧
      ((∀ token ∈ flags, ¬ IsRejected token) ↔
        ∀ entry ∈ Record.overlay d.defaults options, SpellsRejected entry.1 → hasFlags entry.1 entry.2 = true →
          words = "init" ∧ entry.1 ∈ rejectedByInit) := by
  obtain ⟨flags, k, hf, rfl⟩ := buildCommand_eq_ok h
  refine ⟨flags, rfl, ?_⟩
  have hex := exists_rejected_iff hf
  constructor
  · intro hnone entry he hs hv
    by_contra hout
    obtain ⟨f, hmem, hr⟩ := hex.mpr ⟨entry, mem_defaultOptions_iff.mpr ⟨he, hout⟩, hs, hv⟩
    exact hnone f hmem hr
  · intro hall f hmem hr
    obtain ⟨entry, he, hs, hv⟩ := hex.mp ⟨f, hmem, hr⟩
    obtain ⟨he, hout⟩ := mem_defaultOptions_iff.mp he
    exact hout (hall entry he hs hv)

/-- The options of `init` that no default is named after leave no rejected flag. -/
theorem plain_init_has_no_rejected_flag :
    ∃ flags tokens n, sample.buildCommand (.text "init") [("reconfigure", .bool true), ("var_file", .text "b.tfvars")]
        [.text "."] { clock := 0, threshold := .text "silent" } = .ok tokens n ∧
      tokens = ("terraform" :: Text.words "init" ++ flags).map .text ++ [.text "."] ∧
      ∀ token ∈ flags, ¬ IsRejected token := by
  obtain ⟨tokens, n, h⟩ : ∃ tokens n, sample.buildCommand (.text "init")
      [("reconfigure", .bool true), ("var_file", .text "b.tfvars")] [.text "."]
      { clock := 0, threshold := .text "silent" } = .ok tokens n := ⟨_, _, rfl⟩
  obtain ⟨flags, ht, hiff⟩ := no_rejected_flag_iff h
  exact ⟨flags, tokens, n, h, ht, hiff.mpr (by decide)⟩

/-- With a further word in its command, `init` gets the defaults that it rejects. -/
theorem upgrading_init_has_rejected_flag :
    ¬ ∀ (d : Deployment) (words : String) (options : Record Value) (args tokens : List Value) (m n : Ambient),
      (Text.words words).head? = some "init" → d.buildCommand (.text words) options args m = .ok tokens n →
        ∃ flags, tokens = ("terraform" :: Text.words words ++ flags).map .text ++ args ∧
          ∀ token ∈ flags, ¬ IsRejected token := by
  intro hall
  have hbuilt : ∃ tokens n, sample.buildCommand (.text "init -upgrade") [] []
      { clock := 0, threshold := .text "silent" } = .ok tokens n ∧ .text "-parallelism=4" ∈ tokens :=
    ⟨_, _, rfl, List.mem_of_getElem? (i := 7) rfl⟩
  obtain ⟨tokens, n, h, hm⟩ := hbuilt
  obtain ⟨flags, rfl, hnone⟩ := hall sample "init -upgrade" [] [] tokens _ n rfl h
  have hflag : "-parallelism=4" ∈ "terraform" :: Text.words "init -upgrade" ++ flags := by simpa using hm
  rcases List.mem_append.mp hflag with hword | hflag
  · have hwords : "terraform" :: Text.words "init -upgrade" = ["terraform", "init", "-upgrade"] := rfl
    rw [hwords] at hword
    exact absurd hword (by decide)
  · exact hnone _ hflag ((@isRejected_flag_iff "parallelism" "4").mpr (by decide))

end Commands

end Terraform

end GovernedConfig
