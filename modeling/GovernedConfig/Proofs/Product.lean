import GovernedConfig.Product
import GovernedConfig.Proofs.Schema.Normal
import GovernedConfig.Proofs.Value.Whole

/-! # Parsed product configs

A product config that was parsed holds what the schema of its kind names and nothing else, with its defaults filled
in and within its bounds. What was given stays what it was, and to parse the config again changes nothing more.
-/

namespace GovernedConfig.Product

open Schema
open Value (IsText IsOneOf IsRecord)

section Normal

def IsNonemptyText (v : Value) : Prop := ∃ s, s ≠ "" ∧ v = .text s

def IsTruth (v : Value) : Prop := ∃ b, v = .bool b

def IsInteger (v : Value) : Prop := ∃ n, v.IsWhole n

def IsIntegerFrom (least : Int) (v : Value) : Prop := ∃ n, least ≤ n ∧ v.IsWhole n

structure IsPostProcessing (r : Record Value) : Prop where
  names : r.names.Sublist ["initialInputDataCount", "dedupedInputDataCount"]
  initialCount : r.Has "initialInputDataCount" (IsIntegerFrom 0)
  dedupedCount : r.Has "dedupedInputDataCount" (IsIntegerFrom 0)

structure IsBreakdown (r : Record Value) : Prop where
  names : r.names.Sublist ["cellId", "objectiveId"]
  cell : r.Has "cellId" IsInteger
  objective : r.Has "objectiveId" IsInteger

structure IsCommon (r : Record Value) : Prop where
  names : r.names.Sublist ["inputPath", "outputDir", "hmacKey", "paddingSize", "resultVisibility", "pidUseRowNumbers",
    "multikeyEnabled", "pidProtocol", "pidMaxColumnCount", "pidConfigs", "postProcessingData"]
  inputPath : r.Has "inputPath" IsNonemptyText
  outputDir : r.Has "outputDir" IsNonemptyText
  hmacKey : r.MayHave "hmacKey" IsText
  paddingSize : r.MayHave "paddingSize" (IsIntegerFrom 1)
  resultVisibility : r.Has "resultVisibility" fun v => ∃ level ∈ visibility, v.IsWhole level.2
  rowNumbers : r.Has "pidUseRowNumbers" IsTruth
  multikey : r.Has "multikeyEnabled" IsTruth
  protocol : r.Has "pidProtocol" fun v => ∃ protocol : PidProtocol, v = .text protocol.name
  maxColumns : r.Has "pidMaxColumnCount" (IsIntegerFrom 1)
  pidConfigs : r.MayHave "pidConfigs" (IsRecord fun entries => entries.holds "__proto__" = false)
  postProcessing : r.MayHave "postProcessingData" (IsRecord IsPostProcessing)

structure IsAttribution (r : Record Value) : Prop where
  names : r.names.Sublist ["kind", "common", "aggregationType", "attributionRule"]
  kind : r.Has "kind" (· = .text "attribution")
  common : r.Has "common" (IsRecord IsCommon)
  aggregation : r.Has "aggregationType" (· = .text "measurement")
  rule : r.Has "attributionRule" (IsOneOf attributionRules)

structure IsLift (r : Record Value) : Prop where
  names : r.names.Sublist ["kind", "common", "kAnonymityThreshold", "breakdownKey"]
  kind : r.Has "kind" (· = .text "lift")
  common : r.Has "common" (IsRecord IsCommon)
  threshold : r.Has "kAnonymityThreshold" (IsIntegerFrom 0)
  breakdown : r.MayHave "breakdownKey" (IsRecord IsBreakdown)

end Normal

section Leaves

theorem yields_text : (Schema.text 0).Yields IsText := by
  intro v w h
  obtain ⟨s, rfl⟩ := (fits_of_check (.text 0) h).exists_text
  exact ⟨by simp, s, rfl⟩

theorem yields_nonemptyText : (Schema.text 1).Yields IsNonemptyText := by
  intro v w h
  cases fits_of_check (.text 1) h with
  | @text _ s hs =>
    refine ⟨by simp, s, ?_, rfl⟩
    rintro rfl
    exact absurd (hs rfl) (by decide)

theorem yields_oneOf (options : List String) : (Schema.oneOf options).Yields (IsOneOf options) := by
  intro v w h
  cases fits_of_check (.oneOf options) h with
  | @oneOf _ s hs => exact ⟨by simp, s, hs, rfl⟩

theorem yields_exactly (option : String) : (Schema.exactly option).Yields (· = .text option) := by
  intro v w h
  rw [check] at h
  split_ifs at h with hv
  · cases h
    exact ⟨by rw [hv]; simp, hv⟩
  · cases h

theorem yields_flag : Schema.flag.Yields IsTruth := by
  intro v w h
  cases v with
  | bool b =>
    cases h
    exact ⟨by simp, b, rfl⟩
  | _ => cases h

theorem yields_integer : integerSchema.Yields IsInteger := by
  intro v w h
  cases fits_of_check (.number (by decide)) h with
  | @number _ x hx =>
    obtain ⟨-, hrules⟩ := hx rfl
    obtain ⟨n, hn⟩ := Binary64.isInteger_iff.mp (hrules .integer (by decide))
    exact ⟨by simp, n, x, rfl, hn⟩

theorem yields_count : countSchema.Yields (IsIntegerFrom 0) := by
  intro v w h
  cases fits_of_check (.number (by decide)) h with
  | @number _ x hx =>
    obtain ⟨-, hrules⟩ := hx rfl
    obtain ⟨n, hn⟩ := Binary64.isInteger_iff.mp (hrules .integer (by decide))
    have hleast : (!x.less (.ofNat 0)) = true := hrules .nonnegative (by decide)
    rw [Binary64.less_of_equalsInt hn Binary64.zero_equalsInt, Bool.not_eq_true', decide_eq_false_iff_not] at hleast
    exact ⟨by simp, n, Int.not_lt.mp hleast, x, rfl, hn⟩

theorem yields_positive : positiveSchema.Yields (IsIntegerFrom 1) := by
  intro v w h
  cases fits_of_check (.number (by decide)) h with
  | @number _ x hx =>
    obtain ⟨-, hrules⟩ := hx rfl
    obtain ⟨n, hn⟩ := Binary64.isInteger_iff.mp (hrules .integer (by decide))
    have hleast : (Binary64.ofNat 0).less x = true := hrules .positive (by decide)
    rw [Binary64.less_of_equalsInt Binary64.zero_equalsInt hn, decide_eq_true_eq] at hleast
    exact ⟨by simp, n, hleast, x, rfl, hn⟩

theorem yields_visibility :
    (Schema.oneOfNumbers [0, 1, 2]).Yields fun v => ∃ level ∈ visibility, v.IsWhole level.2 := by
  intro v w h
  rw [check] at h
  split_ifs at h with hany
  · cases h
    obtain ⟨y, hy, hsame⟩ := List.any_eq_true.mp hany
    cases v with
    | number x =>
      refine ⟨by simp, ?_⟩
      have hx : x.equals y = true := hsame
      simp only [List.mem_cons, List.not_mem_nil, or_false] at hy
      rcases hy with rfl | rfl | rfl
      · exact ⟨("PUBLIC", 0), by decide, x, rfl, Binary64.equalsInt_of_equals hx Binary64.zero_equalsInt⟩
      · exact ⟨("PUBLISHER", 1), by decide, x, rfl, Binary64.equalsInt_of_equals hx Binary64.one_equalsInt⟩
      · exact ⟨("PARTNER", 2), by decide, x, rfl, Binary64.equalsInt_of_equals hx Binary64.two_equalsInt⟩
    | _ => cases hsame
  · cases h

theorem yields_protocol : (Schema.oneOf (PidProtocol.all.map PidProtocol.name)).Yields
    fun v => ∃ protocol : PidProtocol, v = .text protocol.name := by
  intro v w h
  obtain ⟨hw, s, hs, rfl⟩ := yields_oneOf _ v w h
  obtain ⟨protocol, -, rfl⟩ := List.mem_map.mp hs
  exact ⟨hw, protocol, rfl⟩

theorem yields_anyRecord : Schema.anyRecord.Yields (IsRecord fun entries => entries.holds "__proto__" = false) := by
  intro v w h
  cases v with
  | record entries =>
    cases h
    refine ⟨by simp, _, rfl, ?_⟩
    simp [Record.holds, Record.erase]
  | _ => cases h

end Leaves

section Records

theorem yields_postProcessing : postProcessingSchema.Yields (IsRecord IsPostProcessing) :=
  yields_record fun _ _ hq => {
    names := names_of_checkFields hq
    initialCount := (yields_count.withDefault _).has (by decide) hq rfl
    dedupedCount := (yields_count.withDefault _).has (by decide) hq rfl }

theorem yields_breakdown : breakdownSchema.Yields (IsRecord IsBreakdown) :=
  yields_record fun _ _ hq => {
    names := names_of_checkFields hq
    cell := yields_integer.has (by decide) hq rfl
    objective := yields_integer.has (by decide) hq rfl }

theorem yields_common : commonSchema.Yields (IsRecord IsCommon) :=
  yields_record fun _ _ hq => {
    names := names_of_checkFields hq
    inputPath := yields_nonemptyText.has (by decide) hq rfl
    outputDir := yields_nonemptyText.has (by decide) hq rfl
    hmacKey := yields_text.mayHave (by decide) hq rfl
    paddingSize := yields_positive.mayHave (by decide) hq rfl
    resultVisibility := (yields_visibility.withDefault _).has (by decide) hq rfl
    rowNumbers := (yields_flag.withDefault _).has (by decide) hq rfl
    multikey := (yields_flag.withDefault _).has (by decide) hq rfl
    protocol := (yields_protocol.withDefault _).has (by decide) hq rfl
    maxColumns := (yields_positive.withDefault _).has (by decide) hq rfl
    pidConfigs := yields_anyRecord.mayHave (by decide) hq rfl
    postProcessing := yields_postProcessing.mayHave (by decide) hq rfl }

theorem yields_attribution : attributionSchema.Yields (IsRecord IsAttribution) :=
  yields_record fun _ _ hq => {
    names := names_of_checkFields hq
    kind := (yields_exactly _).has (by decide) hq rfl
    common := yields_common.has (by decide) hq rfl
    aggregation := (yields_exactly _).has (by decide) hq rfl
    rule := ((yields_oneOf _).withDefault _).has (by decide) hq rfl }

theorem yields_lift : liftSchema.Yields (IsRecord IsLift) :=
  yields_record fun _ _ hq => {
    names := names_of_checkFields hq
    kind := (yields_exactly _).has (by decide) hq rfl
    common := yields_common.has (by decide) hq rfl
    threshold := (yields_count.withDefault _).has (by decide) hq rfl
    breakdown := yields_breakdown.mayHave (by decide) hq rfl }

end Records

section Stability

theorem postProcessingSchema_isStable : postProcessingSchema.IsStable := by
  refine .fields (by decide) ?_
  simp only [List.forall_mem_cons]
  exact ⟨.defaulted _ rfl, .defaulted _ rfl, by simp⟩

theorem breakdownSchema_isStable : breakdownSchema.IsStable := by
  refine .fields (by decide) ?_
  simp only [List.forall_mem_cons]
  exact ⟨.scalar rfl, .scalar rfl, by simp⟩

theorem commonSchema_isStable : commonSchema.IsStable := by
  refine .fields (by decide) ?_
  simp only [List.forall_mem_cons]
  exact ⟨.scalar rfl, .scalar rfl, .optional (.scalar rfl), .optional (.scalar rfl), .defaulted _ rfl, .defaulted _ rfl,
    .defaulted _ rfl, .defaulted _ rfl, .defaulted _ rfl, .optional .anyRecord,
    .optional postProcessingSchema_isStable, by simp⟩

theorem attributionSchema_isStable : attributionSchema.IsStable := by
  refine .fields (by decide) ?_
  simp only [List.forall_mem_cons]
  exact ⟨.scalar rfl, commonSchema_isStable, .scalar rfl, .defaulted _ rfl, by simp⟩

theorem liftSchema_isStable : liftSchema.IsStable := by
  refine .fields (by decide) ?_
  simp only [List.forall_mem_cons]
  exact ⟨.scalar rfl, commonSchema_isStable, .defaulted _ rfl, .optional breakdownSchema_isStable, by simp⟩

theorem schema_isStable : schema.IsStable := by
  refine .tagged ?_ ?_
  · simp only [List.forall_mem_cons]
    exact ⟨attributionSchema_isStable, liftSchema_isStable, by simp⟩
  · simp only [List.forall_mem_cons]
    exact ⟨⟨_, rfl, mem_of_lookup rfl⟩, ⟨_, rfl, mem_of_lookup rfl⟩, by simp⟩

end Stability

section Parsing

inductive Kind where
  | attribution
  | lift

def commonScalars : List (List String) :=
  [["inputPath"], ["outputDir"], ["hmacKey"], ["paddingSize"], ["resultVisibility"], ["pidUseRowNumbers"],
    ["multikeyEnabled"], ["pidProtocol"], ["pidMaxColumnCount"], ["postProcessingData", "initialInputDataCount"],
    ["postProcessingData", "dedupedInputDataCount"]]

namespace Kind

def schema : Kind → Schema
  | attribution => attributionSchema
  | lift => liftSchema

def Describes : Kind → Record Value → Prop
  | attribution => IsAttribution
  | lift => IsLift

def scalars : Kind → List (List String)
  | attribution => [["kind"], ["aggregationType"], ["attributionRule"]] ++ commonScalars.map ("common" :: ·)
  | lift =>
    [["kind"], ["kAnonymityThreshold"], ["breakdownKey", "cellId"], ["breakdownKey", "objectiveId"]] ++
      commonScalars.map ("common" :: ·)

theorem yields_schema (kind : Kind) : kind.schema.Yields (IsRecord kind.Describes) := by
  cases kind with
  | attribution => exact yields_attribution
  | lift => exact yields_lift

theorem schema_isStable (kind : Kind) : kind.schema.IsStable := by
  cases kind with
  | attribution => exact attributionSchema_isStable
  | lift => exact liftSchema_isStable

theorem isScalar_at (kind : Kind) : ∀ path ∈ kind.scalars, (kind.schema.at? path).any isScalar = true := by
  cases kind <;> decide

theorem at_pidConfigs (kind : Kind) : kind.schema.at? ["common", "pidConfigs"] = some .anyRecord := by
  cases kind <;> rfl

end Kind

variable {payload v : Value}

theorem parse_eq_ok_iff : parse payload = .ok v ↔ schema.check payload = .ok v := by
  unfold parse
  cases schema.check payload <;> simp

theorem exists_kind (h : schema.check payload = .ok v) : ∃ kind : Kind, kind.schema.check payload = .ok v := by
  cases payload with
  | record r =>
    rw [schema, check] at h
    cases hc : checkVariants [("attribution", attributionSchema), ("lift", liftSchema)]
        ((r.lookup "kind").getD .undefined) (.record r) with
    | none =>
      rw [hc] at h
      cases h
    | some answer =>
      rw [hc, Option.getD_some] at h
      obtain ⟨variant, hm, -, rfl, -⟩ := checkVariants_eq_some hc
      simp only [List.mem_cons, List.not_mem_nil, or_false] at hm
      rcases hm with rfl | rfl
      · exact ⟨.attribution, h⟩
      · exact ⟨.lift, h⟩
  | _ => cases h

/-- Parsing normalizes: what is given back holds what its kind has and nothing else, with the defaults filled in and
within the bounds; each single value that was given, and each entry of the PID configs but for `__proto__`, is what
it was; and parsing it again changes nothing. -/
theorem parsing_normalizes (h : parse payload = .ok v) :
    ∃ (kind : Kind) (q : Record Value), v = .record q ∧ kind.Describes q ∧
      (∀ path ∈ kind.scalars, ∀ x, payload.at? path = some x → x ≠ .undefined → v.at? path = some x) ∧
      (∀ entries, payload.at? ["common", "pidConfigs"] = some (.record entries) →
        v.at? ["common", "pidConfigs"] = some (.record (Record.erase entries "__proto__"))) ∧
      parse v = .ok v := by
  have hc := parse_eq_ok_iff.mp h
  obtain ⟨kind, hk⟩ := exists_kind hc
  obtain ⟨-, q, rfl, hq⟩ := kind.yields_schema _ _ hk
  refine ⟨kind, q, rfl, hq, fun path hp x hx hu => ?_, fun entries he => ?_,
    parse_eq_ok_iff.mpr (check_again schema_isStable hc)⟩
  · have hany := kind.isScalar_at path hp
    cases hi : kind.schema.at? path with
    | none => simp [hi] at hany
    | some inner =>
      rw [hi] at hany
      obtain ⟨y, hy, hkept⟩ := check_at kind.schema_isStable hk hi hx hu
      obtain rfl := eq_of_check_scalar hany hy
      exact hkept hu
  · obtain ⟨y, hy, hkept⟩ := check_at kind.schema_isStable hk kind.at_pidConfigs he (by simp)
    cases hy
    exact hkept (by simp)

/-- Entries that no schema names, absent ones that have a default, and `__proto__` among the PID configs. -/
def samplePayload : Value :=
  .record [("kind", .text "attribution"), ("stray", .null), ("aggregationType", .text "measurement"),
    ("common", .record [("outputDir", .text "out/"), ("inputPath", .text "data/input.csv"), ("hmacKey", .undefined),
      ("pidUseRowNumbers", .bool false), ("stray", .list []),
      ("pidConfigs", .record [("__proto__", .text "x"), ("nested", .list [.undefined])])])]

def sampleConfig : Value :=
  .record [("kind", .text "attribution"),
    ("common", .record [("inputPath", .text "data/input.csv"), ("outputDir", .text "out/"), ("hmacKey", .undefined),
      ("resultVisibility", .number 0), ("pidUseRowNumbers", .bool false), ("multikeyEnabled", .bool true),
      ("pidProtocol", .text "UNION_PID"), ("pidMaxColumnCount", .number 1),
      ("pidConfigs", .record [("nested", .list [.undefined])])]),
    ("aggregationType", .text "measurement"), ("attributionRule", .text "last_click_1d")]

theorem sample_is_normalized : parse samplePayload = .ok sampleConfig ∧ parse sampleConfig = .ok sampleConfig := by
  have hparse : parse samplePayload = .ok sampleConfig := by decide +kernel
  obtain ⟨_, _, -, -, -, -, hagain⟩ := parsing_normalizes hparse
  exact ⟨hparse, hagain⟩

end Parsing

end GovernedConfig.Product
