import Mathlib.Data.List.Perm.Basic
import GovernedConfig.InfraConfig.Payload
import GovernedConfig.Proofs.Schema.Fits
import GovernedConfig.Proofs.Value.Shapes

/-! # The types of the fields of an infra config

What each of the eighteen fields is declared to hold: records have the declared members and no others, and a number may
be any. The payload schema describes the same types, its bounds aside.
-/

namespace GovernedConfig

open Value (IsText IsNumber IsOneOf IsListOf IsNullOr IsRecord)

namespace InfraConfig

structure IsStatusUpdate (r : Record Value) : Prop where
  names : r.names.Perm ["status", "statusUpdateTs"]
  status : r.Has "status" (IsOneOf statuses)
  stamp : r.Has "statusUpdateTs" IsNumber

structure IsStageInstance (r : Record Value) : Prop where
  names : r.names.Perm ["kind", "instanceId", "status"]
  kind : r.Has "kind" (IsOneOf ["PID", "MPC", "POST_PROCESSING", "STAGE_STATE"])
  instanceId : r.Has "instanceId" IsText
  status : r.Has "status" IsText

structure IsPceConfig (r : Record Value) : Prop where
  names : r.names.Perm ["subnets", "cluster", "region", "oneDockerTaskDefinition"]
  subnets : r.Has "subnets" (IsListOf IsText)
  cluster : r.Has "cluster" IsText
  region : r.Has "region" IsText
  taskDefinition : r.Has "oneDockerTaskDefinition" IsText

def fieldTypes : List (String × (Value → Prop)) :=
  [("instanceId", IsText),
    ("role", IsOneOf ["PUBLISHER", "PARTNER"]),
    ("status", IsOneOf statuses),
    ("statusUpdateTs", IsNumber),
    ("instances", IsListOf (IsRecord IsStageInstance)),
    ("gameType", IsOneOf ["LIFT", "ATTRIBUTION"]),
    ("numPidContainers", IsNumber),
    ("numMpcContainers", IsNumber),
    ("numFilesPerMpcContainer", IsNumber),
    ("statusUpdates", IsListOf (IsRecord IsStatusUpdate)),
    ("tier", IsNullOr IsText),
    ("pcsFeatures", IsListOf IsText),
    ("pceConfig", IsNullOr (IsRecord IsPceConfig)),
    ("stageFlowClsName", IsText),
    ("retryCounter", IsNumber),
    ("creationTs", IsNumber),
    ("endTs", IsNumber),
    ("mpcComputeConcurrency", IsNumber)]

/-- A value has the type of a field, if there is such a field. -/
def OfType (field : String) (v : Value) : Prop := ∀ P, (field, P) ∈ fieldTypes → P v

end InfraConfig

namespace Schema

def entries : Schema → List (String × Schema)
  | fields entries => entries
  | _ => []

section Types

variable {inner : Schema} {P : Value → Prop}

theorem fits_text (minimum : Nat) : (text minimum).Fits false = IsText := by
  ext v
  constructor
  · intro h
    exact h.exists_text
  · rintro ⟨s, rfl⟩
    exact .text (by simp)

theorem fits_number (rules : List NumberRule) : (number rules).Fits false = IsNumber := by
  ext v
  constructor
  · rintro ⟨-⟩
    exact ⟨_, rfl⟩
  · rintro ⟨x, rfl⟩
    exact .number (by simp)

theorem fits_oneOf (options : List String) : (oneOf options).Fits false = IsOneOf options := by
  ext v
  constructor
  · intro h
    cases h with
    | oneOf hs => exact ⟨_, hs, rfl⟩
  · rintro ⟨s, hs, rfl⟩
    exact .oneOf hs

theorem fits_nullable (h : inner.Fits false = P) : (nullable inner).Fits false = IsNullOr P := by
  subst h
  ext v
  constructor
  · intro hv
    cases hv with
    | null => exact .inl rfl
    | present hv => exact .inr hv
  · rintro (rfl | hv)
    · exact .null
    · exact .present hv

theorem fits_listOf (h : inner.Fits false = P) : (listOf inner).Fits false = IsListOf P := by
  subst h
  ext v
  constructor
  · intro hv
    exact hv.exists_list
  · rintro ⟨items, rfl, hitems⟩
    exact .list hitems

/-- A record fits if its names are those of the entries, in any order, and what stands under them fits. -/
theorem fits_fields {entries : List (String × Schema)} (hd : (entries.map Prod.fst).Nodup) :
    (fields entries).Fits false = IsRecord fun r =>
      r.names.Perm (entries.map Prod.fst) ∧ ∀ entry ∈ entries, r.Has entry.1 (entry.2.Fits false) := by
  ext v
  constructor
  · intro h
    cases h with
    | @record _ r hnames hmem hr =>
      refine ⟨r, rfl, (List.perm_ext_iff_of_nodup hnames hd).mpr hmem, fun entry he => ?_⟩
      obtain ⟨w, hw⟩ := Record.mem_names_iff.mp ((hmem entry.1).mpr (List.mem_map_of_mem he))
      exact ⟨w, hw, hr _ _ w he hw⟩
  · rintro ⟨r, rfl, hperm, hr⟩
    refine .record (hperm.nodup_iff.mpr hd) (fun name => hperm.mem_iff) fun name schema w he hw => ?_
    obtain ⟨u, hu, hfits⟩ := hr _ he
    cases hu.symm.trans hw
    exact hfits

end Types

end Schema

namespace InfraConfig

open Schema

theorem fits_statusSchema : statusSchema.Fits false = IsOneOf statuses := fits_oneOf statuses

theorem fits_statusUpdateSchema : statusUpdateSchema.Fits false = IsRecord IsStatusUpdate := by
  rw [statusUpdateSchema, fits_fields (by decide)]
  congr 1
  ext r
  simp only [List.forall_mem_cons, fits_statusSchema, epochSchema, fits_number]
  constructor
  · rintro ⟨hn, hstatus, hstamp, -⟩
    exact ⟨hn, hstatus, hstamp⟩
  · rintro ⟨hn, hstatus, hstamp⟩
    exact ⟨hn, hstatus, hstamp, by simp⟩

theorem fits_stageInstanceSchema : stageInstanceSchema.Fits false = IsRecord IsStageInstance := by
  rw [stageInstanceSchema, fits_fields (by decide)]
  congr 1
  ext r
  simp only [List.forall_mem_cons, fits_oneOf, fits_text]
  constructor
  · rintro ⟨hn, hkind, hid, hstatus, -⟩
    exact ⟨hn, hkind, hid, hstatus⟩
  · rintro ⟨hn, hkind, hid, hstatus⟩
    exact ⟨hn, hkind, hid, hstatus, by simp⟩

theorem fits_pceConfigSchema : pceConfigSchema.Fits false = IsRecord IsPceConfig := by
  rw [pceConfigSchema, fits_fields (by decide)]
  congr 1
  ext r
  simp only [List.forall_mem_cons, fits_listOf (fits_text 0), fits_text]
  constructor
  · rintro ⟨hn, hsubnets, hcluster, hregion, htask, -⟩
    exact ⟨hn, hsubnets, hcluster, hregion, htask⟩
  · rintro ⟨hn, hsubnets, hcluster, hregion, htask⟩
    exact ⟨hn, hsubnets, hcluster, hregion, htask, by simp⟩

/-- The payload schema describes the declared types, field by field and in their order. -/
theorem fieldTypes_eq : schema.entries.map (fun entry => (entry.1, entry.2.Fits false)) = fieldTypes := by
  simp only [schema, entries, fieldTypes, epochSchema, countSchema, List.map_cons, List.map_nil, fits_text, fits_number,
    fits_oneOf, fits_statusSchema, fits_nullable (fits_text 0), fits_nullable fits_pceConfigSchema,
    fits_listOf (fits_text 0), fits_listOf fits_stageInstanceSchema, fits_listOf fits_statusUpdateSchema]

theorem fits_schema : schema.Fits false = IsRecord fun r =>
    r.names.Perm (fieldTypes.map Prod.fst) ∧ ∀ type ∈ fieldTypes, r.Has type.1 type.2 := by
  change (Schema.fields schema.entries).Fits false = _
  rw [fits_fields (by decide), ← fieldTypes_eq]
  simp only [List.map_map, List.forall_mem_map, Function.comp_def]

theorem ofType_iff {field : String} {v : Value} :
    OfType field v ↔ ∀ s, (field, s) ∈ schema.entries → s.Fits false v := by
  rw [OfType, ← fieldTypes_eq]
  constructor
  · intro h s hs
    exact h _ (List.mem_map_of_mem hs)
  · intro h P hP
    obtain ⟨entry, he, hentry⟩ := List.mem_map.mp hP
    cases hentry
    exact h entry.2 he

end InfraConfig

end GovernedConfig
