import GovernedConfig.Proofs.InfraConfig.Typing

/-! # Payloads of infra configs

The payload schema is a plain one, so what a payload is checked into fits it, and an infra config is
created from typed values whenever a text is accepted.
-/

namespace GovernedConfig.InfraConfig

open Act Schema

theorem epochSchema_isPlain : epochSchema.IsPlain := .number (by decide)

theorem countSchema_isPlain : countSchema.IsPlain := .number (by decide)

theorem statusUpdateSchema_isPlain : statusUpdateSchema.IsPlain := by
  refine .fields (by decide) (by decide) ?_
  simp only [List.forall_mem_cons]
  exact ⟨.oneOf _, epochSchema_isPlain, by simp⟩

theorem stageInstanceSchema_isPlain : stageInstanceSchema.IsPlain := by
  refine .fields (by decide) (by decide) ?_
  simp only [List.forall_mem_cons]
  exact ⟨.oneOf _, .text _, .text _, by simp⟩

theorem pceConfigSchema_isPlain : pceConfigSchema.IsPlain := by
  refine .fields (by decide) (by decide) ?_
  simp only [List.forall_mem_cons]
  exact ⟨.listOf (.text _), .text _, .text _, .text _, by simp⟩

theorem schema_isPlain : schema.IsPlain := by
  refine .fields (by decide) (by decide) ?_
  simp only [List.forall_mem_cons]
  exact ⟨.text _, .oneOf _, .oneOf _, epochSchema_isPlain, .listOf stageInstanceSchema_isPlain, .oneOf _,
    countSchema_isPlain, countSchema_isPlain, countSchema_isPlain, .listOf statusUpdateSchema_isPlain,
    .nullable (.text _), .listOf (.text _), .nullable pceConfigSchema_isPlain, .text _, epochSchema_isPlain,
    epochSchema_isPlain, epochSchema_isPlain, countSchema_isPlain, by simp⟩

variable {v w : Value} {m n : Ambient} {e : Entity}

theorem member_of_fits {bounded : Bool} (h : schema.Fits bounded w) {field : String} {s : Schema}
    (hs : (field, s) ∈ schema.entries) : ∃ v, w.member? field = some v ∧ s.Fits bounded v := by
  cases h with
  | @record _ r hd hn hr =>
    obtain ⟨v, hv⟩ := Record.mem_names_iff.mp ((hn field).mpr (List.mem_map.mpr ⟨_, hs, rfl⟩))
    refine ⟨v, ?_, hr field s v hs hv⟩
    rw [Value.member?, Value.lookUp, hv, Option.getD_some]

theorem isTypedInit_of_fits {bounded : Bool} (h : schema.Fits bounded w) : IsTypedInit w := by
  intro field v hv _
  rw [ofType_iff]
  intro s hs
  obtain ⟨v', hv', hfits⟩ := member_of_fits h hs
  rw [hv] at hv'
  cases hv'
  exact hfits.unbounded

theorem deserialize_of_check {text : String} {payload : Value} (hr : Json.read? text = some payload)
    (hc : schema.check payload = .ok w) : deserialize text m = create w m := by
  have hparse : parseFields payload m = .ok w m := by
    unfold parseFields
    rw [hc]
    rfl
  unfold deserialize
  rw [hr]
  exact bind_of_ok hparse _

theorem create_of_deserialize {text : String} (h : deserialize text m = .ok e n) :
    ∃ w, schema.Fits true w ∧ create w m = .ok e n := by
  unfold deserialize at h
  cases hr : Json.read? text with
  | none =>
    rw [hr] at h
    cases h
  | some payload =>
    rw [hr] at h
    obtain ⟨w, k, hw, h⟩ := bind_eq_ok_iff.mp h
    unfold parseFields at hw
    cases hc : schema.check payload with
    | error issues =>
      simp [hc, bind_eq_ok_iff] at hw
    | ok v =>
      rw [hc] at hw
      obtain ⟨rfl, rfl⟩ := pure_eq_ok_iff.mp hw
      exact ⟨v, fits_of_check schema_isPlain hc, h⟩

theorem deserialize_keeps (text : String) : (deserialize text).Keeps Ambient.Steady := by
  unfold deserialize
  split
  · refine Act.Keeps.bind ?_ fun w => Entity.create_keeps registry w
    unfold parseFields
    split
    · exact keeps_pure _
    · exact (Journal.write_keeps _ _ _ _).bind fun _ => keeps_fail _
  · exact keeps_fail _

end GovernedConfig.InfraConfig
