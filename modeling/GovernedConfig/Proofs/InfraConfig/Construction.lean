import GovernedConfig.Proofs.Entity.Construction
import GovernedConfig.Proofs.InfraConfig.Updates

/-! # Construction of an infra config

What the construction of an infra config has checked and done, if it answers.
-/

namespace GovernedConfig.InfraConfig

open Act Lifecycle Rules

structure Admitted (vs : Values) : Prop where
  named : ∃ v, Entity.read registry vs "instanceId" = .ok v ∧ hasLength v 0 = some false
  bounded : ∀ field minimum, (field, minimum) ∈ bounds → Reaches vs field minimum
  containers : ContainersFit vs
  ordered : ∃ entries, Entity.read registry vs "statusUpdates" = .ok (.list entries) ∧
    firstOutOfOrder none 0 entries = some none

/-- What the history comes to: it is kept, or an empty one starts with the first status. -/
def Seeded (vs ws : Values) : Prop :=
  ∃ entries, Entity.read registry vs "statusUpdates" = .ok (.list entries) ∧
    (entries ≠ [] ∧ ws = vs ∨ entries = [] ∧ ∃ status stamp,
      Entity.read registry vs "status" = .ok status ∧ Entity.read registry vs "statusUpdateTs" = .ok stamp ∧
        ws = vs.write "statusUpdates" (.list [statusUpdate status stamp]))

theorem Seeded.read_eq {vs ws : Values} (h : Seeded vs ws) {field : String} (hf : field ≠ "statusUpdates") :
    ws.read field = vs.read field := by
  obtain ⟨entries, -, ⟨-, rfl⟩ | ⟨-, status, stamp, -, -, rfl⟩⟩ := h
  · rfl
  · exact vs.read_write_of_ne (by decide) hf _

theorem Normalized.read_eq {vs ws : Values} (h : Normalized vs ws) {field : String} (hf : field ≠ "pcsFeatures") :
    ws.read field = vs.read field := by
  obtain ⟨features, members, -, -, ⟨-, rfl⟩ | ⟨-, rfl⟩⟩ := h
  · rfl
  · exact vs.read_write_of_ne (by decide) hf _

theorem reaches_congr {vs ws : Values} {field : String} {minimum : Nat} (h : ws.read field = vs.read field) :
    Reaches ws field minimum ↔ Reaches vs field minimum := by
  simp only [Reaches, Entity.read_eq_ok_iff, h]

theorem schedule_eq :
    schedule registry.fields [] =
      [("instanceId", instanceIdHook), ("statusUpdateTs", minimumHook 6 "statusUpdateTs" 0),
        ("numPidContainers", minimumHook 7 "numPidContainers" 1), ("numPidContainers", containerCountHook),
        ("numMpcContainers", minimumHook 8 "numMpcContainers" 1),
        ("numFilesPerMpcContainer", minimumHook 9 "numFilesPerMpcContainer" 1),
        ("statusUpdates", historyOrderHook), ("statusUpdates", seedHistoryHook), ("pcsFeatures", featuresHook),
        ("retryCounter", minimumHook 10 "retryCounter" 0), ("creationTs", minimumHook 11 "creationTs" 0),
        ("endTs", minimumHook 12 "endTs" 0),
        ("mpcComputeConcurrency", minimumHook 13 "mpcComputeConcurrency" 1)] := rfl

section Steps

variable {depth : Nat} {field : String} {trigger : Trigger} {hooks : List (String × Hook)} {s t : Scene Values}

theorem passesAll_instanceId (h : PassesAll depth trigger ((field, instanceIdHook) :: hooks) s t) :
    (∃ v, Entity.read registry s.entity.values "instanceId" = .ok v ∧ hasLength v 0 = some false) ∧
      PassesAll depth trigger hooks s t := by
  obtain ⟨m, acted, u, hm, hu, h⟩ := h
  obtain ⟨hr, -, rfl⟩ := instanceIdHook_passes_iff.mp hu
  exact ⟨hr, h.of_trace hm⟩

/-- The order of the history is checked before an empty history starts. -/
theorem passesAll_history
    (h : PassesAll depth trigger ((field, historyOrderHook) :: (field, seedHistoryHook) :: hooks) s t) :
    (∃ entries, Entity.read registry s.entity.values "statusUpdates" = .ok (.list entries) ∧
      firstOutOfOrder none 0 entries = some none) ∧
        ∃ u, Seeded s.entity.values u.entity.values ∧ PassesAll depth trigger hooks u t := by
  obtain ⟨m, acted, u, hm, hu, h⟩ := h
  obtain ⟨⟨entries, he, hf⟩, -, rfl⟩ := historyOrderHook_passes_iff.mp hu
  refine ⟨⟨entries, he, hf⟩, ?_⟩
  obtain ⟨n, acted', u, hn, hu, h⟩ := h
  obtain ⟨history, hh, hs⟩ := seedHistoryHook_passes hu
  rw [show Entity.read registry _ _ = .ok (.list entries) from he] at hh
  cases hh
  rcases hs with ⟨hl, rfl⟩ | ⟨hl, status, stamp, added, hs, ht, hw, rfl⟩
  · have hne : entries ≠ [] := by
      rintro rfl
      cases hl
    exact ⟨s, ⟨entries, he, .inl ⟨hne, rfl⟩⟩, (h.of_trace hn).of_trace hm⟩
  · cases hw
    cases entries with
    | nil => exact ⟨_, ⟨[], he, .inr ⟨rfl, status, stamp, hs, ht, rfl⟩⟩, h⟩
    | cons entry entries => simp [hasLength] at hl

/-- The construction hooks pass: what was filled in is admitted, the history starts and the features
lose their repetitions. -/
theorem admitted_of_passesAll (h : PassesAll depth .postInit (schedule registry.fields []) s t) :
    Admitted s.entity.values ∧
      ∃ vs, Seeded s.entity.values vs ∧ Normalized vs t.entity.values := by
  rw [schedule_eq] at h
  obtain ⟨hid, h⟩ := passesAll_instanceId h
  obtain ⟨hstamp, h⟩ := passesAll_minimum h
  obtain ⟨hpid, h⟩ := passesAll_minimum h
  obtain ⟨hcount, h⟩ := passesAll_containers h
  obtain ⟨hmpc, h⟩ := passesAll_minimum h
  obtain ⟨hfiles, h⟩ := passesAll_minimum h
  obtain ⟨horder, u, hu, h⟩ := passesAll_history h
  obtain ⟨w, hw, h⟩ := passesAll_features h
  have hkeep : ∀ {field}, field ≠ "statusUpdates" → field ≠ "pcsFeatures" →
      w.entity.values.read field = s.entity.values.read field :=
    fun h₁ h₂ => (hw.read_eq h₂).trans (hu.read_eq h₁)
  obtain ⟨hretry, h⟩ := passesAll_minimum h
  obtain ⟨hcreation, h⟩ := passesAll_minimum h
  obtain ⟨hend, h⟩ := passesAll_minimum h
  obtain ⟨hconc, h⟩ := passesAll_minimum h
  rw [reaches_congr (hkeep (by decide) (by decide))] at hretry hcreation hend hconc
  refine ⟨⟨hid, fun field minimum hb => ?_, hcount, horder⟩, u.entity.values, hu, ?_⟩
  · simp only [bounds, List.mem_cons, Prod.mk.injEq, List.not_mem_nil, or_false] at hb
    rcases hb with ⟨rfl, rfl⟩ | ⟨rfl, rfl⟩ | ⟨rfl, rfl⟩ | ⟨rfl, rfl⟩ | ⟨rfl, rfl⟩ | ⟨rfl, rfl⟩ | ⟨rfl, rfl⟩ |
      ⟨rfl, rfl⟩ <;> assumption
  · rw [passesAll_nil h]
    exact hw

end Steps

theorem admitted_of_construct {depth : Nat} {init : Value} {s t : Scene Values}
    (h : Entity.construct registry depth init s = .ok () t) :
    ∃ us vs, (∀ field ∈ registry.fieldNames, Entity.Supplies registry init field (us.read field) ∧
        (us.read field).isCopyable = true) ∧
      Admitted us ∧ Seeded us vs ∧ Normalized vs t.entity.values := by
  obtain ⟨u, w, reports, hu, hw, m, rfl, -⟩ := Entity.construct_eq_ok h
  obtain ⟨-, v, hv, ht⟩ := completeConstruction_eq_ok hw
  obtain ⟨stamp, m, n, -, rfl, -⟩ := transition_eq_ok ht
  obtain ⟨names, _, -, hu⟩ := bind_eq_ok_iff.mp hu
  obtain ⟨_, _, -, hu⟩ := bind_eq_ok_iff.mp hu
  obtain ⟨ha, vs, hs, hn⟩ := admitted_of_passesAll (passes_of_runConstruction hv)
  exact ⟨u.entity.values, vs, (Entity.fill_eq_ok (by decide) (by decide) hu).1, ha, hs, hn⟩

end GovernedConfig.InfraConfig
