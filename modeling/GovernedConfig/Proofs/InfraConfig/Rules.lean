import GovernedConfig.InfraConfig.Basic
import GovernedConfig.Proofs.Dispatch
import GovernedConfig.Proofs.Entity.Programs

/-! # What the rules of an infra config let through

For each rule, when its hook passes on an infra config and what it has then written.
-/

namespace GovernedConfig.InfraConfig

open Act Lifecycle Program Rules

variable {depth : Nat} {field : String} {trigger : Trigger} {acted : Bool} {s t : Scene Values}

abbrev PassesHook (depth : Nat) (field : String) (trigger : Trigger) (h : Hook) (s : Scene Values)
    (acted : Bool) (t : Scene Values) : Prop :=
  runHook registry (Entity.scope depth registry) field trigger h s = .ok acted t

section Refusals

theorem minimumHook_passes_iff {key minimum : Nat} {name : String} :
    PassesHook depth field trigger (minimumHook key name minimum) s acted t ↔
      (∃ v, Entity.read registry s.entity.values name = .ok v ∧ reaches minimum v = true) ∧
        acted = false ∧ s = t := by
  rw [PassesHook, runHook_eq_ok_iff]
  simp only [minimumHook, atOnce, rejectBelow, run_bind_eq_ok_iff, run_read_eq_ok_iff, run_pure_eq_ok_iff,
    run_suitable_eq_ok_iff, run_fail_eq_ok_iff, Bool.not_eq_false']
  constructor
  · rintro (⟨rfl, v, _, ⟨hv, rfl⟩, hr, rfl⟩ | ⟨-, _, -, _, _, ⟨_, _, -, _, _, -, ⟨⟩⟩, -⟩)
    exact ⟨⟨v, hv, hr⟩, rfl, rfl⟩
  · rintro ⟨⟨v, hv, hr⟩, rfl, rfl⟩
    exact .inl ⟨rfl, v, s, ⟨hv, rfl⟩, hr, rfl⟩

theorem instanceIdHook_passes_iff :
    PassesHook depth field trigger instanceIdHook s acted t ↔
      (∃ v, Entity.read registry s.entity.values "instanceId" = .ok v ∧ hasLength v 0 = some false) ∧
        acted = false ∧ s = t := by
  rw [PassesHook, runHook_eq_ok_iff]
  simp only [instanceIdHook, emptyInstanceId, run_bind_eq_ok_iff, run_read_eq_ok_iff,
    run_suitable_eq_ok_iff, run_fail_eq_ok_iff]
  constructor
  · rintro (⟨rfl, v, _, ⟨hv, rfl⟩, hl, rfl⟩ | ⟨-, _, -, ⟨⟩⟩)
    exact ⟨⟨v, hv, hl⟩, rfl, rfl⟩
  · rintro ⟨⟨v, hv, hl⟩, rfl, rfl⟩
    exact .inl ⟨rfl, v, s, ⟨hv, rfl⟩, hl, rfl⟩

/-- The numbers of containers of both kinds fit, or one of them is missing. -/
def ContainersFit (vs : Values) : Prop :=
  ∃ pid mpc, Entity.read registry vs "numPidContainers" = .ok pid ∧
    Entity.read registry vs "numMpcContainers" = .ok mpc ∧
      (pid.isPresent = true → mpc.isPresent = true → mpc.less? pid = some false)

theorem tooManyPidContainers_run_eq_ok_iff {may b : Bool} :
    tooManyPidContainers.run (Entity.scope depth registry) may s = .ok b t ↔
      ∃ pid mpc, Entity.read registry s.entity.values "numPidContainers" = .ok pid ∧
        Entity.read registry s.entity.values "numMpcContainers" = .ok mpc ∧
          (if pid.isPresent && mpc.isPresent then mpc.less? pid else some false) = some b ∧ s = t := by
  simp only [tooManyPidContainers, run_bind_eq_ok_iff, run_read_eq_ok_iff]
  constructor
  · rintro ⟨pid, _, ⟨hp, rfl⟩, mpc, _, ⟨hm, rfl⟩, h⟩
    split at h
    · rename_i hb
      obtain ⟨hl, rfl⟩ := run_suitable_eq_ok_iff.mp h
      exact ⟨pid, mpc, hp, hm, by rw [if_pos hb, hl], rfl⟩
    · rename_i hb
      obtain ⟨rfl, rfl⟩ := run_pure_eq_ok_iff.mp h
      exact ⟨pid, mpc, hp, hm, by rw [if_neg hb], rfl⟩
  · rintro ⟨pid, mpc, hp, hm, hl, rfl⟩
    refine ⟨pid, s, ⟨hp, rfl⟩, mpc, s, ⟨hm, rfl⟩, ?_⟩
    split
    · rename_i hb
      rw [if_pos hb] at hl
      exact run_suitable_eq_ok_iff.mpr ⟨hl, rfl⟩
    · rename_i hb
      rw [if_neg hb] at hl
      exact run_pure_eq_ok_iff.mpr ⟨Option.some.inj hl, rfl⟩

theorem containerCountHook_passes_iff :
    PassesHook depth field trigger containerCountHook s acted t ↔
      ContainersFit s.entity.values ∧ acted = false ∧ s = t := by
  rw [PassesHook, runHook_eq_ok_iff]
  simp only [containerCountHook, atOnce, rejectContainers, run_bind_eq_ok_iff, run_read_eq_ok_iff,
    run_suitable_eq_ok_iff, run_fail_eq_ok_iff, tooManyPidContainers_run_eq_ok_iff]
  constructor
  · rintro (⟨rfl, pid, mpc, hp, hm, hl, rfl⟩ |
      ⟨-, _, -, _, _, ⟨_, _, -, _, _, -, _, _, -, _, _, -, ⟨⟩⟩, -⟩)
    refine ⟨⟨pid, mpc, hp, hm, fun h₁ h₂ => ?_⟩, rfl, rfl⟩
    rwa [h₁, h₂, Bool.and_self, if_pos rfl] at hl
  · rintro ⟨⟨pid, mpc, hp, hm, hl⟩, rfl, rfl⟩
    refine .inl ⟨rfl, pid, mpc, hp, hm, ?_, rfl⟩
    split
    · rename_i hb
      rw [Bool.and_eq_true] at hb
      exact hl hb.1 hb.2
    · rfl

theorem outOfOrder_run_eq_ok_iff {may : Bool} {found : Option (Nat × Value)} :
    outOfOrder.run (Entity.scope depth registry) may s = .ok found t ↔
      (∃ entries, Entity.read registry s.entity.values "statusUpdates" = .ok (.list entries) ∧
        firstOutOfOrder none 0 entries = some found) ∧ s = t := by
  simp only [outOfOrder, run_bind_eq_ok_iff, run_read_eq_ok_iff]
  constructor
  · rintro ⟨v, _, ⟨hv, rfl⟩, h⟩
    cases v with
    | list entries =>
      obtain ⟨hf, rfl⟩ := run_suitable_eq_ok_iff.mp h
      exact ⟨⟨entries, hv, hf⟩, rfl⟩
    | _ => exact (run_fail_eq_ok_iff.mp h).elim
  · rintro ⟨⟨entries, hv, hf⟩, rfl⟩
    exact ⟨_, s, ⟨hv, rfl⟩, run_suitable_eq_ok_iff.mpr ⟨hf, rfl⟩⟩

theorem historyOrderHook_passes_iff :
    PassesHook depth field trigger historyOrderHook s acted t ↔
      (∃ entries, Entity.read registry s.entity.values "statusUpdates" = .ok (.list entries) ∧
        firstOutOfOrder none 0 entries = some none) ∧ acted = false ∧ s = t := by
  rw [PassesHook, runHook_eq_ok_iff]
  simp only [historyOrderHook, atOnce, rejectOutOfOrder, run_bind_eq_ok_iff, outOfOrder_run_eq_ok_iff,
    run_pure_eq_ok_iff]
  constructor
  · rintro (⟨rfl, found, _, ⟨⟨entries, he, hf⟩, rfl⟩, hn, rfl⟩ |
      ⟨-, _, ⟨found, _, ⟨⟨entries, he, hf⟩, rfl⟩, hn, rfl⟩, _, _, ⟨again, _, ⟨⟨others, ho, hg⟩, rfl⟩, h⟩, -⟩)
    · cases found with
      | none => exact ⟨⟨entries, he, hf⟩, rfl, rfl⟩
      | some _ => cases hn
    · rw [he] at ho
      cases ho
      rw [hf] at hg
      cases hg
      cases found with
      | none => cases hn
      | some _ =>
        obtain ⟨_, _, -, h⟩ := run_bind_eq_ok_iff.mp h
        exact (run_fail_eq_ok_iff.mp h).elim
  · rintro ⟨⟨entries, he, hf⟩, rfl, rfl⟩
    exact .inl ⟨rfl, none, s, ⟨⟨entries, he, hf⟩, rfl⟩, rfl, rfl⟩

end Refusals

section Entries

theorem appendStatus_run_eq_ok {u : Unit} (h : appendStatus.run (Entity.scope depth registry) true s = .ok u t) :
    ∃ status stamp history entries, Entity.read registry s.entity.values "status" = .ok status ∧
      Entity.read registry s.entity.values "statusUpdateTs" = .ok stamp ∧
      Entity.read registry s.entity.values "statusUpdates" = .ok history ∧ history.walk? = some entries ∧
        t = s.written "statusUpdates" (.list (entries ++ [statusUpdate status stamp])) := by
  simp only [appendStatus, run_bind_eq_ok_iff, run_read_eq_ok_iff, run_suitable_eq_ok_iff,
    run_write_eq_ok_iff] at h
  obtain ⟨status, _, ⟨hs, rfl⟩, stamp, _, ⟨ht, rfl⟩, history, _, ⟨hh, rfl⟩, entries, _, ⟨hw, rfl⟩, -, -, rfl⟩ := h
  exact ⟨status, stamp, history, entries, hs, ht, hh, hw, rfl⟩

theorem seedHistoryHook_passes (h : PassesHook depth field trigger seedHistoryHook s acted t) :
    ∃ history, Entity.read registry s.entity.values "statusUpdates" = .ok history ∧
      (hasLength history 0 = some false ∧ t = s ∨
        hasLength history 0 = some true ∧ ∃ status stamp entries,
          Entity.read registry s.entity.values "status" = .ok status ∧
          Entity.read registry s.entity.values "statusUpdateTs" = .ok stamp ∧ history.walk? = some entries ∧
            t = s.written "statusUpdates" (.list (entries ++ [statusUpdate status stamp]))) := by
  rw [PassesHook, runHook_eq_ok_iff] at h
  simp only [seedHistoryHook, atOnce, run_bind_eq_ok_iff, run_read_eq_ok_iff, run_suitable_eq_ok_iff,
    run_pure_eq_ok_iff] at h
  rcases h with ⟨-, history, _, ⟨hh, rfl⟩, hl, rfl⟩ |
    ⟨-, _, ⟨history, _, ⟨hh, rfl⟩, hl, rfl⟩, _, _, ha, -, rfl⟩
  · exact ⟨history, hh, .inl ⟨hl, rfl⟩⟩
  · obtain ⟨status, stamp, history', entries, hs, ht, hh', hw, rfl⟩ := appendStatus_run_eq_ok ha
    rw [hh] at hh'
    cases hh'
    exact ⟨history, hh, .inr ⟨hl, status, stamp, entries, hs, ht, hw, rfl⟩⟩

theorem seedHistoryHook_idles {history : Value}
    (hh : Entity.read registry s.entity.values "statusUpdates" = .ok history)
    (hl : hasLength history 0 = some false) :
    PassesHook depth field trigger seedHistoryHook s false s := by
  rw [PassesHook, runHook_eq_ok_iff]
  simp only [seedHistoryHook, run_bind_eq_ok_iff, run_read_eq_ok_iff, run_suitable_eq_ok_iff]
  exact .inl ⟨trivial, history, s, ⟨hh, rfl⟩, hl, rfl⟩

/-- The number that a written status is stamped with at the earliest. -/
def Latest (vs : Values) (x : Binary64) : Prop :=
  ∃ history last latest, Entity.read registry vs "statusUpdates" = .ok history ∧ history.last? = some last ∧
    (if last.truthy then stampOf last = some latest else
      Entity.read registry vs "statusUpdateTs" = .ok latest) ∧ latest.toOperand? = some x

theorem latestStamp_run_eq_ok {may : Bool} {latest : Value}
    (h : latestStamp.run (Entity.scope depth registry) may s = .ok latest t) :
    s = t ∧ ∃ history last, Entity.read registry s.entity.values "statusUpdates" = .ok history ∧
      history.last? = some last ∧
        (if last.truthy then stampOf last = some latest else
          Entity.read registry s.entity.values "statusUpdateTs" = .ok latest) := by
  simp only [latestStamp, run_bind_eq_ok_iff, run_read_eq_ok_iff, run_suitable_eq_ok_iff] at h
  obtain ⟨history, _, ⟨hh, rfl⟩, last, _, ⟨hl, rfl⟩, h⟩ := h
  split at h
  · rename_i ht
    obtain ⟨h, rfl⟩ := run_suitable_eq_ok_iff.mp h
    exact ⟨rfl, history, last, hh, hl, by rwa [if_pos ht]⟩
  · rename_i ht
    obtain ⟨h, rfl⟩ := run_read_eq_ok_iff.mp h
    exact ⟨rfl, history, last, hh, hl, by rwa [if_neg ht]⟩

def stamped (s : Scene Values) (stamp : Value) (entries : List Value) (status : Value) : Scene Values :=
  (s.written "statusUpdateTs" stamp).written "statusUpdates" (.list (entries ++ [statusUpdate status stamp]))

theorem postStatusHook_passes (h : PassesHook depth field trigger postStatusHook s acted t) :
    ∃ x status history entries, Latest s.entity.values x ∧
      Entity.read registry s.entity.values "status" = .ok status ∧
      Entity.read registry s.entity.values "statusUpdates" = .ok history ∧ history.walk? = some entries ∧
        t = stamped s (.number (s.ambient.seconds.max x)) entries status := by
  rw [PassesHook, runHook_eq_ok_iff] at h
  rcases h with ⟨-, h⟩ | ⟨-, _, hc, h⟩
  · cases (pure_eq_ok_iff.mp h).1
  obtain ⟨-, rfl⟩ := pure_eq_ok_iff.mp hc
  simp only [postStatusHook, atOnce, stampStatus, beq_self_eq_true, run_bind_eq_ok_iff, run_now_eq_ok_iff,
    run_suitable_eq_ok_iff, run_write_eq_ok_iff, run_pure_eq_ok_iff] at h
  obtain ⟨_, _, ⟨_, _, ⟨rfl, rfl⟩, latest, _, hl, x, _, ⟨hx, rfl⟩, _, _, ⟨-, -, rfl⟩, ha⟩, -, rfl⟩ := h
  obtain ⟨rfl, history, last, hh, hlast, ht⟩ := latestStamp_run_eq_ok hl
  obtain ⟨status, stamp, history', entries, hs, hstamp, hh', hw, rfl⟩ := appendStatus_run_eq_ok ha
  simp only [Scene.written, Entity.read_eq_ok_iff,
    Values.read_write_self _ (by decide : "statusUpdateTs" ≠ _)] at hstamp
  obtain ⟨-, rfl, -⟩ := hstamp
  rw [Scene.written, Entity.read_write_of_ne (by decide) (by decide)] at hs hh'
  exact ⟨x, status, history', entries, ⟨history, last, latest, hh, hlast, ht, hx⟩, hs, hh', hw, rfl⟩

end Entries

theorem featuresHook_passes (h : PassesHook depth field trigger featuresHook s acted t) :
    ∃ features members, Entity.read registry s.entity.values "pcsFeatures" = .ok features ∧
      distinctMembers features = some members ∧
        (hasLength features members.length = some true ∧ t = s ∨
          hasLength features members.length = some false ∧ t = s.written "pcsFeatures" (.list members)) := by
  rw [PassesHook, runHook_eq_ok_iff] at h
  simp only [featuresHook, hasRepetition, removeRepetition, atOnce, run_bind_eq_ok_iff, run_read_eq_ok_iff,
    run_suitable_eq_ok_iff, run_pure_eq_ok_iff, beq_self_eq_true, run_write_eq_ok_iff] at h
  rcases h with ⟨-, features, _, ⟨hf, rfl⟩, members, _, ⟨hm, rfl⟩, same, _, ⟨hl, rfl⟩, hs, rfl⟩ |
    ⟨-, _, ⟨features, _, ⟨hf, rfl⟩, members, _, ⟨hm, rfl⟩, same, _, ⟨hl, rfl⟩, hs, rfl⟩,
      _, _, ⟨features', _, ⟨hf', rfl⟩, members', _, ⟨hm', rfl⟩, -, -, rfl⟩, -, rfl⟩
  · rw [Bool.not_eq_false'] at hs
    exact ⟨features, members, hf, hm, .inl ⟨by rw [hl, hs], rfl⟩⟩
  · rw [hf] at hf'
    cases hf'
    rw [hm] at hm'
    cases hm'
    rw [Bool.not_eq_true'] at hs
    exact ⟨features, members, hf, hm, .inr ⟨by rw [hl, hs], rfl⟩⟩

theorem featuresHook_idles {features : Value} {members : List Value}
    (hf : Entity.read registry s.entity.values "pcsFeatures" = .ok features)
    (hm : distinctMembers features = some members) (hl : hasLength features members.length = some true) :
    PassesHook depth field trigger featuresHook s false s := by
  rw [PassesHook, runHook_eq_ok_iff]
  simp only [featuresHook, hasRepetition, run_bind_eq_ok_iff, run_read_eq_ok_iff, run_suitable_eq_ok_iff,
    run_pure_eq_ok_iff]
  exact .inl ⟨trivial, features, s, ⟨hf, rfl⟩, members, s, ⟨hm, rfl⟩, true, s, ⟨hl, rfl⟩, rfl, rfl⟩

end GovernedConfig.InfraConfig
