import GovernedConfig.Proofs.Dispatch
import GovernedConfig.Proofs.Registry.Builds

/-! # The agenda of construction

Which hooks construction evaluates, and in which order: of all hooks that answer to its trigger, field by
field, each at the first field that it watches.
-/

namespace GovernedConfig

namespace Registry

/-- The hooks that answer to a trigger, with the fields that they watch: in the order of declaration, and
of registration within a field. -/
def bindings (t : Trigger) (specs : List FieldSpec) : List (String × Hook) :=
  specs.flatMap fun spec => (spec.hooks.filter (·.hasTrigger t)).map (spec.name, ·)

/-- Different hooks of a registry have different keys. -/
def TellsApart (r : Registry) : Prop :=
  ∀ h ∈ r.fields.flatMap FieldSpec.hooks, ∀ other ∈ r.fields.flatMap FieldSpec.hooks, h.key = other.key → h = other

theorem clashes_self {h : Hook} {t : Trigger} (ht : h.hasTrigger t = true) : clashes [h] h = true := by
  have hm : t ∈ h.triggers := by simpa [Hook.hasTrigger] using ht
  simp only [clashes, List.any_cons, beq_self_eq_true, Bool.true_and, List.any_nil, Bool.or_false]
  exact List.any_eq_true.mpr ⟨t, hm, ht⟩

theorem IsTidy.nodup_keys {r : Registry} (hr : r.IsTidy) (ha : r.TellsApart) {spec : FieldSpec} (hs : spec ∈ r.fields)
    (t : Trigger) : ((spec.hooks.filter (·.hasTrigger t)).map Hook.key).Nodup := by
  have hmem : ∀ h ∈ spec.hooks, h ∈ r.fields.flatMap FieldSpec.hooks := fun h hh => List.mem_flatMap.mpr ⟨spec, hs, hh⟩
  refine List.pairwise_map.mpr (((hr.hooks spec hs).filter _).imp_of_mem fun {former h} hf hh hc he => ?_)
  obtain ⟨hf, htrigger⟩ := List.mem_filter.mp hf
  obtain rfl := ha former (hmem former hf) h (hmem h (List.mem_filter.mp hh).1) he
  rw [clashes_self htrigger] at hc
  cases hc

end Registry

namespace Lifecycle

open Registry

/-- A list of hooks, each with a field, that has every hook among bindings exactly once: at its first
binding, and in the order of the bindings. -/
structure IsAgenda (bound agenda : List (String × Hook)) : Prop where
  sublist : agenda.Sublist bound
  once : (agenda.map (·.2.key)).Nodup
  first : ∀ key, agenda.find? (·.2.key == key) = bound.find? (·.2.key == key)

variable {specs : List FieldSpec} {seen : List Nat}

theorem schedule_cons (spec : FieldSpec) (specs : List FieldSpec) (seen : List Nat) :
    schedule (spec :: specs) seen =
      ((spec.hooks.filter (·.hasTrigger .postInit)).filter (!seen.contains ·.key)).map (spec.name, ·) ++
        schedule specs (seen ++
          ((spec.hooks.filter (·.hasTrigger .postInit)).filter (!seen.contains ·.key)).map Hook.key) := by
  have hf : spec.hooks.filter (fun h => h.hasTrigger .postInit && !seen.contains h.key) =
      (spec.hooks.filter (·.hasTrigger .postInit)).filter (!seen.contains ·.key) := by
    rw [List.filter_filter]
    exact List.filter_congr fun _ _ => Bool.and_comm ..
  rw [schedule, hf]

theorem schedule_sublist (specs : List FieldSpec) (seen : List Nat) :
    (schedule specs seen).Sublist (bindings .postInit specs) := by
  induction specs generalizing seen with
  | nil => exact .slnil
  | cons spec specs ih =>
    rw [schedule_cons]
    exact (List.filter_sublist.map _).append (ih _)

theorem key_notMem_of_schedule {b : String × Hook} (hb : b ∈ schedule specs seen) : b.2.key ∉ seen := by
  induction specs generalizing seen with
  | nil => cases hb
  | cons spec specs ih =>
    rw [schedule_cons] at hb
    rcases List.mem_append.mp hb with hb | hb
    · obtain ⟨h, hm, rfl⟩ := List.mem_map.mp hb
      simpa using (List.mem_filter.mp hm).2
    · exact fun hs => ih hb (List.mem_append_left _ hs)

theorem schedule_nodup
    (hn : ∀ spec ∈ specs, ((spec.hooks.filter (·.hasTrigger .postInit)).map Hook.key).Nodup) :
    ((schedule specs seen).map (·.2.key)).Nodup := by
  induction specs generalizing seen with
  | nil => exact .nil
  | cons spec specs ih =>
    rw [schedule_cons, List.map_append, List.map_map]
    have hspec := hn spec List.mem_cons_self
    have hrest : ∀ seen, ((schedule specs seen).map (·.2.key)).Nodup :=
      fun _ => ih fun other ho => hn other (List.mem_cons_of_mem _ ho)
    refine (hspec.sublist (List.filter_sublist.map _)).append (hrest _) fun key hk hlater => ?_
    obtain ⟨b, hb, rfl⟩ := List.mem_map.mp hlater
    exact key_notMem_of_schedule hb (List.mem_append_right _ hk)

theorem find?_filter_seen {hooks : List Hook} {key : Nat} (hk : key ∉ seen) :
    (hooks.filter (!seen.contains ·.key)).find? (·.key == key) = hooks.find? (·.key == key) := by
  rw [List.find?_filter]
  congr 1
  funext h
  by_cases he : h.key = key
  · simp [he, hk]
  · simp [he]

theorem find?_schedule {key : Nat} (hk : key ∉ seen) :
    (schedule specs seen).find? (·.2.key == key) = (bindings .postInit specs).find? (·.2.key == key) := by
  induction specs generalizing seen with
  | nil => rfl
  | cons spec specs ih =>
    have hhead : ∀ hooks : List Hook, (hooks.map (spec.name, ·)).find? (·.2.key == key) =
        (hooks.find? (·.key == key)).map (spec.name, ·) := fun hooks => List.find?_map ..
    rw [schedule_cons, List.find?_append, hhead, find?_filter_seen hk, bindings, List.flatMap_cons, List.find?_append,
      hhead]
    cases hf : (spec.hooks.filter (·.hasTrigger .postInit)).find? (·.key == key) with
    | some h => rfl
    | none =>
      rw [← find?_filter_seen hk, List.find?_eq_none] at hf
      refine congrArg _ (ih ?_)
      rw [List.mem_append, not_or]
      refine ⟨hk, fun hm => ?_⟩
      obtain ⟨h, hh, rfl⟩ := List.mem_map.mp hm
      exact hf h hh (beq_self_eq_true _)

/-- Construction schedules every hook once, at the first field that it watches. -/
theorem isAgenda_schedule {r : Registry} (hr : r.IsTidy) (ha : r.TellsApart) :
    IsAgenda (bindings .postInit r.fields) (schedule r.fields []) :=
  ⟨schedule_sublist .., schedule_nodup fun _ hs => hr.nodup_keys ha hs .postInit, fun _ => find?_schedule (by simp)⟩

end Lifecycle

end GovernedConfig
