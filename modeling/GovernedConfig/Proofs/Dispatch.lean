import GovernedConfig.Proofs.Frame

/-! # How dispatches end

A dispatch answers if every hook in turn does, and is rejected by the first one that throws, be it in
its condition or in its action.
-/

namespace GovernedConfig.Lifecycle

open Act

variable {ν : Type} {r : Registry} {scope : Scope ν} {field : String} {trigger : Trigger} {s t : Scene ν}

theorem invoke_eq_ok_iff {h : Hook} {u : Unit} :
    invoke scope h s = .ok u t ↔ h.action.run scope (h.kind == .update) s = .ok .finished t := by
  unfold invoke
  rw [bind_eq_ok_iff]
  constructor
  · rintro ⟨completion, w, hw, h⟩
    cases completion with
    | finished =>
      obtain ⟨-, rfl⟩ := pure_eq_ok_iff.mp h
      exact hw
    | deferred failure => cases failure <;> simp [bind_eq_ok_iff] at h
  · intro h
    exact ⟨_, _, h, rfl⟩

/-- A hook passes if its condition does not hold, or if its action ends at once. -/
theorem runHook_eq_ok_iff {h : Hook} {acted : Bool} :
    runHook r scope field trigger h s = .ok acted t ↔
      (acted = false ∧ h.condition.run scope false s = .ok false t) ∨
        (acted = true ∧ ∃ u, h.condition.run scope false s = .ok true u ∧
          h.action.run scope (h.kind == .update) u = .ok .finished t) := by
  unfold runHook
  rw [bind_eq_ok_iff]
  constructor
  · rintro ⟨holds, u, hu, h⟩
    cases holds with
    | false =>
      obtain ⟨rfl, rfl⟩ := pure_eq_ok_iff.mp h
      exact .inl ⟨rfl, hu⟩
    | true =>
      obtain ⟨_, w, hw, h⟩ := bind_eq_ok_iff.mp h
      obtain ⟨rfl, rfl⟩ := pure_eq_ok_iff.mp h
      rw [tryCatch_eq_ok_iff (by simp [bind_eq_ok_iff])] at hw
      exact .inr ⟨rfl, u, hu, invoke_eq_ok_iff.mp hw⟩
  · rintro (⟨rfl, h⟩ | ⟨rfl, u, hu, h⟩)
    · exact ⟨_, _, h, rfl⟩
    · refine ⟨_, _, hu, bind_eq_ok_iff.mpr ⟨(), t, ?_, rfl⟩⟩
      rw [tryCatch_eq_ok_iff (by simp [bind_eq_ok_iff])]
      exact invoke_eq_ok_iff.mpr h

theorem names_eq (r : Registry) (scope : Scope ν) (s : Scene ν) :
    names r scope s =
      .ok [("entity", .text r.entityName), ("instance", .text (scope.label s.entity.values))] s := rfl

/-- The failure of an action is passed on; with a silent logger nothing can come in between. -/
theorem runHook_of_invoke_error {h : Hook} {thrown : Thrown} {u w : Scene ν}
    (hu : h.condition.run scope false s = .ok true u) (hw : invoke scope h u = .error thrown w)
    (hs : w.ambient.IsSilent) : runHook r scope field trigger h s = .error thrown w := by
  unfold runHook
  rw [bind_of_ok hu]
  refine bind_of_error ?_ _
  rw [tryCatch_apply, hw]
  have hj : ∀ data, Scene.around (Journal.error "hook_failed" "Hook rejected entity state" data) w = .ok () w :=
    fun data => Scene.around_eq_ok_iff.mpr ⟨_, Journal.write_of_silent (by decide) hs _ _ _, rfl⟩
  simp only [bind_apply, names_eq, hj, throw_eq]

/-- Of hooks that run one after the other, one throws; those before it passed. -/
inductive Rejects (r : Registry) (scope : Scope ν) (field : String) (trigger : Trigger) :
    List Hook → Scene ν → Thrown → Prop
  | condition {h : Hook} {hooks : List Hook} {s t : Scene ν} {thrown : Thrown} :
      h.condition.run scope false s = .error thrown t → Rejects r scope field trigger (h :: hooks) s thrown
  | action {h : Hook} {hooks : List Hook} {s t u : Scene ν} {thrown : Thrown} :
      h.condition.run scope false s = .ok true t → invoke scope h t = .error thrown u →
        Rejects r scope field trigger (h :: hooks) s thrown
  | later {h : Hook} {hooks : List Hook} {s t : Scene ν} {acted : Bool} {thrown : Thrown} :
      runHook r scope field trigger h s = .ok acted t → Rejects r scope field trigger hooks t thrown →
        Rejects r scope field trigger (h :: hooks) s thrown

theorem runEach_of_rejects (hscope : scope.Keeps Scene.Steady) {hooks : List Hook} {thrown : Thrown}
    (h : Rejects r scope field trigger hooks s thrown) (hs : s.ambient.IsSilent) (report : Report) :
    ∃ t, runEach r scope field trigger hooks report s = .error thrown t := by
  induction h generalizing report with
  | condition hc => exact ⟨_, bind_of_error (bind_of_error hc _) _⟩
  | @action h hooks s t u thrown hc hi =>
    have hu : u.ambient.IsSilent := ((Program.run_keeps hscope false h.condition).of_ok hc |>.isSilent hs) |>
      ((invoke_keeps (hscope.hook h)).of_error hi).isSilent
    exact ⟨u, bind_of_error (runHook_of_invoke_error hc hi hu) _⟩
  | later hh _ ih =>
    obtain ⟨u, hu⟩ := ih (((runHook_keeps r (hscope.hook _) field trigger).of_ok hh).isSilent hs) _
    exact ⟨u, (bind_of_ok hh _).trans hu⟩

theorem dispatchUpdate_of_rejects (hscope : scope.Keeps Scene.Steady) {hooks : List Hook} {thrown : Thrown}
    (hp : s.entity.phase.acceptsUpdates = true) (hh : r.hooksFor field .postUpdate = .ok hooks)
    (h : Rejects r scope field .postUpdate hooks s thrown) (hs : s.ambient.IsSilent) :
    ∃ t, dispatchUpdate r scope field s = .error thrown t := by
  obtain ⟨t, ht⟩ := runEach_of_rejects hscope h hs { field, trigger := .postUpdate }
  refine ⟨t, ?_⟩
  unfold dispatchUpdate
  rw [bind_of_ok ((requireReady_eq_ok_iff (u := ())).mpr ⟨hp, rfl⟩),
    bind_of_ok (ofExcept_eq_ok_iff.mpr ⟨hh, rfl⟩)]
  exact bind_of_error ht _

section Passing

/-- Hooks of fields pass one after the other; in between nothing happens but traces. -/
def Passes (r : Registry) (scope : Scope ν) (trigger : Trigger) :
    List (String × Hook) → Scene ν → Scene ν → Prop
  | [], s, t => ∃ m, s.ambient.Steady m ∧ t = { s with ambient := m }
  | (field, h) :: hooks, s, t => ∃ m acted u, s.ambient.Steady m ∧
      runHook r scope field trigger h { s with ambient := m } = .ok acted u ∧ Passes r scope trigger hooks u t

theorem Passes.of_trace {hooks : List (String × Hook)} {m : Ambient} (hm : s.ambient.Steady m)
    (h : Passes r scope trigger hooks { s with ambient := m } t) : Passes r scope trigger hooks s t := by
  cases hooks with
  | nil =>
    obtain ⟨n, hn, rfl⟩ := h
    exact ⟨n, IsTrans.trans _ _ _ hm hn, rfl⟩
  | cons head hooks =>
    obtain ⟨n, acted, u, hn, hu, h⟩ := h
    exact ⟨n, acted, u, IsTrans.trans _ _ _ hm hn, hu, h⟩

theorem Passes.append {hooks more : List (String × Hook)} {u : Scene ν} (h : Passes r scope trigger hooks s t)
    (g : Passes r scope trigger more t u) : Passes r scope trigger (hooks ++ more) s u := by
  induction hooks generalizing s with
  | nil =>
    obtain ⟨m, hm, rfl⟩ := h
    exact .of_trace hm g
  | cons head hooks ih =>
    obtain ⟨m, acted, w, hm, hw, h⟩ := h
    exact ⟨m, acted, w, hm, hw, ih h⟩

theorem passes_of_runEach {hooks : List Hook} {report report' : Report}
    (h : runEach r scope field trigger hooks report s = .ok report' t) :
    Passes r scope trigger (hooks.map (field, ·)) s t := by
  induction hooks generalizing s report with
  | nil =>
    obtain ⟨-, rfl⟩ := pure_eq_ok_iff.mp h
    exact ⟨_, Std.Refl.refl _, rfl⟩
  | cons hook hooks ih =>
    obtain ⟨acted, u, hu, h⟩ := bind_eq_ok_iff.mp h
    exact ⟨_, acted, u, Std.Refl.refl _, hu, ih h⟩

theorem passes_of_runHooks {hooks : List Hook} {report : Report}
    (h : runHooks r scope field trigger hooks s = .ok report t) :
    Passes r scope trigger (hooks.map (field, ·)) s t := by
  obtain ⟨report', u, hu, h⟩ := bind_eq_ok_iff.mp h
  have hp := passes_of_runEach hu
  split at h
  · rw [bind_of_ok (names_eq r scope u)] at h
    obtain ⟨_, w, hw, h⟩ := bind_eq_ok_iff.mp h
    obtain ⟨m, hm, rfl⟩ := Scene.around_eq_ok_iff.mp hw
    obtain ⟨-, rfl⟩ := pure_eq_ok_iff.mp h
    have hlast : Passes r scope trigger [] u { u with ambient := m } :=
      ⟨m, (Journal.write_keeps _ _ _ _).of_ok hm, rfl⟩
    simpa using hp.append hlast
  · obtain ⟨-, rfl⟩ := pure_eq_ok_iff.mp h
    exact hp

theorem passes_of_dispatchUpdate {report : Report} (h : dispatchUpdate r scope field s = .ok report t) :
    ∃ hooks, r.hooksFor field .postUpdate = .ok hooks ∧
      Passes r scope .postUpdate (hooks.map (field, ·)) s t := by
  obtain ⟨_, u, hu, h⟩ := bind_eq_ok_iff.mp h
  obtain ⟨-, rfl⟩ := requireReady_eq_ok_iff.mp hu
  obtain ⟨hooks, u, hu, h⟩ := bind_eq_ok_iff.mp h
  obtain ⟨hh, rfl⟩ := ofExcept_eq_ok_iff.mp hu
  exact ⟨hooks, hh, passes_of_runHooks h⟩

/-- The construction hooks of fields in the order in which they run, except those whose keys were seen. -/
def schedule : List FieldSpec → (seen : List Nat) → List (String × Hook)
  | [], _ => []
  | spec :: specs, seen =>
    let hooks := spec.hooks.filter fun h => h.hasTrigger .postInit && !seen.contains h.key
    hooks.map (spec.name, ·) ++ schedule specs (seen ++ hooks.map Hook.key)

theorem passes_of_runConstruction {specs : List FieldSpec} {seen : List Nat} {reports reports' : List Report}
    (h : runConstruction r scope specs seen reports s = .ok reports' t) :
    Passes r scope .postInit (schedule specs seen) s t := by
  induction specs generalizing s seen reports with
  | nil =>
    obtain ⟨-, rfl⟩ := pure_eq_ok_iff.mp h
    exact ⟨_, Std.Refl.refl _, rfl⟩
  | cons spec specs ih =>
    unfold runConstruction at h
    unfold schedule
    dsimp only at h ⊢
    split at h
    · rename_i hn
      rw [List.isEmpty_iff.mp hn, List.map_nil, List.map_nil, List.nil_append, List.append_nil]
      exact ih h
    · obtain ⟨report, u, hu, h⟩ := bind_eq_ok_iff.mp h
      exact (passes_of_runHooks hu).append (ih h)

end Passing

section Idling

theorem runEach_of_idle {hooks : List Hook}
    (h : ∀ hook ∈ hooks, runHook r scope field trigger hook s = .ok false s) (report : Report) :
    ∃ report', runEach r scope field trigger hooks report s = .ok report' s ∧ report'.fired = report.fired := by
  induction hooks generalizing report with
  | nil => exact ⟨report, rfl, rfl⟩
  | cons hook hooks ih =>
    have hrest : ∀ other ∈ hooks, runHook r scope field trigger other s = .ok false s :=
      fun other ho => h other (List.mem_cons_of_mem hook ho)
    obtain ⟨report', hr, hf⟩ := ih hrest (report.evaluate hook)
    refine ⟨report', ?_, hf⟩
    rw [runEach, bind_of_ok (h hook (List.mem_cons_self ..))]
    exact hr

theorem runHooks_of_idle {hooks : List Hook}
    (h : ∀ hook ∈ hooks, runHook r scope field trigger hook s = .ok false s) :
    ∃ report, runHooks r scope field trigger hooks s = .ok report s := by
  obtain ⟨report, hr, hf⟩ := runEach_of_idle h { field, trigger }
  refine ⟨report, ?_⟩
  rw [runHooks, bind_of_ok hr, if_neg (by simp [hf])]
  rfl

theorem runConstruction_of_idle {specs : List FieldSpec} {seen : List Nat}
    (h : ∀ p ∈ schedule specs seen, runHook r scope p.1 .postInit p.2 s = .ok false s) (reports : List Report) :
    ∃ reports', runConstruction r scope specs seen reports s = .ok reports' s := by
  induction specs generalizing seen reports with
  | nil => exact ⟨reports, rfl⟩
  | cons spec specs ih =>
    unfold schedule at h
    unfold runConstruction
    dsimp only at h ⊢
    split
    · rename_i hn
      rw [List.isEmpty_iff.mp hn, List.map_nil, List.map_nil, List.nil_append, List.append_nil] at h
      exact ih h reports
    · obtain ⟨report, hr⟩ := runHooks_of_idle fun hook hm =>
        h (spec.name, hook) (List.mem_append_left _ (List.mem_map_of_mem hm))
      rw [bind_of_ok hr]
      exact ih (fun p hp => h p (List.mem_append_right _ hp)) _

end Idling

end GovernedConfig.Lifecycle
