import GovernedConfig.Proofs.Entity.Construction

/-! # What hooks do to an entity

Apart from what it tells the journal, a dispatch is the evaluation of hooks one after the other, up to the
first that throws. With a silent logger there is nothing else to it.
-/

namespace GovernedConfig

def Report.grown (report : Report) (hooks : List Hook) (fired : List (String × Hook)) : Report :=
  { report with evaluated := report.evaluated ++ hooks.map Hook.id, fired := report.fired ++ fired.map (·.2.id) }

namespace Lifecycle

open Act

variable {ν : Type}

section Evaluation

variable (scope : Scope ν)

def evaluate (h : Hook) : Act (Scene ν) Bool := do
  if ← h.condition.run scope false then
    invoke scope h
    pure true
  else pure false

def evaluateAll : List (String × Hook) → Act (Scene ν) (List (String × Hook))
  | [] => pure []
  | b :: agenda => do
    let acted ← evaluate scope b.2
    let fired ← evaluateAll agenda
    pure (if acted then b :: fired else fired)

end Evaluation

variable {r : Registry} {scope : Scope ν} {field : String} {trigger : Trigger} {s t u : Scene ν} {thrown : Thrown}
  {agenda fired : List (String × Hook)}

/-- Surroundings in which a dispatch tells the journal nothing, and can tell the time. -/
def Still (s : Scene ν) : Prop := s.ambient.IsSilent ∧ (Calendar.stamp? s.ambient.clock).isSome = true

/-- Between two moments nothing happened to the phase of an entity and its history, and the surroundings
stayed still if they were. -/
structure Undisturbed (s t : Scene ν) : Prop where
  phase : t.entity.phase = s.entity.phase
  history : t.entity.history = s.entity.history
  still : Still s → Still t

theorem Undisturbed.of_entity (he : t.entity = s.entity) (hm : s.ambient.Steady t.ambient) : Undisturbed s t :=
  ⟨congrArg EntityState.phase he, congrArg EntityState.history he, fun hs =>
    ⟨hm.isSilent hs.1, by rw [hm.clock]; exact hs.2⟩⟩

theorem undisturbed_values (s : Scene ν) (values : ν) :
    Undisturbed s { s with entity := { s.entity with values } } := ⟨rfl, rfl, id⟩

instance : Scene.Frame (@Undisturbed ν) where
  refl _ := ⟨rfl, rfl, id⟩
  trans _ _ _ h g := ⟨g.phase.trans h.phase, g.history.trans h.history, g.still ∘ h.still⟩
  around _ _ hm := .of_entity rfl hm

theorem Still.around_debug (hs : Still s) (phase message : String) (data : Record Value) :
    Scene.around (Journal.debug phase message data) s = .ok () s :=
  Scene.around_eq_ok_iff.mpr ⟨_, Journal.write_of_silent (by decide) hs.1 .., rfl⟩

theorem Still.around_error (hs : Still s) (phase message : String) (data : Record Value) :
    Scene.around (Journal.error phase message data) s = .ok () s :=
  Scene.around_eq_ok_iff.mpr ⟨_, Journal.write_of_silent (by decide) hs.1 .., rfl⟩

section Keeping

variable {R : Scene ν → Scene ν → Prop} [Scene.Frame R]

theorem evaluate_keeps (hscope : scope.Keeps R) (h : Hook) : (evaluate scope h).Keeps R := by
  refine (hscope.hook h).condition.bind fun holds => ?_
  cases holds with
  | true => exact (invoke_keeps (hscope.hook h)).bind fun _ => keeps_pure _
  | false => exact keeps_pure _

theorem evaluateAll_keeps (hscope : scope.Keeps R) (agenda : List (String × Hook)) :
    (evaluateAll scope agenda).Keeps R := by
  induction agenda with
  | nil => exact keeps_pure _
  | cons b agenda ih => exact (evaluate_keeps hscope b.2).bind fun _ => ih.bind fun _ => keeps_pure _

end Keeping

section Lists

theorem evaluateAll_cons_eq_ok_iff {b : String × Hook} :
    evaluateAll scope (b :: agenda) s = .ok fired t ↔
      ∃ acted u more, evaluate scope b.2 s = .ok acted u ∧ evaluateAll scope agenda u = .ok more t ∧
        fired = if acted then b :: more else more := by
  simp only [evaluateAll, bind_eq_ok_iff, pure_eq_ok_iff]
  constructor
  · rintro ⟨acted, u, hu, more, _, hm, rfl, rfl⟩
    exact ⟨acted, u, more, hu, hm, rfl⟩
  · rintro ⟨acted, u, more, hu, hm, rfl⟩
    exact ⟨acted, u, hu, more, t, hm, rfl, rfl⟩

theorem evaluateAll_append_of_ok {more fired' : List (String × Hook)} (h : evaluateAll scope agenda s = .ok fired u)
    (g : evaluateAll scope more u = .ok fired' t) :
    evaluateAll scope (agenda ++ more) s = .ok (fired ++ fired') t := by
  induction agenda generalizing s fired with
  | nil =>
    obtain ⟨rfl, rfl⟩ := pure_eq_ok_iff.mp h
    exact g
  | cons b agenda ih =>
    obtain ⟨acted, w, rest, hw, hrest, rfl⟩ := evaluateAll_cons_eq_ok_iff.mp h
    refine evaluateAll_cons_eq_ok_iff.mpr ⟨acted, w, _, hw, ih hrest, ?_⟩
    cases acted <;> rfl

theorem sublist_of_evaluateAll (h : evaluateAll scope agenda s = .ok fired t) : fired.Sublist agenda := by
  induction agenda generalizing s fired with
  | nil =>
    obtain ⟨rfl, -⟩ := pure_eq_ok_iff.mp h
    exact .slnil
  | cons b agenda ih =>
    obtain ⟨acted, u, more, -, hm, rfl⟩ := evaluateAll_cons_eq_ok_iff.mp h
    cases acted with
    | true => exact (ih hm).cons_cons b
    | false => exact (ih hm).cons b

/-- One of the hooks throws after those before it passed; those after it are not evaluated, so that
everything is left as the failing hook leaves it. -/
def FailsWithin (scope : Scope ν) (agenda : List (String × Hook)) (s : Scene ν) (thrown : Thrown) (t : Scene ν) :
    Prop :=
  ∃ former b later fired u, agenda = former ++ b :: later ∧ evaluateAll scope former s = .ok fired u ∧
    evaluate scope b.2 u = .error thrown t

theorem FailsWithin.append_right (h : FailsWithin scope agenda s thrown t) (more : List (String × Hook)) :
    FailsWithin scope (agenda ++ more) s thrown t := by
  obtain ⟨former, b, later, fired, u, rfl, hu, hb⟩ := h
  exact ⟨former, b, later ++ more, fired, u, by simp, hu, hb⟩

theorem FailsWithin.append_left {former : List (String × Hook)} (h : evaluateAll scope former s = .ok fired u)
    (g : FailsWithin scope agenda u thrown t) : FailsWithin scope (former ++ agenda) s thrown t := by
  obtain ⟨passed, b, later, fired', w, rfl, hw, hb⟩ := g
  exact ⟨former ++ passed, b, later, _, w, by simp, evaluateAll_append_of_ok h hw, hb⟩

end Lists

section Dispatches

theorem evaluate_of_runHook {h : Hook} {acted : Bool} (hr : runHook r scope field trigger h s = .ok acted t) :
    evaluate scope h s = .ok acted t := by
  rcases runHook_eq_ok_iff.mp hr with ⟨rfl, hc⟩ | ⟨rfl, u, hc, ha⟩
  · exact bind_of_ok hc _
  · have hi : invoke scope h u = .ok () t := invoke_eq_ok_iff.mpr ha
    exact (bind_of_ok hc _).trans (bind_of_ok hi _)

/-- With a silent logger a dispatch hands on what a hook throws, and does nothing about it. -/
theorem evaluate_of_runHook_error (hscope : scope.Keeps Undisturbed) (hs : Still s) {h : Hook}
    (hr : runHook r scope field trigger h s = .error thrown t) : evaluate scope h s = .error thrown t := by
  rcases bind_eq_error_iff.mp hr with hc | ⟨holds, u, hc, hr⟩
  · exact bind_of_error hc _
  cases holds with
  | false => cases hr
  | true =>
    rcases bind_eq_error_iff.mp hr with hr | ⟨_, _, -, hr⟩
    · obtain ⟨cause, w, hw, hr⟩ := tryCatch_eq_error_iff.mp hr
      have hu : Still u := ((hscope.hook h).condition.of_ok hc).still hs
      have hsilent : Still w := ((invoke_keeps (hscope.hook h)).of_error hw).still hu
      rw [bind_of_ok (names_eq r scope w), bind_of_ok (hsilent.around_error ..)] at hr
      cases hr
      exact (bind_of_ok hc _).trans (bind_of_error hw _)
    · cases hr

theorem evaluateAll_of_runEach {hooks : List Hook} {report report' : Report}
    (h : runEach r scope field trigger hooks report s = .ok report' t) :
    ∃ fired, evaluateAll scope (hooks.map (field, ·)) s = .ok fired t ∧ report' = report.grown hooks fired := by
  induction hooks generalizing s report with
  | nil =>
    obtain ⟨rfl, rfl⟩ := pure_eq_ok_iff.mp h
    exact ⟨[], rfl, by simp [Report.grown]⟩
  | cons hook hooks ih =>
    obtain ⟨acted, u, hu, h⟩ := bind_eq_ok_iff.mp h
    obtain ⟨fired, hf, rfl⟩ := ih h
    refine ⟨_, evaluateAll_cons_eq_ok_iff.mpr ⟨acted, u, fired, evaluate_of_runHook hu, hf, rfl⟩, ?_⟩
    cases acted <;> simp [Report.grown, Report.evaluate, Report.fire]

theorem failsWithin_of_runEach (hscope : scope.Keeps Undisturbed) (hs : Still s) {hooks : List Hook} {report : Report}
    (h : runEach r scope field trigger hooks report s = .error thrown t) :
    FailsWithin scope (hooks.map (field, ·)) s thrown t := by
  induction hooks generalizing s report with
  | nil => cases h
  | cons hook hooks ih =>
    rcases bind_eq_error_iff.mp h with h | ⟨acted, u, hu, h⟩
    · exact ⟨[], (field, hook), _, [], s, rfl, rfl, evaluate_of_runHook_error hscope hs h⟩
    · have hw := evaluate_of_runHook hu
      have hfirst : evaluateAll scope [(field, hook)] s = .ok _ u :=
        evaluateAll_cons_eq_ok_iff.mpr ⟨acted, u, [], hw, rfl, rfl⟩
      exact (ih (((evaluate_keeps hscope hook).of_ok hw).still hs) h).append_left hfirst

theorem evaluateAll_of_runHooks (hscope : scope.Keeps Undisturbed) (hs : Still s) {hooks : List Hook} {report : Report}
    (h : runHooks r scope field trigger hooks s = .ok report t) :
    ∃ fired, evaluateAll scope (hooks.map (field, ·)) s = .ok fired t ∧
      report = ({ field, trigger } : Report).grown hooks fired := by
  obtain ⟨report', u, hu, h⟩ := bind_eq_ok_iff.mp h
  obtain ⟨fired, hf, rfl⟩ := evaluateAll_of_runEach hu
  have hsilent : Still u := ((evaluateAll_keeps hscope _).of_ok hf).still hs
  refine ⟨fired, ?_⟩
  split at h
  · rw [bind_of_ok (names_eq r scope u), bind_of_ok (hsilent.around_debug ..)] at h
    obtain ⟨rfl, rfl⟩ := pure_eq_ok_iff.mp h
    exact ⟨hf, rfl⟩
  · obtain ⟨rfl, rfl⟩ := pure_eq_ok_iff.mp h
    exact ⟨hf, rfl⟩

theorem failsWithin_of_runHooks (hscope : scope.Keeps Undisturbed) (hs : Still s) {hooks : List Hook}
    (h : runHooks r scope field trigger hooks s = .error thrown t) :
    FailsWithin scope (hooks.map (field, ·)) s thrown t := by
  rcases bind_eq_error_iff.mp h with h | ⟨report, u, hu, h⟩
  · exact failsWithin_of_runEach hscope hs h
  · have hsilent : Still u := ((runEach_keeps r hscope field trigger hooks _).of_ok hu).still hs
    split at h
    · rw [bind_of_ok (names_eq r scope u), bind_of_ok (hsilent.around_debug ..)] at h
      cases h
    · cases h

/-- Reports tell of hooks, field by field, which were evaluated and which acted. -/
structure Tells (reports : List Report) (agenda fired : List (String × Hook)) : Prop where
  evaluated : reports.flatMap (fun report => report.evaluated.map (report.field, ·)) = agenda.map fun b => (b.1, b.2.id)
  fired : reports.flatMap (fun report => report.fired.map (report.field, ·)) = fired.map fun b => (b.1, b.2.id)
  construction : ∀ report ∈ reports, report.trigger = .postInit ∧ report.evaluated ≠ []

theorem Tells.append {reports more : List Report} {agenda' fired' : List (String × Hook)}
    (h : Tells reports agenda fired) (g : Tells more agenda' fired') :
    Tells (reports ++ more) (agenda ++ agenda') (fired ++ fired') := by
  refine ⟨?_, ?_, fun report hr => ?_⟩
  · rw [List.flatMap_append, List.map_append, h.evaluated, g.evaluated]
  · rw [List.flatMap_append, List.map_append, h.fired, g.fired]
  · exact (List.mem_append.mp hr).elim (h.construction report) (g.construction report)

theorem tells_report {hooks : List Hook} (hne : hooks ≠ []) (hf : fired.Sublist (hooks.map (field, ·))) :
    Tells [({ field, trigger := .postInit } : Report).grown hooks fired] (hooks.map (field, ·)) fired := by
  have hfield : ∀ b ∈ fired, b.1 = field := fun b hb => by
    obtain ⟨_, -, rfl⟩ := List.mem_map.mp (hf.subset hb)
    rfl
  refine ⟨?_, ?_, ?_⟩
  · simp [Report.grown, List.map_map, Function.comp_def]
  · simp only [Report.grown, List.nil_append, List.flatMap_cons, List.flatMap_nil, List.append_nil, List.map_map]
    exact List.map_congr_left fun b hb => by rw [Function.comp_apply, hfield b hb]
  · simpa [Report.grown] using hne

theorem evaluateAll_of_runConstruction (hscope : scope.Keeps Undisturbed) (hs : Still s) {specs : List FieldSpec}
    {seen : List Nat} {reports reports' : List Report}
    (h : runConstruction r scope specs seen reports s = .ok reports' t) :
    ∃ more fired, reports' = reports ++ more ∧ evaluateAll scope (schedule specs seen) s = .ok fired t ∧
      Tells more (schedule specs seen) fired ∧ (more.map Report.field).Sublist (specs.map FieldSpec.name) := by
  induction specs generalizing s seen reports with
  | nil =>
    obtain ⟨rfl, rfl⟩ := pure_eq_ok_iff.mp h
    exact ⟨[], [], by simp, rfl, ⟨rfl, rfl, by simp⟩, .slnil⟩
  | cons spec specs ih =>
    unfold runConstruction at h
    unfold schedule
    dsimp only at h ⊢
    split at h
    · rename_i hn
      rw [List.isEmpty_iff.mp hn, List.map_nil, List.map_nil, List.nil_append, List.append_nil]
      obtain ⟨more, fired, rfl, he, htells, hfields⟩ := ih hs h
      exact ⟨more, fired, rfl, he, htells, hfields.cons _⟩
    · rename_i hn
      obtain ⟨report, u, hu, h⟩ := bind_eq_ok_iff.mp h
      obtain ⟨acted, hacted, rfl⟩ := evaluateAll_of_runHooks hscope hs hu
      obtain ⟨more, fired, rfl, he, htells, hfields⟩ := ih (((evaluateAll_keeps hscope _).of_ok hacted).still hs) h
      have htold := tells_report (by simpa using hn) (sublist_of_evaluateAll hacted)
      exact ⟨_ :: more, acted ++ fired, by simp, evaluateAll_append_of_ok hacted he, htold.append htells,
        hfields.cons_cons _⟩

theorem failsWithin_of_runConstruction (hscope : scope.Keeps Undisturbed) (hs : Still s) {specs : List FieldSpec}
    {seen : List Nat} {reports : List Report} (h : runConstruction r scope specs seen reports s = .error thrown t) :
    FailsWithin scope (schedule specs seen) s thrown t := by
  induction specs generalizing s seen reports with
  | nil => cases h
  | cons spec specs ih =>
    unfold runConstruction at h
    unfold schedule
    dsimp only at h ⊢
    split at h
    · rename_i hn
      rw [List.isEmpty_iff.mp hn, List.map_nil, List.map_nil, List.nil_append, List.append_nil]
      exact ih hs h
    · rcases bind_eq_error_iff.mp h with h | ⟨report, u, hu, h⟩
      · exact (failsWithin_of_runHooks hscope hs h).append_right _
      · obtain ⟨acted, hacted, -⟩ := evaluateAll_of_runHooks hscope hs hu
        exact (ih (((evaluateAll_keeps hscope _).of_ok hacted).still hs) h).append_left hacted

end Dispatches

end Lifecycle

end GovernedConfig
