import GovernedConfig.Lifecycle
import GovernedConfig.Proofs.Registry.Builds

/-! # Integrity of registries

What a registry is after any steps, refused ones among them: which fields it declares, which hooks it finds for them,
and what a dispatch can report. A refused step changes nothing, with one exception: a default that the base of the
defaults does not let through leaves its field declared without one.
-/

namespace GovernedConfig

open Act

namespace Registry

section Fields

variable {r q : Registry} {thrown : Thrown}

/-- The field that a step declares, also if it sticks. -/
def Step.declared (r : Registry) : Step → List String
  | .define field options =>
    match Registry.define field options r with
    | .ok _ _ => [field]
    | .error _ _ => if r.sticks field options then [field] else []
  | _ => []

def declaredBy : Registry → List Step → List String
  | _, [] => []
  | r, step :: steps => step.declared r ++ declaredBy (step.act.after r) steps

theorem fieldNames_act (step : Step) (r : Registry) :
    (step.act.after r).fieldNames = r.fieldNames ++ step.declared r := by
  cases step with
  | define field options =>
    rcases define_cases field options r with ⟨cause, -, hs, he⟩ | ⟨-, he⟩
    · simp only [Step.act, after_of_error he, Step.declared, he, hs]
      exact (List.append_nil _).symm
    · split_ifs at he with hs
      · simp only [Step.act, after_of_error he, Step.declared, he, hs, fieldNames_addField]
        rfl
      · simp only [Step.act, after_of_ok he, Step.declared, he, fieldNames_addField]
        rfl
  | register field h =>
    refine Eq.trans ?_ (List.append_nil _).symm
    rcases after_register field h r with he | ⟨_, -, -, -, he⟩
    · rw [Step.act, he]
    · rw [Step.act, he, fieldNames_addHook]
  | close => exact (List.append_nil _).symm

theorem fieldNames_build (steps : List Step) (r : Registry) :
    (r.build steps).fieldNames = r.fieldNames ++ declaredBy r steps := by
  induction steps generalizing r with
  | nil => exact (List.append_nil _).symm
  | cons step steps ih =>
    change ((step.act.after r).build steps).fieldNames = _
    rw [ih, fieldNames_act, declaredBy, List.append_assoc]

theorem act_eq_error {step : Step} (h : step.act r = .error thrown q) :
    q = r ∨ ∃ field options, step = .define field options ∧ r.sticks field options = true ∧
      thrown = .fault .badType ∧ q = r.addField ⟨field, .ofValue options.mutability, none, []⟩ := by
  cases step with
  | define field options =>
    rw [Step.act] at h
    rcases define_cases field options r with ⟨cause, -, -, he⟩ | ⟨-, he⟩
    · rw [he] at h
      cases h
      exact .inl rfl
    · split_ifs at he with hs
      · rw [he] at h
        cases h
        have hguarded : (r.hasBase && Callable.anonymous.guards field) = true := (Bool.and_eq_true_iff.mp hs).2
        rw [added, if_pos hguarded]
        exact .inr ⟨field, options, rfl, hs, rfl, rfl⟩
      · rw [he] at h
        cases h
  | register field h' =>
    rw [Step.act] at h
    rcases register_cases field h' r with ⟨_, he⟩ | ⟨_, -, -, -, he⟩
    · rw [he] at h
      cases h
      exact .inl rfl
    · rw [he] at h
      cases h
  | close => cases h

theorem build_of_sealed (h : r.isSealed = true) (steps : List Step) : r.build steps = r := by
  refine build_induction (P := fun q => q = r) steps rfl fun q step _ hq => ?_
  subst hq
  cases step with
  | define field options =>
    rcases define_cases field options q with ⟨cause, -, -, he⟩ | ⟨hc, -⟩
    · exact after_of_error he
    · rw [(checkDeclaration_eq_ok_iff.mp hc).1] at h
      cases h
  | register field h' =>
    rcases after_register field h' q with he | ⟨_, ho, -, -, -⟩
    · exact he
    · rw [ho] at h
      cases h
  | close =>
    change q.sealed = q
    rw [sealed, ← h]

theorem hooksFor_of_mem {field : String} (h : field ∈ r.fieldNames) (t : Trigger) :
    r.hooksFor field t = .ok ((r.bound field).filter (·.hasTrigger t)) := by
  unfold hooksFor Registry.spec bound
  cases hf : r.find? field with
  | none =>
    obtain ⟨spec, hs, rfl⟩ := List.mem_map.mp h
    simpa using List.find?_eq_none.mp hf spec hs
  | some spec => rfl

end Fields

end Registry

def Report.ListsOnce (report : Report) : Prop := report.evaluated.Nodup ∧ report.fired.Nodup

namespace Lifecycle

variable {ν : Type} {r : Registry} {scope : Scope ν} {field : String} {trigger : Trigger} {s t : Scene ν}

theorem runEach_report {hooks : List Hook} {report report' : Report}
    (h : runEach r scope field trigger hooks report s = .ok report' t) :
    report'.evaluated = report.evaluated ++ hooks.map Hook.id ∧
      ∃ fired, fired.Sublist (hooks.map Hook.id) ∧ report'.fired = report.fired ++ fired := by
  induction hooks generalizing s report with
  | nil =>
    obtain ⟨rfl, -⟩ := pure_eq_ok_iff.mp h
    exact ⟨(List.append_nil _).symm, [], .slnil, (List.append_nil _).symm⟩
  | cons hook hooks ih =>
    obtain ⟨acted, u, -, h⟩ := bind_eq_ok_iff.mp h
    obtain ⟨hevaluated, fired, hsub, hfired⟩ := ih h
    cases acted with
    | true =>
      refine ⟨?_, hook.id :: fired, hsub.cons_cons _, ?_⟩
      · rw [hevaluated]
        exact List.append_assoc ..
      · rw [hfired]
        exact List.append_assoc ..
    | false =>
      refine ⟨?_, fired, hsub.cons _, hfired⟩
      rw [hevaluated]
      exact List.append_assoc ..

theorem runHooks_listsOnce {hooks : List Hook} {report : Report} (hn : (hooks.map Hook.id).Nodup)
    (h : runHooks r scope field trigger hooks s = .ok report t) : report.ListsOnce := by
  obtain ⟨report', u, hu, h⟩ := bind_eq_ok_iff.mp h
  obtain ⟨hevaluated, fired, hsub, hfired⟩ := runEach_report hu
  have hreport : report' = report := by
    split at h
    · obtain ⟨_, _, -, h⟩ := bind_eq_ok_iff.mp h
      obtain ⟨_, _, -, h⟩ := bind_eq_ok_iff.mp h
      exact (pure_eq_ok_iff.mp h).1
    · exact (pure_eq_ok_iff.mp h).1
  subst hreport
  rw [List.nil_append] at hevaluated hfired
  exact ⟨hevaluated ▸ hn, hfired ▸ hn.sublist hsub⟩

theorem dispatchUpdate_listsOnce {report : Report} (hr : r.IsTidy)
    (h : dispatchUpdate r scope field s = .ok report t) : report.ListsOnce := by
  obtain ⟨_, u, -, h⟩ := bind_eq_ok_iff.mp h
  obtain ⟨hooks, _, hf, h⟩ := bind_eq_ok_iff.mp h
  refine runHooks_listsOnce ?_ h
  rw [Registry.eq_of_hooksFor (ofExcept_eq_ok_iff.mp hf).1]
  exact hr.nodup_ids field .postUpdate

theorem runConstruction_listsOnce {specs : List FieldSpec} {seen : List Nat} {reports reports' : List Report}
    (hn : ∀ spec ∈ specs, ((spec.hooks.filter (·.hasTrigger .postInit)).map Hook.id).Nodup)
    (hreports : ∀ report ∈ reports, report.ListsOnce)
    (h : runConstruction r scope specs seen reports s = .ok reports' t) : ∀ report ∈ reports', report.ListsOnce := by
  induction specs generalizing s seen reports with
  | nil =>
    obtain ⟨rfl, -⟩ := pure_eq_ok_iff.mp h
    exact hreports
  | cons spec specs ih =>
    have hrest := fun other ho => hn other (List.mem_cons_of_mem spec ho)
    unfold runConstruction at h
    dsimp only at h
    split at h
    · exact ih hrest hreports h
    · obtain ⟨report, u, hu, h⟩ := bind_eq_ok_iff.mp h
      refine ih hrest (fun other ho => ?_) h
      rcases List.mem_append.mp ho with ho | ho
      · exact hreports other ho
      · rw [List.mem_singleton.mp ho]
        refine runHooks_listsOnce ((hn spec List.mem_cons_self).sublist ?_) hu
        exact (List.monotone_filter_right _ fun hook hh => (Bool.and_eq_true_iff.mp hh).1).map _

theorem completeConstruction_listsOnce {reports : List Report} (hr : r.IsTidy)
    (h : completeConstruction r scope s = .ok reports t) : ∀ report ∈ reports, report.ListsOnce := by
  obtain ⟨u, _, -, h⟩ := bind_eq_ok_iff.mp h
  split at h
  · cases h
  · obtain ⟨reports', v, hv, h⟩ := bind_eq_ok_iff.mp h
    obtain ⟨_, _, -, h⟩ := bind_eq_ok_iff.mp h
    obtain ⟨rfl, -⟩ := pure_eq_ok_iff.mp h
    refine runConstruction_listsOnce (fun spec hs => ?_) (by simp) hv
    have hids := hr.nodup_ids spec.name .postInit
    rwa [Registry.bound, hr.find?_of_mem hs] at hids

end Lifecycle

namespace Registry

/-- However a registry is built, its fields are distinct and stand in the order of their declaration; of a field and a
trigger it finds the hooks that were registered, in that order and with distinct ids, so that no report lists one
twice; a step that throws changes nothing, unless it is a declaration that sticks and leaves its field without the
default; and once it is sealed nothing changes it. -/
theorem registry_keeps_its_integrity (entityName : String) (identityField : Option String) (steps : List Step) :
    let r : Registry := { entityName, identityField }
    let q := r.build steps
    q.fieldNames.Nodup ∧ q.fieldNames = declaredBy r steps ∧
      (∀ field ∈ q.fieldNames, ∀ t, ∃ hooks, q.hooksFor field t = .ok hooks ∧
        hooks = (registrations field r steps).filter (·.hasTrigger t) ∧ (hooks.map Hook.id).Nodup) ∧
      (∀ (ν : Type) (scope : Scope ν) (s t : Scene ν),
        (∀ field report, Lifecycle.dispatchUpdate q scope field s = .ok report t → report.ListsOnce) ∧
          ∀ reports, Lifecycle.completeConstruction q scope s = .ok reports t →
            ∀ report ∈ reports, report.ListsOnce) ∧
      (∀ (step : Step) (thrown : Thrown) (after : Registry), step.act q = .error thrown after →
        after = q ∨ ∃ field options, step = .define field options ∧ q.sticks field options = true ∧
          thrown = .fault .badType ∧ after = q.addField ⟨field, .ofValue options.mutability, none, []⟩) ∧
      ∀ more, q.build (.close :: more) = q.sealed := by
  intro r q
  have hq : q.IsTidy := (IsTidy.of_no_fields rfl).build steps
  have hbound : ∀ field, q.bound field = registrations field r steps := fun field => bound_build steps r
  refine ⟨hq.names, fieldNames_build steps r, fun field hf t => ?_, fun ν scope s t => ⟨?_, ?_⟩,
    fun step thrown after => act_eq_error, fun more => ?_⟩
  · refine ⟨_, hooksFor_of_mem hf t, ?_, hq.nodup_ids field t⟩
    rw [hbound]
  · exact fun field report => Lifecycle.dispatchUpdate_listsOnce hq
  · exact fun reports => Lifecycle.completeConstruction_listsOnce hq
  · change q.sealed.build more = q.sealed
    exact build_of_sealed rfl more

/-- A declaration that throws can leave its field declared: with a default for `__proto__`, one for `name` sticks. -/
theorem stuck_declaration_leaves_its_field :
    ¬ ∀ (entityName : String) (steps : List Step) (step : Step) (thrown : Thrown) (after : Registry),
      step.act (build { entityName } steps) = .error thrown after →
        after.fieldNames = (build { entityName } steps).fieldNames := by
  intro hall
  have hnames := hall "R" [.define "__proto__" { default := .text "x" }] (.define "name" { default := .text "y" })
    (.fault .badType) _ rfl
  exact absurd hnames (by decide)

end Registry

end GovernedConfig
