import Mathlib.Data.List.Nodup
import Mathlib.Tactic.SplitIfs
import GovernedConfig.Proofs.Outcome
import GovernedConfig.Registry

/-! # How registries are built

A registry is built by declarations, registrations and the seal, in any order. A step that is refused
leaves the registry as it was, so that whoever catches what it throws can go on building.
-/

namespace GovernedConfig.Registry

open Act

inductive Step where
  | define (field : String) (options : FieldOptions)
  | register (field : String) (h : Hook)
  | close

def Step.act : Step → Act Registry Unit
  | define field options => Registry.define field options
  | register field h => Registry.register field h
  | close => modify sealed

/-- What a registry is after some more steps, refused ones among them. -/
def build (r : Registry) (steps : List Step) : Registry := steps.foldl (fun r step => step.act.after r) r

theorem build_induction {P : Registry → Prop} {r : Registry} (steps : List Step) (h : P r)
    (hstep : ∀ q, ∀ step ∈ steps, P q → P (step.act.after q)) : P (r.build steps) := by
  induction steps generalizing r with
  | nil => exact h
  | cons step steps ih =>
    exact ih (hstep r step List.mem_cons_self h) fun q other ho => hstep q other (List.mem_cons_of_mem _ ho)

section Steps

variable {r : Registry} {field : String}

theorem find?_eq_some {spec : FieldSpec} (h : r.find? field = some spec) : spec ∈ r.fields ∧ spec.name = field :=
  ⟨List.mem_of_find?_eq_some h, by simpa using List.find?_some h⟩

theorem isDeclared_iff : r.isDeclared field = true ↔ field ∈ r.fieldNames := by
  simp [isDeclared, fieldNames]

theorem fieldNames_addField (spec : FieldSpec) : (r.addField spec).fieldNames = r.fieldNames ++ [spec.name] := by
  simp [fieldNames, addField]

theorem fieldNames_addHook (h : Hook) : (r.addHook field h).fieldNames = r.fieldNames := by
  simp only [fieldNames, addHook, List.map_map]
  refine List.map_congr_left fun spec _ => ?_
  rw [Function.comp_apply]
  split_ifs <;> rfl

def added (r : Registry) (field : String) (options : FieldOptions) : FieldSpec where
  name := field
  mutability := .ofValue options.mutability
  default := if r.hasBase && Callable.anonymous.guards field then none else options.resolved
  hooks := []

/-- A declaration is let through, but its default is not, since the base of the defaults guards the name. -/
def sticks (r : Registry) (field : String) (options : FieldOptions) : Bool :=
  (r.checkDeclaration field options).isOk && options.resolved.isSome &&
    (r.hasBase && Callable.anonymous.guards field)

/-- A declaration is refused and changes nothing, or it adds the field; then it fails if it sticks. -/
theorem define_cases (field : String) (options : FieldOptions) (r : Registry) :
    (∃ cause, r.checkDeclaration field options = .error cause ∧ r.sticks field options = false ∧
      define field options r = .error (.fault cause) r) ∨
      r.checkDeclaration field options = .ok () ∧ (if r.sticks field options then
        define field options r = .error (.fault .badType) (r.addField (r.added field options))
        else define field options r = .ok () (r.addField (r.added field options))) := by
  unfold define sticks added
  rw [bind_of_ok (get_eq r)]
  cases hc : r.checkDeclaration field options with
  | error cause => exact .inl ⟨cause, rfl, rfl, bind_of_error rfl _⟩
  | ok _ =>
    refine .inr ⟨rfl, ?_⟩
    rw [bind_of_ok (ofExcept_eq_ok_iff.mpr ⟨rfl, rfl⟩)]
    cases options.resolved with
    | none =>
      rw [ite_self]
      rfl
    | some d => cases r.hasBase && Callable.anonymous.guards field <;> rfl

theorem after_define (field : String) (options : FieldOptions) (r : Registry) :
    (define field options).after r = match r.checkDeclaration field options with
      | .ok () => r.addField (r.added field options)
      | .error _ => r := by
  rcases define_cases field options r with ⟨cause, hc, -, he⟩ | ⟨hc, he⟩
  · rw [after_of_error he, hc]
  · rw [hc]
    split_ifs at he
    · exact after_of_error he
    · exact after_of_ok he

theorem isSealed_of_checkOpen {u : Unit} (h : r.checkOpen = .ok u) : r.isSealed = false := by
  unfold checkOpen at h
  split_ifs at h with hs
  simpa using hs

theorem checkDeclaration_eq_ok_iff {options : FieldOptions} {u : Unit} :
    r.checkDeclaration field options = .ok u ↔
      r.isSealed = false ∧ field ∉ r.fieldNames ∧ ¬ (options.default ≠ .undefined ∧ options.factory.isSome = true) := by
  rw [← isDeclared_iff]
  unfold checkDeclaration checkOpen
  cases r.isSealed <;> cases r.isDeclared field <;>
    by_cases hb : options.default ≠ .undefined ∧ options.factory.isSome = true <;>
    simp [hb, bind, Except.bind, pure, Except.pure, throw, throwThe, MonadExceptOf.throw]

/-- A registration is refused and changes nothing, or it lets the hook watch a declared field of an open registry. -/
theorem register_cases (field : String) (h : Hook) (r : Registry) :
    (∃ thrown, register field h r = .error thrown r) ∨
      ∃ spec, r.isSealed = false ∧ r.find? field = some spec ∧ clashes spec.hooks h = false ∧
        register field h r = .ok () (r.addHook field h) := by
  unfold register
  rw [bind_of_ok (get_eq r)]
  cases ho : r.checkOpen with
  | error cause => exact .inl ⟨_, bind_of_error rfl _⟩
  | ok _ =>
    rw [bind_of_ok (ofExcept_eq_ok_iff.mpr ⟨rfl, rfl⟩)]
    unfold Registry.spec
    cases hf : r.find? field with
    | none => exact .inl ⟨_, bind_of_error rfl _⟩
    | some spec =>
      rw [bind_of_ok (ofExcept_eq_ok_iff.mpr ⟨rfl, rfl⟩)]
      cases hc : clashes spec.hooks h with
      | true => exact .inl ⟨_, rfl⟩
      | false => exact .inr ⟨spec, isSealed_of_checkOpen ho, rfl, hc, rfl⟩

theorem after_register (field : String) (h : Hook) (r : Registry) :
    (register field h).after r = r ∨
      ∃ spec, r.isSealed = false ∧ r.find? field = some spec ∧ clashes spec.hooks h = false ∧
        (register field h).after r = r.addHook field h := by
  rcases register_cases field h r with ⟨thrown, he⟩ | ⟨spec, ho, hf, hc, he⟩
  · exact .inl (after_of_error he)
  · exact .inr ⟨spec, ho, hf, hc, after_of_ok he⟩

theorem entityName_act (step : Step) (r : Registry) : (step.act.after r).entityName = r.entityName := by
  cases step with
  | define field options =>
    rw [Step.act, after_define]
    split <;> rfl
  | register field h =>
    rcases after_register field h r with he | ⟨_, -, -, -, he⟩
    · rw [Step.act, he]
    · rw [Step.act, he]
      rfl
  | close => rfl

theorem entityName_build (r : Registry) (steps : List Step) : (r.build steps).entityName = r.entityName :=
  build_induction (P := fun q => q.entityName = r.entityName) steps rfl fun q step _ hq => (entityName_act step q).trans hq

end Steps

structure IsTidy (r : Registry) : Prop where
  names : r.fieldNames.Nodup
  hooks : ∀ spec ∈ r.fields, spec.hooks.Pairwise fun former h => clashes [former] h = false

namespace IsTidy

variable {r : Registry}

theorem find?_of_mem (hr : r.IsTidy) {spec : FieldSpec} (hs : spec ∈ r.fields) : r.find? spec.name = some spec := by
  cases hf : r.find? spec.name with
  | none => simpa using List.find?_eq_none.mp hf spec hs
  | some found =>
    obtain ⟨hm, hn⟩ := find?_eq_some hf
    rw [List.inj_on_of_nodup_map hr.names hm hs hn]

theorem addField (hr : r.IsTidy) {spec : FieldSpec} (hn : spec.name ∉ r.fieldNames) (hh : spec.hooks = []) :
    (r.addField spec).IsTidy := by
  constructor
  · rw [fieldNames_addField]
    exact hr.names.append (List.nodup_singleton _) (by simpa using hn)
  · intro other ho
    rcases List.mem_append.mp ho with ho | ho
    · exact hr.hooks other ho
    · rw [List.mem_singleton.mp ho, hh]
      exact .nil

theorem addHook (hr : r.IsTidy) {field : String} {h : Hook} {spec : FieldSpec} (hf : r.find? field = some spec)
    (hc : clashes spec.hooks h = false) : (r.addHook field h).IsTidy := by
  refine ⟨by rw [fieldNames_addHook]; exact hr.names, fun other ho => ?_⟩
  obtain ⟨former, hm, rfl⟩ := List.mem_map.mp ho
  split_ifs with he
  · -- names are distinct, so the field that gets the hook is the one that was asked for clashes
    obtain ⟨hs, hname⟩ := find?_eq_some hf
    obtain rfl : former = spec := List.inj_on_of_nodup_map hr.names hm hs (by rw [hname]; simpa using he)
    refine List.pairwise_append.mpr ⟨hr.hooks former hm, List.pairwise_singleton .., ?_⟩
    intro bound hb added ha
    rw [List.mem_singleton.mp ha]
    simp only [clashes, List.any_eq_false, List.any_cons, List.any_nil, Bool.or_false] at hc ⊢
    simpa using hc bound hb
  · exact hr.hooks former hm

theorem act (hr : r.IsTidy) (step : Step) : (step.act.after r).IsTidy := by
  cases step with
  | define field options =>
    rw [Step.act, after_define]
    split
    · rename_i hc
      exact hr.addField (checkDeclaration_eq_ok_iff.mp hc).2.1 rfl
    · exact hr
  | register field h =>
    rcases after_register field h r with he | ⟨spec, -, hf, hc, he⟩
    · rw [Step.act, he]
      exact hr
    · rw [Step.act, he]
      exact hr.addHook hf hc
  | close => exact ⟨hr.names, hr.hooks⟩

/-- However a registry is built, each field is declared once and no hooks of a field clash. -/
theorem build (hr : r.IsTidy) (steps : List Step) : (r.build steps).IsTidy :=
  build_induction steps hr fun _ step _ hq => hq.act step

theorem of_no_fields (h : r.fields = []) : r.IsTidy := by
  constructor <;> simp [fieldNames, h]

end IsTidy

section Registrations

def bound (r : Registry) (field : String) : List Hook := ((r.find? field).map FieldSpec.hooks).getD []

def Step.registered (field : String) (r : Registry) : Step → List Hook
  | .register watched h =>
    if watched = field then
      match Registry.register watched h r with
      | .ok _ _ => [h]
      | .error _ _ => []
    else []
  | _ => []

/-- The hooks that some more steps let watch a field, in the order of their registration. -/
def registrations (field : String) : Registry → List Step → List Hook
  | _, [] => []
  | r, step :: steps => step.registered field r ++ registrations field (step.act.after r) steps

variable {r : Registry} {field : String}

theorem bound_addField (spec : FieldSpec) (hh : spec.hooks = []) : (r.addField spec).bound field = r.bound field := by
  unfold bound find? addField
  rw [List.find?_append]
  cases hf : r.fields.find? fun spec => spec.name == field with
  | some found => rfl
  | none =>
    rw [Option.none_or, List.find?_singleton]
    split_ifs
    · simp [hh]
    · rfl

theorem bound_addHook {watched : String} {h : Hook} {spec : FieldSpec} (hf : r.find? watched = some spec) :
    (r.addHook watched h).bound field = if watched = field then r.bound field ++ [h] else r.bound field := by
  have hname : ∀ other : FieldSpec,
      (if other.name == watched then { other with hooks := other.hooks ++ [h] } else other).name = other.name := by
    intro other
    split_ifs <;> rfl
  have hfind : (r.addHook watched h).find? field = (r.find? field).map fun other =>
      if other.name == watched then { other with hooks := other.hooks ++ [h] } else other := by
    unfold find? addHook
    rw [List.find?_map]
    simp only [Function.comp_def, hname]
  unfold bound
  rw [hfind]
  split_ifs with he
  · subst he
    simp [hf, (find?_eq_some hf).2]
  · cases hr : r.find? field with
    | none => rfl
    | some other =>
      have hne : other.name ≠ watched := (find?_eq_some hr).2 ▸ Ne.symm he
      simp [hne]

theorem bound_act (step : Step) (r : Registry) :
    (step.act.after r).bound field = r.bound field ++ step.registered field r := by
  cases step with
  | define watched options =>
    rw [Step.act, after_define]
    split
    · exact (bound_addField _ rfl).trans (List.append_nil _).symm
    · exact (List.append_nil _).symm
  | register watched h =>
    rcases register_cases watched h r with ⟨thrown, he⟩ | ⟨spec, -, hf, -, he⟩
    · simp only [Step.act, after_of_error he, Step.registered, he, ite_self, List.append_nil]
    · simp only [Step.act, after_of_ok he, bound_addHook hf, Step.registered, he]
      split_ifs
      · rfl
      · exact (List.append_nil _).symm
  | close => exact (List.append_nil _).symm

/-- A field is watched by the hooks that were registered on it, in the order of their registration. -/
theorem bound_build (steps : List Step) (r : Registry) :
    (r.build steps).bound field = r.bound field ++ registrations field r steps := by
  induction steps generalizing r with
  | nil => exact (List.append_nil _).symm
  | cons step steps ih =>
    change ((step.act.after r).build steps).bound field = _
    rw [ih, bound_act, registrations, List.append_assoc]

theorem eq_of_hooksFor {t : Trigger} {hooks : List Hook} (h : r.hooksFor field t = .ok hooks) :
    hooks = (r.bound field).filter (·.hasTrigger t) := by
  unfold hooksFor Registry.spec at h
  unfold bound
  cases hf : r.find? field with
  | none =>
    rw [hf] at h
    cases h
  | some spec =>
    rw [hf] at h
    cases h
    rfl

theorem IsTidy.nodup_ids (hr : r.IsTidy) (field : String) (t : Trigger) :
    (((r.bound field).filter (·.hasTrigger t)).map Hook.id).Nodup := by
  unfold bound
  cases hf : r.find? field with
  | none => exact List.nodup_nil
  | some spec =>
    refine List.pairwise_map.mpr ?_
    refine ((hr.hooks spec (find?_eq_some hf).1).filter _).imp_of_mem fun {former h} hformer hh hc hid => ?_
    have ht : former.hasTrigger t = true := (List.mem_filter.mp hformer).2
    have ht' : h.hasTrigger t = true := (List.mem_filter.mp hh).2
    have hany : h.triggers.any former.hasTrigger = true :=
      List.any_eq_true.mpr ⟨t, by simpa [Hook.hasTrigger] using ht', ht⟩
    simp [clashes, hid, hany] at hc

end Registrations

end GovernedConfig.Registry
