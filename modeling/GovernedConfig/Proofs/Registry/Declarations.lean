import GovernedConfig.Proofs.Journal
import GovernedConfig.Proofs.Registry.Builds

/-! # What declarations say

A registry of declarations alone says of each field what the first declaration of it says, of those that do
not contradict themselves. That holds of ordinary names: of those that every record answers anyway, the
registry may say more than was declared.
-/

namespace GovernedConfig

namespace Registry

open Act

abbrev Declaration := String × FieldOptions

def FieldOptions.isConsistent (options : FieldOptions) : Bool := options.default = .undefined || options.factory.isNone

theorem FieldOptions.isConsistent_iff {options : FieldOptions} :
    options.isConsistent = true ↔ ¬ (options.default ≠ .undefined ∧ options.factory.isSome = true) := by
  unfold isConsistent
  cases options.factory <;> simp

def declarations (ds : List Declaration) : List Step := ds.map fun d => .define d.1 d.2

/-- What is declared of a name: what the first consistent declaration says. -/
def declared? (ds : List Declaration) (field : String) : Option FieldOptions :=
  (ds.find? fun d => d.1 == field && d.2.isConsistent).map Prod.snd

def default? (ds : List Declaration) (field : String) : Option Default := (declared? ds field).bind FieldOptions.resolved

/-- The names that are declared, in the order in which they first are. -/
def declaredNames (ds : List Declaration) : List String := ((ds.filter (·.2.isConsistent)).map Prod.fst).eraseDups

section Lists

variable {ds : List Declaration} {d : Declaration} {field : String}

theorem mem_declaredNames_iff : field ∈ declaredNames ds ↔ (declared? ds field).isSome = true := by
  simp only [declaredNames, List.mem_eraseDups, List.mem_map, List.mem_filter, declared?, Option.isSome_map,
    List.find?_isSome, Bool.and_eq_true, beq_iff_eq]
  exact ⟨fun ⟨d, ⟨hd, hc⟩, hn⟩ => ⟨d, hd, hn, hc⟩, fun ⟨d, hd, hn, hc⟩ => ⟨d, ⟨hd, hc⟩, hn⟩⟩

theorem exists_of_declared {options : FieldOptions} (h : declared? ds field = some options) : (field, options) ∈ ds := by
  obtain ⟨d, hd, rfl⟩ := Option.map_eq_some_iff.mp h
  have hn := List.find?_some hd
  simp only [Bool.and_eq_true, beq_iff_eq] at hn
  rw [← hn.1]
  exact List.mem_of_find?_eq_some hd

theorem declared?_concat (ds : List Declaration) (d : Declaration) (field : String) :
    declared? (ds ++ [d]) field =
      (declared? ds field).or (if d.1 = field ∧ d.2.isConsistent = true then some d.2 else none) := by
  unfold declared?
  rw [List.find?_append, Option.map_or]
  congr 1
  rw [List.find?_singleton]
  by_cases hd : d.1 = field <;> cases hc : d.2.isConsistent <;> simp [hd]

theorem eraseDups_concat (names : List String) (name : String) :
    (names ++ [name]).eraseDups = names.eraseDups ++ if name ∈ names then [] else [name] := by
  rw [List.eraseDups_append]
  by_cases hm : name ∈ names <;> simp [List.removeAll, hm, List.eraseDups_cons]

theorem declaredNames_concat (ds : List Declaration) (d : Declaration) :
    declaredNames (ds ++ [d]) =
      declaredNames ds ++ if d.2.isConsistent = true ∧ d.1 ∉ declaredNames ds then [d.1] else [] := by
  unfold declaredNames
  cases hc : d.2.isConsistent with
  | false => simp [hc]
  | true =>
    simp only [List.filter_append, List.map_append, hc, List.filter_cons_of_pos, List.filter_nil, List.map_cons,
      List.map_nil, eraseDups_concat, List.mem_eraseDups, true_and, ite_not]

end Lists

structure Says (r : Registry) (ds : List Declaration) : Prop where
  isOpen : r.isSealed = false
  names : r.fieldNames = declaredNames ds
  find : ∀ field, r.find? field =
    (declared? ds field).map fun options => ⟨field, .ofValue options.mutability, options.resolved, []⟩

variable {r : Registry} {ds : List Declaration} {field : String}

theorem Says.hasBase (h : r.Says ds) (hb : "__proto__" ∉ ds.map Prod.fst) : r.hasBase = false := by
  have hnone : declared? ds "__proto__" = none := by
    by_contra hs
    obtain ⟨options, ho⟩ := Option.ne_none_iff_exists'.mp hs
    exact hb (List.mem_map_of_mem (exists_of_declared ho))
  rw [Registry.hasBase, h.find, hnone]
  rfl

theorem find?_addField {spec : FieldSpec} :
    (r.addField spec).find? field = (r.find? field).or (if spec.name = field then some spec else none) := by
  rw [find?, addField, List.find?_append, List.find?_singleton]
  by_cases hn : spec.name = field <;> simp [find?, hn]

theorem Says.define (h : r.Says ds) (hb : "__proto__" ∉ ds.map Prod.fst) (d : Declaration) :
    ((Registry.define d.1 d.2).after r).Says (ds ++ [d]) := by
  rw [after_define]
  cases hc : r.checkDeclaration d.1 d.2 with
  | ok _ =>
    obtain ⟨hopen, hnew, hone⟩ := checkDeclaration_eq_ok_iff.mp hc
    have hconsistent := FieldOptions.isConsistent_iff.mpr hone
    rw [h.names] at hnew
    refine ⟨hopen, ?_, fun field => ?_⟩
    · rw [fieldNames_addField, h.names, declaredNames_concat, if_pos ⟨hconsistent, hnew⟩]
      rfl
    · rw [find?_addField, h.find, declared?_concat, Option.map_or, added, h.hasBase hb]
      by_cases hn : d.1 = field <;> simp [hn, hconsistent]
  | error _ =>
    have hrefused : ¬ (d.2.isConsistent = true ∧ d.1 ∉ declaredNames ds) := by
      rintro ⟨hconsistent, hnew⟩
      have hok : r.checkDeclaration d.1 d.2 = .ok () :=
        checkDeclaration_eq_ok_iff.mpr ⟨h.isOpen, by rwa [h.names], FieldOptions.isConsistent_iff.mp hconsistent⟩
      rw [hc] at hok
      cases hok
    refine ⟨h.isOpen, ?_, fun field => ?_⟩
    · rw [declaredNames_concat, if_neg hrefused, List.append_nil]
      exact h.names
    · rw [declared?_concat, h.find]
      by_cases hn : d.1 = field ∧ d.2.isConsistent = true
      · obtain ⟨rfl, hconsistent⟩ := hn
        have hsome : (declared? ds d.1).isSome = true :=
          mem_declaredNames_iff.mp (by_contra fun hnew => hrefused ⟨hconsistent, hnew⟩)
        obtain ⟨options, ho⟩ := Option.isSome_iff_exists.mp hsome
        rw [ho, Option.some_or]
      · rw [if_neg hn, Option.or_none]

/-- A registry that is built of declarations says what they say, whichever of them are refused. -/
theorem says_build (h : r.Says ds) {more : List Declaration} (hb : "__proto__" ∉ (ds ++ more).map Prod.fst) :
    (r.build (declarations more)).Says (ds ++ more) := by
  induction more generalizing r ds with
  | nil => rwa [List.append_nil]
  | cons d more ih =>
    rw [List.append_cons] at hb ⊢
    refine ih (h.define (fun hm => hb ?_) d) hb
    simp only [List.map_append, List.mem_append]
    exact .inl (.inl hm)

theorem says_nil (entityName : String) (identityField : Option String) :
    ({ entityName, identityField } : Registry).Says [] := ⟨rfl, rfl, fun _ => rfl⟩

theorem Says.resolveDefault (h : r.Says ds) (hb : "__proto__" ∉ ds.map Prod.fst) (hf : field ∉ Value.reserved) :
    r.resolveDefault field = match default? ds field with
      | some d => do pure (some (← d.resolve))
      | none => pure none := by
  have hdefault : (r.find? field).bind FieldSpec.default = default? ds field := by
    rw [h.find, Option.bind_map]
    rfl
  unfold Registry.resolveDefault
  rw [hdefault]
  cases default? ds field with
  | some d => rfl
  | none =>
    unfold undeclaredDefault baseAnswer?
    rw [h.hasBase hb, if_neg Bool.false_ne_true, Value.member?_record hf]
    rfl

theorem Says.allows (h : r.Says ds) {options : FieldOptions} (hd : declared? ds field = some options)
    (hm : ∀ v, Mutability.ofValue options.mutability ≠ .other v) : r.Allows .undefined field .construction := by
  have hfind := h.find field
  rw [hd] at hfind
  have hmutability : r.mutability field = .ok (.ofValue options.mutability) := by
    unfold Registry.mutability Registry.spec
    rw [hfind]
    have htruthy : (Mutability.ofValue options.mutability).value.truthy = true := by
      cases hk : Mutability.ofValue options.mutability with
      | other v => exact absurd hk (hm v)
      | mutable => decide
      | immutableAfterInit => decide
      | derived => decide
    simp [htruthy, bind, Except.bind, pure, Except.pure]
  refine ⟨isDeclared_iff.mpr (by rw [h.names, mem_declaredNames_iff, hd]; rfl), ?_⟩
  unfold canWrite
  rw [hmutability]
  cases hk : Mutability.ofValue options.mutability with
  | other v => exact absurd hk (hm v)
  | mutable => rfl
  | immutableAfterInit => rfl
  | derived => rfl

theorem Says.hooks (h : r.Says ds) (hr : r.IsTidy) {spec : FieldSpec} (hs : spec ∈ r.fields) : spec.hooks = [] := by
  have hfind := h.find spec.name
  rw [hr.find?_of_mem hs] at hfind
  obtain ⟨options, -, he⟩ := Option.map_eq_some_iff.mp hfind.symm
  rw [← he]

end Registry

end GovernedConfig
