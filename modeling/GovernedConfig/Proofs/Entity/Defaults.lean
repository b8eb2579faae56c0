import GovernedConfig.Proofs.Entity.Effects
import GovernedConfig.Proofs.Entity.WriteOnce
import GovernedConfig.Proofs.Lifecycle.Agenda
import GovernedConfig.Proofs.Registry.Declarations

/-! # Supplied values and defaults

What an entity holds after its construction: of each field what was supplied for it, or else its default.
-/

namespace GovernedConfig

open Act

def Default.isCopyable : Default → Bool
  | value v => v.isCopyable
  | copyOf v => v.isCopyable
  | _ => true

theorem Default.exists_resolve (d : Default) (m : Ambient) :
    ∃ v n, d.resolve m = .ok v n ∧ v.isCopyable = d.isCopyable := by
  cases d with
  | value v => exact ⟨v, m, rfl, rfl⟩
  | copyOf v => exact ⟨v, m, rfl, rfl⟩
  | seconds => exact ⟨_, m, rfl, rfl⟩
  | counter key => exact ⟨_, _, rfl, rfl⟩

namespace Entity

section Offers

/-- What a field gets: what is supplied for it, or else what its default makes of the surroundings, which may
be other ones afterwards. -/
inductive Gets (supplied : String → Value) (default? : String → Option Default) (field : String) :
    Ambient → Value → Ambient → Prop
  | supplied {m : Ambient} : supplied field ≠ .undefined → Gets supplied default? field m (supplied field) m
  | default {d : Default} {v : Value} {m n : Ambient} : supplied field = .undefined → default? field = some d →
      d.resolve m = .ok v n → Gets supplied default? field m v n

/-- Fields that hold what they get, one after the other. -/
inductive Provided (supplied : String → Value) (default? : String → Option Default) (read : String → Value) :
    List String → Ambient → Ambient → Prop
  | nil {m : Ambient} : Provided supplied default? read [] m m
  | cons {field : String} {fields : List String} {k m n : Ambient} : Gets supplied default? field m (read field) k →
      Provided supplied default? read fields k n → Provided supplied default? read (field :: fields) m n

/-- Why a field cannot be filled, if it cannot: there is nothing for it, or what there is cannot be copied. -/
def obstacle (entityName : String) (supplied : String → Value) (default? : String → Option Default)
    (field : String) : Option Fault :=
  if supplied field ≠ .undefined then if (supplied field).isCopyable then none else some .uncopyable
  else match default? field with
    | some d => if d.isCopyable then none else some .uncopyable
    | none => some (.missingField entityName field)

variable {supplied : String → Value} {default? : String → Option Default} {entityName field : String} {v : Value}
  {m n : Ambient}

theorem Gets.steady (h : Gets supplied default? field m v n) : m.Steady n := by
  cases h with
  | supplied => exact Std.Refl.refl m
  | @default d _ _ _ _ _ hd => exact (d.resolve_grows.of_ok hd).toSteady

theorem Gets.unique {w : Value} {k : Ambient} (h : Gets supplied default? field m v n)
    (g : Gets supplied default? field m w k) : v = w ∧ n = k := by
  cases h with
  | supplied hs =>
    cases g with
    | supplied => exact ⟨rfl, rfl⟩
    | default hu => exact absurd hu hs
  | default hs hd hv =>
    cases g with
    | supplied hu => exact absurd hs hu
    | default _ hd' hw =>
      cases hd.symm.trans hd'
      cases hv.symm.trans hw
      exact ⟨rfl, rfl⟩

theorem exists_gets (h : obstacle entityName supplied default? field = none) (m : Ambient) :
    ∃ v n, Gets supplied default? field m v n ∧ v.isCopyable = true := by
  unfold obstacle at h
  by_cases hs : supplied field = .undefined
  · rw [if_neg (by simpa using hs)] at h
    cases hd : default? field with
    | none => simp [hd] at h
    | some d =>
      obtain ⟨v, n, hv, hc⟩ := d.exists_resolve m
      exact ⟨v, n, .default hs hd hv, by simpa [hd, hc] using h⟩
  · rw [if_pos hs] at h
    exact ⟨_, m, .supplied hs, by simpa using h⟩

theorem missing_or_uncopyable {cause : Fault} (h : obstacle entityName supplied default? field = some cause) (m : Ambient) :
    (cause = .missingField entityName field ∧ supplied field = .undefined ∧ default? field = none) ∨
      cause = .uncopyable ∧ ∃ v n, Gets supplied default? field m v n ∧ v.isCopyable = false := by
  unfold obstacle at h
  by_cases hs : supplied field = .undefined
  · rw [if_neg (by simpa using hs)] at h
    cases hd : default? field with
    | none => exact .inl ⟨by simpa [hd, eq_comm] using h, hs, rfl⟩
    | some d =>
      obtain ⟨v, n, hv, hc⟩ := d.exists_resolve m
      simp only [hd, Option.ite_none_left_eq_some, Option.some.injEq, ← hc] at h
      exact .inr ⟨h.2.symm, v, n, .default hs hd hv, by simpa using h.1⟩
  · rw [if_pos hs] at h
    simp only [Option.ite_none_left_eq_some, Option.some.injEq] at h
    exact .inr ⟨h.2.symm, _, m, .supplied hs, by simpa using h.1⟩

end Offers

section Filling

variable {r : Registry} {init : Value} {supplied : String → Value} {default? : String → Option Default}
  {spec : FieldSpec} {specs : List FieldSpec} {s t : Scene Values}

/-- A field with an ordinary name, of which construction knows what is supplied for it and what its default
is, and which nothing keeps from being written a first time. -/
structure IsOffered (r : Registry) (init : Value) (supplied : String → Value) (default? : String → Option Default)
    (field : String) : Prop where
  ordinary : field ∉ Value.reserved
  member : init.member? field = some (supplied field)
  resolves : r.resolveDefault field = match default? field with
    | some d => do pure (some (← d.resolve))
    | none => pure none
  allows : r.Allows .undefined field .construction

theorem IsOffered.ne_base {field : String} (h : IsOffered r init supplied default? field) : field ≠ "__proto__" := by
  rintro rfl
  exact h.ordinary (by decide)

theorem IsOffered.write_eq {field : String} {v : Value} (h : IsOffered r init supplied default? field)
    (hs : s.entity.values.read field = .undefined) :
    write r field v .construction s =
      if v.isCopyable then .ok () (s.written field v) else .error (.fault .uncopyable) s := by
  cases hc : v.isCopyable with
  | true => exact (write_eq_ok_iff r).mpr ⟨by rw [hs]; exact h.allows, hc, rfl⟩
  | false =>
    have hcheck : (Scene.around (r.assertWritable (s.entity.values.read field) field v .construction) : Act _ _) s =
        .ok () s :=
      Scene.around_eq_ok_iff.mpr ⟨_, (Registry.assertWritable_eq_ok_iff r).mpr ⟨by rw [hs]; exact h.allows, rfl⟩, rfl⟩
    unfold write store
    rw [bind_of_ok (Scene.values_eq s), bind_of_ok hcheck, hc]
    rfl

theorem fill_cons_of_gets (h : IsOffered r init supplied default? spec.name) {v : Value} {m : Ambient}
    (hv : Gets supplied default? spec.name s.ambient v m) :
    fill r init (spec :: specs) s =
      (do write r spec.name v .construction; fill r init specs : Act (Scene Values) Unit) { s with ambient := m } := by
  rw [fill, bind_of_ok (suitable_eq_ok_iff.mpr ⟨h.member, rfl⟩)]
  dsimp only
  cases hv with
  | supplied hs => rw [if_pos hs]
  | default hs hd hr =>
    have hresolve : Scene.around (r.resolveDefault spec.name) s = .ok (some v) { s with ambient := m } := by
      refine Scene.around_eq_ok_iff.mpr ⟨m, ?_, rfl⟩
      rw [h.resolves, hd]
      exact bind_of_ok hr _
    rw [if_neg (by simpa using hs), bind_of_ok hresolve]

theorem fill_cons_of_no_obstacle (specs : List FieldSpec) (h : IsOffered r init supplied default? spec.name)
    (hread : s.entity.values.read spec.name = .undefined)
    (hn : obstacle r.entityName supplied default? spec.name = none) :
    ∃ v m, Gets supplied default? spec.name s.ambient v m ∧
      fill r init (spec :: specs) s = fill r init specs { s.written spec.name v with ambient := m } := by
  obtain ⟨v, m, hv, hc⟩ := exists_gets hn s.ambient
  refine ⟨v, m, hv, ?_⟩
  have hwrite := h.write_eq (s := { s with ambient := m }) (v := v) hread
  rw [if_pos hc] at hwrite
  rw [fill_cons_of_gets h hv, bind_of_ok hwrite]
  rfl

theorem fill_cons_of_obstacle (h : IsOffered r init supplied default? spec.name)
    (hread : s.entity.values.read spec.name = .undefined) {cause : Fault}
    (ho : obstacle r.entityName supplied default? spec.name = some cause) :
    ∃ t, fill r init (spec :: specs) s = .error (.fault cause) t ∧ s.ambient.Steady t.ambient := by
  rcases missing_or_uncopyable ho s.ambient with ⟨rfl, hs, hd⟩ | ⟨rfl, v, m, hv, hc⟩
  · have hresolve : Scene.around (r.resolveDefault spec.name) s = .ok none s := by
      refine Scene.around_eq_ok_iff.mpr ⟨s.ambient, ?_, rfl⟩
      rw [h.resolves, hd]
      rfl
    refine ⟨s, ?_, Std.Refl.refl _⟩
    rw [fill, bind_of_ok (suitable_eq_ok_iff.mpr ⟨h.member, rfl⟩)]
    dsimp only
    rw [if_neg (by simpa using hs), bind_of_ok hresolve]
    rfl
  · have hwrite := h.write_eq (s := { s with ambient := m }) (v := v) hread
    rw [if_neg (by simp [hc])] at hwrite
    refine ⟨{ s with ambient := m }, ?_, hv.steady⟩
    rw [fill_cons_of_gets h hv, bind_of_error hwrite]

theorem read_written_of_mem (hn : ((spec :: specs).map FieldSpec.name).Nodup) (hb : spec.name ≠ "__proto__")
    (hread : ∀ other ∈ spec :: specs, s.entity.values.read other.name = .undefined) (v : Value) :
    ∀ other ∈ specs, (s.written spec.name v).entity.values.read other.name = .undefined := by
  intro other ho
  have hne : other.name ≠ spec.name := fun he =>
    (List.nodup_cons.mp hn).1 (he ▸ List.mem_map_of_mem ho)
  rw [Scene.written, Values.read_write_of_ne _ hb hne]
  exact hread other (List.mem_cons_of_mem _ ho)

theorem fill_of_no_obstacle (hn : (specs.map FieldSpec.name).Nodup)
    (ho : ∀ spec ∈ specs, IsOffered r init supplied default? spec.name)
    (hread : ∀ spec ∈ specs, s.entity.values.read spec.name = .undefined)
    (hfree : (specs.map FieldSpec.name).findSome? (obstacle r.entityName supplied default?) = none) :
    ∃ t, fill r init specs s = .ok () t ∧ t.entity.phase = s.entity.phase ∧
      (∀ field ∉ specs.map FieldSpec.name, t.entity.values.read field = s.entity.values.read field) ∧
      Provided supplied default? t.entity.values.read (specs.map FieldSpec.name) s.ambient t.ambient := by
  induction specs generalizing s with
  | nil => exact ⟨s, rfl, rfl, fun _ _ => rfl, .nil⟩
  | cons spec specs ih =>
    have hspec := ho spec List.mem_cons_self
    rw [List.map_cons, List.findSome?_cons] at hfree
    cases hobstacle : obstacle r.entityName supplied default? spec.name with
    | some cause => simp [hobstacle] at hfree
    | none =>
      rw [hobstacle] at hfree
      obtain ⟨v, m, hv, hfill⟩ := fill_cons_of_no_obstacle specs hspec (hread spec List.mem_cons_self) hobstacle
      obtain ⟨t, ht, hp, hout, hf⟩ := ih (s := { s.written spec.name v with ambient := m }) (List.nodup_cons.mp hn).2
        (fun other hother => ho other (List.mem_cons_of_mem _ hother)) (read_written_of_mem hn hspec.ne_base hread v) hfree
      have hself : t.entity.values.read spec.name = v := by
        rw [hout _ (List.nodup_cons.mp hn).1]
        exact Values.read_write_self _ hspec.ne_base v
      refine ⟨t, hfill.trans ht, hp, fun field hfield => ?_, .cons (by rwa [hself]) hf⟩
      rw [List.map_cons, List.mem_cons, not_or] at hfield
      rw [hout _ hfield.2]
      exact Values.read_write_of_ne _ hspec.ne_base hfield.1 v

theorem fill_of_obstacle (hn : (specs.map FieldSpec.name).Nodup)
    (ho : ∀ spec ∈ specs, IsOffered r init supplied default? spec.name)
    (hread : ∀ spec ∈ specs, s.entity.values.read spec.name = .undefined) {cause : Fault}
    (hfirst : (specs.map FieldSpec.name).findSome? (obstacle r.entityName supplied default?) = some cause) :
    ∃ t, fill r init specs s = .error (.fault cause) t ∧ s.ambient.Steady t.ambient := by
  induction specs generalizing s with
  | nil => cases hfirst
  | cons spec specs ih =>
    have hspec := ho spec List.mem_cons_self
    rw [List.map_cons, List.findSome?_cons] at hfirst
    cases hobstacle : obstacle r.entityName supplied default? spec.name with
    | some other =>
      rw [hobstacle] at hfirst
      cases hfirst
      exact fill_cons_of_obstacle hspec (hread spec List.mem_cons_self) hobstacle
    | none =>
      rw [hobstacle] at hfirst
      obtain ⟨v, m, hv, hfill⟩ := fill_cons_of_no_obstacle specs hspec (hread spec List.mem_cons_self) hobstacle
      obtain ⟨t, ht, hlater⟩ := ih (s := { s.written spec.name v with ambient := m }) (List.nodup_cons.mp hn).2
        (fun other hother => ho other (List.mem_cons_of_mem _ hother))
        (read_written_of_mem hn hspec.ne_base hread v) hfirst
      exact ⟨t, hfill.trans ht, IsTrans.trans _ _ _ hv.steady hlater⟩

end Filling

/-- Declarations of ordinary names, with a mutability that there is. -/
structure AreUsual (ds : List Registry.Declaration) : Prop where
  names : ∀ d ∈ ds, d.1 ∉ Value.reserved
  mutability : ∀ d ∈ ds, ∀ v, Mutability.ofValue d.2.mutability ≠ .other v

def suppliedBy (init : Record Value) (field : String) : Value := (init.lookup field).getD .undefined

section Declarations

variable {r : Registry} {ds : List Registry.Declaration} {init : Record Value} {m : Ambient}

theorem AreUsual.ne_base (hds : AreUsual ds) : "__proto__" ∉ ds.map Prod.fst := by
  intro hb
  obtain ⟨d, hd, hn⟩ := List.mem_map.mp hb
  exact hds.names d hd (by rw [hn]; decide)

theorem isOffered_of_says (hr : r.Says ds) (hds : AreUsual ds) {field : String} (hf : field ∈ r.fieldNames) :
    IsOffered r (.record init) (suppliedBy init) (Registry.default? ds) field := by
  rw [hr.names, Registry.mem_declaredNames_iff] at hf
  obtain ⟨options, ho⟩ := Option.isSome_iff_exists.mp hf
  have hd := Registry.exists_of_declared ho
  have hordinary := hds.names _ hd
  exact ⟨hordinary, Value.member?_record hordinary, hr.resolveDefault hds.ne_base hordinary,
    hr.allows ho (hds.mutability _ hd)⟩

theorem populate_eq_fill (hown : ∀ name ∈ Record.names init, r.isDeclared name = true) (s : Scene Values) :
    populate r (.record init) s = fill r (.record init) r.fields s := by
  have hnames : (suitable (Value.record init).ownNames? : Act (Scene Values) (List String)) s =
      .ok (Record.names init) s := rfl
  unfold populate
  rw [bind_of_ok hnames, bind_of_ok (ofExcept_eq_ok_iff.mpr ⟨checkNames_of_declared hown, rfl⟩)]

theorem create_of_says (hr : r.Says ds) (htidy : r.IsTidy) (hds : AreUsual ds)
    (hown : ∀ name ∈ Record.names init, name ∈ r.fieldNames) (hm : m.Orderly) :
    match r.fieldNames.findSome? (obstacle r.entityName (suppliedBy init) (Registry.default? ds)) with
    | some cause => ∃ n, create r (.record init) m = .error (.fault (.construction r.entityName cause)) n
    | none => ∃ e n k, create r (.record init) m = .ok e n ∧ e.state.phase = .ready ∧
        Provided (suppliedBy init) (Registry.default? ds) e.state.values.read r.fieldNames m k := by
  let start : Scene Values := { ambient := m, entity := { values := {} } }
  have hpopulate : populate r (.record init) start = fill r (.record init) r.fields start :=
    populate_eq_fill (fun name hn => Registry.isDeclared_iff.mpr (hown name hn)) start
  have hoffered : ∀ spec ∈ r.fields, IsOffered r (.record init) (suppliedBy init) (Registry.default? ds) spec.name :=
    fun spec hs => isOffered_of_says hr hds (List.mem_map_of_mem hs)
  have hread : ∀ spec ∈ r.fields, ({} : Values).read spec.name = .undefined :=
    fun spec hs => Values.read_empty (hoffered spec hs).ordinary
  cases hobstacle : r.fieldNames.findSome? (obstacle r.entityName (suppliedBy init) (Registry.default? ds)) with
  | some cause =>
    obtain ⟨w, hw, hsteady⟩ := fill_of_obstacle (s := start) htidy.names hoffered hread hobstacle
    obtain ⟨t, ht⟩ : ∃ t, construct r nesting (.record init) start = .error _ t :=
      construct_of_failure (bind_of_error (hpopulate.trans hw) _) (hm.of_steady hsteady)
    exact ⟨t.ambient, create_of_construct_error ht⟩
  | none =>
    obtain ⟨w, hw, hphase, -, hf⟩ := fill_of_no_obstacle (s := start) htidy.names hoffered hread hobstacle
    have hidle : ∀ p ∈ Lifecycle.schedule r.fields [],
        Lifecycle.runHook r (scope nesting r) p.1 .postInit p.2 w = .ok false w := by
      intro p hp
      obtain ⟨spec, hs, hp⟩ := List.mem_flatMap.mp ((Lifecycle.schedule_sublist r.fields []).subset hp)
      simp [hr.hooks htidy hs] at hp
    have horderly : w.ambient.Orderly := hm.of_steady ((fill_keeps (tolerates_steady r) _ _).of_ok hw)
    obtain ⟨t, ht, hvalues⟩ := construct_of_idle nesting (hpopulate.trans hw) hphase hidle
      (horderly.accepts _ (by decide)) (horderly.accepts _ (by decide)) horderly.dated
    exact ⟨_, _, _, create_of_construct ht, phase_of_construct ht, by rw [hvalues]; exact hf⟩

/-- A registry that is built of declarations of ordinary names resolves the defaults that were declared, and
no others. Constructing an entity from a record of declared names fails with the first obstacle of a field,
if there is one: that nothing is supplied for it and no default declared, or that what there is cannot be
copied. Otherwise the entity gets ready, and its fields hold what is supplied for them, or else what their
defaults make. -/
theorem create_of_declarations (hds : AreUsual ds) (entityName : String) (identityField : Option String) :
    let r := ({ entityName, identityField } : Registry).build (Registry.declarations ds)
    r.fieldNames = Registry.declaredNames ds ∧
      (∀ field ∉ Value.reserved, r.resolveDefault field = match Registry.default? ds field with
        | some d => do pure (some (← d.resolve))
        | none => pure none) ∧
      ∀ (init : Record Value) (m : Ambient), (∀ name ∈ Record.names init, name ∈ Registry.declaredNames ds) → m.Orderly →
        match (Registry.declaredNames ds).findSome? (obstacle entityName (suppliedBy init) (Registry.default? ds)) with
        | some cause => ∃ n, create r (.record init) m = .error (.fault (.construction entityName cause)) n
        | none => ∃ e n k, create r (.record init) m = .ok e n ∧ e.state.phase = .ready ∧
            Provided (suppliedBy init) (Registry.default? ds) e.state.values.read (Registry.declaredNames ds) m k := by
  intro r
  have hr : r.Says ds := Registry.says_build (Registry.says_nil entityName identityField) hds.ne_base
  have htidy : r.IsTidy := (Registry.IsTidy.of_no_fields rfl).build _
  have hname : r.entityName = entityName := Registry.entityName_build _ _
  refine ⟨hr.names, fun field hf => hr.resolveDefault hds.ne_base hf, fun init m hown hm => ?_⟩
  rw [← hr.names] at hown ⊢
  rw [← hname]
  exact create_of_says hr htidy hds hown hm

/-- A name that nothing has to be supplied for, and one that is declared twice. -/
def sampleDeclarations : List Registry.Declaration :=
  [("id", { mutability := .text "IMMUTABLE_AFTER_INIT" }), ("count", { factory := some (.counter 0) }),
    ("id", { default := .text "nobody" }), ("label", { default := .text "none" })]

theorem sampleDeclarations_usual : AreUsual sampleDeclarations := by
  constructor
  · decide
  · intro d hd v
    simp only [sampleDeclarations, List.mem_cons, List.not_mem_nil, or_false] at hd
    rcases hd with rfl | rfl | rfl | rfl <;> nofun

theorem sample_entity_is_provided :
    ∃ e n, create (({ entityName := "Sample" } : Registry).build (Registry.declarations sampleDeclarations))
        (.record [("id", .text "a"), ("label", .undefined)]) stillness = .ok e n ∧
      e.state.phase = .ready ∧ e.state.values.read "id" = .text "a" ∧ e.state.values.read "count" = .number 1 ∧
        e.state.values.read "label" = .text "none" := by
  obtain ⟨-, -, hcreate⟩ := create_of_declarations sampleDeclarations_usual "Sample" none
  have h := hcreate [("id", .text "a"), ("label", .undefined)] stillness (by decide)
    ⟨fun _ hl => stillness_accepts hl, stillness_dated⟩
  rw [show (Registry.declaredNames sampleDeclarations).findSome? _ = none from rfl] at h
  obtain ⟨e, n, k, he, hp, hf⟩ := h
  rw [show Registry.declaredNames sampleDeclarations = ["id", "count", "label"] by decide] at hf
  obtain _ | ⟨hfirst, _ | ⟨hsecond, _ | ⟨hthird, -⟩⟩⟩ := hf
  obtain ⟨hid, rfl⟩ := hfirst.unique (.supplied (by decide))
  obtain ⟨hcount, rfl⟩ := hsecond.unique (.default (by rfl) (by rfl) (by rfl))
  obtain ⟨hlabel, -⟩ := hthird.unique (.default (by rfl) (by rfl) (by rfl))
  exact ⟨e, n, he, hp, hid, hcount, hlabel⟩

/-- A name that every record answers has a default that nobody declared. -/
theorem inherited_default_is_found :
    ¬ ∀ (ds : List Registry.Declaration) (field : String) (m : Ambient), Registry.default? ds field = none →
      (({ entityName := "Sample" } : Registry).build (Registry.declarations ds)).resolveDefault field m = .ok none m := by
  intro hall
  have h := hall [("toString", {})] "toString" stillness (by rfl)
  cases h

end Declarations

end Entity

end GovernedConfig
