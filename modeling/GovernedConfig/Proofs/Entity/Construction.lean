import GovernedConfig.Proofs.Dispatch
import GovernedConfig.Proofs.Entity.Update

/-! # Construction of an entity

What filling the fields and running the construction hooks do.
-/

namespace GovernedConfig

open Act

namespace Lifecycle

variable {ν : Type} {R : Scene ν → Scene ν → Prop} [Scene.Trail R] {scope : Scope ν} (r : Registry)

theorem runConstruction_keeps (hs : scope.Keeps R) (specs : List FieldSpec) (seen : List Nat)
    (reports : List Report) : (runConstruction r scope specs seen reports).Keeps R := by
  induction specs generalizing seen reports with
  | nil => exact keeps_pure _
  | cons spec specs ih =>
    unfold runConstruction
    dsimp only
    split
    · exact ih _ _
    · exact (runHooks_keeps r hs _ _ _).bind fun _ => ih _ _

theorem transition_keeps
    (ht : ∀ s phase history, R s { s with entity := { s.entity with phase, history } }) (target : Phase) :
    (transition r scope target).Keeps R :=
  keeps_get.bind fun _ => (Scene.around_keeps Ambient.stamp_grows).bind fun _ =>
    (keeps_modify fun s => ht s _ _).bind fun _ => (names_keeps r).bind fun _ =>
      Scene.around_keeps (Journal.write_grows _ _ _ _)

theorem completeConstruction_keeps (hs : scope.Keeps R)
    (ht : ∀ s phase history, R s { s with entity := { s.entity with phase, history } }) :
    (completeConstruction r scope).Keeps R := by
  refine keeps_get.bind fun s => ?_
  dsimp only
  split
  · exact keeps_fail _
  · exact (runConstruction_keeps r hs _ _ _).bind fun _ => (transition_keeps r ht _).bind fun _ =>
      keeps_pure _

variable {r}

theorem transition_eq_ok {target : Phase} {s t : Scene ν} (h : transition r scope target s = .ok () t) :
    ∃ stamp m n, Ambient.stamp s.ambient = .ok stamp m ∧
      t = { s with
        ambient := n
        entity := { s.entity with
          phase := target, history := s.entity.history ++ [⟨s.entity.phase, target, stamp⟩] } } ∧
      Journal.debug "lifecycle_transition" "Entity lifecycle state changed"
        [("entity", .text r.entityName), ("instance", .text (scope.label s.entity.values)),
          ("from", .text s.entity.phase.name), ("to", .text target.name)] m = .ok () n := by
  unfold transition at h
  rw [bind_of_ok (get_eq s)] at h
  obtain ⟨stamp, u, hu, h⟩ := bind_eq_ok_iff.mp h
  obtain ⟨m, hm, rfl⟩ := Scene.around_eq_ok_iff.mp hu
  rw [bind_of_ok (modify_eq _ _), bind_of_ok (names_eq r scope _)] at h
  obtain ⟨n, hn, rfl⟩ := Scene.around_eq_ok_iff.mp h
  exact ⟨stamp, m, n, hm, rfl, hn⟩

theorem completeConstruction_eq_ok {s t : Scene ν} {reports : List Report}
    (h : completeConstruction r scope s = .ok reports t) :
    s.entity.phase = .constructing ∧ ∃ u, runConstruction r scope r.fields [] [] s = .ok reports u ∧
      transition r scope .ready u = .ok () t := by
  unfold completeConstruction at h
  rw [bind_of_ok (get_eq s)] at h
  cases hp : s.entity.phase with
  | ready => simp [hp, Phase.canBecome, Phase.successors] at h
  | constructing =>
    simp only [hp, Phase.canBecome, Phase.successors, List.contains_cons, beq_self_eq_true, Bool.true_or,
      Bool.not_true, Bool.false_eq_true, if_false] at h
    obtain ⟨reports', u, hu, h⟩ := bind_eq_ok_iff.mp h
    obtain ⟨_, w, hw, h⟩ := bind_eq_ok_iff.mp h
    obtain ⟨rfl, rfl⟩ := pure_eq_ok_iff.mp h
    exact ⟨rfl, u, hu, hw⟩

theorem exists_stamp {s : Scene ν} (hd : (Calendar.stamp? s.ambient.clock).isSome = true) :
    ∃ stamp, Scene.around Ambient.stamp s = .ok stamp s := by
  obtain ⟨stamp, hs⟩ := Option.isSome_iff_exists.mp hd
  refine ⟨stamp, Scene.around_eq_ok_iff.mpr ⟨s.ambient, ?_, rfl⟩⟩
  rw [Ambient.stamp_eq, hs]

theorem transition_of_accepts (scope : Scope ν) (target : Phase) {s : Scene ν}
    (ha : Journal.Accepts .debug s.ambient) (hd : (Calendar.stamp? s.ambient.clock).isSome = true) :
    ∃ m history, s.ambient.Steady m ∧ transition r scope target s = .ok () { s with
      ambient := m, entity := { s.entity with phase := target, history } } := by
  obtain ⟨stamp, hstamp⟩ := exists_stamp hd
  obtain ⟨m, hm⟩ := Journal.write_of_accepts (.text "lifecycle_transition")
    (.text "Entity lifecycle state changed") (.record [("entity", .text r.entityName), ("instance", .text (scope.label s.entity.values)),
      ("from", .text s.entity.phase.name), ("to", .text target.name)]) ha hd rfl rfl rfl
  refine ⟨m, s.entity.history ++ [⟨s.entity.phase, target, stamp⟩], (Journal.write_keeps _ _ _ _).of_ok hm, ?_⟩
  unfold transition
  rw [bind_of_ok (get_eq s), bind_of_ok hstamp, bind_of_ok (modify_eq _ _), bind_of_ok (names_eq r scope _)]
  exact Scene.around_eq_ok_iff.mpr ⟨m, hm, rfl⟩

theorem completeConstruction_of_idle {s : Scene ν} (hp : s.entity.phase = .constructing)
    (hidle : ∀ p ∈ schedule r.fields [], runHook r scope p.1 .postInit p.2 s = .ok false s)
    (ha : Journal.Accepts .debug s.ambient) (hd : (Calendar.stamp? s.ambient.clock).isSome = true) :
    ∃ reports t, completeConstruction r scope s = .ok reports t ∧
      s.ambient.Steady t.ambient ∧ t.entity.values = s.entity.values := by
  obtain ⟨reports, hrun⟩ := runConstruction_of_idle hidle []
  obtain ⟨m, history, hm, ht⟩ := transition_of_accepts (r := r) scope .ready ha hd
  refine ⟨reports, { s with ambient := m, entity := { s.entity with phase := .ready, history } }, ?_, hm, rfl⟩
  unfold completeConstruction
  rw [bind_of_ok (get_eq s), hp, if_neg (by decide), bind_of_ok hrun, bind_of_ok ht]
  rfl

theorem phase_of_completeConstruction {s t : Scene ν} {reports : List Report}
    (h : completeConstruction r scope s = .ok reports t) : t.entity.phase = .ready := by
  obtain ⟨-, u, -, ht⟩ := completeConstruction_eq_ok h
  obtain ⟨stamp, m, n, -, rfl, -⟩ := transition_eq_ok ht
  rfl

end Lifecycle

namespace Entity

section Filling

variable {R : Scene Values → Scene Values → Prop} [Scene.Trail R] {r : Registry}

theorem fill_keeps_of_written
    (hw : ∀ s field v, r.Allows (s.entity.values.read field) field .construction → v.isCopyable = true →
      R s (s.written field v)) (init : Value) (specs : List FieldSpec) : (fill r init specs).Keeps R := by
  have hwrite : ∀ field v, (write r field v .construction).Keeps R := fun field v =>
    write_keeps r fun s ha hc => hw s field v ha hc
  induction specs with
  | nil => exact keeps_pure _
  | cons spec specs ih =>
    refine (keeps_suitable _).bind fun supplied => ?_
    dsimp only
    split
    · exact (hwrite _ _).bind fun _ => ih
    · refine (Scene.around_keeps (r.resolveDefault_grows _)).bind fun found => ?_
      cases found with
      | some v => exact (hwrite _ _).bind fun _ => ih
      | none => exact (keeps_fail _).bind fun _ => ih

theorem populate_keeps_of_written
    (hw : ∀ s field v, r.Allows (s.entity.values.read field) field .construction → v.isCopyable = true →
      R s (s.written field v)) (init : Value) : (populate r init).Keeps R :=
  (keeps_suitable _).bind fun _ => (keeps_ofExcept _).bind fun _ => fill_keeps_of_written hw init _

/-- What writes of fields, the requests of hooks and the move to another phase keep, construction keeps. -/
theorem construct_keeps_of_written
    (hw : ∀ s field v, r.Allows (s.entity.values.read field) field .construction → v.isCopyable = true →
      R s (s.written field v)) {depth : Nat} (hs : (scope depth r).Keeps R)
    (ht : ∀ s phase history, R s { s with entity := { s.entity with phase, history } }) (init : Value) :
    (construct r depth init).Keeps R := by
  refine Act.Keeps.bind (Act.Keeps.tryCatch ?_ fun thrown => ?_) fun _ => ?_
  · exact (populate_keeps_of_written hw init).bind fun _ =>
      (Lifecycle.completeConstruction_keeps r hs ht).bind fun _ => keeps_pure _
  · exact (keeps_ofExcept _).bind fun _ => Scene.values_keeps.bind fun _ =>
      (Scene.around_keeps (Journal.write_grows _ _ _ _)).bind fun _ => keeps_fail _
  · exact Scene.values_keeps.bind fun _ => Scene.around_keeps (Journal.write_grows _ _ _ _)

end Filling

variable {R : Scene Values → Scene Values → Prop} [Scene.Frame R] {r : Registry}

theorem fill_keeps (hR : Tolerates r R) (init : Value) (specs : List FieldSpec) : (fill r init specs).Keeps R :=
  fill_keeps_of_written (fun s field v => hR.written s field v .construction) init specs

theorem populate_keeps (hR : Tolerates r R) (init : Value) : (populate r init).Keeps R :=
  populate_keeps_of_written (fun s field v => hR.written s field v .construction) init

theorem construct_keeps (hR : Tolerates r R)
    (ht : ∀ s phase history, R s { s with entity := { s.entity with phase, history } })
    (depth : Nat) (init : Value) : (construct r depth init).Keeps R :=
  construct_keeps_of_written (fun s field v => hR.written s field v .construction) (scope_keeps hR depth) ht init

/-- Construction answers once the fields are filled and the construction hooks have passed; what it
does afterwards is told to the journal only. -/
theorem construct_eq_ok {depth : Nat} {init : Value} {s t : Scene Values}
    (h : construct r depth init s = .ok () t) :
    ∃ u w reports, populate r init s = .ok () u ∧
      Lifecycle.completeConstruction r (scope depth r) u = .ok reports w ∧
        ∃ m, t = { w with ambient := m } ∧ Journal.info "entity_constructed" "Entity ready"
          (journalNames r w.entity.values) w.ambient = .ok () m := by
  obtain ⟨_, w, hw, h⟩ := bind_eq_ok_iff.mp h
  rw [tryCatch_eq_ok_iff (by simp [bind_eq_ok_iff])] at hw
  obtain ⟨_, u, hu, hw⟩ := bind_eq_ok_iff.mp hw
  obtain ⟨reports, _, hr, hw⟩ := bind_eq_ok_iff.mp hw
  obtain ⟨-, rfl⟩ := pure_eq_ok_iff.mp hw
  rw [bind_of_ok (Scene.values_eq _)] at h
  obtain ⟨m, hm, rfl⟩ := Scene.around_eq_ok_iff.mp h
  exact ⟨u, _, reports, hu, hr, m, rfl, hm⟩

/-- What a field is filled with: what is supplied for it, or else its default. -/
def Supplies (r : Registry) (init : Value) (field : String) (v : Value) : Prop :=
  ∃ supplied, init.member? field = some supplied ∧
    if supplied = .undefined then ∃ m n, r.resolveDefault field m = .ok (some v) n else v = supplied

theorem fill_cons_eq_ok {init : Value} {spec : FieldSpec} {specs : List FieldSpec} {s t : Scene Values}
    (h : fill r init (spec :: specs) s = .ok () t) :
    ∃ v m, Supplies r init spec.name v ∧ v.isCopyable = true ∧ s.ambient.Steady m ∧
      fill r init specs { s.written spec.name v with ambient := m } = .ok () t := by
  unfold fill at h
  obtain ⟨supplied, _, hk, h⟩ := bind_eq_ok_iff.mp h
  obtain ⟨hs, rfl⟩ := suitable_eq_ok_iff.mp hk
  dsimp only at h
  split at h
  · rename_i hu
    obtain ⟨_, _, hw, h⟩ := bind_eq_ok_iff.mp h
    obtain ⟨-, hc, rfl⟩ := (write_eq_ok_iff r).mp hw
    exact ⟨supplied, s.ambient, ⟨supplied, hs, by rw [if_neg hu]⟩, hc, Std.Refl.refl _, h⟩
  · rename_i hu
    obtain ⟨found, _, hf, h⟩ := bind_eq_ok_iff.mp h
    obtain ⟨m, hm, rfl⟩ := Scene.around_eq_ok_iff.mp hf
    cases found with
    | none => simp [bind_eq_ok_iff] at h
    | some v =>
      obtain ⟨_, _, hw, h⟩ := bind_eq_ok_iff.mp h
      obtain ⟨-, hc, rfl⟩ := (write_eq_ok_iff r).mp hw
      exact ⟨v, m, ⟨supplied, hs, by rw [if_pos (by simpa using hu)]; exact ⟨_, _, hm⟩⟩, hc,
        ((r.resolveDefault_grows _).of_ok hm).toSteady, h⟩

/-- Filling gives every field what is supplied for it or its default, and leaves other names alone. -/
theorem fill_eq_ok {init : Value} {specs : List FieldSpec} {s t : Scene Values}
    (hn : (specs.map FieldSpec.name).Nodup) (hb : "__proto__" ∉ specs.map FieldSpec.name)
    (h : fill r init specs s = .ok () t) :
    (∀ field ∈ specs.map FieldSpec.name, Supplies r init field (t.entity.values.read field) ∧
        (t.entity.values.read field).isCopyable = true) ∧
      ∀ field ∉ specs.map FieldSpec.name, t.entity.values.read field = s.entity.values.read field := by
  induction specs generalizing s with
  | nil =>
    obtain ⟨-, rfl⟩ := pure_eq_ok_iff.mp h
    exact ⟨by simp, fun _ _ => rfl⟩
  | cons spec specs ih =>
    simp only [List.map_cons, List.nodup_cons, List.mem_cons, not_or] at hn hb
    have hne : spec.name ≠ "__proto__" := fun he => hb.1 he.symm
    obtain ⟨v, m, hv, hc, -, h⟩ := fill_cons_eq_ok h
    obtain ⟨hin, hout⟩ := ih hn.2 hb.2 h
    have hself : t.entity.values.read spec.name = v := by
      rw [hout _ hn.1]
      exact Values.read_write_self _ hne v
    constructor
    · intro field hf
      rcases List.mem_cons.mp hf with rfl | hf
      · rw [hself]
        exact ⟨hv, hc⟩
      · exact hin field hf
    · intro field hf
      rw [List.map_cons, List.mem_cons, not_or] at hf
      rw [hout _ hf.2]
      exact Values.read_write_of_ne _ hne hf.1 v

section Supplied

theorem checkNames_of_declared {names : List String} (h : ∀ name ∈ names, r.isDeclared name = true) :
    checkNames r names = .ok () := by
  induction names with
  | nil => rfl
  | cons name names ih =>
    rw [checkNames, if_pos (h name (List.mem_cons_self ..))]
    exact ih fun other ho => h other (List.mem_cons_of_mem name ho)

theorem fill_of_supplied {init : Value} {specs : List FieldSpec} {s : Scene Values}
    (hn : (specs.map FieldSpec.name).Nodup) (hb : "__proto__" ∉ specs.map FieldSpec.name)
    (hw : ∀ spec ∈ specs, r.Allows (s.entity.values.read spec.name) spec.name .construction)
    (hs : ∀ spec ∈ specs, ∃ v, init.member? spec.name = some v ∧ v ≠ .undefined ∧ v.isCopyable = true) :
    ∃ vs, fill r init specs s = .ok () { s with entity := { s.entity with values := vs } } := by
  induction specs generalizing s with
  | nil => exact ⟨s.entity.values, rfl⟩
  | cons spec specs ih =>
    simp only [List.map_cons, List.nodup_cons, List.mem_cons, not_or] at hn hb
    have hne : spec.name ≠ "__proto__" := fun he => hb.1 he.symm
    obtain ⟨v, hv, hu, hc⟩ := hs spec (List.mem_cons_self ..)
    have hwrite : write r spec.name v .construction s = .ok () (s.written spec.name v) :=
      (write_eq_ok_iff r).mpr ⟨hw spec (List.mem_cons_self ..), hc, rfl⟩
    have hrest : ∀ other ∈ specs,
        r.Allows ((s.written spec.name v).entity.values.read other.name) other.name .construction := by
      intro other ho
      have hother : other.name ≠ spec.name := by
        intro he
        exact hn.1 (he ▸ List.mem_map_of_mem ho)
      rw [Scene.written, Values.read_write_of_ne _ hne hother]
      exact hw other (List.mem_cons_of_mem spec ho)
    obtain ⟨vs, hvs⟩ := ih (s := s.written spec.name v) hn.2 hb.2 hrest fun other ho =>
      hs other (List.mem_cons_of_mem spec ho)
    refine ⟨vs, ?_⟩
    unfold fill
    rw [bind_of_ok (suitable_eq_ok_iff.mpr ⟨hv, rfl⟩)]
    dsimp only
    rw [if_pos hu, bind_of_ok hwrite]
    exact hvs

theorem construct_of_idle (depth : Nat) {init : Value} {s u : Scene Values} (hp : populate r init s = .ok () u)
    (hphase : u.entity.phase = .constructing)
    (hidle : ∀ p ∈ Lifecycle.schedule r.fields [],
      Lifecycle.runHook r (scope depth r) p.1 .postInit p.2 u = .ok false u)
    (hdebug : Journal.Accepts .debug u.ambient) (hinfo : Journal.Accepts .info u.ambient)
    (hd : (Calendar.stamp? u.ambient.clock).isSome = true) :
    ∃ t, construct r depth init s = .ok () t ∧ t.entity.values = u.entity.values := by
  obtain ⟨reports, w, hw, hm, hwv⟩ := Lifecycle.completeConstruction_of_idle hphase hidle hdebug hd
  obtain ⟨n, hn⟩ := Journal.write_of_accepts (.text "entity_constructed") (.text "Entity ready")
    (.record (journalNames r w.entity.values)) (hinfo.of_steady hm) (by rwa [hm.clock]) rfl rfl rfl
  refine ⟨{ w with ambient := n }, ?_, hwv⟩
  have hbody : ∀ handle : Thrown → Act (Scene Values) Unit, (tryCatch (do
      populate r init
      let _ ← Lifecycle.completeConstruction r (scope depth r)) handle) s = .ok () w := by
    intro handle
    rw [tryCatch_apply, bind_of_ok hp, bind_of_ok hw]
    rfl
  apply (bind_of_ok (hbody _) _).trans
  rw [bind_of_ok (Scene.values_eq _)]
  exact Scene.around_eq_ok_iff.mpr ⟨n, hn, rfl⟩

theorem values_of_construct {depth : Nat} {init : Value} {s t u : Scene Values}
    (hc : construct r depth init s = .ok () t) (hp : populate r init s = .ok () u)
    (hidle : ∀ p ∈ Lifecycle.schedule r.fields [],
      Lifecycle.runHook r (scope depth r) p.1 .postInit p.2 u = .ok false u) :
    t.entity.values = u.entity.values := by
  obtain ⟨u', w, reports, hu, hw, m, rfl, -⟩ := construct_eq_ok hc
  rw [hp] at hu
  cases hu
  obtain ⟨-, x, hx, ht⟩ := Lifecycle.completeConstruction_eq_ok hw
  obtain ⟨reports', hidles⟩ := Lifecycle.runConstruction_of_idle hidle []
  rw [hidles] at hx
  cases hx
  obtain ⟨stamp, k, n, -, rfl, -⟩ := Lifecycle.transition_eq_ok ht
  rfl

end Supplied

section Acceptance

/-- What was constructed has written its entries, so the journal takes further ones. -/
theorem accepts_of_construct {depth : Nat} {init : Value} {s t : Scene Values}
    (h : construct r depth init s = .ok () t) :
    Journal.Accepts .debug t.ambient ∧ Journal.Accepts .info t.ambient := by
  obtain ⟨u, w, reports, -, hw, m, rfl, hinfo⟩ := construct_eq_ok h
  obtain ⟨-, v, -, ht⟩ := Lifecycle.completeConstruction_eq_ok hw
  obtain ⟨stamp, k, n, -, rfl, hdebug⟩ := Lifecycle.transition_eq_ok ht
  refine ⟨(Journal.accepts_of_write hdebug).of_steady ?_, Journal.accepts_of_write hinfo⟩
  exact (Journal.write_keeps _ _ _ _).of_ok hinfo

end Acceptance

theorem phase_of_construct {depth : Nat} {init : Value} {s t : Scene Values}
    (h : construct r depth init s = .ok () t) : t.entity.phase = .ready := by
  obtain ⟨u, w, reports, -, hw, m, rfl, -⟩ := construct_eq_ok h
  exact (Lifecycle.phase_of_completeConstruction hw :)

theorem construct_of_createBeside {init : Value} {m n : Ambient × Option Entity} {e : Entity}
    (h : createBeside r init m = .ok e n) :
    ∃ t, construct r nesting init { ambient := m.1, entity := { values := {} }, current := m.2 } = .ok () t ∧
      e = ⟨r.sealed, t.entity⟩ ∧ n = (t.ambient, t.current) := by
  obtain ⟨m, current⟩ := m
  unfold createBeside at h
  cases ht : construct r nesting init { ambient := m, entity := { values := {} }, current } with
  | ok u t =>
    simp only [ht] at h
    cases h
    exact ⟨t, rfl, rfl, rfl⟩
  | error thrown t => simp [ht] at h

theorem construct_error_of_createBeside {init : Value} {m n : Ambient × Option Entity} {thrown : Thrown}
    (h : createBeside r init m = .error thrown n) :
    ∃ t, construct r nesting init { ambient := m.1, entity := { values := {} }, current := m.2 } = .error thrown t ∧
      n = (t.ambient, t.current) := by
  obtain ⟨m, current⟩ := m
  unfold createBeside at h
  cases ht : construct r nesting init { ambient := m, entity := { values := {} }, current } with
  | ok u t => simp [ht] at h
  | error cause t =>
    simp only [ht] at h
    cases h
    exact ⟨t, rfl, rfl⟩

theorem create_of_construct {init : Value} {m : Ambient} {t : Scene Values}
    (h : construct r nesting init { ambient := m, entity := { values := {} } } = .ok () t) :
    create r init m = .ok ⟨r.sealed, t.entity⟩ t.ambient := by
  refine within_eq_ok_iff.mpr ⟨(t.ambient, t.current), ?_, rfl⟩
  unfold createBeside
  dsimp only
  rw [h]

theorem construct_of_create {init : Value} {m n : Ambient} {e : Entity} (h : create r init m = .ok e n) :
    ∃ t, construct r nesting init { ambient := m, entity := { values := {} } } = .ok () t ∧
      e = ⟨r.sealed, t.entity⟩ ∧ n = t.ambient := by
  obtain ⟨u, hu, rfl⟩ := within_eq_ok_iff.mp h
  obtain ⟨t, ht, he, rfl⟩ := construct_of_createBeside hu
  exact ⟨t, ht, he, rfl⟩

theorem create_keeps (r : Registry) (init : Value) : (create r init).Keeps Ambient.Steady := by
  have hbeside : (createBeside r init).Keeps fun m n => m.1.Steady n.1 := by
    intro (m, current)
    have hconstruct := construct_keeps (tolerates_steady r) (fun s _ _ => Std.Refl.refl s.ambient) nesting init
      { ambient := m, entity := { values := {} }, current }
    unfold Act.after at hconstruct ⊢
    unfold createBeside
    dsimp only
    cases hc : construct r nesting init { ambient := m, entity := { values := {} }, current } with
    | ok _ s =>
      rw [hc] at hconstruct
      exact hconstruct
    | error thrown s =>
      rw [hc] at hconstruct
      exact hconstruct
  exact hbeside.within fun _ _ h => h

end Entity

end GovernedConfig
