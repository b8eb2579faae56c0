import GovernedConfig.Proofs.Entity.Course
import GovernedConfig.Proofs.Entity.Programs

/-! # Write-once fields

A write-once field that holds something goes on holding it, whoever writes and however an update ends. Until it
holds something it takes any write.
-/

namespace GovernedConfig

theorem Values.read_empty {field : String} (h : field ∉ Value.reserved) : ({} : Values).read field = .undefined := by
  have hbase : field ≠ "__proto__" := fun hb => h (by rw [hb]; decide)
  simp [Values.read, Values.inherited, Value.member?_record h, hbase]

namespace Registry

variable {r : Registry} {field : String}

/-- A field takes one present value. -/
def IsWriteOnce (r : Registry) (field : String) : Prop :=
  (r.find? field).map FieldSpec.mutability = some .immutableAfterInit

instance : Decidable (r.IsWriteOnce field) := inferInstanceAs (Decidable (_ = _))

theorem isDeclared_of_find {spec : FieldSpec} (h : r.find? field = some spec) : r.isDeclared field = true :=
  List.any_eq_true.mpr ⟨spec, List.mem_of_find?_eq_some h,
    List.find?_some (p := fun spec : FieldSpec => spec.name == field) h⟩

namespace IsWriteOnce

theorem declared (h : r.IsWriteOnce field) : r.isDeclared field = true := by
  obtain ⟨spec, hs, -⟩ := Option.map_eq_some_iff.mp h
  exact isDeclared_of_find hs

theorem mutability_eq (h : r.IsWriteOnce field) : r.mutability field = .ok .immutableAfterInit := by
  obtain ⟨spec, hs, hm⟩ := Option.map_eq_some_iff.mp h
  have htrue : Mutability.immutableAfterInit.value.truthy = true := by decide
  simp [mutability, Registry.spec, hs, hm, htrue, bind, Except.bind, pure, Except.pure]

theorem allows_iff (h : r.IsWriteOnce field) {held : Value} {origin : Origin} :
    r.Allows held field origin ↔ held.isPresent = false := by
  have hw : r.canWrite held field origin = .ok (some !held.isPresent) := by
    rw [canWrite, h.mutability_eq]
    rfl
  constructor
  · intro ha
    simpa [hw] using ha.through
  · intro hp
    exact ⟨h.declared, by rw [hw, hp]; rfl⟩

end IsWriteOnce

/-- Values on a plain base, copies of which can be read in all declared fields. -/
def Legible (r : Registry) (vs : Values) : Prop :=
  vs.IsPlain ∧ ∀ field, r.isDeclared field = true → (vs.read field).isCopyable = true

end Registry

namespace Scene

def Legible (r : Registry) (s t : Scene Values) : Prop := r.Legible s.entity.values → r.Legible t.entity.values

instance (r : Registry) : Frame (Legible r) where
  refl _ h := h
  trans _ _ _ h g hs := g (h hs)
  around _ _ _ h := h

/-- Between two moments no write-once field that held something came to hold anything else. -/
def Fixed (r : Registry) (s t : Scene Values) : Prop :=
  s.entity.values.IsPlain → t.entity.values.IsPlain ∧ ∀ field, r.IsWriteOnce field →
    (s.entity.values.read field).isPresent = true → t.entity.values.read field = s.entity.values.read field

instance (r : Registry) : Frame (Fixed r) where
  refl _ hs := ⟨hs, fun _ _ _ => rfl⟩
  trans s t u h g hs := by
    obtain ⟨ht, hst⟩ := h hs
    obtain ⟨hu, htu⟩ := g ht
    refine ⟨hu, fun field hw hp => ?_⟩
    have hread := hst field hw hp
    exact (htu field hw (by rwa [hread])).trans hread
  around _ _ _ hs := ⟨hs, fun _ _ _ => rfl⟩

end Scene

namespace Entity

open Act

variable {r : Registry}

theorem tolerates_legible (hr : r.HasOrdinaryNames) : Tolerates r (Scene.Legible r) where
  written s field v origin ha hc hs := by
    have hne := hr.ne_base ha.declared
    refine ⟨hs.1.write hne v, fun other ho => ?_⟩
    by_cases hother : other = field
    · rw [hother, Scene.written, Values.read_write_self _ hne]
      exact hc
    · rw [Scene.written, Values.read_write_of_ne _ hne hother]
      exact hs.2 other ho
  restored s u _ hs := by rwa [Scene.restored, hs.1.copied_eq]
  visited s t he _ hs := by rwa [he]

theorem tolerates_fixed (hr : r.HasOrdinaryNames) : Tolerates r (Scene.Fixed r) where
  written s field v origin ha hc hs := by
    have hne := hr.ne_base ha.declared
    refine ⟨hs.write hne v, fun other hw hp => Values.read_write_of_ne _ hne ?_ v⟩
    rintro rfl
    rw [hw.allows_iff.mp ha] at hp
    cases hp
  restored s u _ hs := by
    rw [Scene.restored, hs.copied_eq]
    exact ⟨hs, fun _ _ _ => rfl⟩
  visited s t he _ hs := by
    rw [he]
    exact ⟨hs, fun _ _ _ => rfl⟩

theorem legible_empty (hr : r.HasOrdinaryNames) : r.Legible {} := by
  refine ⟨rfl, fun field hd => ?_⟩
  obtain ⟨spec, hs, hn⟩ := List.any_eq_true.mp hd
  have hordinary : field ∉ Value.reserved := by
    rw [← show spec.name = field by simpa using hn]
    exact hr spec hs
  rw [Values.read_empty hordinary]
  rfl

theorem Reachable.legible {e : Entity} (h : Reachable e) (hr : e.registry.HasOrdinaryNames) :
    e.registry.Legible e.state.values := by
  induction h with
  | @created r init m e n h =>
    obtain ⟨t, ht, rfl, -⟩ := construct_of_createBeside h
    exact (construct_keeps (tolerates_legible (r := r) hr) (fun _ _ _ h => h) nesting init).of_ok ht
      (legible_empty hr)
  | @updated e depth field v m current _ ih =>
    exact set_keeps (tolerates_legible hr) depth field v ⟨m, e.state, current⟩ (ih hr)

theorem Later.fixed {e e' : Entity} (h : Later e e') (he : Reachable e) (hr : e.registry.HasOrdinaryNames)
    {field : String} (hw : e.registry.IsWriteOnce field) (hp : (e.state.values.read field).isPresent = true) :
    e'.state.values.read field = e.state.values.read field := by
  refine h.keeps (P := fun e' => e'.state.values.read field = e.state.values.read field) rfl
    fun e' depth other v m current hlater ih => ?_
  have hreg := hlater.registry_eq
  have hfixed : Scene.Fixed e'.registry ⟨m, e'.state, current⟩ _ :=
    set_keeps (tolerates_fixed (hreg ▸ hr)) depth other v ⟨m, e'.state, current⟩
  obtain ⟨-, hread⟩ := hfixed ((he.later hlater).isPlain (hreg ▸ hr))
  exact (hread field (hreg ▸ hw) (by rwa [ih])).trans ih

theorem get_of_legible {field : String} {s : Scene Values} (hl : r.Legible s.entity.values)
    (hd : r.isDeclared field = true) (hp : (s.entity.values.read field).isPresent = true) :
    get r field s = .ok (s.entity.values.read field) s := by
  refine get_eq_ok_iff.mpr ⟨Entity.read_eq_ok_iff.mpr ⟨hd, rfl, ?_, hl.2 field hd⟩, rfl⟩
  intro hu
  rw [hu] at hp
  cases hp

def copiesOver : Hook where
  key := 0
  id := "copy-over"
  kind := .update
  triggers := [.postUpdate]
  condition := .done true
  action := do
    let v ← Program.read "left"
    Program.write "right" v
    pure .finished

/-- A mutable field that is copied into a write-once field, both empty at first. -/
def latch : Registry where
  entityName := "Latch"
  fields := [⟨"left", .mutable, some (.value .null), [copiesOver]⟩,
    ⟨"right", .immutableAfterInit, some (.value .null), []⟩]

theorem latch_ordinary : latch.sealed.HasOrdinaryNames := by
  unfold Registry.HasOrdinaryNames
  decide

def latched (v : Value) (e : Entity) : Entity :=
  { e with state := ((set e.registry 0 "left" v).after ⟨stillness, e.state, none⟩).entity }

def latches : Bool :=
  match createBeside latch (.record []) (stillness, none) with
  | .ok e _ => (latched (.number 1) e).state.values.read "right" = .number 1
  | .error _ _ => false

theorem later_latched (v : Value) (e : Entity) : Later e (latched v e) :=
  (Later.now e).set 0 "left" v stillness none

theorem exists_latched :
    ∃ e, Reachable e ∧ e.registry = latch.sealed ∧ e.state.values.read "right" = .number 1 := by
  have h : latches = true := by decide +kernel
  unfold latches at h
  split at h
  · rename_i e n he
    obtain ⟨t, -, rfl, -⟩ := construct_of_createBeside he
    exact ⟨_, (Reachable.created he).later (later_latched _ _), rfl, of_decide_eq_true h⟩
  · cases h

end Entity

end GovernedConfig
