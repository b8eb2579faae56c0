import GovernedConfig.Entity.Basic
import GovernedConfig.Proofs.Frame

/-! # Writes and updates of an entity

What a checked write and a governed update do, when they answer and when they throw.
-/

namespace GovernedConfig

def Scene.written (s : Scene Values) (field : String) (v : Value) : Scene Values :=
  { s with entity := { s.entity with values := s.entity.values.write field v } }

def Scene.restored (s : Scene Values) (values : Values) : Scene Values :=
  { s with entity := { s.entity with values } }

namespace Entity

open Act

section Requests

variable {R : Scene Values → Scene Values → Prop} [Scene.Trail R] (r : Registry)

theorem get_keeps (field : String) : (get r field).Keeps R :=
  Scene.values_keeps.bind fun _ => keeps_ofExcept _

theorem evaluate_keeps : ∀ source : Source, (evaluate r source).Keeps R
  | .value _ => keeps_pure _
  | .constant _ _ => keeps_get.bind fun _ => keeps_pure _
  | .held field => get_keeps r field
  | .extended field last => (get_keeps r field).bind fun _ => (keeps_suitable _).bind fun _ =>
      (evaluate_keeps last).bind fun _ => keeps_pure _

theorem pushOntoCopy_keeps (field : String) (source : Source) : (pushOntoCopy r field source).Keeps R :=
  (get_keeps r field).bind fun _ => (evaluate_keeps r source).bind fun _ =>
    (keeps_suitable _).bind fun _ => keeps_pure _

theorem store_eq_ok_iff {field : String} {v : Value} {s t : Scene Values} {u : Unit} :
    store field v s = .ok u t ↔ v.isCopyable = true ∧ t = s.written field v := by
  unfold store
  cases v.isCopyable with
  | false => simp
  | true => simp [bind_apply, Scene.written, eq_comm]

theorem store_of_error {field : String} {v : Value} {s t : Scene Values} {thrown : Thrown}
    (h : store field v s = .error thrown t) : t = s := by
  unfold store at h
  split at h
  · cases h; rfl
  · simp [bind_apply] at h

/-- A write is a check, which leaves traces only where it refuses, and a change of the values. -/
theorem write_eq_ok_iff {field : String} {v : Value} {origin : Origin} {s t : Scene Values} {u : Unit} :
    write r field v origin s = .ok u t ↔
      r.Allows (s.entity.values.read field) field origin ∧ v.isCopyable = true ∧ t = s.written field v := by
  unfold write
  rw [bind_of_ok (Scene.values_eq s)]
  simp only [bind_eq_ok_iff, Scene.around_eq_ok_iff, Registry.assertWritable_eq_ok_iff, store_eq_ok_iff]
  constructor
  · rintro ⟨_, _, ⟨_, ⟨ha, rfl⟩, rfl⟩, hc, rfl⟩
    exact ⟨ha, hc, rfl⟩
  · rintro ⟨ha, hc, rfl⟩
    exact ⟨(), s, ⟨_, ⟨ha, rfl⟩, rfl⟩, hc, rfl⟩

theorem write_of_error {field : String} {v : Value} {origin : Origin} {s t : Scene Values} {thrown : Thrown}
    (h : write r field v origin s = .error thrown t) :
    ∃ m, s.ambient.GrowsTo m ∧ t = { s with ambient := m } := by
  unfold write at h
  rw [bind_of_ok (Scene.values_eq s), bind_eq_error_iff] at h
  rcases h with h | ⟨_, u, hu, h⟩
  · obtain ⟨m, hm, rfl⟩ := Scene.around_eq_error_iff.mp h
    exact ⟨m, (r.assertWritable_grows _ _ _ _).of_error hm, rfl⟩
  · obtain ⟨m, hm, rfl⟩ := Scene.around_eq_ok_iff.mp hu
    exact ⟨m, (r.assertWritable_grows _ _ _ _).of_ok hm, store_of_error h⟩

theorem write_keeps {field : String} {v : Value} {origin : Origin}
    (hw : ∀ s, r.Allows (s.entity.values.read field) field origin → v.isCopyable = true → R s (s.written field v)) :
    (write r field v origin).Keeps R := by
  refine .intro (fun s _ t h => ?_) (fun s thrown t h => ?_)
  · obtain ⟨ha, hc, rfl⟩ := (write_eq_ok_iff r).mp h
    exact hw s ha hc
  · obtain ⟨m, hm, rfl⟩ := write_of_error r h
    exact Scene.Trail.around s m hm

end Requests

section Updates

variable {r : Registry} {scope : Scope Values} {field : String} {v : Value} {s t : Scene Values}

theorem update_eq_ok_iff {report : Report} :
    update r scope field v s = .ok report t ↔
      s.entity.phase.acceptsUpdates = true ∧ r.Allows (s.entity.values.read field) field .caller ∧
        v.isCopyable = true ∧ Lifecycle.dispatchUpdate r scope field (s.written field v) = .ok report t := by
  have hn : ∀ thrown u report w, (do
      Scene.putValues s.entity.values.copied
      Scene.around (Journal.warn "entity_update_rolled_back"
        "Update rejected by hook; previous state restored"
        [("entity", .text r.entityName), ("instance", .text (label r s.entity.values.copied)),
          ("field", .text field)])
      throw thrown : Act (Scene Values) Report) u ≠ .ok report w := by
    intro thrown u report w h
    simp [bind_eq_ok_iff] at h
  unfold update
  simp only [bind_eq_ok_iff, Lifecycle.requireReady_eq_ok_iff, Scene.around_eq_ok_iff,
    Registry.assertWritable_eq_ok_iff, store_eq_ok_iff]
  constructor
  · rintro ⟨_, _, ⟨hp, rfl⟩, values, _, hv, _, _, ⟨_, ⟨ha, rfl⟩, rfl⟩, _, _, ⟨hc, rfl⟩, h⟩
    cases hv
    exact ⟨hp, ha, hc, (tryCatch_eq_ok_iff hn).mp h⟩
  · rintro ⟨hp, ha, hc, h⟩
    exact ⟨(), s, ⟨hp, rfl⟩, _, _, rfl, (), _, ⟨_, ⟨ha, rfl⟩, rfl⟩, (), _, ⟨hc, rfl⟩,
      (tryCatch_eq_ok_iff hn).mpr h⟩

theorem update_of_refused {thrown : Thrown} {m : Ambient} (hp : s.entity.phase.acceptsUpdates = true)
    (h : r.assertWritable (s.entity.values.read field) field v .caller s.ambient = .error thrown m) :
    update r scope field v s = .error thrown { s with ambient := m } := by
  unfold update
  rw [bind_of_ok ((Lifecycle.requireReady_eq_ok_iff (u := ())).mpr ⟨hp, rfl⟩), bind_of_ok (Scene.values_eq s)]
  exact bind_of_error (Scene.around_eq_error_iff.mpr ⟨m, h, rfl⟩) _

theorem around_assertWritable (ha : r.Allows (s.entity.values.read field) field .caller) :
    Scene.around (r.assertWritable (s.entity.values.read field) field v .caller) s = .ok () s :=
  Scene.around_eq_ok_iff.mpr ⟨_, (Registry.assertWritable_eq_ok_iff r).mpr ⟨ha, rfl⟩, rfl⟩

theorem update_of_uncopyable (hp : s.entity.phase.acceptsUpdates = true)
    (ha : r.Allows (s.entity.values.read field) field .caller) (hc : v.isCopyable = false) :
    update r scope field v s = .error (.fault .uncopyable) s := by
  unfold update
  rw [bind_of_ok ((Lifecycle.requireReady_eq_ok_iff (u := ())).mpr ⟨hp, rfl⟩), bind_of_ok (Scene.values_eq s),
    bind_of_ok (around_assertWritable ha)]
  refine bind_of_error ?_ _
  simp [store, hc]

/-- If the dispatch throws, a copy of the values is put back and the journal is told of it, and then what the dispatch
threw is passed on. -/
theorem update_of_rejected {cause : Thrown} {u : Scene Values} (hp : s.entity.phase.acceptsUpdates = true)
    (ha : r.Allows (s.entity.values.read field) field .caller) (hc : v.isCopyable = true)
    (hd : Lifecycle.dispatchUpdate r scope field (s.written field v) = .error cause u) :
    update r scope field v s =
      match Journal.warn "entity_update_rolled_back" "Update rejected by hook; previous state restored"
          [("entity", .text r.entityName), ("instance", .text (label r s.entity.values.copied)),
            ("field", .text field)] u.ambient with
      | .ok _ m => .error cause { u.restored s.entity.values.copied with ambient := m }
      | .error thrown m => .error thrown { u.restored s.entity.values.copied with ambient := m } := by
  unfold update
  rw [bind_of_ok ((Lifecycle.requireReady_eq_ok_iff (u := ())).mpr ⟨hp, rfl⟩), bind_of_ok (Scene.values_eq s),
    bind_of_ok (around_assertWritable ha), bind_of_ok ((store_eq_ok_iff (u := ())).mpr ⟨hc, rfl⟩), tryCatch_apply, hd]
  dsimp only
  rw [bind_of_ok (Scene.putValues_eq _ u), ← Scene.restored]
  generalize hback : u.restored s.entity.values.copied = back
  have hm : back.ambient = u.ambient := by rw [← hback, Scene.restored]
  rw [← hm]
  cases hj : Journal.warn "entity_update_rolled_back" "Update rejected by hook; previous state restored"
      [("entity", .text r.entityName), ("instance", .text (label r s.entity.values.copied)), ("field", .text field)]
      back.ambient with
  | ok _ m => exact bind_of_ok (Scene.around_eq_ok_iff.mpr ⟨m, hj, rfl⟩) _
  | error thrown m => exact bind_of_error (Scene.around_eq_error_iff.mpr ⟨m, hj, rfl⟩) _

/-- An update throws before it has written anything, or it puts a copy of the values back after its
dispatch has thrown. -/
theorem update_of_error {thrown : Thrown} (h : update r scope field v s = .error thrown t) :
    (∃ m, s.ambient.GrowsTo m ∧ t = { s with ambient := m }) ∨
      ∃ cause u m, r.Allows (s.entity.values.read field) field .caller ∧ v.isCopyable = true ∧
        Lifecycle.dispatchUpdate r scope field (s.written field v) = .error cause u ∧ u.ambient.GrowsTo m ∧
        t = { u.restored s.entity.values.copied with ambient := m } ∧
          (u.ambient.IsSilent → thrown = cause) := by
  cases hp : s.entity.phase.acceptsUpdates with
  | false =>
    rcases bind_eq_error_iff.mp h with h | ⟨_, u, hu, -⟩
    · rw [Lifecycle.requireReady_of_error h]
      exact .inl ⟨_, Std.Refl.refl _, rfl⟩
    · simp [Lifecycle.requireReady_eq_ok_iff, hp] at hu
  | true =>
    cases hw : r.assertWritable (s.entity.values.read field) field v .caller s.ambient with
    | error refusal m =>
      rw [update_of_refused hp hw] at h
      cases h
      exact .inl ⟨m, (r.assertWritable_grows _ _ _ _).of_error hw, rfl⟩
    | ok _ m =>
      obtain ⟨ha, -⟩ := (Registry.assertWritable_eq_ok_iff r).mp hw
      by_cases hc : v.isCopyable = true
      · cases hd : Lifecycle.dispatchUpdate r scope field (s.written field v) with
        | ok report u => cases (update_eq_ok_iff.mpr ⟨hp, ha, hc, hd⟩).symm.trans h
        | error cause u =>
          have hupdate := update_of_rejected hp ha hc hd
          rw [h] at hupdate
          split at hupdate
          · rename_i m hm
            cases hupdate
            exact .inr ⟨_, u, m, ha, hc, rfl, (Journal.write_grows _ _ _ _).of_ok hm, rfl, fun _ => rfl⟩
          · rename_i failure m hm
            cases hupdate
            refine .inr ⟨_, u, m, ha, hc, rfl, (Journal.write_grows _ _ _ _).of_error hm, rfl, fun hs => ?_⟩
            rw [Journal.warn, Journal.write_of_silent (by decide) hs] at hm
            cases hm
      · rw [update_of_uncopyable hp ha (by simpa using hc)] at h
        cases h
        exact .inl ⟨_, Std.Refl.refl _, rfl⟩

theorem update_of_dispatch_error {thrown : Thrown} {u : Scene Values}
    (hp : s.entity.phase.acceptsUpdates = true) (ha : r.Allows (s.entity.values.read field) field .caller)
    (hc : v.isCopyable = true)
    (hd : Lifecycle.dispatchUpdate r scope field (s.written field v) = .error thrown u)
    (hs : u.ambient.IsSilent) :
    update r scope field v s = .error thrown (u.restored s.entity.values.copied) := by
  rw [update_of_rejected hp ha hc hd, Journal.warn, Journal.write_of_silent (by decide) hs]
  rfl

theorem update_keeps {R : Scene Values → Scene Values → Prop} [Scene.Trail R] (hs : scope.Keeps R)
    (hw : ∀ s, r.Allows (s.entity.values.read field) field .caller → v.isCopyable = true → R s (s.written field v))
    (hb : ∀ s u, R s u → R s (u.restored s.entity.values.copied)) : (update r scope field v).Keeps R := by
  refine .intro (fun s report t h => ?_) (fun s thrown t h => ?_)
  · obtain ⟨-, ha, hc, hd⟩ := update_eq_ok_iff.mp h
    exact IsTrans.trans _ _ _ (hw s ha hc) ((Lifecycle.dispatchUpdate_keeps r hs field).of_ok hd)
  · rcases update_of_error h with ⟨m, hm, rfl⟩ | ⟨cause, u, m, ha, hc, hd, hm, rfl, -⟩
    · exact Scene.Trail.around s m hm
    · have hu : R s u := IsTrans.trans _ _ _ (hw s ha hc)
        ((Lifecycle.dispatchUpdate_keeps r hs field).of_error hd)
      exact IsTrans.trans _ _ _ (hb s u hu) (Scene.Trail.around (u.restored _) m hm)

theorem update_grows (r : Registry) (hs : scope.Keeps Scene.GrowsTo) (field : String) (v : Value) :
    (update r scope field v).Keeps Scene.GrowsTo :=
  update_keeps hs (fun s _ _ => Std.Refl.refl s.ambient) fun _ _ h => h

end Updates

section Scopes

/-- A relation that writes which are let through, copies put back and visits to other entities keep. -/
structure Tolerates (r : Registry) (R : Scene Values → Scene Values → Prop) : Prop where
  written : ∀ s field v origin, r.Allows (s.entity.values.read field) field origin → v.isCopyable = true →
    R s (s.written field v)
  restored : ∀ s u, R s u → R s (u.restored s.entity.values.copied)
  visited : ∀ s t, t.entity = s.entity → s.ambient.Steady t.ambient → R s t

section Assigning

variable {R : Scene Values → Scene Values → Prop} [Scene.Trail R] {r : Registry}

theorem assign_keeps
    (hw : ∀ s field v, r.Allows (s.entity.values.read field) field .hook → v.isCopyable = true →
      R s (s.written field v)) (field : String) (source : Source) :
    (do write r field (← evaluate r source) .hook : Act (Scene Values) Unit).Keeps R :=
  (evaluate_keeps r source).bind fun v => write_keeps r fun s ha hc => hw s field v ha hc

theorem scope_set_keeps {depth : Nat} {field : String} {v : Value}
    (hv : ∀ s t, t.entity = s.entity → s.ambient.GrowsTo t.ambient → R s t)
    (hs : ∀ r, (scope depth r).Keeps Scene.GrowsTo) (hu : (update r (scope depth r) field v).Keeps R) :
    ((scope (depth + 1) r).set field v).Keeps R := by
  refine keeps_get.bind fun scene => ?_
  split
  · rename_i e _
    exact (update_grows e.registry (hs e.registry) field v).within fun s u h => hv _ _ rfl h
  · split
    · exact hu
    · exact keeps_fail _

end Assigning

/-- To whatever depth hooks may write entities anew, the surroundings keep but traces of it, and the journal loses
nothing. -/
theorem scope_grows : ∀ (depth : Nat) (r : Registry), (scope depth r).Keeps Scene.GrowsTo
  | 0, r => ⟨get_keeps r, assign_keeps fun s _ _ _ _ => Std.Refl.refl s.ambient, pushOntoCopy_keeps r,
      fun _ _ => keeps_fail _⟩
  | depth + 1, r => ⟨get_keeps r, assign_keeps fun s _ _ _ _ => Std.Refl.refl s.ambient, pushOntoCopy_keeps r,
      fun field v => scope_set_keeps (fun _ _ _ h => h) (scope_grows depth)
        (update_grows r (scope_grows depth r) field v)⟩

section Tolerance

variable {R : Scene Values → Scene Values → Prop} [Scene.Frame R] {r : Registry}

theorem tolerates_steady (r : Registry) : Tolerates r Scene.Steady :=
  ⟨fun s _ _ _ _ _ => Std.Refl.refl s.ambient, fun _ _ h => h, fun _ _ _ h => h⟩

theorem update_keeps_of_tolerates (hR : Tolerates r R) {scope : Scope Values} (hs : scope.Keeps R) (field : String)
    (v : Value) : (update r scope field v).Keeps R :=
  update_keeps hs (fun s ha hc => hR.written s field v _ ha hc) fun s u h => hR.restored s u h

theorem scope_keeps (hR : Tolerates r R) (depth : Nat) : (scope depth r).Keeps R := by
  have hassign := assign_keeps (r := r) fun s field v => hR.written s field v .hook
  induction depth with
  | zero => exact ⟨get_keeps r, hassign, pushOntoCopy_keeps r, fun _ _ => keeps_fail _⟩
  | succ depth ih =>
    exact ⟨get_keeps r, hassign, pushOntoCopy_keeps r, fun field v =>
      scope_set_keeps (fun s t he hm => hR.visited s t he hm.toSteady) (scope_grows depth)
        (update_keeps_of_tolerates hR ih field v)⟩

theorem scope_steady (depth : Nat) (r : Registry) : (scope depth r).Keeps Scene.Steady :=
  scope_keeps (tolerates_steady r) depth

theorem set_keeps (hR : Tolerates r R) (depth : Nat) (field : String) (v : Value) :
    (set r depth field v).Keeps R :=
  update_keeps_of_tolerates hR (scope_keeps hR depth) field v

end Tolerance

end Scopes

end Entity

end GovernedConfig
