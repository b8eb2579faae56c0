import GovernedConfig.Proofs.Entity.Construction

/-! # Rejected updates

An update that is rejected, by whatever check and however deep inside the updates that its hooks
make themselves, leaves the entity as it was.
-/

namespace GovernedConfig

/-- Values whose base answers what every plain record answers. -/
def Values.IsPlain (vs : Values) : Prop := vs.base = .record []

namespace Values

theorem IsPlain.copied_eq {vs : Values} (h : vs.IsPlain) : vs.copied = vs := by
  obtain ⟨own, base⟩ := vs
  rw [copied, show base = .record [] from h]

theorem isPlain_copied (vs : Values) : vs.copied.IsPlain := rfl

theorem IsPlain.write {vs : Values} (h : vs.IsPlain) {field : String} (hf : field ≠ "__proto__") (v : Value) :
    (vs.write field v).IsPlain := by
  unfold Values.write
  rw [if_pos (vs.isPlainName_of_ne hf)]
  exact h

end Values

/-- No field has a name that every record answers anyway. -/
def Registry.HasOrdinaryNames (r : Registry) : Prop := ∀ spec ∈ r.fields, spec.name ∉ Value.reserved

theorem Registry.HasOrdinaryNames.ne_base {r : Registry} (hr : r.HasOrdinaryNames) {field : String}
    (h : r.isDeclared field = true) : field ≠ "__proto__" := by
  rintro rfl
  obtain ⟨spec, hs, hn⟩ := List.any_eq_true.mp h
  exact hr spec hs (by rw [show spec.name = "__proto__" by simpa using hn]; decide)

/-- Between two moments an entity kept its phase and its history. -/
def Scene.Calm (s t : Scene Values) : Prop :=
  t.entity.phase = s.entity.phase ∧ t.entity.history = s.entity.history

instance : Scene.Frame Scene.Calm where
  refl _ := ⟨rfl, rfl⟩
  trans _ _ _ h g := ⟨g.1.trans h.1, g.2.trans h.2⟩
  around _ _ _ := ⟨rfl, rfl⟩

def Scene.Grounded (s t : Scene Values) : Prop := s.entity.values.IsPlain → t.entity.values.IsPlain

instance : Scene.Frame Scene.Grounded where
  refl _ h := h
  trans _ _ _ h g hs := g (h hs)
  around _ _ _ h := h

namespace Entity

open Act

theorem tolerates_calm (r : Registry) : Tolerates r Scene.Calm :=
  ⟨fun _ _ _ _ _ _ => ⟨rfl, rfl⟩, fun _ _ h => h, fun _ _ h _ => by rw [Scene.Calm, h]; exact ⟨rfl, rfl⟩⟩

theorem tolerates_grounded {r : Registry} (hr : r.HasOrdinaryNames) : Tolerates r Scene.Grounded :=
  ⟨fun _ _ v _ ha _ h => h.write (hr.ne_base ha.declared) v, fun s _ _ _ => s.entity.values.isPlain_copied,
    fun _ _ he _ h => by rw [he]; exact h⟩

/-- The entities that construction and updates lead to, whatever goes on around them. -/
inductive Reachable : Entity → Prop
  | created {r : Registry} {init : Value} {m : Ambient × Option Entity} {e : Entity}
      {n : Ambient × Option Entity} : createBeside r init m = .ok e n → Reachable e
  | updated {e : Entity} (depth : Nat) (field : String) (v : Value) (m : Ambient) (current : Option Entity) :
      Reachable e →
        Reachable { e with state := ((set e.registry depth field v).after ⟨m, e.state, current⟩).entity }

theorem Reachable.phase {e : Entity} (h : Reachable e) : e.state.phase = .ready := by
  induction h with
  | created h =>
    obtain ⟨t, ht, rfl, -⟩ := construct_of_createBeside h
    exact phase_of_construct ht
  | @updated e depth field v m current _ ih =>
    exact (set_keeps (tolerates_calm e.registry) depth field v ⟨m, e.state, current⟩).1.trans ih

theorem Reachable.isPlain {e : Entity} (h : Reachable e) (hr : e.registry.HasOrdinaryNames) :
    e.state.values.IsPlain := by
  induction h with
  | @created r init m e n h =>
    obtain ⟨t, ht, rfl, -⟩ := construct_of_createBeside h
    exact (construct_keeps (tolerates_grounded (r := r) hr) (fun _ _ _ h => h) nesting init).of_ok ht rfl
  | @updated e depth field v m current _ ih =>
    exact set_keeps (tolerates_grounded hr) depth field v ⟨m, e.state, current⟩ (ih hr)

theorem entity_of_set_error {r : Registry} {depth : Nat} {field : String} {v : Value} {s t : Scene Values}
    {thrown : Thrown} (hs : s.entity.values.IsPlain) (h : set r depth field v s = .error thrown t) :
    t.entity = s.entity := by
  rcases update_of_error h with ⟨m, -, rfl⟩ | ⟨cause, u, m, -, -, hu, -, rfl, -⟩
  · rfl
  · have hc : Scene.Calm (s.written field v) u :=
      (Lifecycle.dispatchUpdate_keeps r (scope_keeps (tolerates_calm r) depth) field).of_error hu
    obtain ⟨m, ⟨values, phase, history⟩, current⟩ := s
    simp only [Scene.restored, hs.copied_eq]
    rw [show u.entity.phase = phase from hc.1, show u.entity.history = history from hc.2]

end Entity

/-- What is thrown can be told as a fault: it is one, or it reads as a text. -/
def Thrown.IsReadable (thrown : Thrown) : Prop := ∃ cause, thrown.toFault = .ok cause

theorem Thrown.toFault_of_not_isReadable {thrown : Thrown} (h : ¬ thrown.IsReadable) :
    thrown.toFault = .error .badType := by
  cases thrown with
  | fault cause => exact (h ⟨cause, rfl⟩).elim
  | value v =>
    cases hv : v.toText? with
    | none => rw [toFault, hv]
    | some s => exact (h ⟨.plain s, by rw [toFault, hv]⟩).elim

namespace Entity

open Act

theorem safeSet_of_ok {r : Registry} {depth : Nat} {field : String} {v : Value} {s t : Scene Values}
    {report : Report} (h : set r depth field v s = .ok report t) :
    safeSet r depth field v s = .ok (.ok report) t := by
  rw [safeSet, tryCatch_apply, bind_of_ok h]
  rfl

theorem safeSet_of_error {r : Registry} {depth : Nat} {field : String} {v : Value} {s t : Scene Values}
    {thrown : Thrown} (h : set r depth field v s = .error thrown t) :
    safeSet r depth field v s = match thrown.toFault with
      | .ok cause => .ok (.error cause) t
      | .error cause => .error (.fault cause) t := by
  unfold safeSet
  rw [tryCatch_apply, bind_of_error h]
  dsimp only
  cases thrown.toFault <;> rfl

/-- An update that throws, for whatever reason, leaves no trace in the entity: values, phase and history
are those before it, also where updates that its hooks made themselves had succeeded. The same update
made safely leaves the same state and answers with the failure exactly where what was thrown can be told
as a fault. With a silent logger, what a hook throws is what the update throws. -/
theorem rejected_update_leaves_no_trace {e : Entity} (he : Reachable e) (hr : e.registry.HasOrdinaryNames)
    (depth : Nat) (field : String) (v : Value) (m : Ambient) (current : Option Entity) :
    (∀ thrown t, set e.registry depth field v ⟨m, e.state, current⟩ = .error thrown t →
      t.entity = e.state ∧
        (thrown.IsReadable ↔
          ∃ cause, safeSet e.registry depth field v ⟨m, e.state, current⟩ = .ok (.error cause) t) ∧
        (¬ thrown.IsReadable →
          safeSet e.registry depth field v ⟨m, e.state, current⟩ = .error (.fault .badType) t)) ∧
    (m.IsSilent → e.registry.Allows (e.state.values.read field) field .caller → v.isCopyable = true →
      ∀ hooks thrown, e.registry.hooksFor field .postUpdate = .ok hooks →
        Lifecycle.Rejects e.registry (scope depth e.registry) field .postUpdate hooks
          (Scene.written ⟨m, e.state, current⟩ field v) thrown →
        ∃ t, set e.registry depth field v ⟨m, e.state, current⟩ = .error thrown t) := by
  constructor
  · intro thrown t h
    have hsafe := safeSet_of_error h
    refine ⟨entity_of_set_error (he.isPlain hr) h, ⟨?_, ?_⟩, fun hn => ?_⟩
    · rintro ⟨cause, hf⟩
      exact ⟨cause, by rw [hsafe, hf]⟩
    · rintro ⟨cause, hs⟩
      cases hf : thrown.toFault with
      | ok cause => exact ⟨cause, hf⟩
      | error cause =>
        rw [hsafe, hf] at hs
        cases hs
    · rw [hsafe, Thrown.toFault_of_not_isReadable hn]
  · intro hm ha hc hooks thrown hh hrej
    have hp : e.state.phase.acceptsUpdates = true := by rw [he.phase]; rfl
    obtain ⟨u, hu⟩ := Lifecycle.dispatchUpdate_of_rejects (scope_steady depth e.registry) hp hh hrej hm
    have hs : Scene.Steady (Scene.written ⟨m, e.state, current⟩ field v) u :=
      (Lifecycle.dispatchUpdate_keeps e.registry (scope_steady depth e.registry) field).of_error hu
    exact ⟨_, update_of_dispatch_error hp ha hc hu (hs.isSilent hm)⟩

def watchedPair (h : Hook) : Registry where
  entityName := "Pair"
  fields := [⟨"left", .mutable, some (.value (.number 0)), [h]⟩, ⟨"right", .mutable, some (.value (.number 0)), []⟩]

theorem watchedPair_ordinary (h : Hook) : (watchedPair h).HasOrdinaryNames := by
  intro spec hs
  simp only [watchedPair, List.mem_cons, List.not_mem_nil, or_false] at hs
  rcases hs with rfl | rfl
  · exact (by decide : "left" ∉ Value.reserved)
  · exact (by decide : "right" ∉ Value.reserved)

/-- Assigns to the other field, writes it anew, and then throws. -/
def lateRefusal (thrown : Thrown) : Hook where
  key := 0
  id := "late-refusal"
  kind := .update
  triggers := [.postUpdate]
  condition := .done true
  action := do
    Program.write "right" (.number 7)
    let _ ← Program.update "right" (.number 8)
    .raise thrown

def stillness : Ambient := { clock := 0, threshold := .text Level.silent.name }

theorem stillness_dated : (Calendar.stamp? stillness.clock).isSome = true := by decide +kernel

theorem stillness_accepts {level : Level} (hl : level ≠ .silent) : Journal.Accepts level stillness :=
  ⟨some .silent, rfl, .inl (by cases level <;> first | rfl | exact absurd rfl hl)⟩

def refuses (thrown : Thrown) : Bool :=
  match createBeside (watchedPair (lateRefusal thrown)) (.record []) (stillness, none) with
  | .error _ _ => false
  | .ok e _ =>
    match set e.registry 2 "left" (.number 5) ⟨stillness, e.state, none⟩ with
    | .ok _ _ => false
    | .error cause _ => cause = thrown

theorem exists_of_refuses {thrown : Thrown} (h : refuses thrown = true) :
    ∃ e t, Reachable e ∧ e.registry.HasOrdinaryNames ∧
      set e.registry 2 "left" (.number 5) ⟨stillness, e.state, none⟩ = .error thrown t := by
  unfold refuses at h
  split at h
  · cases h
  · rename_i e n he
    split at h
    · cases h
    · rename_i cause t ht
      obtain ⟨u, -, hu, -⟩ := construct_of_createBeside he
      exact ⟨e, t, .created he, by rw [hu]; exact watchedPair_ordinary _, by rw [ht, of_decide_eq_true h]⟩

/-- The other field was assigned and written anew before the refusal, and both are taken back. -/
theorem rejected_nested_update_leaves_no_trace :
    ∃ e t, Reachable e ∧ e.registry.HasOrdinaryNames ∧
      set e.registry 2 "left" (.number 5) ⟨stillness, e.state, none⟩ =
        .error (.fault (.plain "too late")) t ∧ t.entity = e.state := by
  obtain ⟨e, t, he, hr, h⟩ := exists_of_refuses (by decide +kernel : refuses (.fault (.plain "too late")) = true)
  exact ⟨e, t, he, hr, h,
    ((rejected_update_leaves_no_trace he hr 2 "left" (.number 5) stillness none).1 _ t h).1⟩

/-- A record that holds `toString` itself reads as no text, so the failure of an update that a hook
rejects by throwing it is thrown by the safe update as well. -/
theorem safeSet_not_always_answers :
    ¬ ∀ (e : Entity) (depth : Nat) (field : String) (v : Value) (m : Ambient) (current : Option Entity)
      (thrown : Thrown) (t : Scene Values), Reachable e → e.registry.HasOrdinaryNames →
        set e.registry depth field v ⟨m, e.state, current⟩ = .error thrown t →
        ∃ cause, safeSet e.registry depth field v ⟨m, e.state, current⟩ = .ok (.error cause) t := by
  intro hall
  obtain ⟨e, t, he, hr, h⟩ :=
    exists_of_refuses (by decide +kernel : refuses (.value (.record [("toString", .number 1)])) = true)
  obtain ⟨cause, hs⟩ := hall e 2 "left" (.number 5) stillness none _ t he hr h
  rw [safeSet_of_error h] at hs
  cases hs

end Entity

end GovernedConfig
