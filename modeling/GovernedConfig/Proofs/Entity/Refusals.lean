import GovernedConfig.Proofs.Entity.Sessions
import GovernedConfig.Proofs.Entity.WriteOnce
import GovernedConfig.Proofs.Warnings

/-! # What is told of failures

While the journal lets warnings through, an update that throws has told it a warning before, and a construction that
throws has told it an error. There are refusals, though, of which nothing is told, and a construction that a condition
breaks off with a value that has no text fails before it tells anything.
-/

namespace GovernedConfig

open Act

def Thrown.IsFault (thrown : Thrown) : Prop := ∃ cause, thrown = .fault cause

theorem Thrown.eq_of_toFault_error {thrown : Thrown} {cause : Fault} (h : thrown.toFault = .error cause) :
    ∃ w, thrown = .value w ∧ w.toText? = none ∧ cause = .badType := by
  cases thrown with
  | fault cause => cases h
  | value w =>
    cases hw : w.toText? with
    | some text => simp [toFault, hw] at h
    | none =>
      simp only [toFault, hw, Except.error.injEq] at h
      exact ⟨w, rfl, hw, h.symm⟩

namespace Registry

variable {r : Registry} {current v : Value} {field : String} {origin : Origin} {m n : Ambient} {thrown : Thrown}

/-- What a caller's write fails with, though nothing is told of it. -/
inductive Unheard (r : Registry) (current : Value) (field : String) (v : Value) : Fault → Prop
  /-- The registry does not know how the field may be written. -/
  | unknown : (∀ mutability, r.mutability field ≠ .ok mutability) → Unheard r current field v (r.unknown field)
  /-- The warning about the refusal cannot be printed. -/
  | unprintable {answer : Option Bool} : r.canWrite (some current) field .caller = .ok answer → answer ≠ some true →
      r.mutability field ≠ .ok .derived → Json.holdsBigint current = true ∨ Json.holdsBigint v = true →
        Unheard r current field v .badType
  /-- The write is let through, but its value cannot be stored. -/
  | uncopyable : r.Allows current field .caller → v.isCopyable = false → Unheard r current field v .uncopyable

/-- Of values that can be printed and copied, only the fields decide. -/
theorem exists_unheard_iff (hcurrent : Json.holdsBigint current = false) (hv : Json.holdsBigint v = false)
    (hc : v.isCopyable = true) :
    (∃ cause, r.Unheard current field v cause) ↔ ∀ mutability, r.mutability field ≠ .ok mutability := by
  constructor
  · rintro ⟨-, hunknown | ⟨-, -, -, hu⟩ | ⟨-, hn⟩⟩
    · exact hunknown
    · simp [hcurrent, hv] at hu
    · rw [hc] at hn
      cases hn
  · exact fun hunknown => ⟨_, .unknown hunknown⟩

theorem isDeclared_of_mutability {mutability : Mutability} (h : r.mutability field = .ok mutability) :
    r.isDeclared field = true := by
  unfold Registry.mutability Registry.spec at h
  cases hf : r.find? field with
  | none => simp [hf, bind, Except.bind] at h
  | some spec => exact isDeclared_of_find hf

theorem mutability_error {cause : Fault} (h : r.mutability field = .error cause) : cause = r.unknown field := by
  unfold Registry.mutability Registry.spec at h
  cases hf : r.find? field with
  | none =>
    rw [hf] at h
    cases h
    rfl
  | some spec =>
    simp only [hf, bind, Except.bind] at h
    split at h
    · cases h
    · cases h
      rfl

theorem exists_canWrite {mutability : Mutability} (current : Value) (origin : Origin)
    (h : r.mutability field = .ok mutability) :
    ∃ answer, r.canWrite (some current) field origin = .ok answer := by
  simp only [canWrite, h, bind, Except.bind]
  cases mutability <;> exact ⟨_, rfl⟩

section Checks

theorem assertWritable_of_unknown (h : ∀ mutability, r.mutability field ≠ .ok mutability) :
    r.assertWritable (some current) field v origin m = .error (.fault (r.unknown field)) m := by
  unfold assertWritable
  cases hd : r.isDeclared field with
  | false => rfl
  | true =>
    cases hmutability : r.mutability field with
    | ok mutability => exact absurd hmutability (h mutability)
    | error cause =>
      have hasked : r.canWrite (some current) field origin = .error cause := by
        simp [canWrite, hmutability, bind, Except.bind]
      rw [hasked, mutability_error hmutability]
      rfl

/-- A refusal that cannot be printed gives way to the failure of the warning about it. -/
theorem assertWritable_of_unprintable {answer : Option Bool} (hm : m.Warns)
    (ha : r.canWrite (some current) field origin = .ok answer) (hn : answer ≠ some true)
    (ht : r.mutability field ≠ .ok .derived) (hu : Json.holdsBigint current = true ∨ Json.holdsBigint v = true) :
    ∃ n, r.assertWritable (some current) field v origin m = .error (.fault .badType) n ∧ n.lines = m.lines := by
  obtain ⟨mutability, hmutability⟩ := mutability_of_canWrite ha
  obtain ⟨n, hw, hlines⟩ := hm.fails "immutable_field_violation" "Rejected write to immutable field"
    (.record [("entity", .text r.entityName), ("field", .text field), ("current", current), ("attempted", v)])
    (by simpa [holdsBigint_refusal] using hu)
  exact ⟨n, (assertWritable_of_refused (isDeclared_of_mutability hmutability) ha hn ht).trans (bind_of_error hw _),
    hlines⟩

/-- A check that refuses a caller's write has told the journal a warning, or else the refusal is unheard. -/
theorem alarmed_of_assertWritable_error (hm : m.Warns)
    (h : r.assertWritable (some current) field v .caller m = .error thrown n) :
    m.Alarmed n ∨ ∃ cause, r.Unheard current field v cause := by
  by_cases hknown : ∃ mutability, r.mutability field = .ok mutability
  · obtain ⟨mutability, hmutability⟩ := hknown
    have hd := isDeclared_of_mutability hmutability
    obtain ⟨answer, ha⟩ := exists_canWrite current .caller hmutability
    by_cases hn : answer = some true
    · have hok : r.assertWritable (some current) field v .caller m = .ok () m :=
        (assertWritable_eq_ok_iff r).mpr ⟨⟨hd, hn ▸ ha⟩, rfl⟩
      cases h.symm.trans hok
    -- The refusal follows on a warning, and the scene between the two is the one in which the check leaves off.
    have halarms : ∀ {phase message : String} {data : Record Value} {cause : Fault},
        Json.holdsBigint (.record data) = false →
        r.assertWritable (some current) field v .caller m =
          (Journal.warn phase message data >>= fun _ => Act.fail cause) m → m.Alarmed n := by
      intro phase message data cause hdata hcheck
      obtain ⟨k, hw, halarmed⟩ := hm.alarms (.inl rfl) phase message _ hdata
      rw [hcheck, Journal.warn, bind_of_ok hw] at h
      cases h
      exact halarmed
    by_cases ht : r.mutability field = .ok .derived
    · exact .inl (halarms rfl (assertWritable_of_derived hd ha hn ht))
    · by_cases hu : Json.holdsBigint current = true ∨ Json.holdsBigint v = true
      · exact .inr ⟨_, .unprintable ha hn ht hu⟩
      · refine .inl (halarms ?_ (assertWritable_of_refused hd ha hn ht))
        simpa [holdsBigint_refusal] using hu
  · exact .inr ⟨_, .unknown fun mutability hmutability => hknown ⟨mutability, hmutability⟩⟩

theorem assertWritable_throws (r : Registry) (current : Option Value) (field : String) (attempted : Value)
    (origin : Origin) : (r.assertWritable current field attempted origin).Throws Thrown.IsFault := by
  have hjournal : ∀ phase message data, (Journal.warn phase message data).Throws Thrown.IsFault :=
    fun phase message data => (Journal.write_throws _ _ _ _).mono fun h => by cases h <;> exact ⟨_, rfl⟩
  unfold assertWritable
  split
  · exact throws_fail ⟨_, rfl⟩
  · refine (throws_ofExcept fun _ _ => ⟨_, rfl⟩).bind fun answer => ?_
    split
    · exact throws_pure _
    · refine (throws_suitable ⟨_, rfl⟩ _).bind fun _ => (throws_ofExcept fun _ _ => ⟨_, rfl⟩).bind fun mutability => ?_
      split
      · exact (hjournal _ _ _).bind fun _ => throws_fail ⟨_, rfl⟩
      · exact (hjournal _ _ _).bind fun _ => throws_fail ⟨_, rfl⟩

end Checks

theorem resolveDefault_throws (r : Registry) (field : String) : (r.resolveDefault field).Throws Thrown.IsFault := by
  unfold resolveDefault
  split
  · rename_i d _
    refine Throws.bind ?_ fun _ => throws_pure _
    cases d with
    | value _ => exact throws_pure _
    | copyOf _ => exact throws_pure _
    | seconds => exact throws_get.bind fun _ => throws_pure _
    | counter key =>
      exact (throws_get.bind fun _ => (throws_modify _).bind fun _ => throws_pure _ :
        (Ambient.draw key).Throws _).bind fun _ => throws_pure _
  · unfold undeclaredDefault
    split
    · exact throws_fail ⟨_, rfl⟩
    · split_ifs <;> first | exact throws_pure _ | exact throws_fail ⟨_, rfl⟩

end Registry

namespace Lifecycle

variable {ν : Type} {r : Registry} {scope : Scope ν} {field : String} {trigger : Trigger} {s t u : Scene ν}
  {thrown : Thrown} {agenda : List (String × Hook)}

/-- The condition of one of the hooks throws, after those before it have passed. -/
def BreaksOff (r : Registry) (scope : Scope ν) (trigger : Trigger) (agenda : List (String × Hook)) (s : Scene ν)
    (thrown : Thrown) : Prop :=
  ∃ former b later u t, agenda = former ++ b :: later ∧ Passes r scope trigger former s u ∧
    b.2.condition.run scope false u = .error thrown t

theorem BreaksOff.append (h : BreaksOff r scope trigger agenda s thrown) (more : List (String × Hook)) :
    BreaksOff r scope trigger (agenda ++ more) s thrown := by
  obtain ⟨former, b, later, u, t, rfl, hp, hb⟩ := h
  exact ⟨former, b, later ++ more, u, t, by simp, hp, hb⟩

theorem BreaksOff.of_passes {former : List (String × Hook)} (hp : Passes r scope trigger former s u)
    (h : BreaksOff r scope trigger agenda u thrown) : BreaksOff r scope trigger (former ++ agenda) s thrown := by
  obtain ⟨passed, b, later, w, t, rfl, hpassed, hb⟩ := h
  exact ⟨former ++ passed, b, later, w, t, by simp, hp.append hpassed, hb⟩

theorem alarmed_of_runHook_error (hs : scope.Keeps Scene.GrowsTo) (hm : s.ambient.Warns) {h : Hook}
    (he : runHook r scope field trigger h s = .error thrown t) :
    (∃ u, h.condition.run scope false s = .error thrown u) ∨ s.ambient.Alarmed t.ambient := by
  rcases bind_eq_error_iff.mp he with hc | ⟨holds, u, hu, he⟩
  · exact .inl ⟨t, hc⟩
  have hsu : s.ambient.GrowsTo u.ambient := (hs.hook h).condition.of_ok hu
  cases holds with
  | false => cases he
  | true =>
    rcases bind_eq_error_iff.mp he with he | ⟨_, _, -, he⟩
    · obtain ⟨cause, w, hw, he⟩ := tryCatch_eq_error_iff.mp he
      have hsw : s.ambient.GrowsTo w.ambient := IsTrans.trans _ _ _ hsu ((invoke_keeps (hs.hook h)).of_error hw)
      rw [bind_of_ok (names_eq r scope w)] at he
      obtain ⟨n, (hn : Journal.error _ _ _ _ = _), halarmed⟩ := (hm.of_grows hsw).alarms (.inr rfl) "hook_failed" "Hook rejected entity state"
        (.record ([("entity", .text r.entityName), ("instance", .text (scope.label w.entity.values))] ++
          [("field", .text field), ("trigger", .text trigger.name), ("hookId", .text h.id),
            ("error", .text cause.summary)])) rfl
      rw [bind_of_ok (Scene.around_eq_ok_iff.mpr ⟨n, hn, rfl⟩)] at he
      cases he
      exact .inr (hsw.alarmed halarmed)
    · cases he

theorem alarmed_of_runEach_error (hs : scope.Keeps Scene.GrowsTo) (hm : s.ambient.Warns) {hooks : List Hook}
    {report : Report} (he : runEach r scope field trigger hooks report s = .error thrown t) :
    BreaksOff r scope trigger (hooks.map (field, ·)) s thrown ∨ s.ambient.Alarmed t.ambient := by
  -- Along the hooks the journal only grows, so what a later hook tells was told since the first one.
  induction hooks generalizing s report with
  | nil => cases he
  | cons h hooks ih =>
    rcases bind_eq_error_iff.mp he with he | ⟨acted, u, hu, he⟩
    · refine (alarmed_of_runHook_error hs hm he).imp_left fun ⟨u, hc⟩ => ?_
      exact ⟨[], (field, h), hooks.map (field, ·), s, u, rfl, ⟨_, Std.Refl.refl _, rfl⟩, hc⟩
    · have hsu : s.ambient.GrowsTo u.ambient := (runHook_keeps r (hs.hook h) field trigger).of_ok hu
      have hpassed : Passes r scope trigger [(field, h)] s u :=
        ⟨_, acted, u, Std.Refl.refl _, hu, _, Std.Refl.refl _, rfl⟩
      exact (ih (hm.of_grows hsu) he).imp (.of_passes hpassed) hsu.alarmed

theorem alarmed_of_runHooks_error (hs : scope.Keeps Scene.GrowsTo) (hm : s.ambient.Warns) {hooks : List Hook}
    (he : runHooks r scope field trigger hooks s = .error thrown t) :
    BreaksOff r scope trigger (hooks.map (field, ·)) s thrown ∨ s.ambient.Alarmed t.ambient := by
  rcases bind_eq_error_iff.mp he with he | ⟨report, u, hu, he⟩
  · exact alarmed_of_runEach_error hs hm he
  · have hsu : s.ambient.GrowsTo u.ambient := (runEach_keeps r hs field trigger hooks _).of_ok hu
    split at he
    · -- What fired can be printed, so the journal does not fail.
      rw [bind_of_ok (names_eq r scope u)] at he
      obtain ⟨n, (hn : Journal.debug _ _ _ _ = _)⟩ := (hm.of_grows hsu).writes .debug "hooks_dispatched" "Entity hooks fired"
        (.record ([("entity", .text r.entityName), ("instance", .text (scope.label u.entity.values))] ++
          [("field", .text field), ("trigger", .text trigger.name), ("fired", .list (report.fired.map .text))]))
        (by simp [Json.holdsBigint, Json.entriesHoldBigint, anyBigint_texts])
      rw [bind_of_ok (Scene.around_eq_ok_iff.mpr ⟨n, hn, rfl⟩)] at he
      cases he
    · cases he

theorem alarmed_of_runConstruction_error (hs : scope.Keeps Scene.GrowsTo) (hm : s.ambient.Warns)
    {specs : List FieldSpec} {seen : List Nat} {reports : List Report}
    (he : runConstruction r scope specs seen reports s = .error thrown t) :
    BreaksOff r scope .postInit (schedule specs seen) s thrown ∨ s.ambient.Alarmed t.ambient := by
  induction specs generalizing s seen reports with
  | nil => cases he
  | cons spec specs ih =>
    unfold runConstruction at he
    unfold schedule
    dsimp only at he ⊢
    split at he
    · rename_i hn
      rw [List.isEmpty_iff.mp hn, List.map_nil, List.map_nil, List.nil_append, List.append_nil]
      exact ih hm he
    · rcases bind_eq_error_iff.mp he with he | ⟨report, u, hu, he⟩
      · exact (alarmed_of_runHooks_error hs hm he).imp_left (.append · _)
      · have hsu : s.ambient.GrowsTo u.ambient := (runHooks_keeps r hs _ _ _).of_ok hu
        exact (ih (hm.of_grows hsu) he).imp (.of_passes (passes_of_runHooks hu)) hsu.alarmed

theorem transition_throws (r : Registry) (scope : Scope ν) (target : Phase) :
    (transition r scope target).Throws Thrown.IsFault := by
  have hhinders : ∀ {thrown}, Journal.Hinders thrown → thrown.IsFault := fun h => by cases h <;> exact ⟨_, rfl⟩
  have hnames : (names r scope).Throws Thrown.IsFault := fun _ _ _ h => by cases h
  exact throws_get.bind fun _ => (Journal.stamp_throws.mono hhinders).within.bind fun _ =>
    (throws_modify _).bind fun _ => hnames.bind fun _ => ((Journal.write_throws _ _ _ _).mono hhinders).within

theorem alarmed_of_completeConstruction_error (hs : scope.Keeps Scene.GrowsTo) (hm : s.ambient.Warns) {w : Value}
    (he : completeConstruction r scope s = .error (.value w) t) :
    BreaksOff r scope .postInit (schedule r.fields []) s (.value w) ∨ s.ambient.Alarmed t.ambient := by
  unfold completeConstruction at he
  rw [bind_of_ok (get_eq s)] at he
  split at he
  · cases he
  · rcases bind_eq_error_iff.mp he with he | ⟨reports, u, -, he⟩
    · exact alarmed_of_runConstruction_error hs hm he
    · rcases bind_eq_error_iff.mp he with he | ⟨_, _, -, he⟩
      · obtain ⟨cause, hcause⟩ := transition_throws r scope .ready u _ t he
        cases hcause
      · cases he

end Lifecycle

namespace Entity

variable {r : Registry} {scope : Scope Values} {field : String} {v : Value} {s t : Scene Values} {thrown : Thrown}

section Updates

theorem alarmed_of_update_error (hs : scope.Keeps Scene.GrowsTo) (hm : s.ambient.Warns)
    (hp : s.entity.phase.acceptsUpdates = true) (h : update r scope field v s = .error thrown t) :
    s.ambient.Alarmed t.ambient ∨ ∃ cause, r.Unheard (s.entity.values.read field) field v cause := by
  cases hw : r.assertWritable (s.entity.values.read field) field v .caller s.ambient with
  | error refusal m =>
    rw [update_of_refused hp hw] at h
    cases h
    exact Registry.alarmed_of_assertWritable_error hm hw
  | ok _ m =>
    obtain ⟨ha, -⟩ := (Registry.assertWritable_eq_ok_iff r).mp hw
    cases hc : v.isCopyable with
    | false => exact .inr ⟨_, .uncopyable ha hc⟩
    | true =>
      cases hd : Lifecycle.dispatchUpdate r scope field (s.written field v) with
      | ok report u => cases (update_eq_ok_iff.mpr ⟨hp, ha, hc, hd⟩).symm.trans h
      | error cause u =>
        -- The dispatch was rejected: what was told before it is still there, and the warning comes after it.
        have hsu : s.ambient.GrowsTo u.ambient := (Lifecycle.dispatchUpdate_keeps r hs field).of_error (s := s.written field v) hd
        obtain ⟨n, hn, halarmed⟩ := (hm.of_grows hsu).alarms (.inl rfl) "entity_update_rolled_back"
          "Update rejected by hook; previous state restored" (.record [("entity", .text r.entityName),
            ("instance", .text (label r s.entity.values.copied)), ("field", .text field)]) rfl
        rw [update_of_rejected hp ha hc hd, Journal.warn, hn] at h
        cases h
        exact .inl (hsu.alarmed halarmed)

theorem update_of_unheard (hm : s.ambient.Warns) (hp : s.entity.phase.acceptsUpdates = true) {cause : Fault}
    (hu : r.Unheard (s.entity.values.read field) field v cause) :
    ∃ n, update r scope field v s = .error (.fault cause) { s with ambient := n } ∧ n.lines = s.ambient.lines := by
  cases hu with
  | unknown hunknown => exact ⟨_, update_of_refused hp (Registry.assertWritable_of_unknown hunknown), rfl⟩
  | unprintable ha hn ht hu =>
    obtain ⟨n, hw, hlines⟩ := Registry.assertWritable_of_unprintable hm ha hn ht hu
    exact ⟨n, update_of_refused hp hw, hlines⟩
  | uncopyable ha hc => exact ⟨_, update_of_uncopyable hp ha hc, rfl⟩

end Updates

section Constructions

variable {depth : Nat} {init : Value}

theorem write_throws (r : Registry) (field : String) (v : Value) (origin : Origin) :
    (write r field v origin).Throws Thrown.IsFault := by
  have hvalues : (Scene.values (ν := Values)).Throws Thrown.IsFault := fun _ _ _ h => by cases h
  refine hvalues.bind fun values => (r.assertWritable_throws _ _ _ _).within.bind fun _ => ?_
  unfold store
  split
  · exact throws_fail ⟨_, rfl⟩
  · exact hvalues.bind fun _ => throws_modify _

theorem fill_throws (r : Registry) (init : Value) (specs : List FieldSpec) :
    (fill r init specs).Throws Thrown.IsFault := by
  induction specs with
  | nil => exact throws_pure _
  | cons spec specs ih =>
    rw [fill_cons]
    refine Throws.bind ?_ fun found => Throws.bind ?_ fun _ => ih
    · refine (throws_suitable ⟨_, rfl⟩ _).bind fun supplied => ?_
      split
      · exact throws_pure _
      · exact (r.resolveDefault_throws _).within
    · cases found with
      | some v => exact write_throws r _ v _
      | none => exact throws_fail ⟨_, rfl⟩

theorem populate_throws (r : Registry) (init : Value) : (populate r init).Throws Thrown.IsFault :=
  (throws_suitable ⟨_, rfl⟩ _).bind fun _ => (throws_ofExcept fun _ _ => ⟨_, rfl⟩).bind fun _ => fill_throws r init _

/-- A construction is broken off: once the fields are filled, the condition of a hook throws a value without a text. -/
def BrokenOff (depth : Nat) (r : Registry) (init : Value) (s : Scene Values) : Prop :=
  ∃ u w, populate r init s = .ok () u ∧ w.toText? = none ∧
    Lifecycle.BreaksOff r (Entity.scope depth r) .postInit (Lifecycle.schedule r.fields []) u (.value w)

theorem building_grows (depth : Nat) (r : Registry) (init : Value) : (do
    populate r init
    let _ ← Lifecycle.completeConstruction r (Entity.scope depth r) : Act (Scene Values) Unit).Keeps Scene.GrowsTo := by
  have hrefl : ∀ s : Scene Values, s.ambient.GrowsTo s.ambient := fun s => Std.Refl.refl s.ambient
  exact (populate_keeps_of_written (fun s _ _ _ _ => hrefl s) init).bind fun _ =>
    (Lifecycle.completeConstruction_keeps r (scope_grows depth r) fun s _ _ => hrefl s).bind fun _ => keeps_pure ()

theorem alarmed_of_building_error (hm : s.ambient.Warns) {w : Value} (hw : w.toText? = none) (h : (do
      populate r init
      let _ ← Lifecycle.completeConstruction r (Entity.scope depth r) : Act (Scene Values) Unit) s = .error (.value w) t) :
    s.ambient.Alarmed t.ambient ∨ BrokenOff depth r init s := by
  rcases bind_eq_error_iff.mp h with h | ⟨_, u, hu, h⟩
  · obtain ⟨cause, hcause⟩ := populate_throws r init s _ t h
    cases hcause
  · have hsu : Scene.GrowsTo s u :=
      (populate_keeps_of_written (fun s _ _ _ _ => Std.Refl.refl s.ambient) init).of_ok hu
    rcases bind_eq_error_iff.mp h with h | ⟨_, _, -, h⟩
    · rcases Lifecycle.alarmed_of_completeConstruction_error (scope_grows depth r) (hm.of_grows hsu) h with hb | halarmed
      · exact .inr ⟨u, w, hu, hw, hb⟩
      · exact .inl (hsu.alarmed halarmed)
    · cases h

theorem alarmed_of_construct_error (hm : s.ambient.Warns) (h : construct r depth init s = .error thrown t) :
    s.ambient.Alarmed t.ambient ∨ thrown = .fault .badType ∧ BrokenOff depth r init s := by
  rcases bind_eq_error_iff.mp h with h | ⟨_, u, hu, h⟩
  · obtain ⟨cause, u, hbuilding, h⟩ := tryCatch_eq_error_iff.mp h
    have hsu : Scene.GrowsTo s u := (building_grows depth r init).of_error hbuilding
    cases hf : cause.toFault with
    | ok fault =>
      rw [hf, bind_of_ok (ofExcept_eq_ok_iff.mpr ⟨rfl, rfl⟩), bind_of_ok (Scene.values_eq u)] at h
      obtain ⟨n, (hn : Journal.error _ _ _ _ = _), halarmed⟩ := (hm.of_grows hsu).alarms (.inr rfl)
        "entity_construction_failed" "Entity construction rejected" (.record (journalNames r u.entity.values ++
          [("error", .text fault.message)])) rfl
      rw [bind_of_ok (Scene.around_eq_ok_iff.mpr ⟨n, hn, rfl⟩)] at h
      cases h
      exact .inl (hsu.alarmed halarmed)
    | error fault =>
      -- What was thrown has no text, so that the handler itself fails before it tells anything.
      obtain ⟨w, rfl, hw, rfl⟩ := Thrown.eq_of_toFault_error hf
      rw [hf] at h
      cases h
      exact (alarmed_of_building_error hm hw hbuilding).imp_right fun hb => ⟨rfl, hb⟩
  · -- The entity is there; that it is can be printed, so the journal does not fail.
    have hsu : Scene.GrowsTo s u := by
      rw [tryCatch_eq_ok_iff (by simp [bind_eq_ok_iff])] at hu
      exact (building_grows depth r init).of_ok hu
    rw [bind_of_ok (Scene.values_eq u)] at h
    obtain ⟨m, hfailed, -⟩ := Scene.around_eq_error_iff.mp h
    obtain ⟨n, hn⟩ := (hm.of_grows hsu).writes .info "entity_constructed" "Entity ready"
      (.record (journalNames r u.entity.values)) rfl
    cases hfailed.symm.trans hn

end Constructions

/-- While the journal lets warnings through, an update of a ready entity that throws has told it a warning or an error,
unless its refusal is unheard. An unheard refusal is thrown as it is, adds no line and leaves the entity as it was; of
values that can be printed and copied, only those for fields are refused unheard of which the registry does not know
how they may be written. A construction that throws has told the journal a warning or an error, unless the condition of
a hook broke it off with a value that has no text. -/
theorem failures_are_told {m : Ambient} (hm : m.Warns) :
    (∀ (r : Registry) (e : EntityState Values) (current : Option Entity) (depth : Nat) (field : String) (v : Value),
      e.phase = .ready →
        (∀ thrown t, set r depth field v ⟨m, e, current⟩ = .error thrown t →
          (m.Alarmed t.ambient ↔ ¬ ∃ cause, r.Unheard (e.values.read field) field v cause)) ∧
        (∀ cause, r.Unheard (e.values.read field) field v cause →
          ∃ n, set r depth field v ⟨m, e, current⟩ = .error (.fault cause) ⟨n, e, current⟩ ∧ n.lines = m.lines) ∧
        (Json.holdsBigint (e.values.read field) = false → Json.holdsBigint v = false → v.isCopyable = true →
          ((∃ cause, r.Unheard (e.values.read field) field v cause) ↔
            ∀ mutability, r.mutability field ≠ .ok mutability))) ∧
    ∀ (r : Registry) (init : Value) (current : Option Entity) (thrown : Thrown) (n : Ambient × Option Entity),
      createBeside r init (m, current) = .error thrown n →
        m.Alarmed n.1 ∨ thrown = .fault .badType ∧
          BrokenOff nesting r init { ambient := m, entity := { values := {} }, current } := by
  constructor
  · intro r e current depth field v hready
    have hp : e.phase.acceptsUpdates = true := by rw [hready]; rfl
    have hunheard : ∀ cause, r.Unheard (e.values.read field) field v cause →
        ∃ n, set r depth field v ⟨m, e, current⟩ = .error (.fault cause) ⟨n, e, current⟩ ∧ n.lines = m.lines :=
      fun cause hu => update_of_unheard (s := ⟨m, e, current⟩) hm hp hu
    refine ⟨fun thrown t h => ⟨fun halarmed => ?_, fun hnone => ?_⟩, hunheard, Registry.exists_unheard_iff⟩
    · rintro ⟨cause, hu⟩
      obtain ⟨n, hn, hlines⟩ := hunheard cause hu
      cases h.symm.trans hn
      exact Ambient.not_alarmed hlines halarmed
    · exact (alarmed_of_update_error (s := ⟨m, e, current⟩) (scope_grows depth r) hm hp h).resolve_right hnone
  · intro r init current thrown n h
    obtain ⟨t, ht, rfl⟩ := construct_error_of_createBeside h
    exact alarmed_of_construct_error (s := { ambient := m, entity := { values := {} }, current }) hm ht

theorem stillness_warns : (stillness.atLevel .warn).Warns :=
  ⟨⟨some .warn, _, Journal.threshold_of_level rfl, rfl⟩, rfl, stillness_dated⟩

theorem exists_keepsake : ∃ e, Reachable e ∧ e.registry = keepsake.sealed ∧ e.state.phase = .ready ∧
    e.state.values = ({} : Values).write "kept" (.number 5) := by
  cases h : createBeside keepsake (.record [("kept", .number 5)]) (stillness, none) with
  | error thrown n =>
    obtain ⟨t, ht, -⟩ := construct_error_of_createBeside h
    obtain ⟨u, hu, -⟩ := construct_of_idle (r := keepsake) nesting (populate_keepsake 5 stillness) rfl
      (fun p hp => by cases hp) (stillness_accepts (by decide)) (stillness_accepts (by decide)) stillness_dated
    cases hu.symm.trans ht
  | ok e n =>
    obtain ⟨t, ht, rfl, -⟩ := construct_of_createBeside h
    have hvalues := values_of_construct ht (populate_keepsake 5 stillness) fun p hp => by cases hp
    exact ⟨_, .created h, rfl, phase_of_construct ht, hvalues⟩

/-- That another number is refused is told. -/
theorem replaced_keepsake_is_told : ∃ e thrown t, Reachable e ∧
    set e.registry 0 "kept" (.number 6) ⟨stillness.atLevel .warn, e.state, none⟩ = .error thrown t ∧
      (stillness.atLevel .warn).Alarmed t.ambient := by
  obtain ⟨e, he, hr, hphase, hvalues⟩ := exists_keepsake
  have hknown : e.registry.mutability "kept" = .ok .immutableAfterInit := by rw [hr]; rfl
  have hheld : e.state.values.read "kept" = .number 5 := by rw [hvalues]; rfl
  cases h : set e.registry 0 "kept" (.number 6) ⟨stillness.atLevel .warn, e.state, none⟩ with
  | ok report t =>
    have hthrough := (update_eq_ok_iff.mp h).2.1.through
    rw [hheld, hr] at hthrough
    cases hthrough
  | error thrown t =>
    obtain ⟨htold, -, hunheard⟩ := (failures_are_told stillness_warns).1 e.registry e.state none 0 "kept" (.number 6)
      hphase
    refine ⟨e, thrown, t, he, h, (htold thrown t h).mpr fun hu => ?_⟩
    exact (hunheard (by rw [hheld]; rfl) rfl rfl).mp hu _ hknown

/-- A condition throws a record that holds `toString` itself, and so has no text. -/
def abruptness : Hook where
  key := 0
  id := "abruptness"
  kind := .generic
  triggers := [.postInit]
  condition := .raise (.value (.record [("toString", .number 1)]))
  action := .done .finished

def failsUnheard : Bool :=
  match createBeside (watchedPair abruptness) (.record []) (stillness.atLevel .warn, none) with
  | .ok _ _ => false
  | .error _ n => n.1.lines = []

/-- Neither of an update of a field that was never declared is anything told, nor of a construction that a condition
breaks off with a value that has no text. -/
theorem failures_are_not_always_told :
    (¬ ∀ (e : Entity) (depth : Nat) (field : String) (v : Value) (m : Ambient) (current : Option Entity)
      (thrown : Thrown) (t : Scene Values), Reachable e → e.registry.HasOrdinaryNames → m.Warns →
        Json.holdsBigint (e.state.values.read field) = false → Json.holdsBigint v = false → v.isCopyable = true →
          set e.registry depth field v ⟨m, e.state, current⟩ = .error thrown t → m.Alarmed t.ambient) ∧
    ¬ ∀ (r : Registry) (init : Value) (m : Ambient) (current : Option Entity) (thrown : Thrown)
      (n : Ambient × Option Entity), r.HasOrdinaryNames → m.Warns → Json.holdsBigint init = false →
        createBeside r init (m, current) = .error thrown n → m.Alarmed n.1 := by
  constructor
  · intro hall
    obtain ⟨e, he, hr, hphase, hvalues⟩ := exists_keepsake
    have hunknown : ∀ mutability, e.registry.mutability "nope" ≠ .ok mutability := by
      rw [hr]
      intro mutability h
      cases h
    obtain ⟨n, hn, hlines⟩ : ∃ n, set e.registry 0 "nope" (.number 1) ⟨stillness.atLevel .warn, e.state, none⟩ =
        .error (.fault (e.registry.unknown "nope")) ⟨n, e.state, none⟩ ∧ n.lines = (stillness.atLevel .warn).lines :=
      update_of_unheard (s := ⟨stillness.atLevel .warn, e.state, none⟩) stillness_warns (by rw [hphase]; rfl)
        (.unknown hunknown)
    refine Ambient.not_alarmed hlines (hall e 0 "nope" (.number 1) _ none _ _ he ?_ stillness_warns ?_ rfl rfl hn)
    · rw [hr]
      exact keepsake_ordinary
    · rw [hvalues]
      rfl
  · intro hall
    have hfails : failsUnheard = true := by decide +kernel
    unfold failsUnheard at hfails
    split at hfails
    · cases hfails
    · rename_i thrown n hn
      have hlines : n.1.lines = (stillness.atLevel .warn).lines := of_decide_eq_true hfails
      exact Ambient.not_alarmed hlines (hall _ _ _ none thrown n (watchedPair_ordinary _) stillness_warns rfl hn)

end Entity

end GovernedConfig
