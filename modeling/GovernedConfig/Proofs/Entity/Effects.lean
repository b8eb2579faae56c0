import GovernedConfig.Proofs.Entity.Construction

/-! # What construction hooks come to

Hooks that look at nothing but the values of an entity do the same in any surroundings. What a row of such hooks
comes to, and with them a construction, is told by what each of them does to the values.
-/

namespace GovernedConfig

open Act

def Scene.holding (s : Scene Values) (m : Ambient) (vs : Values) : Scene Values :=
  { s with ambient := m, entity := { s.entity with values := vs } }

namespace Lifecycle

variable {r : Registry} {scope : Scope Values} {trigger : Trigger} {s : Scene Values} {m : Ambient}
  {vs us ws : Values} {field : String} {hooks : List Hook} {cause : Fault} {expected : Except Fault Values}

/-- A hook passes in any surroundings, and takes some values to others. -/
def Turns (r : Registry) (scope : Scope Values) (trigger : Trigger) (s : Scene Values) (p : String × Hook)
    (vs ws : Values) : Prop :=
  ∃ acted, ∀ m, runHook r scope p.1 trigger p.2 (s.holding m vs) = .ok acted (s.holding m ws)

/-- A hook holds of some values in any surroundings, and refuses them. -/
structure Balks (scope : Scope Values) (s : Scene Values) (h : Hook) (vs : Values) (cause : Fault) : Prop where
  holds : ∀ m, h.condition.run scope false (s.holding m vs) = .ok true (s.holding m vs)
  refuses : ∀ m, invoke scope h (s.holding m vs) = .error (.fault cause) (s.holding m vs)

/-- What hooks that run one after the other come to: the last values, or what the first refusing hook throws. -/
inductive Yields (r : Registry) (scope : Scope Values) (trigger : Trigger) (s : Scene Values) :
    List (String × Hook) → Values → Except Fault Values → Prop
  | done {vs : Values} : Yields r scope trigger s [] vs (.ok vs)
  | turn {p : String × Hook} {ps : List (String × Hook)} {vs us : Values} {expected : Except Fault Values} :
      Turns r scope trigger s p vs us → Yields r scope trigger s ps us expected →
        Yields r scope trigger s (p :: ps) vs expected
  | balk {p : String × Hook} {ps : List (String × Hook)} {vs : Values} {cause : Fault} :
      Balks scope s p.2 vs cause → Yields r scope trigger s (p :: ps) vs (.error cause)

theorem Yields.append_cases {ps qs : List (String × Hook)} (h : Yields r scope trigger s (ps ++ qs) vs expected) :
    (∃ us, Yields r scope trigger s ps vs (.ok us) ∧ Yields r scope trigger s qs us expected) ∨
      ∃ cause, expected = .error cause ∧ Yields r scope trigger s ps vs (.error cause) := by
  induction ps generalizing vs with
  | nil => exact .inl ⟨vs, .done, h⟩
  | cons p ps ih =>
    cases h with
    | turn ht h =>
      rcases ih h with ⟨us, hps, hqs⟩ | ⟨cause, hc, hps⟩
      · exact .inl ⟨us, .turn ht hps, hqs⟩
      · exact .inr ⟨cause, hc, .turn ht hps⟩
    | balk hb => exact .inr ⟨_, rfl, .balk hb⟩

/-- An operation ends with the expected values or failure, and with nothing but traces in the surroundings. -/
inductive EndsAs {α : Type} (s : Scene Values) (m : Ambient) :
    Except Fault Values → EStateM.Result Thrown (Scene Values) α → Prop
  | ok {n : Ambient} {ws : Values} {a : α} : m.Steady n → EndsAs s m (.ok ws) (.ok a (s.holding n ws))
  | error {n : Ambient} {ws : Values} {cause : Fault} : m.Steady n →
      EndsAs s m (.error cause) (.error (.fault cause) (s.holding n ws))

theorem EndsAs.of_steady {α : Type} {n : Ambient} {result : EStateM.Result Thrown (Scene Values) α}
    (hm : m.Steady n) (h : EndsAs s n expected result) : EndsAs s m expected result := by
  cases h with
  | ok hn => exact .ok (IsTrans.trans _ _ _ hm hn)
  | error hn => exact .error (IsTrans.trans _ _ _ hm hn)

theorem runHook_of_balks {h : Hook} (field : String) (hb : Balks scope s h vs cause) (hm : m.TakesLines) :
    ∃ n, m.Steady n ∧ runHook r scope field trigger h (s.holding m vs) = .error (.fault cause) (s.holding n vs) := by
  obtain ⟨n, hn, hw⟩ := hm.writes (show Level.error ≠ .silent by decide) "hook_failed"
    "Hook rejected entity state" (.record ([("entity", .text r.entityName), ("instance", .text (scope.label vs))] ++
      [("field", .text field), ("trigger", .text trigger.name), ("hookId", .text h.id),
        ("error", .text (Thrown.fault cause).summary)])) rfl
  refine ⟨n, hn, ?_⟩
  unfold runHook
  rw [bind_of_ok (hb.holds m)]
  refine bind_of_error ?_ _
  rw [tryCatch_apply, hb.refuses m]
  dsimp only
  rw [bind_of_ok (names_eq r scope _)]
  exact bind_of_ok (Scene.around_eq_ok_iff.mpr ⟨n, hw, rfl⟩) _

theorem runEach_of_yields (hm : m.TakesLines) (h : Yields r scope trigger s (hooks.map (field, ·)) vs expected)
    (report : Report) : EndsAs s m expected (runEach r scope field trigger hooks report (s.holding m vs)) := by
  induction hooks generalizing vs report with
  | nil =>
    cases h
    exact .ok (Std.Refl.refl m)
  | cons hook hooks ih =>
    rw [runEach]
    cases h with
    | turn ht h =>
      obtain ⟨acted, ha⟩ := ht
      rw [bind_of_ok (ha m)]
      exact ih h _
    | balk hb =>
      obtain ⟨n, hn, hr⟩ := runHook_of_balks field hb hm
      rw [bind_of_error hr]
      exact .error hn

theorem runHooks_of_yields (hm : m.TakesLines) (h : Yields r scope trigger s (hooks.map (field, ·)) vs expected) :
    EndsAs s m expected (runHooks r scope field trigger hooks (s.holding m vs)) := by
  have hr := runEach_of_yields hm h { field, trigger }
  unfold runHooks
  generalize hresult : runEach r scope field trigger hooks { field, trigger } (s.holding m vs) = result at hr
  cases hr with
  | error hn =>
    rw [bind_of_error hresult]
    exact .error hn
  | @ok n ws report hn =>
    rw [bind_of_ok hresult]
    split
    · obtain ⟨k, hk, hw⟩ := (hm.of_steady hn).writes (show Level.debug ≠ .silent by decide) "hooks_dispatched"
        "Entity hooks fired" (.record ([("entity", .text r.entityName), ("instance", .text (scope.label ws))] ++
          [("field", .text field), ("trigger", .text trigger.name), ("fired", .list (report.fired.map .text))]))
        (by simp [Json.holdsBigint, Json.entriesHoldBigint, anyBigint_texts])
      rw [bind_of_ok (names_eq r scope _), bind_of_ok (Scene.around_eq_ok_iff.mpr ⟨k, hw, rfl⟩)]
      exact .ok (IsTrans.trans _ _ _ hn hk)
    · exact .ok hn

theorem dispatchUpdate_eq {hooks : List Hook} (hp : s.entity.phase.acceptsUpdates = true)
    (hh : r.hooksFor field .postUpdate = .ok hooks) :
    dispatchUpdate r scope field s = runHooks r scope field .postUpdate hooks s := by
  unfold dispatchUpdate
  rw [bind_of_ok ((requireReady_eq_ok_iff (u := ())).mpr ⟨hp, rfl⟩), bind_of_ok (ofExcept_eq_ok_iff.mpr ⟨hh, rfl⟩)]

theorem runHooks_of_runHook {h : Hook} {acted : Bool} {t : Scene Values}
    (hr : runHook r scope field trigger h s = .ok acted t) (hm : t.ambient.TakesLines) :
    ∃ report u, runHooks r scope field trigger [h] s = .ok report u := by
  obtain ⟨report, hreport⟩ : ∃ report, runEach r scope field trigger [h] { field, trigger } s = .ok report t :=
    ⟨_, bind_of_ok hr _⟩
  obtain ⟨n, -, hdebug⟩ := hm.writes (show Level.debug ≠ .silent by decide) "hooks_dispatched" "Entity hooks fired"
    (.record ([("entity", .text r.entityName), ("instance", .text (scope.label t.entity.values))] ++
      [("field", .text field), ("trigger", .text trigger.name), ("fired", .list (report.fired.map .text))]))
    (by simp [Json.holdsBigint, Json.entriesHoldBigint, anyBigint_texts])
  unfold runHooks
  rw [bind_of_ok hreport]
  split
  · rw [bind_of_ok (names_eq r scope t)]
    exact ⟨report, { t with ambient := n }, bind_of_ok (Scene.around_eq_ok_iff.mpr ⟨n, hdebug, rfl⟩) _⟩
  · exact ⟨report, t, rfl⟩

theorem runConstruction_of_yields {specs : List FieldSpec} {seen : List Nat} (hm : m.Orderly)
    (h : Yields r scope .postInit s (schedule specs seen) vs expected) (reports : List Report) :
    EndsAs s m expected (runConstruction r scope specs seen reports (s.holding m vs)) := by
  induction specs generalizing seen vs m reports with
  | nil =>
    cases h
    exact .ok (Std.Refl.refl m)
  | cons spec specs ih =>
    unfold schedule at h
    unfold runConstruction
    dsimp only at h ⊢
    split
    · rename_i hn
      rw [List.isEmpty_iff.mp hn, List.map_nil, List.map_nil, List.nil_append, List.append_nil] at h
      exact ih hm h reports
    · rcases h.append_cases with ⟨us, hfirst, hrest⟩ | ⟨cause, rfl, hfirst⟩
      · have hr := runHooks_of_yields hm.takesLines hfirst
        generalize hresult : runHooks r scope spec.name .postInit _ (s.holding m vs) = result at hr
        cases hr with
        | ok hn =>
          rw [bind_of_ok hresult]
          exact (ih (hm.of_steady hn) hrest _).of_steady hn
      · have hr := runHooks_of_yields hm.takesLines hfirst
        generalize hresult : runHooks r scope spec.name .postInit _ (s.holding m vs) = result at hr
        cases hr with
        | error hn =>
          rw [bind_of_error hresult]
          exact .error hn

theorem completeConstruction_of_yields (hp : s.entity.phase = .constructing) (hm : m.Orderly)
    (h : Yields r scope .postInit s (schedule r.fields []) vs (.ok ws)) :
    ∃ reports t, completeConstruction r scope (s.holding m vs) = .ok reports t ∧ m.Steady t.ambient := by
  have hr := runConstruction_of_yields hm h []
  generalize hresult : runConstruction r scope r.fields [] [] (s.holding m vs) = result at hr
  cases hr with
  | @ok n _ reports hn =>
    have ho := hm.of_steady hn
    obtain ⟨k, history, hk, ht⟩ := transition_of_accepts (r := r) (s := s.holding n ws) scope .ready
      (ho.accepts .debug (by decide)) ho.dated
    have hc : completeConstruction r scope (s.holding m vs) = .ok reports { s.holding n ws with
        ambient := k, entity := { (s.holding n ws).entity with phase := .ready, history } } := by
      unfold completeConstruction
      rw [bind_of_ok (get_eq _), show (s.holding m vs).entity.phase = .constructing from hp, if_neg (by decide),
        bind_of_ok hresult, bind_of_ok ht]
      rfl
    exact ⟨reports, _, hc, IsTrans.trans m n k hn hk⟩

theorem completeConstruction_of_refusal (hp : s.entity.phase = .constructing) (hm : m.Orderly)
    (h : Yields r scope .postInit s (schedule r.fields []) vs (.error cause)) :
    ∃ t, completeConstruction r scope (s.holding m vs) = .error (.fault cause) t ∧ m.Steady t.ambient := by
  have hr := runConstruction_of_yields hm h []
  generalize hresult : runConstruction r scope r.fields [] [] (s.holding m vs) = result at hr
  cases hr with
  | @error n us _ hn =>
    refine ⟨s.holding n us, ?_, hn⟩
    unfold completeConstruction
    rw [bind_of_ok (get_eq _), show (s.holding m vs).entity.phase = .constructing from hp, if_neg (by decide)]
    exact bind_of_error hresult _

end Lifecycle

namespace Entity

variable {r : Registry} {depth : Nat} {init : Value} {s u : Scene Values} {m : Ambient} {vs ws : Values} {cause : Fault}

theorem construct_of_yields (hp : populate r init s = .ok () (u.holding m vs)) (hphase : u.entity.phase = .constructing)
    (hm : m.Orderly) (h : Lifecycle.Yields r (scope depth r) .postInit u (Lifecycle.schedule r.fields []) vs (.ok ws)) :
    ∃ t, construct r depth init s = .ok () t := by
  obtain ⟨reports, w, hw, hn⟩ := Lifecycle.completeConstruction_of_yields hphase hm h
  obtain ⟨n, -, hinfo⟩ := (hm.of_steady hn).takesLines.writes (show Level.info ≠ .silent by decide) "entity_constructed"
    "Entity ready" (.record (journalNames r w.entity.values)) rfl
  refine ⟨{ w with ambient := n }, ?_⟩
  have hbody : ∀ handle : Thrown → Act (Scene Values) Unit, (tryCatch (do
      populate r init
      let _ ← Lifecycle.completeConstruction r (scope depth r)) handle) s = .ok () w := by
    intro handle
    rw [tryCatch_apply, bind_of_ok hp, bind_of_ok hw]
    rfl
  apply (bind_of_ok (hbody _) _).trans
  rw [bind_of_ok (Scene.values_eq _)]
  exact Scene.around_eq_ok_iff.mpr ⟨n, hinfo, rfl⟩

theorem construct_of_failure {w : Scene Values} (hf : (do
      populate r init
      let _ ← Lifecycle.completeConstruction r (scope depth r) : Act (Scene Values) Unit) s = .error (.fault cause) w)
    (hm : w.ambient.Orderly) : ∃ t, construct r depth init s = .error (.fault (.construction r.entityName cause)) t := by
  obtain ⟨n, -, herror⟩ := hm.takesLines.writes (show Level.error ≠ .silent by decide)
    "entity_construction_failed" "Entity construction rejected"
    (.record (journalNames r w.entity.values ++ [("error", .text cause.message)])) rfl
  refine ⟨{ w with ambient := n }, bind_of_error ?_ _⟩
  rw [tryCatch_apply, hf]
  refine (bind_of_ok (ofExcept_eq_ok_iff.mpr ⟨rfl, rfl⟩) _).trans ?_
  rw [bind_of_ok (Scene.values_eq _)]
  exact bind_of_ok (Scene.around_eq_ok_iff.mpr ⟨n, herror, rfl⟩) _

theorem construct_of_refusal (hp : populate r init s = .ok () (u.holding m vs))
    (hphase : u.entity.phase = .constructing) (hm : m.Orderly)
    (h : Lifecycle.Yields r (scope depth r) .postInit u (Lifecycle.schedule r.fields []) vs (.error cause)) :
    ∃ t, construct r depth init s = .error (.fault (.construction r.entityName cause)) t := by
  obtain ⟨w, hw, hn⟩ := Lifecycle.completeConstruction_of_refusal hphase hm h
  exact construct_of_failure ((bind_of_ok hp _).trans (bind_of_error hw _)) (hm.of_steady hn)

theorem update_of_refusal {scope : Scope Values} {field : String} {v : Value} {thrown : Thrown}
    (hp : s.entity.phase.acceptsUpdates = true) (ha : r.Allows (s.entity.values.read field) field .caller)
    (hc : v.isCopyable = true) (hd : Lifecycle.dispatchUpdate r scope field (s.written field v) = .error thrown u)
    (hu : u.ambient.TakesLines) : ∃ t, update r scope field v s = .error thrown t := by
  obtain ⟨n, -, hwarn⟩ := hu.writes (show Level.warn ≠ .silent by decide) "entity_update_rolled_back"
    "Update rejected by hook; previous state restored" (.record [("entity", .text r.entityName),
      ("instance", .text (label r s.entity.values.copied)), ("field", .text field)]) rfl
  have hcheck : (Scene.around (r.assertWritable (s.entity.values.read field) field v .caller) : Act _ _) s = .ok () s :=
    Scene.around_eq_ok_iff.mpr ⟨_, (Registry.assertWritable_eq_ok_iff r).mpr ⟨ha, rfl⟩, rfl⟩
  have hlogged := (Scene.around_eq_ok_iff (s := u.restored s.entity.values.copied)).mpr ⟨n, hwarn, rfl⟩
  refine ⟨{ u.restored s.entity.values.copied with ambient := n }, ?_⟩
  unfold update
  rw [bind_of_ok ((Lifecycle.requireReady_eq_ok_iff (u := ())).mpr ⟨hp, rfl⟩), bind_of_ok (Scene.values_eq s),
    bind_of_ok hcheck, bind_of_ok ((store_eq_ok_iff (u := ())).mpr ⟨hc, rfl⟩), tryCatch_apply, hd]
  dsimp only
  rw [bind_of_ok (Scene.putValues_eq _ u)]
  exact bind_of_ok hlogged _

theorem create_of_construct_error {thrown : Thrown} {t : Scene Values}
    (h : construct r nesting init { ambient := m, entity := { values := {} } } = .error thrown t) :
    create r init m = .error thrown t.ambient := by
  refine within_eq_error_iff.mpr ⟨(t.ambient, t.current), ?_, rfl⟩
  unfold createBeside
  dsimp only
  rw [h]

end Entity

end GovernedConfig
