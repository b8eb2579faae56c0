import GovernedConfig.Proofs.Entity.Requests
import GovernedConfig.Proofs.Entity.WriteOnce
import GovernedConfig.Proofs.Registry.Builds

/-! # The evaluations of an update

An update that answers evaluated the update hooks of its field one after the other, each on what those before it
left behind. What hooks assign is checked like any other write but dispatches nothing, so the values at the end
are the written ones with the assignments of the hooks on top.
-/

namespace GovernedConfig

open Act

def Values.writeAll (vs : Values) (writes : List (String × Value)) : Values :=
  writes.foldl (fun vs p => vs.write p.1 p.2) vs

theorem Values.writeAll_append (vs : Values) (writes more : List (String × Value)) :
    vs.writeAll (writes ++ more) = (vs.writeAll writes).writeAll more := List.foldl_append

theorem Values.read_writeAll_of_notMem {writes : List (String × Value)} (hb : ∀ p ∈ writes, p.1 ≠ "__proto__")
    {field : String} (hf : field ∉ writes.map Prod.fst) (vs : Values) :
    (vs.writeAll writes).read field = vs.read field := by
  induction writes generalizing vs with
  | nil => rfl
  | cons p writes ih =>
    obtain ⟨hne, hrest⟩ := List.forall_mem_cons.mp hb
    rw [List.map_cons, List.mem_cons, not_or] at hf
    exact (ih hrest hf.2 _).trans (vs.read_write_of_ne hne hf.1 p.2)

def EntityState.writeAll (e : EntityState Values) (writes : List (String × Value)) : EntityState Values :=
  { e with values := e.values.writeAll writes }

theorem EntityState.writeAll_append (e : EntityState Values) (writes more : List (String × Value)) :
    e.writeAll (writes ++ more) = (e.writeAll writes).writeAll more := by
  simp only [writeAll, Values.writeAll_append]

section Telling

/-- Between two moments the journal was written to at most, for which the settings may have been read. -/
def Ambient.Told (m n : Ambient) : Prop := n = { m with lines := n.lines, settings := n.settings }

instance : Std.Refl Ambient.Told := ⟨fun _ => rfl⟩

instance : IsTrans Ambient Ambient.Told := ⟨fun m n k h g => by rw [Ambient.Told] at *; rw [g, h]⟩

theorem Journal.write_tells (level : Level) (phase message data : Value) :
    (write level phase message data).Keeps Ambient.Told := by
  have hsettings : Ambient.readSettings.Keeps Ambient.Told := by
    intro m
    rw [Act.after, Ambient.readSettings_eq]
    cases m.settings with
    | some known => exact Std.Refl.refl m
    | none => cases Settings.parse (.record m.environment) <;> rfl
  have hthreshold : threshold.Keeps Ambient.Told := by
    refine keeps_get.bind fun m => ?_
    dsimp only
    split
    · exact (keeps_suitable _).bind fun _ => keeps_pure _
    · exact hsettings.bind fun _ => keeps_pure _
  have hstamp : Ambient.stamp.Keeps Ambient.Told := by
    refine keeps_get.bind fun m => ?_
    split
    · exact keeps_pure _
    · exact keeps_fail _
  refine hthreshold.bind fun least => ?_
  split
  · exact keeps_pure _
  · exact hstamp.bind fun _ => keeps_get.bind fun _ => (keeps_suitable _).bind fun _ => keeps_modify fun _ => rfl

def Scene.Told (s t : Scene Values) : Prop := s.ambient.Told t.ambient ∧ t = { s with ambient := t.ambient }

end Telling

namespace Entity

variable {r : Registry}

section Reading

theorem get_leaves (field : String) : (get r field).Keeps Eq :=
  Keeps.bind (keeps_get.bind fun _ => keeps_pure _) fun _ => keeps_ofExcept _

theorem evaluate_leaves : ∀ source : Source, (evaluate r source).Keeps Eq
  | .value _ => keeps_pure _
  | .constant _ _ => keeps_get.bind fun _ => keeps_pure _
  | .held field => get_leaves field
  | .extended field last => (get_leaves field).bind fun _ => (keeps_suitable _).bind fun _ =>
      (evaluate_leaves last).bind fun _ => keeps_pure _

theorem pushOntoCopy_leaves (field : String) (source : Source) : (pushOntoCopy r field source).Keeps Eq :=
  (get_leaves field).bind fun _ => (evaluate_leaves source).bind fun _ => (keeps_suitable _).bind fun _ =>
    keeps_pure _

end Reading

end Entity

namespace Program

variable {α : Type} {r : Registry} {may : Bool}

/-- What an assignment puts into a field, if it is let through. -/
def accepted (r : Registry) (may : Bool) (field : String) (source : Source) (s : Scene Values) :
    List (String × Value) :=
  match assigning (Entity.scope 0 r) may field source s, Entity.evaluate r source s with
  | .ok _ _, .ok v _ => [(field, v)]
  | _, _ => []

/-- What a program assigns that runs in the scope of an entity: each field with what is put into it, in turn. -/
def assigned (r : Registry) (may : Bool) : Program α → Scene Values → List (String × Value)
  | done _, _ => []
  | raise _, _ => []
  | get field next, s => (next ((Entity.get r field).outcome s)).assigned r may s
  | assign field source next, s =>
    let request := assigning (Entity.scope 0 r) may field source
    accepted r may field source s ++ (next (request.outcome s)).assigned r may (request.after s)
  | push field source next, s => (next ((Entity.pushOntoCopy r field source).outcome s)).assigned r may s
  | set _ _ next, s => (next (.error (.fault .outOfRange))).assigned r may s
  | seconds next, s => (next s.ambient.seconds).assigned r may s
  | mark text next, s => next.assigned r may { s with ambient := s.ambient.mark text }
  | mayAssign next, s => (next may).assigned r may s

/-- What may assign writes as a hook, and dispatches nothing. -/
theorem assigning_of_may (field : String) (source : Source) : assigning (Entity.scope 0 r) true field source =
    Entity.evaluate r source >>= fun v => Entity.write r field v .hook := rfl

theorem entity_after_assigning (field : String) (source : Source) (s : Scene Values) :
    ((assigning (Entity.scope 0 r) may field source).after s).entity =
      s.entity.writeAll (accepted r may field source s) := by
  unfold accepted
  cases may with
  | false => rfl
  | true =>
    rw [assigning_of_may]
    cases he : Entity.evaluate r source s with
    | error thrown t =>
      obtain rfl : s = t := (Entity.evaluate_leaves source).of_error he
      rw [after_of_error (bind_of_error he _), bind_of_error he]
      rfl
    | ok v t =>
      obtain rfl : s = t := (Entity.evaluate_leaves source).of_ok he
      rw [after_bind_of_ok he, bind_of_ok he]
      cases hw : Entity.write r field v .hook s with
      | ok u t =>
        rw [after_of_ok hw, ((Entity.write_eq_ok_iff r).mp hw).2.2]
        rfl
      | error thrown t =>
        obtain ⟨m, -, rfl⟩ := Entity.write_of_error r hw
        rw [after_of_error hw]
        rfl

/-- Where nothing is dispatched, a program changes of an entity what it assigns and nothing else. -/
theorem entity_after_run (may : Bool) (p : Program α) (s : Scene Values) :
    ((p.run (Entity.scope 0 r) may).after s).entity = s.entity.writeAll (p.assigned r may s) := by
  induction p generalizing s with
  | done a => rfl
  | raise thrown => rfl
  | get field next ih =>
    have hs : ((Entity.scope 0 r).get field).after s = s := (Entity.get_leaves field s).symm
    rw [run, after_answer, hs, ih, assigned]
    rfl
  | assign field source next ih =>
    rw [run, after_answer, ih, assigned, EntityState.writeAll_append, ← entity_after_assigning]
    rfl
  | push field source next ih =>
    have hs : ((Entity.scope 0 r).push field source).after s = s := (Entity.pushOntoCopy_leaves field source s).symm
    rw [run, after_answer, hs, ih, assigned]
    rfl
  | set field v next ih =>
    rw [run, after_answer, assigned, ← ih]
    rfl
  | seconds next ih =>
    rw [run, after_get_bind, assigned]
    exact ih s.ambient.seconds s
  | mark text next ih => exact ih _
  | mayAssign next ih => exact ih _ s

theorem assigned_of_reading (p : Program α) (s : Scene Values) : p.assigned r false s = [] := by
  induction p generalizing s with
  | done a => rfl
  | raise thrown => rfl
  | get field next ih => exact ih _ s
  | assign field source next ih => exact ih _ s
  | push field source next ih => exact ih _ s
  | set field v next ih => exact ih _ s
  | seconds next ih =>
    rw [assigned]
    exact ih _ s
  | mark text next ih => exact ih _
  | mayAssign next ih => exact ih _ s

theorem isDeclared_of_mem_assigned {p : Program α} {s : Scene Values} {w : String × Value}
    (hw : w ∈ p.assigned r may s) : r.isDeclared w.1 = true := by
  induction p generalizing s with
  | done a => cases hw
  | raise thrown => cases hw
  | get field next ih => exact ih _ hw
  | assign field source next ih =>
    rw [assigned] at hw
    rcases List.mem_append.mp hw with hw | hw
    · unfold accepted at hw
      split at hw
      · rename_i u t v t' ha he
        obtain rfl := List.mem_singleton.mp hw
        cases may with
        | false => cases ha
        | true =>
          rw [assigning_of_may, bind_of_ok he] at ha
          exact ((Entity.write_eq_ok_iff r).mp ha).1.declared
      · cases hw
    · exact ih _ hw
  | push field source next ih => exact ih _ hw
  | set field v next ih => exact ih _ hw
  | seconds next ih =>
    rw [assigned] at hw
    exact ih _ hw
  | mark text next ih => exact ih hw
  | mayAssign next ih => exact ih _ hw

end Program

/-- What the evaluation of a hook came to: whether the hook fired, and what it assigned then. -/
structure Evaluation where
  hook : Hook
  fired : Bool
  assigned : List (String × Value) := []

namespace Entity

open Lifecycle

variable {r : Registry} {evaluations former later : List Evaluation} {field : String} {v : Value}
  {s t u : Scene Values}

/-- Evaluations that follow one another, in a scope in which nothing is dispatched. -/
inductive Unfolds (r : Registry) : Scene Values → List Evaluation → Scene Values → Prop
  | nil {s : Scene Values} : Unfolds r s [] s
  | idle {h : Hook} {evaluations : List Evaluation} {s t u : Scene Values} :
      h.condition.run (scope 0 r) false s = .ok false t → Unfolds r t evaluations u →
        Unfolds r s (⟨h, false, []⟩ :: evaluations) u
  | fires {h : Hook} {evaluations : List Evaluation} {s t u w : Scene Values} :
      h.condition.run (scope 0 r) false s = .ok true t →
        h.action.run (scope 0 r) (h.kind == .update) t = .ok .finished u → Unfolds r u evaluations w →
          Unfolds r s (⟨h, true, h.action.assigned r (h.kind == .update) t⟩ :: evaluations) w

def assignments (evaluations : List Evaluation) : List (String × Value) := evaluations.flatMap Evaluation.assigned

theorem entity_of_condition {p : Program Bool} {holds : Bool} (h : p.run (scope 0 r) false s = .ok holds t) :
    t.entity = s.entity := by
  rw [← after_of_ok h, p.entity_after_run, p.assigned_of_reading]
  rfl

/-- The entity after some evaluations is the entity before them with their assignments on top. -/
theorem Unfolds.entity (h : Unfolds r s evaluations t) : t.entity = s.entity.writeAll (assignments evaluations) := by
  induction h with
  | nil => rfl
  | idle hc _ ih =>
    rw [ih, entity_of_condition hc]
    rfl
  | @fires h evaluations s t u w hc ha _ ih =>
    have hu := h.action.entity_after_run (r := r) (h.kind == .update) t
    rw [after_of_ok ha, entity_of_condition hc] at hu
    rw [ih, hu, ← EntityState.writeAll_append]
    rfl

theorem Unfolds.split {e : Evaluation} (h : Unfolds r s (former ++ e :: later) u) :
    ∃ now next, Unfolds r s former now ∧ e.hook.condition.run (scope 0 r) false now = .ok e.fired next := by
  generalize hevaluations : former ++ e :: later = evaluations at h
  induction h generalizing former with
  | nil => cases former <;> cases hevaluations
  | idle hc hrest ih =>
    cases former with
    | nil =>
      cases hevaluations
      exact ⟨_, _, .nil, hc⟩
    | cons first former =>
      cases hevaluations
      obtain ⟨now, next, hf, hn⟩ := ih rfl
      exact ⟨now, next, .idle hc hf, hn⟩
  | fires hc ha hrest ih =>
    cases former with
    | nil =>
      cases hevaluations
      exact ⟨_, _, .nil, hc⟩
    | cons first former =>
      cases hevaluations
      obtain ⟨now, next, hf, hn⟩ := ih rfl
      exact ⟨now, next, .fires hc ha hf, hn⟩

theorem Unfolds.isDeclared (h : Unfolds r s evaluations t) {w : String × Value} (hw : w ∈ assignments evaluations) :
    r.isDeclared w.1 = true := by
  induction h with
  | nil => cases hw
  | idle _ _ ih => exact ih hw
  | fires _ _ _ ih => exact (List.mem_append.mp hw).elim Program.isDeclared_of_mem_assigned ih

def reported (report : Report) (evaluations : List Evaluation) : Report :=
  { report with
    evaluated := report.evaluated ++ evaluations.map (·.hook.id)
    fired := report.fired ++ (evaluations.filter (·.fired)).map (·.hook.id) }

theorem unfolds_of_runEach {trigger : Trigger} {hooks : List Hook} {report report' : Report}
    (h : runEach r (scope 0 r) field trigger hooks report s = .ok report' t) :
    ∃ evaluations, evaluations.map Evaluation.hook = hooks ∧ Unfolds r s evaluations t ∧
      report' = reported report evaluations := by
  induction hooks generalizing s report with
  | nil =>
    obtain ⟨rfl, rfl⟩ := pure_eq_ok_iff.mp h
    exact ⟨[], rfl, .nil, by simp [reported]⟩
  | cons hook hooks ih =>
    obtain ⟨acted, u, hu, h⟩ := bind_eq_ok_iff.mp h
    obtain ⟨evaluations, rfl, hunfolds, rfl⟩ := ih h
    rcases runHook_eq_ok_iff.mp hu with ⟨rfl, hc⟩ | ⟨rfl, w, hc, ha⟩
    · exact ⟨_, rfl, .idle hc hunfolds, by simp [reported, Report.evaluate]⟩
    · exact ⟨_, rfl, .fires hc ha hunfolds, by simp [reported, Report.evaluate, Report.fire]⟩

theorem told_of_around {act : Act Ambient Unit} (h : act.Keeps Ambient.Told) (hs : Scene.around act s = .ok () t) :
    s.Told t := by
  obtain ⟨m, hm, rfl⟩ := Scene.around_eq_ok_iff.mp hs
  exact ⟨h.of_ok hm, rfl⟩

theorem unfolds_of_runHooks {trigger : Trigger} {hooks : List Hook} {report : Report}
    (h : runHooks r (scope 0 r) field trigger hooks s = .ok report t) :
    ∃ evaluations u, evaluations.map Evaluation.hook = hooks ∧ Unfolds r s evaluations u ∧ u.Told t ∧
      report = reported { field, trigger } evaluations := by
  obtain ⟨report', u, hu, h⟩ := bind_eq_ok_iff.mp h
  obtain ⟨evaluations, hhooks, hunfolds, rfl⟩ := unfolds_of_runEach hu
  refine ⟨evaluations, u, hhooks, hunfolds, ?_⟩
  split at h
  · rw [bind_of_ok (names_eq r _ u)] at h
    obtain ⟨_, w, hw, h⟩ := bind_eq_ok_iff.mp h
    obtain ⟨rfl, rfl⟩ := pure_eq_ok_iff.mp h
    exact ⟨told_of_around (Journal.write_tells _ _ _ _) hw, rfl⟩
  · obtain ⟨rfl, rfl⟩ := pure_eq_ok_iff.mp h
    exact ⟨⟨Std.Refl.refl _, rfl⟩, rfl⟩

section Scopes

variable {depth : Nat} {hooks : List Hook}

/-- Where the hooks of a field act through their scope, it does not matter how deep they could write. -/
theorem set_eq_update (hh : r.hooksFor field .postUpdate = .ok hooks) (ht : ∀ h ∈ hooks, h.ThroughScope) :
    set r depth field v = update r (scope 0 r) field v := by
  have hd : dispatchUpdate r (scope depth r) field = dispatchUpdate r (scope 0 r) field := by
    unfold dispatchUpdate
    rw [hh]
    exact congrArg (fun act => requireReady >>= fun _ => act) (runHooks_scope ht depth field .postUpdate)
  unfold set update
  rw [hd]

theorem runEach_rebound (others : FieldSpec → List Hook) (scope : Scope Values) (trigger : Trigger) (report : Report) :
    runEach (r.rebound others) scope field trigger hooks report = runEach r scope field trigger hooks report := by
  induction hooks generalizing report with
  | nil => rfl
  | cons h hooks ih =>
    unfold runEach
    simp only [ih]
    rfl

/-- An update asks for no hooks but the update hooks of its field. -/
theorem update_rebound {others : FieldSpec → List Hook}
    (hsame : (r.rebound others).hooksFor field .postUpdate = r.hooksFor field .postUpdate) (scope : Scope Values) :
    update (r.rebound others) scope field v = update r scope field v := by
  unfold update dispatchUpdate runHooks
  rw [hsame, Registry.assertWritable_rebound]
  simp only [runEach_rebound]
  rfl

end Scopes

/-- An update told by evaluations: hooks are evaluated in turn once the value is written, and apart from what the
journal is told there is nothing else to it. -/
structure Recounts (r : Registry) (depth : Nat) (field : String) (v : Value) (s t : Scene Values) (report : Report)
    (evaluations : List Evaluation) : Prop where
  unfolds : ∃ u, Unfolds r (s.written field v) evaluations u ∧ u.Told t
  /-- A condition is evaluated on the written value and what the hooks before it assigned. -/
  conditions : ∀ former e later, evaluations = former ++ e :: later → ∃ now next,
    now.entity = (s.written field v).entity.writeAll (assignments former) ∧
      e.hook.condition.run (scope depth r) false now = .ok e.fired next
  report_eq : report =
    { field, trigger := .postUpdate, evaluated := evaluations.map (·.hook.id),
      fired := (evaluations.filter (·.fired)).map (·.hook.id) }
  entity : t.entity = (s.written field v).entity.writeAll (assignments evaluations)
  untouched : ∀ other, other ≠ field → other ∉ (assignments evaluations).map Prod.fst →
    t.entity.values.read other = s.entity.values.read other

theorem recounts_of_dispatchUpdate (depth : Nat) {hooks : List Hook} {report : Report} (hr : r.HasOrdinaryNames)
    (hf : r.isDeclared field = true) (hh : r.hooksFor field .postUpdate = .ok hooks)
    (ht : ∀ h ∈ hooks, h.ThroughScope)
    (h : dispatchUpdate r (scope 0 r) field (s.written field v) = .ok report t) :
    ∃ evaluations, evaluations.map Evaluation.hook = hooks ∧ Recounts r depth field v s t report evaluations := by
  obtain ⟨_, _, hready, h⟩ := bind_eq_ok_iff.mp h
  obtain ⟨-, rfl⟩ := requireReady_eq_ok_iff.mp hready
  rw [bind_of_ok (ofExcept_eq_ok_iff.mpr ⟨hh, rfl⟩)] at h
  obtain ⟨evaluations, u, rfl, hunfolds, htold, rfl⟩ := unfolds_of_runHooks h
  have hentity : t.entity = (s.written field v).entity.writeAll (assignments evaluations) := by
    rw [htold.2]
    exact hunfolds.entity
  refine ⟨evaluations, rfl, ⟨u, hunfolds, htold⟩, ?_, by simp [reported], hentity, ?_⟩
  · rintro former e later rfl
    obtain ⟨now, next, hformer, hnow⟩ := hunfolds.split
    have hthrough : e.hook.ThroughScope := ht _ (List.mem_map_of_mem (by simp))
    exact ⟨now, next, hformer.entity, by rw [run_scope hthrough.condition, hnow]⟩
  · intro other hne ho
    have hbase : ∀ p ∈ assignments evaluations, p.1 ≠ "__proto__" := fun p hp => hr.ne_base (hunfolds.isDeclared hp)
    rw [hentity]
    exact (Values.read_writeAll_of_notMem hbase ho _).trans (Values.read_write_of_ne _ (hr.ne_base hf) hne v)

def takesNote : Hook where
  key := 1
  id := "take-note"
  kind := .update
  triggers := [.postUpdate]
  condition := do
    let v ← Program.read "right"
    pure (v.same (.number 5))
  action := do
    Program.write "note" (.text "copied")
    pure .finished

def refusesAll : Hook where
  key := 2
  id := "refuse"
  kind := .generic
  triggers := [.postUpdate]
  condition := .done true
  action := .fail (.plain "refused")

/-- A field that is copied to another one, of which note is taken; callers cannot write the other one. -/
def relaySteps : List Registry.Step :=
  [.define "left" {}, .define "right" {}, .define "note" {}, .register "left" copiesOver, .register "left" takesNote,
    .register "right" refusesAll, .close]

def relay : Registry := Registry.build { entityName := "Relay" } relaySteps

theorem relay_ordinary : relay.HasOrdinaryNames := by
  unfold Registry.HasOrdinaryNames
  decide

def relayScene : Scene Values where
  ambient := stillness
  entity := { values := { own := [("left", .number 0), ("right", .null), ("note", .null)] }, phase := .ready }

theorem copiesOver_throughScope : copiesOver.ThroughScope where
  condition := trivial
  action := (Program.within_read (Set.mem_univ _)).bind fun _ =>
    (Program.within_write (Set.mem_univ _) _).bind fun _ => trivial

theorem takesNote_throughScope : takesNote.ThroughScope where
  condition := (Program.within_read (Set.mem_univ _)).bind fun _ => trivial
  action := (Program.within_write (Set.mem_univ _) _).bind fun _ => trivial

/-- Whether both hooks of the field fire, and what the first of them assigned stays although a caller could not have
written it. -/
def relays : Bool :=
  match set relay 1 "left" (.number 5) relayScene with
  | .ok report t => report.fired = ["copy-over", "take-note"] && t.entity.values.read "right" = .number 5 &&
      match set relay 1 "right" (.number 5) t with
      | .ok _ _ => false
      | .error thrown _ => thrown = .fault (.plain "refused")
  | .error _ _ => false

end Entity

end GovernedConfig
