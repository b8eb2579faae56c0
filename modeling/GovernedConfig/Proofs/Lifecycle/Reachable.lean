import GovernedConfig.BareFields
import GovernedConfig.Proofs.Entity.Rollback
import GovernedConfig.Proofs.Lifecycle.Agenda
import GovernedConfig.Proofs.Lifecycle.Evaluation

/-! # Completing construction, and trying again

Whatever was called before, construction is complete once every hook on its agenda has passed, and then
for good. Until then nothing is recorded, and construction can be tried again from the start.
-/

namespace GovernedConfig

open Act

namespace Lifecycle

variable {ν : Type} {r : Registry} {scope : Scope ν} {s t : Scene ν} {thrown : Thrown} {reports : List Report}

/-- The states that calls lead to. The hooks that run in a call act through a scope that leaves the phase
alone, and so does whatever happens between two calls. -/
inductive Reachable (r : Registry) : Scene ν → Prop
  | fresh {s : Scene ν} : s.entity.phase = .constructing → s.entity.history = [] → Still s → Reachable r s
  | meanwhile {s t : Scene ν} : Reachable r s → Undisturbed s t → Reachable r t
  | completed {s : Scene ν} (scope : Scope ν) : scope.Keeps Undisturbed → Reachable r s →
      Reachable r ((completeConstruction r scope).after s)
  | updated {s : Scene ν} (scope : Scope ν) (field : String) : scope.Keeps Undisturbed → Reachable r s →
      Reachable r ((dispatchUpdate r scope field).after s)

structure IsOpen (s : Scene ν) : Prop where
  phase : s.entity.phase = .constructing
  history : s.entity.history = []

/-- An entity that got ready, once and by the only way there is. -/
structure IsReady (s : Scene ν) : Prop where
  phase : s.entity.phase = .ready
  history : ∃ stamp, s.entity.history = [⟨.constructing, .ready, stamp⟩]

theorem IsOpen.of_undisturbed (hs : IsOpen s) (h : Undisturbed s t) : IsOpen t :=
  ⟨h.phase.trans hs.phase, h.history.trans hs.history⟩

theorem IsReady.of_undisturbed (hs : IsReady s) (h : Undisturbed s t) : IsReady t := by
  obtain ⟨hp, stamp, hh⟩ := hs
  exact ⟨h.phase.trans hp, stamp, h.history.trans hh⟩

theorem transition_of_still (r : Registry) (scope : Scope ν) (target : Phase) (hs : Still s) :
    ∃ stamp, transition r scope target s =
      .ok () { s with entity := { s.entity with
        phase := target, history := s.entity.history ++ [⟨s.entity.phase, target, stamp⟩] } } := by
  obtain ⟨stamp, hstamp⟩ := exists_stamp hs.2
  refine ⟨stamp, ?_⟩
  unfold transition
  rw [bind_of_ok (get_eq s), bind_of_ok hstamp, bind_of_ok (modify_eq _ _), bind_of_ok (names_eq r scope _)]
  exact Still.around_debug (by exact hs) ..

theorem evaluateAll_of_completeConstruction (hscope : scope.Keeps Undisturbed) (hs : Still s)
    (h : completeConstruction r scope s = .ok reports t) :
    ∃ fired u stamp, evaluateAll scope (schedule r.fields []) s = .ok fired u ∧
      t = { u with entity := { u.entity with
        phase := .ready, history := u.entity.history ++ [⟨u.entity.phase, .ready, stamp⟩] } } ∧
      Tells reports (schedule r.fields []) fired ∧ (reports.map Report.field).Sublist r.fieldNames := by
  obtain ⟨-, u, hu, ht⟩ := completeConstruction_eq_ok h
  obtain ⟨more, fired, rfl, hf, htells, hfields⟩ := evaluateAll_of_runConstruction hscope hs hu
  obtain ⟨stamp, hready⟩ := transition_of_still r scope .ready (((evaluateAll_keeps hscope _).of_ok hf).still hs)
  rw [ht] at hready
  cases hready
  exact ⟨fired, u, stamp, hf, rfl, htells, hfields⟩

theorem failsWithin_of_completeConstruction (hscope : scope.Keeps Undisturbed) (hs : Still s)
    (hp : s.entity.phase = .constructing) (h : completeConstruction r scope s = .error thrown t) :
    FailsWithin scope (schedule r.fields []) s thrown t := by
  unfold completeConstruction at h
  rw [bind_of_ok (get_eq s), hp, if_neg (by decide)] at h
  rcases bind_eq_error_iff.mp h with h | ⟨_, u, hu, h⟩
  · exact failsWithin_of_runConstruction hscope hs h
  · have hsilent : Still u := ((runConstruction_keeps r hscope _ _ _).of_ok hu).still hs
    obtain ⟨stamp, hready⟩ := transition_of_still r scope .ready hsilent
    rw [bind_of_ok hready] at h
    cases h

theorem completeConstruction_of_ready (hs : s.entity.phase = .ready) :
    completeConstruction r scope s = .error (.fault (.illegalTransition .ready .ready)) s := by
  unfold completeConstruction
  rw [bind_of_ok (get_eq s), hs]
  rfl

theorem dispatchUpdate_of_constructing (hs : s.entity.phase = .constructing) (field : String) :
    dispatchUpdate r scope field s = .error (.fault (.wrongPhase .ready .constructing)) s := by
  refine bind_of_error ?_ _
  unfold requireReady
  rw [bind_of_ok (get_eq s), hs]
  rfl

theorem FailsWithin.undisturbed {agenda : List (String × Hook)} (hscope : scope.Keeps Undisturbed)
    (h : FailsWithin scope agenda s thrown t) : Undisturbed s t := by
  obtain ⟨former, b, later, fired, u, -, hu, hb⟩ := h
  exact IsTrans.trans _ _ _ ((evaluateAll_keeps hscope former).of_ok hu) ((evaluate_keeps hscope b.2).of_error hb)

theorem after_completeConstruction (hscope : scope.Keeps Undisturbed) (hs : Still s) (ho : IsOpen s) :
    Still ((completeConstruction r scope).after s) ∧
      (IsOpen ((completeConstruction r scope).after s) ∨ IsReady ((completeConstruction r scope).after s)) := by
  cases h : completeConstruction r scope s with
  | ok reports t =>
    obtain ⟨fired, u, stamp, hf, rfl, -⟩ := evaluateAll_of_completeConstruction hscope hs h
    have hu : Undisturbed s u := (evaluateAll_keeps hscope _).of_ok hf
    obtain ⟨hphase, hhistory⟩ := ho.of_undisturbed hu
    rw [after_of_ok h]
    exact ⟨hu.still hs, .inr ⟨rfl, stamp, by simp [hphase, hhistory]⟩⟩
  | error thrown t =>
    have ht := (failsWithin_of_completeConstruction hscope hs ho.phase h).undisturbed hscope
    rw [after_of_error h]
    exact ⟨ht.still hs, .inl (ho.of_undisturbed ht)⟩

/-- Whatever was called, an entity has no history while it is constructing, and got ready once otherwise. -/
theorem Reachable.isOpen_or_isReady (h : Reachable r s) : Still s ∧ (IsOpen s ∨ IsReady s) := by
  induction h with
  | fresh hp hh hs => exact ⟨hs, .inl ⟨hp, hh⟩⟩
  | meanwhile _ hst ih => exact ⟨hst.still ih.1, ih.2.imp (·.of_undisturbed hst) (·.of_undisturbed hst)⟩
  | @completed s scope hscope _ ih =>
    obtain ⟨hs, ho | hr⟩ := ih
    · exact after_completeConstruction hscope hs ho
    · rw [after_of_error (completeConstruction_of_ready hr.phase)]
      exact ⟨hs, .inr hr⟩
  | @updated s scope field hscope _ ih =>
    have hu : Undisturbed s _ := dispatchUpdate_keeps r hscope field s
    exact ⟨hu.still ih.1, ih.2.imp (·.of_undisturbed hu) (·.of_undisturbed hu)⟩

/-- Construction evaluates the hooks that answer to its trigger once each, at the first field that they
watch, in the order of declaration and registration. If all of them pass, it reports on the fields where
it evaluated some and is complete; if one throws, it throws the same, evaluates no other, and nothing is
recorded. Until it is complete, updates are refused. Once it is, it cannot be completed again. -/
theorem construction_evaluates_agenda {empty : Registry} (he : empty.fields = []) (steps : List Registry.Step)
    (ha : (empty.build steps).TellsApart) (hs : Reachable (empty.build steps) s) (hscope : scope.Keeps Undisturbed) :
    let r := empty.build steps
    let agenda := schedule r.fields []
    IsAgenda (Registry.bindings .postInit r.fields) agenda ∧
      (IsOpen s ∧
          (∀ reports t, completeConstruction r scope s = .ok reports t →
            ∃ fired u stamp, evaluateAll scope agenda s = .ok fired u ∧
              t = { u with entity := { u.entity with
                phase := .ready, history := [⟨.constructing, .ready, stamp⟩] } } ∧
              Tells reports agenda fired ∧ (reports.map Report.field).Sublist r.fieldNames) ∧
          (∀ thrown t, completeConstruction r scope s = .error thrown t →
            FailsWithin scope agenda s thrown t ∧ IsOpen t) ∧
          (∀ field, dispatchUpdate r scope field s = .error (.fault (.wrongPhase .ready .constructing)) s) ∨
        IsReady s ∧ completeConstruction r scope s = .error (.fault (.illegalTransition .ready .ready)) s) := by
  intro r agenda
  refine ⟨isAgenda_schedule ((Registry.IsTidy.of_no_fields he).build steps) ha, ?_⟩
  obtain ⟨hstill, ho | hr⟩ := hs.isOpen_or_isReady
  · refine .inl ⟨ho, fun reports t h => ?_, fun thrown t h => ?_, dispatchUpdate_of_constructing ho.phase⟩
    · obtain ⟨fired, u, stamp, hf, rfl, htells, hfields⟩ := evaluateAll_of_completeConstruction hscope hstill h
      obtain ⟨hphase, hhistory⟩ := ho.of_undisturbed ((evaluateAll_keeps hscope _).of_ok hf)
      exact ⟨fired, u, stamp, hf, by simp [hphase, hhistory], htells, hfields⟩
    · have hfails := failsWithin_of_completeConstruction hscope hstill ho.phase h
      exact ⟨hfails, ho.of_undisturbed (hfails.undisturbed hscope)⟩
  · exact .inr ⟨hr, completeConstruction_of_ready hr.phase⟩

end Lifecycle

section Scopes

open Lifecycle

theorem Entity.tolerates_undisturbed (r : Registry) : Tolerates r Undisturbed :=
  ⟨fun s _ _ _ _ _ => undisturbed_values s _, fun _ _ h => ⟨h.phase, h.history, h.still⟩, fun _ _ => .of_entity⟩

theorem Entity.scope_undisturbed (depth : Nat) (r : Registry) : (scope depth r).Keeps Undisturbed :=
  scope_keeps (tolerates_undisturbed r) depth

namespace BareFields

theorem onShelf_keeps {α : Type} (act : Shelf → α × Shelf) : (onShelf act).Keeps Ambient.GrowsTo :=
  fun _ => Ambient.growsTo_traces ..

theorem slot_keeps (field : String) : (slot field).Keeps Undisturbed :=
  Scene.values_keeps.bind fun _ => (keeps_get.bind fun _ => keeps_pure _).bind fun _ => keeps_suitable _

theorem evaluate_keeps : ∀ source : Source, (evaluate source).Keeps Undisturbed
  | .value _ => Scene.around_keeps (onShelf_keeps _)
  | .constant _ _ => Scene.around_keeps (onShelf_keeps _)
  | .held field => slot_keeps field
  | .extended field last => (slot_keeps field).bind fun _ => (keeps_get.bind fun _ => keeps_pure _).bind fun _ =>
      (keeps_suitable _).bind fun _ => (evaluate_keeps last).bind fun _ => Scene.around_keeps (onShelf_keeps _)

theorem scope_undisturbed (label : String) : (scope label).Keeps Undisturbed where
  get field := (slot_keeps field).bind fun _ => (keeps_get.bind fun _ => keeps_pure _).bind fun _ => keeps_pure _
  assign field source := (evaluate_keeps source).bind fun _ => Scene.values_keeps.bind fun _ =>
    (keeps_get.bind fun _ => keeps_pure _).bind fun _ => (keeps_suitable _).bind fun _ =>
      (undisturbed_values · _)
  push field source := (slot_keeps field).bind fun _ => (evaluate_keeps source).bind fun _ =>
    (keeps_get.bind fun _ => keeps_pure _).bind fun _ => (keeps_suitable _).bind fun _ =>
      Scene.around_keeps (keeps_modify fun _ => Ambient.growsTo_traces ..)
  set field v := keeps_get.bind fun scene => by
    split
    · exact keeps_fail _
    · rename_i e _
      exact (Entity.set_keeps (Entity.tolerates_steady e.registry) Entity.nesting field v).within fun _ _ h =>
        .of_entity rfl h

end BareFields

end Scopes

namespace Lifecycle

def indifference : Hook where
  key := 0
  id := "order"
  kind := .generic
  triggers := [.postInit, .postUpdate]
  condition := .done true
  action := .done .finished

def completeness : Hook where
  key := 1
  id := "filled"
  kind := .generic
  triggers := [.postInit]
  condition := .done true
  action := do
    if (← Program.read "right").isPresent then pure .finished
    else Program.fail (.plain "right is missing")

/-- The hook that watches both fields is registered once too often for the left one. -/
def pairSteps : List Registry.Step :=
  [.define "left" {}, .define "right" {}, .register "left" indifference, .register "right" indifference,
    .register "left" indifference, .register "right" completeness, .close]

def pair : Registry := ({ entityName := "Pair" } : Registry).build pairSteps

theorem pair_tellsApart : pair.TellsApart := by
  have hhooks : pair.fields.flatMap FieldSpec.hooks = [indifference, indifference, completeness] := rfl
  intro h hh other ho he
  rw [hhooks] at hh ho
  simp only [List.mem_cons, List.not_mem_nil, or_false] at hh ho
  rcases hh with rfl | rfl | rfl <;> rcases ho with rfl | rfl | rfl <;> first | rfl | cases he

def emptyPair : Scene BareFields := { ambient := Entity.stillness, entity := { values := {} } }

def mendedPair : Scene BareFields :=
  let s := (completeConstruction pair (BareFields.scope "pair")).after emptyPair
  { s with entity := { s.entity with values := { own := [("right", .own (.number 2))] } } }

theorem reachable_mendedPair : Reachable pair mendedPair := by
  have hstill : Still emptyPair := ⟨by exact rfl, Entity.stillness_dated⟩
  exact .meanwhile (.completed _ (BareFields.scope_undisturbed "pair") (.fresh rfl rfl hstill)) (undisturbed_values _ _)

def completes (s : Scene BareFields) (expected : List Report) : Bool :=
  match completeConstruction pair (BareFields.scope "pair") s with
  | .ok reports _ => reports = expected
  | .error _ _ => false

theorem completes_iff {s : Scene BareFields} {expected : List Report} :
    completes s expected = true ↔ ∃ t, completeConstruction pair (BareFields.scope "pair") s = .ok expected t := by
  unfold completes
  cases completeConstruction pair (BareFields.scope "pair") s <;> simp

/-- A second attempt evaluates both hooks from the start, and the one that watches both fields once. -/
theorem mended_pair_gets_ready :
    ∃ t fired u stamp, completeConstruction pair (BareFields.scope "pair") mendedPair =
        .ok [⟨"left", .postInit, ["order"], ["order"]⟩, ⟨"right", .postInit, ["filled"], ["filled"]⟩] t ∧
      evaluateAll (BareFields.scope "pair") (schedule pair.fields []) mendedPair = .ok fired u ∧
      t.entity.phase = .ready ∧ t.entity.history = [⟨.constructing, .ready, stamp⟩] := by
  obtain ⟨t, ht⟩ := completes_iff.mp (by decide +kernel : completes mendedPair
    [⟨"left", .postInit, ["order"], ["order"]⟩, ⟨"right", .postInit, ["filled"], ["filled"]⟩] = true)
  obtain ⟨-, ⟨-, hok, -⟩ | ⟨-, hrefused⟩⟩ := construction_evaluates_agenda
    (show ({ entityName := "Pair" } : Registry).fields = [] from rfl) pairSteps pair_tellsApart reachable_mendedPair
    (BareFields.scope_undisturbed "pair")
  · obtain ⟨fired, u, stamp, hf, rfl, -⟩ := hok _ t ht
    exact ⟨_, fired, u, stamp, ht, hf, rfl, rfl⟩
  · cases ht.symm.trans hrefused

end Lifecycle

end GovernedConfig
