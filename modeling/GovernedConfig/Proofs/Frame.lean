import GovernedConfig.Lifecycle
import GovernedConfig.Proofs.Journal

/-! # What dispatches keep

A relation between scenes that every request of a hook program keeps is kept by whole programs, and
from there by every dispatch, however its hooks end.
-/

namespace GovernedConfig

variable {ν α : Type}

/-- A relation between an earlier and a later scene that traces in the surroundings do not touch. -/
class Scene.Frame (R : Scene ν → Scene ν → Prop) : Prop extends Std.Refl R, IsTrans (Scene ν) R where
  around : ∀ s m, s.ambient.Steady m → R s { s with ambient := m }

/-- Between two moments nothing happened to the surroundings but traces. -/
def Scene.Steady (s t : Scene ν) : Prop := s.ambient.Steady t.ambient

instance : Scene.Frame (Scene.Steady (ν := ν)) where
  refl s := Std.Refl.refl s.ambient
  trans s t u := IsTrans.trans s.ambient t.ambient u.ambient
  around _ _ h := h

/-- A relation between an earlier and a later scene that traces in the surroundings do not touch, as long as none gets
lost from the journal. -/
class Scene.Trail (R : Scene ν → Scene ν → Prop) : Prop extends Std.Refl R, IsTrans (Scene ν) R where
  around : ∀ s m, s.ambient.GrowsTo m → R s { s with ambient := m }

instance {R : Scene ν → Scene ν → Prop} [Scene.Frame R] : Scene.Trail R where
  refl := Std.Refl.refl
  trans := IsTrans.trans
  around s m h := Scene.Frame.around s m h.toSteady

def Scene.GrowsTo (s t : Scene ν) : Prop := s.ambient.GrowsTo t.ambient

instance : Scene.Trail (Scene.GrowsTo (ν := ν)) where
  refl s := Std.Refl.refl s.ambient
  trans s t u := IsTrans.trans s.ambient t.ambient u.ambient
  around _ _ h := h

/-- Every request in a scope keeps a relation. -/
structure Scope.Keeps (scope : Scope ν) (R : Scene ν → Scene ν → Prop) : Prop where
  get : ∀ field, (scope.get field).Keeps R
  assign : ∀ field source, (scope.assign field source).Keeps R
  push : ∀ field source, (scope.push field source).Keeps R
  set : ∀ field v, (scope.set field v).Keeps R

namespace Scene

@[simp] theorem values_eq (s : Scene ν) : values s = .ok s.entity.values s := rfl

@[simp] theorem putValues_eq (vs : ν) (s : Scene ν) :
    putValues vs s = .ok () { s with entity := { s.entity with values := vs } } := rfl

theorem around_eq_ok_iff {act : Act Ambient α} {s t : Scene ν} {a : α} :
    around act s = .ok a t ↔ ∃ m, act s.ambient = .ok a m ∧ t = { s with ambient := m } :=
  Act.within_eq_ok_iff

theorem around_eq_error_iff {act : Act Ambient α} {s t : Scene ν} {thrown : Thrown} :
    around act s = .error thrown t ↔ ∃ m, act s.ambient = .error thrown m ∧ t = { s with ambient := m } :=
  Act.within_eq_error_iff

theorem around_keeps {R : Scene ν → Scene ν → Prop} [Trail R] {act : Act Ambient α}
    (h : act.Keeps Ambient.GrowsTo) : (around act).Keeps R :=
  h.within fun s m hm => Scene.Trail.around s m hm

theorem values_keeps {R : Scene ν → Scene ν → Prop} [Std.Refl R] : (values (ν := ν)).Keeps R :=
  fun s => Std.Refl.refl s

end Scene

open Act

variable {R : Scene ν → Scene ν → Prop} [Scene.Trail R] {scope : Scope ν}

namespace Program

theorem answer_keeps {β : Type} {request : Act (Scene ν) α}
    {next : Except Thrown α → Act (Scene ν) β} (h : request.Keeps R) (hn : ∀ r, (next r).Keeps R) :
    (answer request next).Keeps R := by
  intro s
  cases hs : request s with
  | ok a t =>
    have hb : (answer request next).after s = (next (.ok a)).after t := by simp only [after, answer, hs]
    rw [hb]
    exact IsTrans.trans _ _ _ (h.of_ok hs) (hn _ t)
  | error thrown t =>
    have hb : (answer request next).after s = (next (.error thrown)).after t := by
      simp only [after, answer, hs]
    rw [hb]
    exact IsTrans.trans _ _ _ (h.of_error hs) (hn _ t)

theorem run_keeps (hs : scope.Keeps R) (may : Bool) (p : Program α) :
    (p.run scope may).Keeps R := by
  induction p with
  | done a => exact keeps_pure a
  | raise thrown => exact keeps_throw thrown
  | get field next ih => exact answer_keeps (hs.get field) ih
  | assign field source next ih =>
    refine answer_keeps ?_ ih
    split
    · exact hs.assign field source
    · exact keeps_fail _
  | push field source next ih => exact answer_keeps (hs.push field source) ih
  | set field v next ih => exact answer_keeps (hs.set field v) ih
  | seconds next ih => exact keeps_get.bind fun s => ih _
  | mark text next ih =>
    exact (keeps_modify fun s => Scene.Trail.around s _ (Ambient.growsTo_traces ..)).bind fun _ => ih
  | mayAssign next ih => exact ih may

end Program

structure Hook.Keeps (h : Hook) (scope : Scope ν) (R : Scene ν → Scene ν → Prop) : Prop where
  condition : (h.condition.run scope false).Keeps R
  action : (h.action.run scope (h.kind == .update)).Keeps R

theorem Scope.Keeps.hook (hs : scope.Keeps R) (h : Hook) : h.Keeps scope R :=
  ⟨Program.run_keeps hs _ _, Program.run_keeps hs _ _⟩

namespace Lifecycle

variable (r : Registry)

theorem invoke_keeps {h : Hook} (hh : h.Keeps scope R) : (invoke scope h).Keeps R := by
  apply hh.action.bind
  intro completion
  cases completion with
  | finished => exact keeps_pure _
  | deferred failure =>
    cases failure with
    | none => exact keeps_fail _
    | some thrown =>
      refine (keeps_modify fun s => ?_).bind fun _ => keeps_fail _
      exact Scene.Trail.around s _ (Ambient.growsTo_traces ..)

theorem names_keeps : (names r scope).Keeps R := by
  exact Scene.values_keeps.bind fun _ => keeps_pure _

theorem runHook_keeps {h : Hook} (hh : h.Keeps scope R) (field : String) (t : Trigger) :
    (runHook r scope field t h).Keeps R := by
  apply hh.condition.bind
  intro holds
  split
  · refine Act.Keeps.bind ((invoke_keeps hh).tryCatch fun thrown => ?_) fun _ => keeps_pure _
    exact (names_keeps r).bind fun _ =>
      (Scene.around_keeps (Journal.write_grows _ _ _ _)).bind fun _ => keeps_throw _
  · exact keeps_pure _

theorem runEach_keeps (hs : scope.Keeps R) (field : String) (t : Trigger)
    (hooks : List Hook) (report : Report) : (runEach r scope field t hooks report).Keeps R := by
  induction hooks generalizing report with
  | nil => exact keeps_pure _
  | cons h hooks ih => exact (runHook_keeps r (hs.hook h) field t).bind fun _ => ih _

theorem runHooks_keeps (hs : scope.Keeps R) (field : String) (t : Trigger)
    (hooks : List Hook) : (runHooks r scope field t hooks).Keeps R := by
  apply (runEach_keeps r hs field t hooks _).bind
  intro report
  split
  · exact (names_keeps r).bind fun _ =>
      (Scene.around_keeps (Journal.write_grows _ _ _ _)).bind fun _ => keeps_pure _
  · exact keeps_pure _

theorem requireReady_eq_ok_iff {s t : Scene ν} {u : Unit} :
    requireReady s = .ok u t ↔ s.entity.phase.acceptsUpdates = true ∧ s = t := by
  unfold requireReady
  rw [bind_of_ok (get_eq s)]
  cases s.entity.phase.acceptsUpdates <;> simp

theorem requireReady_of_error {s t : Scene ν} {thrown : Thrown} (h : requireReady s = .error thrown t) :
    t = s := by
  unfold requireReady at h
  rw [bind_of_ok (get_eq s)] at h
  cases hp : s.entity.phase.acceptsUpdates with
  | true => simp [hp] at h
  | false =>
    simp only [hp, Bool.false_eq_true, if_false, fail_eq] at h
    cases h
    rfl

theorem requireReady_keeps : (requireReady (ν := ν)).Keeps R := by
  refine keeps_get.bind fun s => ?_
  split
  · exact keeps_pure _
  · exact keeps_fail _

theorem dispatchUpdate_keeps (hs : scope.Keeps R) (field : String) :
    (dispatchUpdate r scope field).Keeps R := by
  exact requireReady_keeps.bind fun _ => (keeps_ofExcept _).bind fun hooks =>
    runHooks_keeps r hs field .postUpdate hooks

end Lifecycle

end GovernedConfig
