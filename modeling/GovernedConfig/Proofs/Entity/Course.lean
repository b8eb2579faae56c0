import GovernedConfig.Proofs.Entity.Rollback
import GovernedConfig.Proofs.Moments

/-! # The course of an entity

The updates that are made of an entity one after another, and the scenes that hooks see while one of them
is made: their own and those of the updates that hooks make themselves.
-/

namespace GovernedConfig.Entity

open Act

theorem after_safeSet (r : Registry) (depth : Nat) (field : String) (v : Value) (s : Scene Values) :
    (safeSet r depth field v).after s = (set r depth field v).after s := by
  cases h : set r depth field v s with
  | ok report t => rw [after_of_ok h, after_of_ok (safeSet_of_ok h)]
  | error thrown t =>
    have hsafe := safeSet_of_error h
    rw [after_of_error h]
    cases hf : thrown.toFault with
    | ok cause =>
      rw [hf] at hsafe
      exact after_of_ok hsafe
    | error cause =>
      rw [hf] at hsafe
      exact after_of_error hsafe

/-- What an entity becomes by updates, each made to whatever depth and in whatever surroundings, and whether it
answers or throws. -/
inductive Later : Entity → Entity → Prop
  | now (e : Entity) : Later e e
  | set {e e' : Entity} (depth : Nat) (field : String) (v : Value) (m : Ambient) (current : Option Entity) :
      Later e e' →
        Later e { e' with state := ((set e'.registry depth field v).after ⟨m, e'.state, current⟩).entity }
  | safeSet {e e' : Entity} (depth : Nat) (field : String) (v : Value) (m : Ambient) (current : Option Entity) :
      Later e e' →
        Later e { e' with state := ((safeSet e'.registry depth field v).after ⟨m, e'.state, current⟩).entity }

theorem Later.keeps {P : Entity → Prop} {e e' : Entity} (h : Later e e') (he : P e)
    (hset : ∀ e' depth field v m current, Later e e' → P e' →
      P { e' with state := ((Entity.set e'.registry depth field v).after ⟨m, e'.state, current⟩).entity }) :
    P e' := by
  induction h with
  | now => exact he
  | @set e' depth field v m current h ih => exact hset e' depth field v m current h ih
  | @safeSet e' depth field v m current h ih =>
    rw [after_safeSet]
    exact hset e' depth field v m current h ih

theorem Later.registry_eq {e e' : Entity} (h : Later e e') : e'.registry = e.registry :=
  h.keeps (P := fun e' => e'.registry = e.registry) rfl fun _ _ _ _ _ _ _ ih => ih

theorem Reachable.later {e e' : Entity} (he : Reachable e) (h : Later e e') : Reachable e' :=
  h.keeps he fun _ depth field v m current _ ih => ih.updated depth field v m current

/-- An update gets past its check and runs the given hooks. -/
structure Dispatches (r : Registry) (field : String) (v : Value) (s : Scene Values) (hooks : List Hook) : Prop where
  ready : s.entity.phase.acceptsUpdates = true
  allowed : r.Allows (s.entity.values.read field) field .caller
  copyable : v.isCopyable = true
  hooks : r.hooksFor field .postUpdate = .ok hooks

/-- The scenes that hooks see while an update is made to some depth: those to which its own hooks come, and where
one of these makes an update of the same entity, those that hooks see meanwhile. -/
inductive Sees (r : Registry) : (depth : Nat) → String → Value → Scene Values → Scene Values → Prop
  | own {depth : Nat} {field : String} {v : Value} {s t : Scene Values} {hooks : List Hook}
      {pending : Option (String × Value)} : Dispatches r field v s hooks →
        Lifecycle.Comes r (scope depth r) field .postUpdate hooks (s.written field v) pending t →
          Sees r depth field v s t
  | nested {depth : Nat} {field other : String} {v w : Value} {s t u : Scene Values} {hooks : List Hook} :
      Dispatches r field v s hooks →
        Lifecycle.Comes r (scope (depth + 1) r) field .postUpdate hooks (s.written field v) (some (other, w)) t →
          t.current = none → Sees r depth other w t u → Sees r (depth + 1) field v s u

/-- What writes, rollbacks and visits keep holds between the start of an update and whatever hooks see. -/
theorem Sees.keeps {R : Scene Values → Scene Values → Prop} [Scene.Frame R] {r : Registry} (hR : Tolerates r R)
    {depth : Nat} {field : String} {v : Value} {s t : Scene Values} (h : Sees r depth field v s t) : R s t := by
  induction h with
  | own hd hc => exact IsTrans.trans _ _ _ (hR.written _ _ _ _ hd.allowed hd.copyable) (hc.keeps (scope_keeps hR _))
  | nested hd hc _ _ ih =>
    exact IsTrans.trans _ _ _ (hR.written _ _ _ _ hd.allowed hd.copyable)
      (IsTrans.trans _ _ _ (hc.keeps (scope_keeps hR _)) ih)

end GovernedConfig.Entity
