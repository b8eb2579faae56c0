import GovernedConfig.Proofs.Entity.Update

/-! # Programs in the scope of an entity

What the requests of a program come to when the program runs in the scope of an entity, to whatever
depth that scope may write the entity anew.
-/

namespace GovernedConfig

open Act

theorem Entity.read_eq_ok_iff {r : Registry} {vs : Values} {field : String} {v : Value} :
    Entity.read r vs field = .ok v ↔
      r.isDeclared field = true ∧ vs.read field = v ∧ v ≠ .undefined ∧ v.isCopyable = true := by
  unfold Entity.read
  cases r.isDeclared field with
  | false => simp
  | true =>
    dsimp only
    by_cases hu : vs.read field = .undefined
    · simp only [hu, Bool.not_true, Bool.false_eq_true, if_false, if_true, reduceCtorEq, false_iff]
      rintro ⟨-, rfl, h, -⟩
      exact h rfl
    · cases hc : (vs.read field).isCopyable with
      | false =>
        simp only [hu, Bool.not_true, Bool.not_false, Bool.false_eq_true, if_false, if_true, reduceCtorEq,
          false_iff]
        rintro ⟨-, rfl, -, h⟩
        rw [hc] at h
        cases h
      | true =>
        simp only [hu, Bool.not_true, Bool.false_eq_true, if_false, Except.ok.injEq, true_and]
        constructor
        · rintro rfl
          exact ⟨rfl, hu, hc⟩
        · exact And.left

theorem Entity.read_write_of_ne {r : Registry} {vs : Values} {field other : String} (h : field ≠ "__proto__")
    (ho : other ≠ field) (v : Value) : Entity.read r (vs.write field v) other = Entity.read r vs other := by
  unfold Entity.read
  rw [Values.read_write_of_ne vs h ho]

theorem Entity.get_eq_ok_iff {r : Registry} {field : String} {v : Value} {s t : Scene Values} :
    Entity.get r field s = .ok v t ↔ Entity.read r s.entity.values field = .ok v ∧ s = t := by
  unfold Entity.get
  rw [bind_of_ok (Scene.values_eq s), ofExcept_eq_ok_iff]

namespace Program

variable {ν α β : Type}

section Runs

variable {scope : Scope ν} {may : Bool} {s t : Scene ν}

theorem run_bind_eq_ok_iff {p : Program α} {f : α → Program β} {b : β} :
    (p >>= f).run scope may s = .ok b t ↔
      ∃ a u, p.run scope may s = .ok a u ∧ (f a).run scope may u = .ok b t := by
  rw [show p >>= f = p.bind f from rfl, run_bind, bind_eq_ok_iff]

theorem run_bind_of_ok {p : Program α} {a : α} (h : p.run scope may s = .ok a t) (f : α → Program β) :
    (p >>= f).run scope may s = (f a).run scope may t := by
  rw [show p >>= f = p.bind f from rfl, run_bind, bind_of_ok h]

@[simp] theorem run_pure_eq_ok_iff {a b : α} :
    (pure a : Program α).run scope may s = .ok b t ↔ a = b ∧ s = t := pure_eq_ok_iff

@[simp] theorem run_fail_eq_ok_iff {cause : Fault} {a : α} :
    (fail cause : Program α).run scope may s = .ok a t ↔ False := by
  simp [fail, run]

@[simp] theorem run_suitable_eq_ok_iff {found : Option α} {a : α} :
    (suitable found).run scope may s = .ok a t ↔ found = some a ∧ s = t := by
  cases found with
  | none => simp [suitable]
  | some b => exact (pure_eq_ok_iff (a := b)).trans (by simp)

@[simp] theorem run_now_eq_ok_iff {x : Binary64} :
    now.run scope may s = .ok x t ↔ s.ambient.seconds = x ∧ s = t := by
  unfold now run
  rw [bind_of_ok (get_eq s)]
  exact pure_eq_ok_iff

theorem answer_orRaise (request : Act (Scene ν) α) :
    (answer request fun r => (orRaise r).run scope may) = request := by
  funext s
  unfold answer
  cases request s <;> rfl

end Runs

variable {r : Registry} {depth : Nat} {may : Bool} {s t : Scene Values}

theorem scope_get (depth : Nat) (r : Registry) : (Entity.scope depth r).get = Entity.get r := by
  cases depth <;> rfl

theorem scope_assign_value (depth : Nat) (r : Registry) (field : String) (v : Value) :
    (Entity.scope depth r).assign field (.value v) = Entity.write r field v .hook := by
  cases depth <;> rfl

@[simp] theorem run_read_eq_ok_iff {field : String} {v : Value} :
    (read field).run (Entity.scope depth r) may s = .ok v t ↔
      Entity.read r s.entity.values field = .ok v ∧ s = t := by
  unfold read run
  rw [answer_orRaise, scope_get]
  exact Entity.get_eq_ok_iff

@[simp] theorem run_write_eq_ok_iff {field : String} {v : Value} {u : Unit} :
    (write field v).run (Entity.scope depth r) true s = .ok u t ↔
      r.Allows (s.entity.values.read field) field .hook ∧ v.isCopyable = true ∧ t = s.written field v := by
  unfold write run
  rw [if_pos rfl, answer_orRaise, scope_assign_value]
  exact Entity.write_eq_ok_iff r

end Program

end GovernedConfig
