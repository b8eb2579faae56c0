import GovernedConfig.Proofs.Entity.Construction
import GovernedConfig.Store.Storage

/-! # Failures of the store

Only operations of a store throw failures of the store: rebuilding an infra config from a text fails with
what the text or the journal is guilty of.
-/

namespace GovernedConfig

def Thrown.IsOutage (thrown : Thrown) : Prop := ∃ operation id reason, thrown = .fault (.store operation id reason)

def Act.NoOutage {σ α : Type} (act : Act σ α) : Prop := act.Throws fun thrown => ¬ thrown.IsOutage

open Act

theorem Journal.write_noOutage (level : Level) (phase message data : Value) :
    (write level phase message data).NoOutage :=
  (write_throws level phase message data).mono fun h => by cases h <;> simp [Thrown.IsOutage]

namespace Entity

theorem construct_noOutage (r : Registry) (depth : Nat) (init : Value) : (construct r depth init).NoOutage := by
  have hvalues : (Scene.values (ν := Values)).NoOutage := throws_get.bind fun _ => throws_pure _
  have hjournal : ∀ level phase message data,
      (Scene.around (ν := Values) (Journal.write level phase message data)).NoOutage :=
    fun level phase message data => (Journal.write_noOutage level phase message data).within
  refine Throws.bind (Throws.tryCatch fun thrown => ?_) fun _ => hvalues.bind fun _ => hjournal _ _ _ _
  refine (throws_ofExcept fun cause h => ?_).bind fun _ => hvalues.bind fun _ => (hjournal _ _ _ _).bind fun _ =>
    throws_fail (by simp [Thrown.IsOutage])
  cases thrown with
  | fault cause => cases h
  | value v =>
    rw [Thrown.toFault] at h
    cases hv : v.toText? with
    | some text => simp [hv] at h
    | none =>
      rw [hv] at h
      cases h
      simp [Thrown.IsOutage]

theorem create_noOutage (r : Registry) (init : Value) : (create r init).NoOutage := by
  refine Throws.within fun (m, current) thrown t h => ?_
  unfold createBeside at h
  cases hc : construct r nesting init { ambient := m, entity := { values := {} }, current } with
  | ok _ s => simp [hc] at h
  | error cause s =>
    simp only [hc] at h
    cases h
    exact construct_noOutage r nesting init _ _ _ hc

end Entity

namespace InfraConfig

theorem deserialize_noOutage (text : String) : (deserialize text).NoOutage := by
  unfold deserialize
  split
  · refine Throws.bind ?_ fun w => Entity.create_noOutage registry w
    unfold parseFields
    split
    · exact throws_pure _
    · exact (Journal.write_noOutage _ _ _ _).bind fun _ => throws_fail (by simp [Thrown.IsOutage])
  · exact throws_fail (by simp [Thrown.IsOutage])

end InfraConfig

end GovernedConfig
