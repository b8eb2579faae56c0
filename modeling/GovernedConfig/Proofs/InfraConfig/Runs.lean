import GovernedConfig.Proofs.Entity.Rollback
import GovernedConfig.Proofs.InfraConfig.Updates

/-! # Runs of an infra config

A run is a row of turns, each a call at some reading of the clock. A call writes one field and all that
its hooks write with it, or it changes nothing.
-/

namespace GovernedConfig.InfraConfig

open Act

inductive Call where
  | set (field : String) (v : Value)
  | safeSet (field : String) (v : Value)
  | updateStatus (status : Value)
  | addStageInstance (stage : Value)

namespace Call

/-- Makes a call and tells whether it wrote. -/
def act (depth : Nat) : Call → Act (Scene Values) Bool
  | set field v => do
    let _ ← Entity.set registry depth field v
    pure true
  | safeSet field v => do pure (← Entity.safeSet registry depth field v).isOk
  | updateStatus status => do
    InfraConfig.updateStatus depth status
    pure true
  | addStageInstance stage => do
    InfraConfig.addStageInstance depth stage
    pure true

def write? (vs : Values) : Call → Option (String × Value)
  | set field v => some (field, v)
  | safeSet field v => some (field, v)
  | updateStatus status => some ("status", status)
  | addStageInstance stage => (vs.read "instances").walk?.map fun items => ("instances", .list (items ++ [stage]))

end Call

/-- A call at a reading of the clock in whole milliseconds. -/
structure Turn where
  clock : Binary64
  call : Call
  whole : clock.isInteger = true

namespace Turn

def start (turn : Turn) (s : Scene Values) : Scene Values :=
  { s with ambient := { s.ambient with clock := turn.clock } }

/-- The scene after a turn, whether its call answers or throws. -/
def next (depth : Nat) (s : Scene Values) (turn : Turn) : Scene Values :=
  (turn.call.act depth).after (turn.start s)

end Turn

def play (depth : Nat) (turns : List Turn) (s : Scene Values) : Scene Values := turns.foldl (Turn.next depth) s

section Turns

variable {depth : Nat} {s : Scene Values}

theorem ordinary : registry.HasOrdinaryNames := by
  unfold Registry.HasOrdinaryNames
  decide

/-- What a call does to an infra config: it makes the write that it stands for, or it changes nothing. -/
def Call.Outcome (depth : Nat) (call : Call) (s : Scene Values) : Prop :=
  (∃ field v report t, call.write? s.entity.values = some (field, v) ∧
      Entity.set registry depth field v s = .ok report t ∧ call.act depth s = .ok true t) ∨
    ((call.act depth).after s).entity = s.entity ∧ ∀ t, call.act depth s ≠ .ok true t

theorem outcome_of_error {call : Call} {thrown : Thrown} {t : Scene Values} (he : t.entity = s.entity)
    (h : call.act depth s = .error thrown t) : call.Outcome depth s := by
  refine .inr ⟨?_, fun t ht => ?_⟩
  · rw [after_of_error h, he]
  · rw [h] at ht
    cases ht

theorem Call.outcome_safeSet (depth : Nat) (hs : s.entity.values.IsPlain) (field : String) (v : Value) :
    (Call.safeSet field v).Outcome depth s := by
  cases h : Entity.set registry depth field v s with
  | ok report t => exact .inl ⟨field, v, report, t, rfl, h, by rw [act, bind_of_ok (Entity.safeSet_of_ok h)]; rfl⟩
  | error thrown t =>
    have he := Entity.entity_of_set_error hs h
    have hsafe := Entity.safeSet_of_error h
    cases hf : thrown.toFault with
    | ok cause =>
      rw [hf] at hsafe
      have ha : (Call.safeSet field v).act depth s = .ok false t := by
        rw [act, bind_of_ok hsafe]
        rfl
      refine .inr ⟨by rw [after_of_ok ha, he], fun u hu => ?_⟩
      rw [ha] at hu
      cases hu
    | error cause =>
      rw [hf] at hsafe
      exact outcome_of_error he (bind_of_error hsafe _)

theorem Call.outcome_addStageInstance (depth : Nat) (hs : s.entity.values.IsPlain) (stage : Value) :
    (Call.addStageInstance stage).Outcome depth s := by
  cases hr : Entity.get registry "instances" s with
  | error thrown t =>
    have ht : t = s := by
      rw [Entity.get, bind_of_ok (Scene.values_eq s)] at hr
      cases hv : Entity.read registry s.entity.values "instances" with
      | ok v => rw [hv] at hr; cases hr
      | error cause => rw [hv] at hr; cases hr; rfl
    exact outcome_of_error (by rw [ht]) (bind_of_error (bind_of_error hr _) _)
  | ok instances t =>
    obtain ⟨hv, rfl⟩ := Entity.get_eq_ok_iff.mp hr
    obtain ⟨-, hv, -⟩ := Entity.read_eq_ok_iff.mp hv
    cases hw : instances.walk? with
    | none =>
      have hf : InfraConfig.addStageInstance depth stage s = .error (.fault .badType) s := by
        rw [InfraConfig.addStageInstance, bind_of_ok hr, hw]
        rfl
      exact outcome_of_error rfl (bind_of_error hf _)
    | some items =>
      have ha : InfraConfig.addStageInstance depth stage s = (do
          let _ ← Entity.set registry depth "instances" (.list (items ++ [stage])) : Act _ Unit) s := by
        rw [InfraConfig.addStageInstance, bind_of_ok hr, hw]
        rfl
      cases h : Entity.set registry depth "instances" (.list (items ++ [stage])) s with
      | ok report t =>
        rw [bind_of_ok h] at ha
        refine .inl ⟨"instances", _, report, t, ?_, h, by rw [act, bind_of_ok ha]; rfl⟩
        rw [write?, hv, hw]
        rfl
      | error thrown t =>
        rw [bind_of_error h] at ha
        exact outcome_of_error (Entity.entity_of_set_error hs h) (bind_of_error ha _)

theorem Call.outcome (depth : Nat) (hs : s.entity.values.IsPlain) (call : Call) : call.Outcome depth s := by
  cases call with
  | set field v =>
    cases h : Entity.set registry depth field v s with
    | ok report t => exact .inl ⟨field, v, report, t, rfl, h, by rw [act, bind_of_ok h]; rfl⟩
    | error thrown t => exact outcome_of_error (Entity.entity_of_set_error hs h) (bind_of_error h _)
  | safeSet field v => exact outcome_safeSet depth hs field v
  | updateStatus status =>
    cases h : Entity.set registry depth "status" status s with
    | ok report t =>
      have hu : InfraConfig.updateStatus depth status s = .ok () t := by
        rw [InfraConfig.updateStatus, bind_of_ok h]
        rfl
      exact .inl ⟨"status", status, report, t, rfl, h, by rw [act, bind_of_ok hu]; rfl⟩
    | error thrown t =>
      exact outcome_of_error (Entity.entity_of_set_error hs h) (bind_of_error (bind_of_error h _) _)
  | addStageInstance stage => exact outcome_addStageInstance depth hs stage

/-- A turn makes an update of the infra config that answers, or it changes nothing. -/
theorem Turn.next_cases (depth : Nat) (hs : s.entity.values.IsPlain) (turn : Turn) :
    (∃ field v, turn.call.write? s.entity.values = some (field, v) ∧
      registry.Allows (s.entity.values.read field) field .caller ∧ v.isCopyable = true ∧
      Updated (Calendar.epochSeconds turn.clock) s.entity.values field v (turn.next depth s).entity.values ∧
      turn.call.act depth (turn.start s) = .ok true (turn.next depth s)) ∨
    ((turn.next depth s).entity = s.entity ∧ ∀ t, turn.call.act depth (turn.start s) ≠ .ok true t) := by
  rcases turn.call.outcome depth (s := turn.start s) hs with ⟨field, v, report, t, hw, ht, ha⟩ | h
  · obtain ⟨hallow, hc, hu⟩ := updated_of_set ht
    have hn : turn.next depth s = t := after_of_ok ha
    rw [hn]
    exact .inl ⟨field, v, hw, hallow, hc, hu, ha⟩
  · exact .inr h

theorem Turn.keeps {P : Values → Prop} {R : Scene Values → Scene Values → Prop} [Scene.Frame R]
    (hR : Entity.Tolerates registry R) (hP : ∀ s t : Scene Values, R s t → P s.entity.values → P t.entity.values)
    (hs : s.entity.values.IsPlain) (turn : Turn) (h : P s.entity.values) : P (turn.next depth s).entity.values := by
  rcases turn.call.outcome depth (s := turn.start s) hs with ⟨field, v, report, t, -, ht, ha⟩ | ⟨he, -⟩
  · rw [next, after_of_ok ha]
    exact hP (turn.start s) t ((Entity.set_keeps hR depth field v).of_ok ht) h
  · rw [next, he]
    exact h

theorem Turn.phase_next (depth : Nat) (hs : s.entity.values.IsPlain) (turn : Turn) :
    (turn.next depth s).entity.phase = s.entity.phase := by
  rcases turn.call.outcome depth (s := turn.start s) hs with ⟨field, v, report, t, -, ht, ha⟩ | ⟨he, -⟩
  · rw [next, after_of_ok ha]
    exact ((Entity.set_keeps (Entity.tolerates_calm registry) depth field v).of_ok ht).1
  · rw [next, he]
    rfl

theorem Turn.isPlain_next (depth : Nat) (hs : s.entity.values.IsPlain) (turn : Turn) :
    (turn.next depth s).entity.values.IsPlain :=
  turn.keeps (Entity.tolerates_grounded ordinary) (fun _ _ h => h) hs hs

end Turns

end GovernedConfig.InfraConfig
