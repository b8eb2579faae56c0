import GovernedConfig.Proofs.InfraConfig.Invariant

/-! # The status history

The history of an infra config grows by one entry for each status that is written, by none otherwise,
and its stamps never go back, whatever the clock does.
-/

namespace GovernedConfig.InfraConfig

variable {depth : Nat} {s : Scene Values}

/-- A turn writes a field: its call stands for the write, and answers that it was made. -/
def Turn.Writes (depth : Nat) (s : Scene Values) (turn : Turn) (field : String) (v : Value) : Prop :=
  turn.call.write? s.entity.values = some (field, v) ∧ ∃ t, turn.call.act depth (turn.start s) = .ok true t

/-- What a turn does to the history: a written status makes it grow by one entry, whose stamp is then the
stamp of the infra config, and nothing else changes it. -/
structure Turn.Continues (depth : Nat) (s : Scene Values) (turn : Turn) (entries : List Value) : Prop where
  written : ∀ v, turn.Writes depth s "status" v → ∃ x grown,
    GrowsBy (Calendar.epochSeconds turn.clock) v entries x grown ∧
      (turn.next depth s).entity.values.read "statusUpdates" = .list grown ∧
      (turn.next depth s).entity.values.read "statusUpdateTs" = .number x ∧
      (turn.next depth s).entity.values.read "status" = v
  otherwise : (∀ v, ¬ turn.Writes depth s "status" v) →
    (turn.next depth s).entity.values.read "statusUpdates" = .list entries

theorem Turn.continues (h : Governed s.entity.values) {entries : List Value}
    (hc : Chronicles s.entity.values entries) (turn : Turn) : turn.Continues depth s entries := by
  rcases turn.next_cases depth h.plain with ⟨field, v, hw, ha, -, hu, ht⟩ | ⟨he, hn⟩
  · obtain ⟨-, grown, hg, hcase⟩ := hu.keeps (epochSeconds_isInteger turn) (ne_base_of_allows ha) h.sound hc
    constructor
    · rintro v' ⟨hw', -⟩
      rw [hw] at hw'
      cases hw'
      rcases hcase with ⟨hf, -⟩ | ⟨-, x, hx, hts, hst⟩
      · exact (hf rfl).elim
      · exact ⟨x, grown, hx, hg.read, hts, hst⟩
    · intro hno
      rcases hcase with ⟨-, rfl⟩ | ⟨rfl, -⟩
      · exact hg.read
      · exact (hno v ⟨hw, _, ht⟩).elim
  · constructor
    · rintro v ⟨-, t, ht⟩
      exact (hn t ht).elim
    · intro _
      rw [he]
      exact hc.read

/-- The history of a new infra config is the supplied one, or else starts with its status and stamp. At
any later time it is in order, and the next turn lets it grow by the status that it writes, if any. -/
theorem history_grows_by_written_statuses {init : Value} {m n : Ambient} {e : Entity}
    (h : create init m = .ok e n) (depth : Nat) (current : Option Entity) :
    (∃ entries, e.state.values.read "statusUpdates" = .list entries ∧ Starts init e.state.values entries) ∧
      ∀ turns, ∃ entries,
        (play depth turns ⟨n, e.state, current⟩).entity.values.read "statusUpdates" = .list entries ∧
          InOrder entries ∧
            ∀ turn : Turn, turn.Continues depth (play depth turns ⟨n, e.state, current⟩) entries := by
  obtain ⟨hg, entries, hc, hstart⟩ := governed_of_create h
  refine ⟨⟨entries, hc.read, hstart⟩, fun turns => ?_⟩
  have hplay := hg.play depth (s := ⟨n, e.state, current⟩) turns
  obtain ⟨later, hl⟩ := hplay.chronicles
  exact ⟨later, hl.read, hl.inOrder, fun turn => turn.continues hplay hl⟩

def answersTo (turn : Turn) : Bool :=
  match create sampleInit Entity.stillness with
  | .error _ _ => false
  | .ok e n =>
    match turn.call.act 2 (turn.start ⟨n, e.state, none⟩) with
    | .ok written _ => written
    | .error _ _ => false

theorem exists_of_answersTo {turn : Turn} (h : answersTo turn = true) :
    ∃ e n t, create sampleInit Entity.stillness = .ok e n ∧
      turn.call.act 2 (turn.start ⟨n, e.state, none⟩) = .ok true t := by
  unfold answersTo at h
  split at h
  · cases h
  · rename_i e n he
    split at h
    · rename_i written t ht
      exact ⟨e, n, t, he, by rw [ht, h]⟩
    · cases h

/-- The status of the sample is written while the clock shows a time before its creation. -/
theorem sample_history_grows :
    ∃ e n entries x grown, create sampleInit Entity.stillness = .ok e n ∧
      e.state.values.read "statusUpdates" = .list entries ∧
        GrowsBy (Calendar.epochSeconds (Binary64.ofInt (-5000))) (.text "TIMEOUT") entries x grown := by
  have hanswers : answersTo ⟨.ofInt (-5000), .updateStatus (.text "TIMEOUT"), by decide +kernel⟩ = true := by
    decide +kernel
  obtain ⟨e, n, t, h, ht⟩ := exists_of_answersTo hanswers
  obtain ⟨-, hall⟩ := history_grows_by_written_statuses h 2 none
  obtain ⟨entries, hr, -, hc⟩ := hall []
  obtain ⟨x, grown, hg, -⟩ := (hc _).written _ ⟨rfl, t, ht⟩
  exact ⟨e, n, entries, x, grown, h, hr, hg⟩

end GovernedConfig.InfraConfig
