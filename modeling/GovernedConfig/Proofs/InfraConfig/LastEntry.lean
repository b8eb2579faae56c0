import GovernedConfig.Proofs.InfraConfig.History
import GovernedConfig.Proofs.InfraConfig.Payload

/-! # The last entry of the history

A history that an infra config started itself ends with the current status and stamp, and every written
status lets it end so. Once it does, it goes on doing so. The stamp does not go back once it is not ahead of
the one that the history ends with.
-/

namespace GovernedConfig

def Value.NotAfter (v w : Value) : Prop := ∃ k n : Int, v.IsWhole k ∧ w.IsWhole n ∧ k ≤ n

namespace Value.NotAfter

theorem refl {v : Value} {n : Int} (h : v.IsWhole n) : v.NotAfter v := ⟨n, n, h, h, le_rfl⟩

theorem trans {u v w : Value} (h : u.NotAfter v) (g : v.NotAfter w) : u.NotAfter w := by
  obtain ⟨i, j, hi, hj, hij⟩ := h
  obtain ⟨j', k, hj', hk, hjk⟩ := g
  rw [hj'.unique hj] at hjk
  exact ⟨i, k, hi, hk, hij.trans hjk⟩

theorem max {v : Value} {x y : Binary64} (h : v.NotAfter (.number x)) (hy : y.isInteger = true) :
    v.NotAfter (.number (y.max x)) := by
  obtain ⟨n, k, hn, ⟨z, hz, hk⟩, hle⟩ := h
  cases hz
  obtain ⟨i, hi⟩ := Binary64.isInteger_iff.mp hy
  exact ⟨n, Max.max i k, hn, ⟨_, rfl, Binary64.max_equalsInt hi hk⟩, hle.trans (Int.le_max_right i k)⟩

end Value.NotAfter

namespace InfraConfig

open Act Rules

def lastTold? (vs : Values) : Option (Value × Value) :=
  match vs.read "statusUpdates" with
  | .list entries => do
    let last ← entries.getLast?
    pure (← last.member? "status", ← stampOf last)
  | _ => none

def EndsCurrent (vs : Values) : Prop := lastTold? vs = some (vs.read "status", vs.read "statusUpdateTs")

instance (vs : Values) : Decidable (EndsCurrent vs) := inferInstanceAs (Decidable (_ = _))

/-- The stamp is not ahead of the one that the history ends with. -/
def KeepsPace (vs : Values) : Prop :=
  ∃ entries last stamp, vs.read "statusUpdates" = .list entries ∧ entries.getLast? = some last ∧
    stampOf last = some stamp ∧ (vs.read "statusUpdateTs").NotAfter stamp

section Ends

variable {now : Binary64} {vs ws : Values} {entries : List Value} {status stamp : Value}

theorem lastTold?_of_entry (h : vs.read "statusUpdates" = .list entries)
    (hl : entries.getLast? = some (statusUpdate status stamp)) : lastTold? vs = some (status, stamp) := by
  rw [lastTold?, h]
  simp only [hl]
  rfl

theorem lastTold?_congr (h : ws.read "statusUpdates" = vs.read "statusUpdates") : lastTold? ws = lastTold? vs := by
  rw [lastTold?, lastTold?, h]

theorem stamp_notAfter_self (h : Sound vs) : (vs.read "statusUpdateTs").NotAfter (vs.read "statusUpdateTs") := by
  obtain ⟨n, -, hn⟩ := h.whole "statusUpdateTs" 0 (by decide)
  exact .refl hn

theorem EndsCurrent.keepsPace (he : EndsCurrent vs) (h : Governed vs) : KeepsPace vs := by
  obtain ⟨entries, hc⟩ := h.chronicles
  rw [EndsCurrent, lastTold?, hc.read] at he
  simp only [Option.bind_eq_bind, Option.bind_eq_some_iff] at he
  obtain ⟨last, hlast, told, -, stamp, hstamp, he⟩ := he
  cases he
  exact ⟨entries, last, _, hc.read, hlast, hstamp, stamp_notAfter_self h.sound⟩

section Growing

variable {x : Binary64} {v : Value} {grown : List Value} (h : GrowsBy now v entries x grown)

include h

theorem GrowsBy.endsCurrent (hr : ws.read "statusUpdates" = .list grown)
    (hstamp : ws.read "statusUpdateTs" = .number x) (hstatus : ws.read "status" = v) : EndsCurrent ws := by
  obtain ⟨last, latest, -, -, -, rfl⟩ := h
  rw [EndsCurrent, hstamp, hstatus]
  exact lastTold?_of_entry hr List.getLast?_concat

theorem GrowsBy.notAfter (hn : now.isInteger = true) (hk : KeepsPace vs)
    (hr : vs.read "statusUpdates" = .list entries) : (vs.read "statusUpdateTs").NotAfter (.number x) := by
  obtain ⟨last, latest, hlast, hstamp, rfl, -⟩ := h
  obtain ⟨entries', last', stamp, hr', hlast', hstamp', hafter⟩ := hk
  rw [hr] at hr'
  cases hr'
  rw [hlast] at hlast'
  cases hlast'
  rw [hstamp] at hstamp'
  cases hstamp'
  exact hafter.max hn

end Growing

end Ends

section Turns

variable {depth : Nat} {s : Scene Values} {now : Binary64} {vs ws : Values} {field : String} {v : Value}

theorem Updated.read_eq (hu : Updated now vs field v ws) (hne : field ≠ "__proto__") (hf : field ≠ "status")
    {other : String} (ho : other ∈ ["status", "statusUpdateTs", "statusUpdates"]) :
    ws.read other = vs.read other := by
  cases hu with
  | status hr => exact (hf rfl).elim
  | features hn =>
    have hother : other ≠ "pcsFeatures" := by
      rintro rfl
      exact absurd ho (by decide)
    rw [hn.read_eq hother, vs.read_write_of_ne hne hother]
  | plain hp hb hc =>
    refine vs.read_write_of_ne hne ?_ v
    rintro rfl
    exact hp (List.mem_append_left ["pcsFeatures"] ho)

/-- A turn writes a status, so that the history ends with it and its stamp, or leaves status, stamp and history
alone. -/
theorem Turn.endsCurrent_or_still (h : Governed s.entity.values) (depth : Nat) (turn : Turn) :
    (EndsCurrent (turn.next depth s).entity.values ∧ (KeepsPace s.entity.values →
      (s.entity.values.read "statusUpdateTs").NotAfter ((turn.next depth s).entity.values.read "statusUpdateTs"))) ∨
    ∀ other ∈ ["status", "statusUpdateTs", "statusUpdates"],
      (turn.next depth s).entity.values.read other = s.entity.values.read other := by
  rcases turn.next_cases depth h.plain with ⟨field, v, -, ha, -, hu, -⟩ | ⟨hsame, -⟩
  · have hne := ne_base_of_allows ha
    by_cases hf : field = "status"
    · subst hf
      obtain ⟨entries, hc⟩ := h.chronicles
      have hint := epochSeconds_isInteger turn
      obtain ⟨-, grown, hgrown, ⟨hf, -⟩ | ⟨-, x, hg, hts, hst⟩⟩ := hu.keeps hint hne h.sound hc
      · exact (hf rfl).elim
      · exact .inl ⟨hg.endsCurrent hgrown.read hts hst, fun hk => by rw [hts]; exact hg.notAfter hint hk hc.read⟩
    · exact .inr fun _ => hu.read_eq hne hf
  · exact .inr fun _ _ => by rw [hsame]

theorem EndsCurrent.next (he : EndsCurrent s.entity.values) (h : Governed s.entity.values) (depth : Nat)
    (turn : Turn) : EndsCurrent (turn.next depth s).entity.values := by
  rcases turn.endsCurrent_or_still h depth with ⟨hends, -⟩ | hstill
  · exact hends
  · rw [EndsCurrent, lastTold?_congr (hstill _ (by decide)), hstill "status" (by decide),
      hstill "statusUpdateTs" (by decide)]
    exact he

theorem KeepsPace.next (hk : KeepsPace s.entity.values) (h : Governed s.entity.values) (depth : Nat)
    (turn : Turn) : KeepsPace (turn.next depth s).entity.values ∧
      (s.entity.values.read "statusUpdateTs").NotAfter
        ((turn.next depth s).entity.values.read "statusUpdateTs") := by
  rcases turn.endsCurrent_or_still h depth with ⟨hends, hafter⟩ | hstill
  · exact ⟨hends.keepsPace (h.next turn), hafter hk⟩
  · rw [KeepsPace, hstill "statusUpdates" (by decide), hstill "statusUpdateTs" (by decide)]
    exact ⟨hk, stamp_notAfter_self h.sound⟩

theorem EndsCurrent.play (he : EndsCurrent s.entity.values) (h : Governed s.entity.values) (depth : Nat)
    (turns : List Turn) : EndsCurrent (play depth turns s).entity.values := by
  induction turns generalizing s with
  | nil => exact he
  | cons turn turns ih => exact ih (he.next h depth turn) (h.next turn)

theorem KeepsPace.play (hk : KeepsPace s.entity.values) (h : Governed s.entity.values) (depth : Nat)
    (turns : List Turn) : KeepsPace (play depth turns s).entity.values ∧
      (s.entity.values.read "statusUpdateTs").NotAfter
        ((InfraConfig.play depth turns s).entity.values.read "statusUpdateTs") := by
  induction turns generalizing s with
  | nil => exact ⟨hk, stamp_notAfter_self h.sound⟩
  | cons turn turns ih =>
    obtain ⟨hnext, hafter⟩ := hk.next h depth turn
    obtain ⟨hplay, hlater⟩ := ih hnext (h.next turn)
    exact ⟨hplay, hafter.trans hlater⟩

/-- Whatever turns are made, the history ends with the current status and stamp. -/
def StaysCurrent (depth : Nat) (s : Scene Values) : Prop :=
  ∀ turns : List Turn, EndsCurrent (play depth turns s).entity.values

def NeverGoesBack (depth : Nat) (s : Scene Values) : Prop :=
  ∀ turns later : List Turn, ((play depth turns s).entity.values.read "statusUpdateTs").NotAfter
    ((play depth later (play depth turns s)).entity.values.read "statusUpdateTs")

theorem KeepsPace.neverGoesBack (hk : KeepsPace s.entity.values) (h : Governed s.entity.values) (depth : Nat) :
    NeverGoesBack depth s := fun turns later =>
  ((hk.play h depth turns).1.play (h.play depth turns) depth later).2

theorem Turn.endsCurrent_of_writes (h : Governed s.entity.values) {turn : Turn}
    (hw : turn.Writes depth s "status" v) : EndsCurrent (turn.next depth s).entity.values := by
  obtain ⟨entries, hc⟩ := h.chronicles
  have hcontinues : turn.Continues depth s entries := turn.continues h hc
  obtain ⟨x, grown, hg, hr, hts, hst⟩ := hcontinues.written v hw
  exact hg.endsCurrent hr hts hst

end Turns

section Origins

variable {init : Value} {m n : Ambient} {e : Entity}

/-- How an infra config arises from a record of fields: it is created from them, or restored from a payload
or a text that is accepted as them. -/
inductive Arises (init : Value) (m : Ambient) (e : Entity) (n : Ambient) : Prop
  | created : create init m = .ok e n → Arises init m e n
  | restored {payload : Value} : schema.check payload = .ok init → restore payload m = .ok e n → Arises init m e n
  | deserialized {text : String} {payload : Value} : Json.read? text = some payload →
      schema.check payload = .ok init → deserialize text m = .ok e n → Arises init m e n

theorem restore_of_check {payload : Value} (h : schema.check payload = .ok init) :
    restore payload m = create init m := by
  refine bind_of_ok (t := m) (a := init) ?_ _
  rw [parseFields, h]
  rfl

theorem Arises.create_eq (h : Arises init m e n) : create init m = .ok e n := by
  cases h with
  | created h => exact h
  | restored hc h => rwa [restore_of_check hc] at h
  | deserialized hr hc h => rwa [deserialize_of_check hr hc] at h

def SuppliesNoHistory (init : Value) : Prop :=
  init.member? "statusUpdates" = some .undefined ∨ init.member? "statusUpdates" = some (.list [])

instance (init : Value) : Decidable (SuppliesNoHistory init) := inferInstanceAs (Decidable (_ ∨ _))

theorem endsCurrent_of_create (h : create init m = .ok e n) (hs : SuppliesNoHistory init) :
    EndsCurrent e.state.values := by
  obtain ⟨-, entries, hc, ⟨hne, hsupplied⟩ | ⟨-, rfl⟩⟩ := governed_of_create h
  · rcases hs with hs | hs <;> rw [hs] at hsupplied <;> cases hsupplied
    exact (hne rfl).elim
  · exact lastTold?_of_entry hc.read rfl

/-- However an infra config arises, if it starts its history itself, or the supplied one ends with its status and
stamp, then the history ends with the current status and stamp ever after; and if it starts its history itself, or
its stamp is not ahead of the supplied one, then the stamp never goes back. With any other history that is so from
the first written status on. -/
theorem history_ends_with_current_status (h : Arises init m e n) (depth : Nat) (current : Option Entity) :
    (SuppliesNoHistory init ∨ EndsCurrent e.state.values → StaysCurrent depth ⟨n, e.state, current⟩) ∧
      (SuppliesNoHistory init ∨ KeepsPace e.state.values → NeverGoesBack depth ⟨n, e.state, current⟩) ∧
        ∀ (turns : List Turn) (turn : Turn) (v : Value),
          turn.Writes depth (play depth turns ⟨n, e.state, current⟩) "status" v →
            StaysCurrent depth (turn.next depth (play depth turns ⟨n, e.state, current⟩)) ∧
              NeverGoesBack depth (turn.next depth (play depth turns ⟨n, e.state, current⟩)) := by
  have hcreate := h.create_eq
  have hgoverned : Governed (Scene.mk n e.state current).entity.values := (governed_of_create hcreate).1
  have hstarted : SuppliesNoHistory init → EndsCurrent (Scene.mk n e.state current).entity.values :=
    endsCurrent_of_create hcreate
  refine ⟨fun hends => ?_, fun hpace => ?_, fun turns turn v hw => ?_⟩
  · exact EndsCurrent.play (hends.elim hstarted id) hgoverned depth
  · exact KeepsPace.neverGoesBack (hpace.elim (fun hs => (hstarted hs).keepsPace hgoverned) id) hgoverned depth
  · have hplay := hgoverned.play depth turns
    have hends := turn.endsCurrent_of_writes hplay hw
    have hnext : Governed (turn.next depth _).entity.values := hplay.next turn
    exact ⟨hends.play hnext depth, (hends.keepsPace hnext).neverGoesBack hnext depth⟩

/-- A config whose history is supplied: it tells another status and an earlier stamp. -/
def foreignHistory : Value :=
  .record
    [("instanceId", .text "study"), ("role", .text "PARTNER"), ("status", .text "CREATED"),
      ("statusUpdateTs", .number 5), ("gameType", .text "LIFT"), ("numPidContainers", .number 1),
      ("numMpcContainers", .number 2), ("numFilesPerMpcContainer", .number 40),
      ("statusUpdates", .list [statusUpdate (.text "TIMEOUT") (.number 3)])]

def disagrees (init : Value) : Bool :=
  match create init Entity.stillness with
  | .ok e _ => !decide (EndsCurrent e.state.values)
  | .error _ _ => false

/-- Construction looks at the order of a supplied history only. -/
theorem supplied_history_may_end_otherwise :
    ¬ ∀ (init : Value) (m : Ambient) (e : Entity) (n : Ambient), create init m = .ok e n →
      EndsCurrent e.state.values := by
  intro hall
  have h : disagrees foreignHistory = true := by decide +kernel
  unfold disagrees at h
  split at h
  · rename_i e n he
    rw [decide_eq_true (hall _ _ _ _ he)] at h
    cases h
  · cases h

/-- The history of the sample starts with its status, and goes on with one that is written while the clock
shows a time before its creation. -/
theorem sample_history_ends_with_current_status :
    ∃ e n, ∃ turn : Turn, create sampleInit Entity.stillness = .ok e n ∧ StaysCurrent 2 ⟨n, e.state, none⟩ ∧
      NeverGoesBack 2 ⟨n, e.state, none⟩ ∧ turn.Writes 2 ⟨n, e.state, none⟩ "status" (.text "TIMEOUT") ∧
        StaysCurrent 2 (turn.next 2 ⟨n, e.state, none⟩) := by
  have hanswers : answersTo ⟨.ofInt (-5000), .updateStatus (.text "TIMEOUT"), by decide +kernel⟩ = true := by
    decide +kernel
  obtain ⟨e, n, t, h, ht⟩ := exists_of_answersTo hanswers
  obtain ⟨hstart, hstamp, hlater⟩ := history_ends_with_current_status (.created h) 2 none
  have hw : Turn.Writes 2 ⟨n, e.state, none⟩ ⟨.ofInt (-5000), .updateStatus (.text "TIMEOUT"), by decide +kernel⟩
      "status" (.text "TIMEOUT") := ⟨rfl, t, ht⟩
  exact ⟨e, n, _, h, hstart (.inl (by decide)), hstamp (.inl (by decide)), hw, (hlater [] _ _ hw).1⟩

end Origins

end InfraConfig

end GovernedConfig
