import GovernedConfig.Proofs.InfraConfig.Admission

/-! # The schema and the rules

The payload schema and the construction rules accept the same infra configs. What restoring a payload comes to is
told from what the schema makes of it: the surroundings have no say in it.
-/

namespace GovernedConfig

/-- At most, as numbers are compared: nothing is at most `nan`. -/
def Binary64.AtMost (x y : Binary64) : Prop := x.less y = true ∨ x.equals y = true

theorem Binary64.atMost_iff {x y : Binary64} (hx : x.isNan = false) (hy : y.isNan = false) :
    x.AtMost y ↔ y.less x = false := by
  simp only [AtMost, less, equals, hx, hy, Bool.not_false, Bool.true_and, decide_eq_true_eq, beq_iff_eq,
    decide_eq_false_iff_not]
  omega

namespace InfraConfig

open Act Lifecycle Rules Schema

section Records

variable {d : Value} {m n : Ambient} {e : Entity}

/-- A full record of the right types that the schema accepts, with enough MPC containers and a history that does not
go back in time. -/
structure Acceptable (d : Value) : Prop where
  checked : ∃ w, schema.check d = .ok w
  ordered : ∃ pid mpc entries, Supplied d pid mpc entries ∧ pid.AtMost mpc ∧ ∀ i, ¬ DropsAt entries i

theorem fits_of_create (hd : schema.Fits false d) (h : create d m = .ok e n) : schema.Fits true d := by
  obtain ⟨t, ht, rfl, -⟩ := Entity.construct_of_create h
  obtain ⟨us, vs, hfill, ha, -⟩ := admitted_of_construct ht
  have htyped : Typed us := typed_of_supplies (isTypedInit_of_fits hd) fun field hf => (hfill field hf).1
  obtain ⟨entries, he, hf⟩ := ha.ordered
  obtain ⟨-, he, -⟩ := Entity.read_eq_ok_iff.mp he
  have hhistory := fits_history htyped he (inOrder_of_firstOutOfOrder hf (by simp)).1
  have hfitting : Fitting us := fitting_of_bounds htyped (ha.named_of_typed htyped)
    (fun field minimum hb => (ha.bounded field minimum hb).isWhole hb) hhistory
  cases hd with
  | @record _ q hn hnames hq =>
    refine .record hn hnames fun name s v hs hv => ?_
    rw [← hold_of_supplies (.record hn hnames hq) (fun field hf => (hfill field hf).1) name v hv]
    exact hfitting name s hs

/-- An infra config is created from a full record of the right types just if the schema accepts the record, there are
at most as many PID containers as MPC containers, and no stamp lies before the one before it. -/
theorem create_iff_acceptable (hm : m.Orderly) (hd : schema.Fits false d) :
    (∃ e n, create d m = .ok e n) ↔ Acceptable d := by
  constructor
  · rintro ⟨e, n, h⟩
    have hfits := fits_of_create hd h
    obtain ⟨pid, mpc, entries, hs⟩ := exists_supplied hfits
    obtain ⟨hpid, hmpc⟩ := hs.isNan hfits
    obtain ⟨w, hw, -⟩ := check_of_fits hfits schema_isPlain
    have hl : mpc.less pid = false := by
      rw [← Bool.not_eq_true]
      intro hl
      obtain ⟨k, hk⟩ := create_of_crowd hm hfits hs hl
      rw [h] at hk
      cases hk
    refine ⟨⟨w, hw⟩, pid, mpc, entries, hs, (Binary64.atMost_iff hpid hmpc).mpr hl, ?_⟩
    rcases no_drop_or_firstDrop (hs.stamped hfits) with hno | ⟨i, entry, x, hi, he, hx⟩
    · exact hno
    · obtain ⟨k, hk⟩ := create_of_drop hm hfits hs hl hi he hx
      rw [h] at hk
      cases hk
  · rintro ⟨⟨w, hw⟩, pid, mpc, entries, hs, hle, hno⟩
    have hfits := hd.of_accepted hw
    obtain ⟨hpid, hmpc⟩ := hs.isNan hfits
    exact create_of_order hm hfits hs ((Binary64.atMost_iff hpid hmpc).mp hle) hno

end Records

section Payloads

variable {payload : Value} {m : Ambient} {verdict : Except Fault (Record Value)}

/-- What restoring a payload has to come to, by the schema and the values that it gives back: a failure, or the
fields of a ready infra config. -/
inductive Verdict (payload : Value) : Except Fault (Record Value) → Prop
  | rejected {issues : List Issue} : schema.check payload = .error issues →
      Verdict payload (.error (.infraConfigPayload (issues.map (·.text "(root)"))))
  | crowded {q : Record Value} {pid mpc : Binary64} {entries : List Value} : schema.check payload = .ok (.record q) →
      Supplied (.record q) pid mpc entries → mpc.less pid = true →
        Verdict payload (.error (.construction "InfraConfig" (tooManyPids pid mpc)))
  | disordered {q : Record Value} {pid mpc : Binary64} {entries : List Value} {i : Nat} {entry : Value} {x : Binary64} :
      schema.check payload = .ok (.record q) → Supplied (.record q) pid mpc entries → mpc.less pid = false →
        FirstDrop entries i → entries[i]? = some entry → stampOf entry = some (.number x) →
          Verdict payload (.error (.construction "InfraConfig" (backInTime i x)))
  | accepted {q : Record Value} {pid mpc : Binary64} {entries : List Value} : schema.check payload = .ok (.record q) →
      Supplied (.record q) pid mpc entries → mpc.less pid = false → (∀ i, ¬ DropsAt entries i) →
        Verdict payload (.ok (completed q))

/-- An operation that makes an infra config ended with a failure, or with a ready infra config of the given fields. -/
inductive Shows : EStateM.Result Thrown Ambient Entity → Except Fault (Record Value) → Prop
  | made {e : Entity} {n : Ambient} {r : Record Value} : e.state.phase = .ready → toRecord e.state.values = .ok r →
      Shows (.ok e n) (.ok r)
  | failed {cause : Fault} {n : Ambient} : Shows (.error (.fault cause) n) (.error cause)

theorem Shows.unique {result : EStateM.Result Thrown Ambient Entity} {other : Except Fault (Record Value)}
    (h : Shows result verdict) (g : Shows result other) : verdict = other := by
  cases h with
  | made _ hr =>
    cases g with
    | made _ hr' => exact hr.symm.trans hr'
  | failed =>
    cases g
    rfl

theorem restore_of_rejected (hm : m.Orderly) {issues : List Issue} (h : schema.check payload = .error issues) :
    ∃ n, restore payload m = .error (.fault (.infraConfigPayload (issues.map (·.text "(root)")))) n := by
  obtain ⟨n, -, hw⟩ := hm.takesLines.writes (show Level.warn ≠ .silent by decide) "infra_config_parse_failed"
    "InfraConfig payload failed validation" (.record [("issues", .list ((issues.map (·.text "(root)")).map .text))])
    (by simp only [Json.holdsBigint, Json.entriesHoldBigint, anyBigint_texts, Bool.or_false])
  refine ⟨n, bind_of_error ?_ _⟩
  unfold parseFields
  rw [h]
  exact bind_of_ok hw _

theorem restore_of_checked {w : Value} (h : schema.check payload = .ok w) : restore payload m = create w m := by
  refine bind_of_ok (?_ : parseFields payload m = .ok w m) _
  unfold parseFields
  rw [h]
  rfl

theorem exists_record_of_checked {w : Value} (h : schema.check payload = .ok w) :
    ∃ q, w = .record q ∧ Record.names q = registry.fieldNames ∧ schema.Fits true (.record q) := by
  obtain ⟨q, rfl, hn⟩ := exists_record_of_check (schema_eq ▸ schema_isPlain) h
  exact ⟨q, rfl, hn.trans names_entries, fits_of_check schema_isPlain h⟩

theorem exists_verdict (payload : Value) : ∃ verdict, Verdict payload verdict := by
  cases hc : schema.check payload with
  | error issues => exact ⟨_, .rejected hc⟩
  | ok w =>
    obtain ⟨q, rfl, -, hfits⟩ := exists_record_of_checked hc
    obtain ⟨pid, mpc, entries, hs⟩ := exists_supplied hfits
    cases hl : mpc.less pid with
    | true => exact ⟨_, .crowded hc hs hl⟩
    | false =>
      rcases no_drop_or_firstDrop (hs.stamped hfits) with hno | ⟨i, entry, x, hi, he, hx⟩
      · exact ⟨_, .accepted hc hs hl hno⟩
      · exact ⟨_, .disordered hc hs hl hi he hx⟩

/-- The verdict on a payload is what restoring it comes to. -/
theorem Verdict.shows (hm : m.Orderly) (h : Verdict payload verdict) : Shows (restore payload m) verdict := by
  cases h with
  | rejected hc =>
    obtain ⟨n, hn⟩ := restore_of_rejected hm hc
    rw [hn]
    exact .failed
  | crowded hc hs hl =>
    obtain ⟨_, ⟨⟩, -, hfits⟩ := exists_record_of_checked hc
    obtain ⟨n, hn⟩ := create_of_crowd hm hfits hs hl
    rw [restore_of_checked hc, hn]
    exact .failed
  | disordered hc hs hl hi he hx =>
    obtain ⟨_, ⟨⟩, -, hfits⟩ := exists_record_of_checked hc
    obtain ⟨n, hn⟩ := create_of_drop hm hfits hs hl hi he hx
    rw [restore_of_checked hc, hn]
    exact .failed
  | accepted hc hs hl hno =>
    obtain ⟨_, ⟨⟩, hnames, hfits⟩ := exists_record_of_checked hc
    obtain ⟨e, n, h⟩ := create_of_order hm hfits hs hl hno
    rw [restore_of_checked hc, h]
    obtain ⟨t, ht, rfl, -⟩ := Entity.construct_of_create h
    exact .made (Entity.phase_of_construct ht) (toRecord_of_create hfits hnames h)

end Payloads

/-- The payload schema and the construction rules accept the same infra configs, and restoring a payload comes to the
verdict on it and to nothing else, whatever the clock shows. -/
theorem schema_and_rules_agree {m : Ambient} (hm : m.Orderly) :
    (∀ d, schema.Fits false d → ((∃ e n, create d m = .ok e n) ↔ Acceptable d)) ∧
      ∀ payload, (∃ verdict, Verdict payload verdict) ∧
        ∀ verdict, Verdict payload verdict ↔ Shows (restore payload m) verdict := by
  refine ⟨fun d hd => create_iff_acceptable hm hd, fun payload => ⟨exists_verdict payload, fun verdict => ?_⟩⟩
  refine ⟨fun h => h.shows hm, fun h => ?_⟩
  obtain ⟨other, ho⟩ := exists_verdict payload
  rwa [h.unique (ho.shows hm)]

section Sample

theorem stillness_orderly : Entity.stillness.Orderly := ⟨fun _ hl => Entity.stillness_accepts hl, Entity.stillness_dated⟩

def unsortedHistory : List Value :=
  [statusUpdate (.text "CREATED") (.number 5), statusUpdate (.text "TIMEOUT") (.number 3)]

def unsortedFields : Record Value :=
  [("instanceId", .text "study"), ("role", .text "PARTNER"), ("status", .text "CREATED"), ("statusUpdateTs", .number 5),
    ("instances", .list []), ("gameType", .text "LIFT"), ("numPidContainers", .number 1), ("numMpcContainers", .number 2),
    ("numFilesPerMpcContainer", .number 40), ("statusUpdates", .list unsortedHistory), ("tier", .null),
    ("pcsFeatures", .list []), ("pceConfig", .null), ("stageFlowClsName", .text ""), ("retryCounter", .number 0),
    ("creationTs", .number 0), ("endTs", .number 0), ("mpcComputeConcurrency", .number 1)]

theorem unsortedFields_checked : schema.check (.record unsortedFields) = .ok (.record unsortedFields) := by
  have h : (schema.check (.record unsortedFields)).toOption = some (.record unsortedFields) := by decide +kernel
  cases hc : schema.check (.record unsortedFields) with
  | error issues =>
    rw [hc] at h
    cases h
  | ok w =>
    rw [hc] at h
    exact congrArg _ (Option.some.inj h)

theorem unsortedHistory_drops : FirstDrop unsortedHistory 1 := by
  refine ⟨.intro (m := 5) (n := 3) rfl rfl ⟨_, rfl, 5, rfl, ?_⟩ ⟨_, rfl, 3, rfl, ?_⟩ (by decide), ?_⟩
  · decide +kernel
  · decide +kernel
  · intro j hj hd
    cases hd
    omega

/-- The second entry is named when a history is refused in which it lies before the first. -/
theorem unsorted_payload_is_refused : ∃ n, restore (.record unsortedFields) Entity.stillness =
    .error (.fault (.construction "InfraConfig" (backInTime 1 3))) n := by
  have hv : Verdict (.record unsortedFields) (.error (.construction "InfraConfig" (backInTime 1 3))) :=
    .disordered unsortedFields_checked ⟨rfl, rfl, rfl⟩ (by decide +kernel) unsortedHistory_drops rfl rfl
  have hs := (((schema_and_rules_agree stillness_orderly).2 (.record unsortedFields)).2 _).mp hv
  generalize restore (.record unsortedFields) Entity.stillness = result at hs ⊢
  cases hs with
  | failed => exact ⟨_, rfl⟩

end Sample

end InfraConfig

end GovernedConfig
