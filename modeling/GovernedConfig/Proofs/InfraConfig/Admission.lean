import GovernedConfig.Proofs.Entity.Effects
import GovernedConfig.Proofs.InfraConfig.RoundTrip

/-! # Admission of infra configs

What the construction hooks come to where every field keeps within the bounds of the payload schema: too many PID
containers are refused, then a history that goes back in time, and anything else is admitted.
-/

namespace GovernedConfig.InfraConfig

open Act Lifecycle Program Rules Schema

section Bounds

variable {v : Value}

theorem isWhole_of_epoch (h : epochSchema.Fits true v) : ∃ n : Int, 0 ≤ n ∧ v.IsWhole n := by
  cases h with
  | @number _ x hx =>
    obtain ⟨n, hn⟩ := Binary64.isInteger_iff.mp ((hx rfl).2 .integer (by simp))
    have hl : (!x.less (.ofNat 0)) = true := (hx rfl).2 .nonnegative (by simp)
    rw [Binary64.less_of_equalsInt hn Binary64.zero_equalsInt, Bool.not_eq_true', decide_eq_false_iff_not,
      Int.not_lt] at hl
    exact ⟨n, hl, x, rfl, hn⟩

theorem isWhole_of_count (h : countSchema.Fits true v) : ∃ n : Int, 1 ≤ n ∧ v.IsWhole n := by
  cases h with
  | @number _ x hx =>
    obtain ⟨n, hn⟩ := Binary64.isInteger_iff.mp ((hx rfl).2 .integer (by simp))
    have hl : (Binary64.ofNat 0).less x = true := (hx rfl).2 .positive (by simp)
    rw [Binary64.less_of_equalsInt Binary64.zero_equalsInt hn, decide_eq_true_eq] at hl
    exact ⟨n, hl, x, rfl, hn⟩

theorem isStamped_of_fits {entry : Value} (h : statusUpdateSchema.Fits true entry) :
    ∃ n : Int, 0 ≤ n ∧ IsStamped entry n := by
  cases h with
  | @record _ r hd hn hr =>
    obtain ⟨stamp, hl⟩ := Record.mem_names_iff.mp ((hn "statusUpdateTs").mpr (by decide))
    obtain ⟨n, h0, hw⟩ := isWhole_of_epoch (hr "statusUpdateTs" epochSchema stamp (by simp) hl)
    refine ⟨n, h0, stamp, ?_, hw⟩
    rw [stampOf, Value.member?, Value.lookUp, hl, Option.getD_some]

variable {vs : Values}

theorem Fitting.reaches (h : Fitting vs) {field : String} {minimum : Nat} (hb : (field, minimum) ∈ bounds) :
    Reaches vs field minimum := by
  have hfield : ∀ p ∈ bounds, p.1 ∈ registry.fieldNames := by decide
  refine ⟨_, h.read_eq (hfield _ hb), (reaches_iff (bounds_equalsInt hb)).mpr ?_⟩
  simp only [bounds, List.mem_cons, Prod.mk.injEq, List.not_mem_nil, or_false] at hb
  rcases hb with ⟨rfl, rfl⟩ | ⟨rfl, rfl⟩ | ⟨rfl, rfl⟩ | ⟨rfl, rfl⟩ | ⟨rfl, rfl⟩ | ⟨rfl, rfl⟩ | ⟨rfl, rfl⟩ |
    ⟨rfl, rfl⟩
  · exact isWhole_of_epoch (h _ _ (by simp [schema, entries]))
  · exact isWhole_of_count (h _ _ (by simp [schema, entries]))
  · exact isWhole_of_count (h _ _ (by simp [schema, entries]))
  · exact isWhole_of_count (h _ _ (by simp [schema, entries]))
  · exact isWhole_of_epoch (h _ _ (by simp [schema, entries]))
  · exact isWhole_of_epoch (h _ _ (by simp [schema, entries]))
  · exact isWhole_of_epoch (h _ _ (by simp [schema, entries]))
  · exact isWhole_of_count (h _ _ (by simp [schema, entries]))

theorem Fitting.named (h : Fitting vs) :
    ∃ v, Entity.read registry vs "instanceId" = .ok v ∧ hasLength v 0 = some false := by
  have hid : (text 1).Fits true (vs.read "instanceId") := h _ _ (by simp [schema, entries])
  refine ⟨_, h.read_eq (by decide), ?_⟩
  generalize vs.read "instanceId" = v at hid
  cases hid with
  | @text _ s hs => rw [hasLength, beq_false_of_ne (Nat.one_le_iff_ne_zero.mp (hs rfl))]

end Bounds

section Refusals

variable {depth : Nat} {s : Scene Values} {vs : Values} {cause : Fault}

def tooManyPids (pid mpc : Binary64) : Fault :=
  .invariant containerHook
    ("numPidContainers must be less than or equal to numMpcContainers (" ++ pid.text ++ " > " ++ mpc.text ++ ")")
    [("numPidContainers", .number pid), ("numMpcContainers", .number mpc)]

def backInTime (i : Nat) (stamp : Binary64) : Fault :=
  .invariant "status-history-order"
    ("statusUpdates[" ++ toString i ++ "] has timestamp " ++ stamp.text ++
      "; timestamps must be non-negative integers in non-decreasing order")
    [("index", .number (.ofNat i)), ("statusUpdateTs", .number stamp)]

theorem balks_of_runs {scope : Scope Values} {h : Hook} {body : Program Unit} (ha : h.action = atOnce body)
    (hk : h.kind = .generic) (hc : ∀ m, h.condition.run scope false (s.holding m vs) = .ok true (s.holding m vs))
    (hb : ∀ m, body.run scope false (s.holding m vs) = .error (.fault cause) (s.holding m vs)) :
    Balks scope s h vs cause := by
  refine ⟨hc, fun m => ?_⟩
  have hrun : h.action.run scope (h.kind == .update) (s.holding m vs) = .error (.fault cause) (s.holding m vs) := by
    rw [ha, hk]
    exact (congrFun (run_bind scope false body _) _).trans (bind_of_error (hb m) _)
  exact bind_of_error hrun _

theorem toText?_number (x : Binary64) : (Value.number x).toText? = some x.text := rfl

theorem balks_containers {pid mpc : Binary64} (hp : Entity.read registry vs "numPidContainers" = .ok (.number pid))
    (hm : Entity.read registry vs "numMpcContainers" = .ok (.number mpc)) (hl : mpc.less pid = true) :
    Balks (Entity.scope depth registry) s containerCountHook vs (tooManyPids pid mpc) := by
  refine balks_of_runs rfl rfl (fun m => ?_) fun m => ?_
  · exact tooManyPidContainers_run_eq_ok_iff.mpr ⟨_, _, hp, hm, congrArg some hl, rfl⟩
  · unfold rejectContainers
    rw [run_bind_of_ok (run_read_eq_ok_iff.mpr ⟨hp, rfl⟩), run_bind_of_ok (run_read_eq_ok_iff.mpr ⟨hm, rfl⟩),
      run_bind_of_ok (run_suitable_eq_ok_iff.mpr ⟨toText?_number pid, rfl⟩),
      run_bind_of_ok (run_suitable_eq_ok_iff.mpr ⟨toText?_number mpc, rfl⟩)]
    rfl

theorem balks_history {entries : List Value} {i : Nat} {x : Binary64}
    (he : Entity.read registry vs "statusUpdates" = .ok (.list entries))
    (hf : firstOutOfOrder none 0 entries = some (some (i, .number x))) :
    Balks (Entity.scope depth registry) s historyOrderHook vs (backInTime i x) := by
  have hrun : ∀ m, outOfOrder.run (Entity.scope depth registry) false (s.holding m vs) =
      .ok (some (i, .number x)) (s.holding m vs) := fun m => outOfOrder_run_eq_ok_iff.mpr ⟨⟨entries, he, hf⟩, rfl⟩
  refine balks_of_runs rfl rfl (fun m => ?_) fun m => ?_
  · exact run_bind_eq_ok_iff.mpr ⟨_, _, hrun m, rfl⟩
  · unfold rejectOutOfOrder
    rw [run_bind_of_ok (hrun m)]
    dsimp only
    rw [run_bind_of_ok (run_suitable_eq_ok_iff.mpr ⟨toText?_number x, rfl⟩)]
    rfl

end Refusals

section Rows

variable {depth : Nat} {s : Scene Values} {vs ws : Values} {field : String} {trigger : Trigger}

abbrev TurnsTo (depth : Nat) (s : Scene Values) (p : String × Hook) (vs ws : Values) : Prop :=
  Turns registry (Entity.scope depth registry) .postInit s p vs ws

theorem turns_minimum {key minimum : Nat} {name : String} (h : Reaches vs name minimum) :
    Turns registry (Entity.scope depth registry) trigger s (field, minimumHook key name minimum) vs vs :=
  ⟨false, fun _ => minimumHook_passes_iff.mpr ⟨h, rfl, rfl⟩⟩

theorem turns_seed (depth : Nat) (s : Scene Values) (field : String) {entries : List Value} {status stamp : Value}
    (he : Entity.read registry vs "statusUpdates" = .ok (.list entries))
    (hs : Entity.read registry vs "status" = .ok status) (ht : Entity.read registry vs "statusUpdateTs" = .ok stamp) :
    ∃ ws, Seeded vs ws ∧ TurnsTo depth s (field, seedHistoryHook) vs ws := by
  cases entries with
  | cons entry entries =>
    exact ⟨vs, ⟨_, he, .inl ⟨by simp, rfl⟩⟩, false, fun m => seedHistoryHook_idles he rfl⟩
  | nil =>
    refine ⟨_, ⟨[], he, .inr ⟨rfl, status, stamp, hs, ht, rfl⟩⟩, true, fun m => ?_⟩
    have hc : (Value.list [statusUpdate status stamp]).isCopyable = true := by
      obtain ⟨-, -, -, hs⟩ := Entity.read_eq_ok_iff.mp hs
      obtain ⟨-, -, -, ht⟩ := Entity.read_eq_ok_iff.mp ht
      simp [statusUpdate, Value.isCopyable, Value.allCopyable, Value.entriesCopyable, hs, ht]
    refine runHook_eq_ok_iff.mpr (.inr ⟨rfl, s.holding m vs, ?_, ?_⟩)
    · exact run_bind_eq_ok_iff.mpr ⟨_, _, run_read_eq_ok_iff.mpr ⟨he, rfl⟩, rfl⟩
    · simp only [seedHistoryHook, atOnce, appendStatus, beq_self_eq_true, run_bind_eq_ok_iff, run_read_eq_ok_iff,
        run_suitable_eq_ok_iff, run_write_eq_ok_iff, run_pure_eq_ok_iff]
      exact ⟨(), _, ⟨status, _, ⟨hs, rfl⟩, stamp, _, ⟨ht, rfl⟩, _, _, ⟨he, rfl⟩, [], _, ⟨rfl, rfl⟩, ⟨rfl, rfl⟩, hc, rfl⟩,
        trivial, rfl⟩

theorem turns_features (depth : Nat) (s : Scene Values) (field : String) {items : List Value}
    (hf : Entity.read registry vs "pcsFeatures" = .ok (.list items))
    (ht : ∀ v ∈ items, ∃ s, v = .text s) :
    ∃ ws, Normalized vs ws ∧ Turns registry (Entity.scope depth registry) trigger s (field, featuresHook) vs ws := by
  have hm : distinctMembers (.list items) = some (Value.distinct items) := rfl
  cases hl : items.length == (Value.distinct items).length with
  | true =>
    refine ⟨vs, ⟨_, _, hf, hm, .inl ⟨?_, rfl⟩⟩, false, fun m => featuresHook_idles hf hm ?_⟩ <;> rw [hasLength, hl]
  | false =>
    have hlength : hasLength (.list items) (Value.distinct items).length = some false := by rw [hasLength, hl]
    refine ⟨_, ⟨_, _, hf, hm, .inr ⟨hlength, rfl⟩⟩, true, fun m => ?_⟩
    have hc : (Value.list (Value.distinct items)).isCopyable = true := by
      have hfits : (listOf (text 0)).Fits false (.list (Value.distinct items)) := by
        refine .list (fits_distinctFrom fun v hv => ?_)
        obtain ⟨s, rfl⟩ := ht v hv
        exact .text (by simp)
      exact hfits.isCopyable
    refine runHook_eq_ok_iff.mpr (.inr ⟨rfl, s.holding m vs, ?_, ?_⟩)
    · simp only [featuresHook, hasRepetition, run_bind_eq_ok_iff, run_read_eq_ok_iff, run_suitable_eq_ok_iff,
        run_pure_eq_ok_iff]
      exact ⟨_, _, ⟨hf, rfl⟩, _, _, ⟨hm, rfl⟩, _, _, ⟨hlength, rfl⟩, rfl, rfl⟩
    · simp only [featuresHook, removeRepetition, atOnce, beq_self_eq_true, run_bind_eq_ok_iff, run_read_eq_ok_iff,
        run_suitable_eq_ok_iff, run_write_eq_ok_iff, run_pure_eq_ok_iff]
      exact ⟨(), _, ⟨_, _, ⟨hf, rfl⟩, _, _, ⟨hm, rfl⟩, ⟨rfl, rfl⟩, hc, rfl⟩, trivial, rfl⟩

abbrev YieldsTo (depth : Nat) (s : Scene Values) (hooks : List (String × Hook)) (vs : Values)
    (expected : Except Fault Values) : Prop :=
  Yields registry (Entity.scope depth registry) .postInit s hooks vs expected

theorem yields_to_containers (h : Fitting vs) {hooks : List (String × Hook)} {expected : Except Fault Values}
    (hrest : YieldsTo depth s hooks vs expected) :
    YieldsTo depth s (("instanceId", instanceIdHook) :: ("statusUpdateTs", minimumHook 6 "statusUpdateTs" 0) ::
      ("numPidContainers", minimumHook 7 "numPidContainers" 1) :: hooks) vs expected :=
  .turn ⟨false, fun _ => instanceIdHook_passes_iff.mpr ⟨h.named, rfl, rfl⟩⟩ <|
    .turn (turns_minimum (h.reaches (by decide))) <| .turn (turns_minimum (h.reaches (by decide))) hrest

theorem yields_to_history (h : Fitting vs) (hc : ContainersFit vs) {hooks : List (String × Hook)}
    {expected : Except Fault Values} (hrest : YieldsTo depth s hooks vs expected) :
    YieldsTo depth s (("numPidContainers", containerCountHook) ::
      ("numMpcContainers", minimumHook 8 "numMpcContainers" 1) ::
      ("numFilesPerMpcContainer", minimumHook 9 "numFilesPerMpcContainer" 1) :: hooks) vs expected :=
  .turn ⟨false, fun _ => containerCountHook_passes_iff.mpr ⟨hc, rfl, rfl⟩⟩ <|
    .turn (turns_minimum (h.reaches (by decide))) <| .turn (turns_minimum (h.reaches (by decide))) hrest

theorem yields_of_containers {cause : Fault} (h : Fitting vs)
    (hb : Balks (Entity.scope depth registry) s containerCountHook vs cause) :
    YieldsTo depth s (schedule registry.fields []) vs (.error cause) := by
  rw [schedule_eq]
  exact yields_to_containers h (.balk hb)

theorem yields_of_history {cause : Fault} (h : Fitting vs) (hc : ContainersFit vs)
    (hb : Balks (Entity.scope depth registry) s historyOrderHook vs cause) :
    YieldsTo depth s (schedule registry.fields []) vs (.error cause) := by
  rw [schedule_eq]
  exact yields_to_containers h (yields_to_history h hc (.balk hb))

/-- Where the containers fit and the history is in order, no hook refuses anything. -/
theorem yields_of_order (h : Fitting vs) (hc : ContainersFit vs) {entries : List Value}
    (he : Entity.read registry vs "statusUpdates" = .ok (.list entries))
    (hf : firstOutOfOrder none 0 entries = some none) :
    ∃ ws, YieldsTo depth s (schedule registry.fields []) vs (.ok ws) := by
  obtain ⟨items, hi, ht⟩ := h.typed.features
  obtain ⟨us, hseed, hus⟩ := turns_seed depth s "statusUpdates" he
    (h.read_eq (by decide)) (h.read_eq (by decide))
  have hfeatures : Entity.read registry us "pcsFeatures" = .ok (.list items) := by
    rw [Entity.read_eq_ok_iff, hseed.read_eq (by decide), ← Entity.read_eq_ok_iff, ← hi]
    exact h.read_eq (by decide)
  obtain ⟨ws, hnorm, hws⟩ := turns_features depth s "pcsFeatures" hfeatures ht
  have hreach : ∀ {field minimum}, field ≠ "statusUpdates" → field ≠ "pcsFeatures" →
      (field, minimum) ∈ bounds → Reaches ws field minimum := fun h₁ h₂ hb =>
    (reaches_congr ((hnorm.read_eq h₂).trans (hseed.read_eq h₁))).mpr (h.reaches hb)
  refine ⟨ws, ?_⟩
  rw [schedule_eq]
  refine yields_to_containers h (yields_to_history h hc ?_)
  exact .turn ⟨false, fun _ => historyOrderHook_passes_iff.mpr ⟨⟨entries, he, hf⟩, rfl, rfl⟩⟩ <|
    .turn hus <| .turn hws <| .turn (turns_minimum (hreach (by decide) (by decide) (by decide))) <|
      .turn (turns_minimum (hreach (by decide) (by decide) (by decide))) <|
        .turn (turns_minimum (hreach (by decide) (by decide) (by decide))) <|
          .turn (turns_minimum (hreach (by decide) (by decide) (by decide))) .done

end Rows

section Creation

variable {w : Value} {m : Ambient} {pid mpc : Binary64} {entries : List Value}

structure Supplied (w : Value) (pid mpc : Binary64) (entries : List Value) : Prop where
  pid : w.member? "numPidContainers" = some (.number pid)
  mpc : w.member? "numMpcContainers" = some (.number mpc)
  history : w.member? "statusUpdates" = some (.list entries)

theorem pid_count : ("numPidContainers", countSchema) ∈ schema.entries := by simp [schema, Schema.entries]

theorem mpc_count : ("numMpcContainers", countSchema) ∈ schema.entries := by simp [schema, Schema.entries]

theorem history_updates : ("statusUpdates", listOf statusUpdateSchema) ∈ schema.entries := by
  simp [schema, Schema.entries]

theorem exists_supplied (h : schema.Fits true w) : ∃ pid mpc entries, Supplied w pid mpc entries := by
  obtain ⟨v, hv, hpid⟩ := member_of_fits h pid_count
  obtain ⟨-, -, pid, rfl, -⟩ := isWhole_of_count hpid
  obtain ⟨v, hv', hmpc⟩ := member_of_fits h mpc_count
  obtain ⟨-, -, mpc, rfl, -⟩ := isWhole_of_count hmpc
  obtain ⟨v, hv'', hlist⟩ := member_of_fits h history_updates
  obtain ⟨entries, rfl, -⟩ := hlist.exists_list
  exact ⟨pid, mpc, entries, hv, hv', hv''⟩

theorem Supplied.stamped (h : schema.Fits true w) (hs : Supplied w pid mpc entries) :
    ∀ entry ∈ entries, ∃ n : Int, 0 ≤ n ∧ IsStamped entry n := by
  obtain ⟨v, hv, hlist⟩ := member_of_fits h history_updates
  rw [hs.history] at hv
  cases hv
  cases hlist with
  | list hentries => exact fun entry hm => isStamped_of_fits (hentries entry hm)

theorem Supplied.isNan (h : schema.Fits true w) (hs : Supplied w pid mpc entries) :
    pid.isNan = false ∧ mpc.isNan = false := by
  have hcount : ∀ {field x}, (field, countSchema) ∈ schema.entries → w.member? field = some (.number x) →
      x.isNan = false := by
    intro field x hf hx
    obtain ⟨v, hv, hfits⟩ := member_of_fits h hf
    rw [hx] at hv
    cases hv
    cases hfits with
    | number hb => exact (hb rfl).1
  exact ⟨hcount pid_count hs.pid, hcount mpc_count hs.mpc⟩

theorem populates (h : schema.Fits true w) (hs : Supplied w pid mpc entries) (m : Ambient) :
    ∃ vs, Entity.populate registry w { ambient := m, entity := { values := {} } } =
        .ok () (Scene.holding { ambient := m, entity := { values := {} } } m vs) ∧ Fitting vs ∧
      Entity.read registry vs "numPidContainers" = .ok (.number pid) ∧
      Entity.read registry vs "numMpcContainers" = .ok (.number mpc) ∧
      Entity.read registry vs "statusUpdates" = .ok (.list entries) := by
  obtain ⟨vs, hp, -, hmember⟩ := populate_of_fits (s := { ambient := m, entity := { values := {} } }) h rfl
  have hfitting := fitting_of_fits h hmember
  have hread : ∀ {field v}, field ∈ registry.fieldNames → w.member? field = some v → vs.read field = v :=
    fun hf hv => Option.some.inj ((hmember _ hf).symm.trans hv)
  have hok : ∀ {field v}, field ∈ registry.fieldNames → w.member? field = some v →
      Entity.read registry vs field = .ok v := fun hf hv => hread hf hv ▸ hfitting.read_eq hf
  exact ⟨vs, hp, hfitting, hok (by decide) hs.pid, hok (by decide) hs.mpc, hok (by decide) hs.history⟩

theorem create_of_refusal {vs : Values} {cause : Fault} (hm : m.Orderly)
    (hp : Entity.populate registry w { ambient := m, entity := { values := {} } } =
      .ok () (Scene.holding { ambient := m, entity := { values := {} } } m vs))
    (h : YieldsTo Entity.nesting { ambient := m, entity := { values := {} } } (schedule registry.fields []) vs
      (.error cause)) :
    ∃ n, create w m = .error (.fault (.construction "InfraConfig" cause)) n := by
  obtain ⟨t, ht⟩ := Entity.construct_of_refusal hp rfl hm h
  exact ⟨_, Entity.create_of_construct_error ht⟩

theorem create_of_crowd (hm : m.Orderly) (h : schema.Fits true w) (hs : Supplied w pid mpc entries)
    (hl : mpc.less pid = true) :
    ∃ n, create w m = .error (.fault (.construction "InfraConfig" (tooManyPids pid mpc))) n := by
  obtain ⟨vs, hp, hfitting, hpid, hmpc, -⟩ := populates h hs m
  exact create_of_refusal hm hp (yields_of_containers hfitting (balks_containers hpid hmpc hl))

theorem create_of_drop (hm : m.Orderly) (h : schema.Fits true w) (hs : Supplied w pid mpc entries)
    (hl : mpc.less pid = false) {i : Nat} {entry : Value} {x : Binary64} (hi : FirstDrop entries i)
    (he : entries[i]? = some entry) (hx : stampOf entry = some (.number x)) :
    ∃ n, create w m = .error (.fault (.construction "InfraConfig" (backInTime i x))) n := by
  obtain ⟨vs, hp, hfitting, hpid, hmpc, hhistory⟩ := populates h hs m
  have hc : ContainersFit vs := ⟨_, _, hpid, hmpc, fun _ _ => congrArg some hl⟩
  have hf := firstOutOfOrder_of_firstDrop (hs.stamped h) hi he hx
  exact create_of_refusal hm hp (yields_of_history hfitting hc (balks_history hhistory hf))

theorem create_of_order (hm : m.Orderly) (h : schema.Fits true w) (hs : Supplied w pid mpc entries)
    (hl : mpc.less pid = false) (hno : ∀ i, ¬ DropsAt entries i) : ∃ e n, create w m = .ok e n := by
  obtain ⟨vs, hp, hfitting, hpid, hmpc, hhistory⟩ := populates h hs m
  have hc : ContainersFit vs := ⟨_, _, hpid, hmpc, fun _ _ => congrArg some hl⟩
  obtain ⟨ws, hws⟩ := yields_of_order hfitting hc hhistory (firstOutOfOrder_of_no_drop (hs.stamped h) hno)
  obtain ⟨t, ht⟩ := Entity.construct_of_yields hp rfl hm hws
  exact ⟨_, _, Entity.create_of_construct ht⟩

end Creation

section Fields

variable {q : Record Value} {vs ws us : Values} {m n : Ambient} {e : Entity}

/-- What a restored infra config holds in a field: an empty history starts with the first status, of equal
features the first is kept, and anything else is what the payload was checked into. -/
def completedField (q : Record Value) (field : String) (v : Value) : Value :=
  match v with
  | .list items =>
    if field = "statusUpdates" ∧ items = [] then
      .list [statusUpdate ((q.lookup "status").getD .undefined) ((q.lookup "statusUpdateTs").getD .undefined)]
    else if field = "pcsFeatures" then .list items.eraseDups
    else v
  | _ => v

def completed (q : Record Value) : Record Value := q.map fun (field, v) => (field, completedField q field v)

def Hold (vs : Values) (q : Record Value) : Prop := ∀ field v, q.lookup field = some v → vs.read field = v

theorem completedField_of_ne {field : String} (h₁ : field ≠ "statusUpdates") (h₂ : field ≠ "pcsFeatures") (v : Value) :
    completedField q field v = v := by
  unfold completedField
  split
  · rw [if_neg fun h => h₁ h.1, if_neg h₂]
  · rfl

theorem Seeded.history (hs : Seeded us vs) (hus : Hold us q) (hn : q.names = registry.fieldNames) {v : Value}
    (hv : q.lookup "statusUpdates" = some v) : vs.read "statusUpdates" = completedField q "statusUpdates" v := by
  have hheld : ∀ field, field ∈ registry.fieldNames → us.read field = (q.lookup field).getD .undefined := by
    intro field hf
    obtain ⟨u, hu⟩ := Record.mem_names_iff.mp (hn ▸ hf)
    rw [hus field u hu, hu, Option.getD_some]
  obtain ⟨entries, he, hcase⟩ := hs
  obtain ⟨-, he, -⟩ := Entity.read_eq_ok_iff.mp he
  obtain rfl : .list entries = v := he.symm.trans (hus _ _ hv)
  rcases hcase with ⟨hne, rfl⟩ | ⟨rfl, status, stamp, hst, hts, rfl⟩
  · rw [he, completedField, if_neg fun h => hne h.2, if_neg (by decide)]
  · obtain ⟨-, hst, -⟩ := Entity.read_eq_ok_iff.mp hst
    obtain ⟨-, hts, -⟩ := Entity.read_eq_ok_iff.mp hts
    rw [Values.read_write_self _ (by decide), completedField, if_pos ⟨rfl, rfl⟩, ← hheld _ (by decide),
      ← hheld _ (by decide), hst, hts]

theorem Normalized.features (hn : Normalized vs ws) {items : List Value}
    (hi : vs.read "pcsFeatures" = .list items) (ht : ∀ v ∈ items, ∃ s, v = .text s) :
    ws.read "pcsFeatures" = .list items.eraseDups := by
  obtain ⟨features, members, hf, hm, hcase⟩ := hn
  obtain ⟨-, hf, -⟩ := Entity.read_eq_ok_iff.mp hf
  obtain rfl : .list items = features := hi.symm.trans hf
  cases hm
  rcases hcase with ⟨hl, rfl⟩ | ⟨-, rfl⟩
  · have hlength : items.length = (Value.distinct items).length := of_decide_eq_true (Option.some.inj hl)
    rw [hi, ← Value.distinct_eq_eraseDups ht]
    exact congrArg _ (Value.eq_distinctFrom_of_length ht hlength.symm)
  · rw [Values.read_write_self _ (by decide), Value.distinct_eq_eraseDups ht]

theorem contents_eq (hseed : Seeded us vs) (hnorm : Normalized vs ws) (hus : Hold us q) (hut : Typed us)
    (hn : q.names = registry.fieldNames) : contents ws = completed q := by
  have hd : q.names.Nodup := by
    rw [hn]
    decide
  have hq := Record.eq_map_names hd us.read hus
  rw [hn] at hq
  have hcompleted : completed q =
      registry.fieldNames.map fun field => (field, completedField q field (us.read field)) := by
    refine (congrArg (List.map fun entry => (entry.1, completedField q entry.1 entry.2)) hq).trans ?_
    rw [List.map_map]
    rfl
  rw [hcompleted]
  refine List.map_congr_left fun field hf => congrArg (Prod.mk field) ?_
  obtain ⟨v, hv⟩ := Record.mem_names_iff.mp (hn ▸ hf)
  by_cases h₁ : field = "statusUpdates"
  · subst h₁
    rw [hnorm.read_eq (by decide), hus _ _ hv]
    exact hseed.history hus hn hv
  · by_cases h₂ : field = "pcsFeatures"
    · subst h₂
      obtain ⟨items, hi, ht⟩ := hut.features
      rw [hnorm.features (hseed.read_eq h₁ ▸ hi) ht, hi]
      rfl
    · rw [hnorm.read_eq h₂, hseed.read_eq h₁]
      exact (completedField_of_ne h₁ h₂ _).symm

theorem hold_of_supplies {bounded : Bool} (h : schema.Fits bounded (.record q))
    (hfill : ∀ field ∈ registry.fieldNames, Entity.Supplies registry (.record q) field (us.read field)) : Hold us q := by
  intro field v hv
  have hf : field ∈ registry.fieldNames := by
    cases h with
    | record _ hn _ =>
      rw [← names_entries]
      exact (hn field).mp (Record.mem_names_iff.mpr ⟨v, hv⟩)
  obtain ⟨s, hs⟩ := exists_schema hf
  obtain ⟨u, hu, hfits⟩ := member_of_fits h hs
  obtain ⟨supplied, hm, hread⟩ := hfill field hf
  obtain rfl : u = supplied := Option.some.inj (hu.symm.trans hm)
  rw [if_neg hfits.ne_undefined] at hread
  rw [Value.member?, Value.lookUp, hv, Option.getD_some] at hu
  rw [hread, Option.some.inj hu]

theorem toRecord_of_create (h : schema.Fits true (.record q)) (hn : q.names = registry.fieldNames)
    (hc : create (.record q) m = .ok e n) : toRecord e.state.values = .ok (completed q) := by
  have hi := isTypedInit_of_fits h
  rw [(settled_of_create hc hi).toRecord_eq]
  obtain ⟨t, ht, rfl, -⟩ := Entity.construct_of_create hc
  obtain ⟨us, vs, hfill, -, hseed, hnorm⟩ := admitted_of_construct ht
  have hold := hold_of_supplies h fun field hf => (hfill field hf).1
  have htyped : Typed us := typed_of_supplies hi fun field hf => (hfill field hf).1
  rw [contents_eq hseed hnorm hold htyped hn]

end Fields

end GovernedConfig.InfraConfig
