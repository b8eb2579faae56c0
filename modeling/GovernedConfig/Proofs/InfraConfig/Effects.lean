import GovernedConfig.Proofs.Entity.Levels
import GovernedConfig.Proofs.InfraConfig.Admission
import GovernedConfig.Proofs.InfraConfig.Presence

/-! # The effect of an update of an infra config

An update that answers changes the written field and what the rules derive from it, and nothing else. An update with
a value of the type of its field throws for a few reasons only, each with a fault of its own.
-/

namespace GovernedConfig.InfraConfig

open Act Lifecycle Program Rules Schema

section Effects

variable {now : Binary64} {vs ws : Values} {field : String} {v : Value}

/-- What a written field comes to hold, and what all the others do. -/
structure HasEffect (now : Binary64) (field : String) (v : Value) (vs ws : Values) : Prop where
  /-- A written status is stamped, not before the last entry of the history, and recorded. -/
  status : field = "status" → ∃ entries x grown, vs.read "statusUpdates" = .list entries ∧
    GrowsBy now v entries x grown ∧ ws.read "status" = v ∧ ws.read "statusUpdateTs" = .number x ∧
      ws.read "statusUpdates" = .list grown
  /-- Of equal features the first is kept. -/
  features : field = "pcsFeatures" → ∀ items, v = .list items → (∀ item ∈ items, ∃ s, item = .text s) →
    ws.read "pcsFeatures" = .list items.eraseDups
  written : field ≠ "status" → field ≠ "pcsFeatures" → ws.read field = v
  untouched : ∀ other, other ≠ field →
    (field = "status" → other ≠ "statusUpdateTs" ∧ other ≠ "statusUpdates") → ws.read other = vs.read other

theorem Updated.hasEffect (hu : Updated now vs field v ws) (hn : now.isInteger = true) (hne : field ≠ "__proto__")
    (hvs : Governed vs) : HasEffect now field v vs ws := by
  obtain ⟨entries, hc⟩ := hvs.chronicles
  obtain ⟨-, grown, hg, hgrows⟩ := hu.keeps hn hne hvs.sound hc
  refine ⟨fun hs => ?_, fun hf items hi ht => ?_, fun hs hf => ?_, fun _ => hu.read_of_ne hne⟩
  · obtain ⟨x, hgrows, hstamp, hstatus⟩ := (hgrows.resolve_left fun h => h.1 hs).2
    exact ⟨entries, x, grown, hc.read, hgrows, hstatus, hstamp, hg.read⟩
  · subst hi
    cases hu with
    | status _ => exact absurd hf (by decide)
    | features hnorm => exact hnorm.features (vs.read_write_self hne _) ht
    | plain hp _ _ => exact (hp (by rw [hf]; decide)).elim
  · cases hu with
    | status _ => exact (hs rfl).elim
    | features _ => exact (hf rfl).elim
    | plain _ _ _ => exact vs.read_write_self hne v

end Effects

section Reasons

variable {vs : Values} {field : String} {v : Value} {cause : Fault}

def tooSmall (field : String) (minimum : Nat) (x : Binary64) : Fault :=
  .invariant (field ++ "-minimum")
    (field ++ " must be an integer of at least " ++ toString minimum ++ " (got " ++ x.text ++ ")")
    [(field, .number x)]

def Crowded (vs : Values) (pid mpc : Binary64) : Prop :=
  vs.read "numPidContainers" = .number pid ∧ vs.read "numMpcContainers" = .number mpc ∧ mpc.less pid = true

/-- Why an update with a value of the type of its field throws. -/
inductive Fails (vs : Values) (field : String) (v : Value) : Prop
  | derived : field = "statusUpdateTs" ∨ field = "statusUpdates" → Fails vs field v
  | present : registry.IsWriteOnce field → (vs.read field).isPresent = true → Fails vs field v
  | small {minimum : Nat} : (field, minimum) ∈ bounds → reaches minimum v = false → Fails vs field v
  | crowded {pid mpc : Binary64} : field = "numPidContainers" ∨ field = "numMpcContainers" →
      Crowded (vs.write field v) pid mpc → Fails vs field v

/-- What such an update throws: the first reason counts. A value that has no JSON text may keep the refusal to
write over it from being told. -/
inductive Refusal (vs : Values) (field : String) (v : Value) : Fault → Prop
  | derived : field = "statusUpdateTs" ∨ field = "statusUpdates" → Refusal vs field v (.derivedField field)
  | present : registry.IsWriteOnce field → (vs.read field).isPresent = true →
      Refusal vs field v (.immutableField field (vs.read field) v)
  | untold : registry.IsWriteOnce field → (vs.read field).isPresent = true →
      Json.holdsBigint (vs.read field) = true → Refusal vs field v .badType
  | small {minimum : Nat} {x : Binary64} : registry.Allows (vs.read field) field .caller → (field, minimum) ∈ bounds →
      v = .number x → reaches minimum v = false → Refusal vs field v (tooSmall field minimum x)
  | crowded {pid mpc : Binary64} : registry.Allows (vs.read field) field .caller →
      field = "numPidContainers" ∨ field = "numMpcContainers" → reaches 1 v = true →
        Crowded (vs.write field v) pid mpc → Refusal vs field v (tooManyPids pid mpc)

theorem Refusal.fails (h : Refusal vs field v cause) : Fails vs field v := by
  cases h with
  | derived hd => exact .derived hd
  | present ho hp => exact .present ho hp
  | untold ho hp => exact .present ho hp
  | small _ hb _ hr => exact .small hb hr
  | crowded _ hf _ hc => exact .crowded hf hc

theorem Updated.not_fails {now : Binary64} {ws : Values} (hu : Updated now vs field v ws)
    (ha : registry.Allows (vs.read field) field .caller) : ¬ Fails vs field v := by
  have hne := ne_base_of_allows ha
  rintro (hd | ⟨ho, hp⟩ | ⟨hb, hr⟩ | ⟨hf, hpid, hmpc, hl⟩)
  · rcases hd with rfl | rfl <;> cases ha.through
  · rw [ho.allows_iff.mp ha] at hp
    cases hp
  · cases hu with
    | status _ => simp [bounds] at hb
    | features _ => simp [bounds] at hb
    | plain _ hreaches _ =>
      obtain ⟨w, hw, hreached⟩ := hreaches _ hb
      obtain ⟨-, rfl, -⟩ := Entity.read_eq_ok_iff.mp hw
      rw [vs.read_write_self hne, hr] at hreached
      cases hreached
  · cases hu with
    | status _ => simp at hf
    | features _ => simp at hf
    | plain _ _ hfit =>
      obtain ⟨pid, mpc, hp, hm, hle⟩ := hfit hf
      obtain ⟨-, rfl, -⟩ := Entity.read_eq_ok_iff.mp hp
      obtain ⟨-, rfl, -⟩ := Entity.read_eq_ok_iff.mp hm
      rw [hpid, hmpc] at hle
      have hnot := hle rfl rfl
      rw [show (Value.number _).less? (.number _) = some true from congrArg some hl] at hnot
      cases hnot

end Reasons

section Refusing

variable {depth : Nat} {field : String} {v : Value} {s : Scene Values} {vs : Values}

theorem balks_minimum {key minimum : Nat} {x : Binary64} (hv : Entity.read registry vs field = .ok (.number x))
    (hr : reaches minimum (.number x) = false) :
    Balks (Entity.scope depth registry) s (minimumHook key field minimum) vs (tooSmall field minimum x) := by
  refine balks_of_runs rfl rfl (fun m => ?_) fun m => ?_
  · refine run_bind_eq_ok_iff.mpr ⟨_, _, run_read_eq_ok_iff.mpr ⟨hv, rfl⟩, ?_⟩
    rw [hr]
    rfl
  · unfold rejectBelow
    rw [run_bind_of_ok (run_read_eq_ok_iff.mpr ⟨hv, rfl⟩),
      run_bind_of_ok (run_suitable_eq_ok_iff.mpr ⟨toText?_number x, rfl⟩)]
    rfl

/-- A field takes writes of a caller, or it is maintained by hooks, or it keeps what it holds. -/
theorem allows_cases (hf : field ∈ registry.fieldNames) (current : Value) :
    registry.Allows current field .caller ∨ (field = "statusUpdateTs" ∨ field = "statusUpdates") ∨
      registry.IsWriteOnce field ∧ current.isPresent = true := by
  have hkinds : ∀ field ∈ registry.fieldNames, registry.mutability field = .ok .mutable ∨
      (field = "statusUpdateTs" ∨ field = "statusUpdates") ∨ registry.IsWriteOnce field := by decide
  rcases hkinds field hf with hm | hd | ho
  · refine .inl ⟨isDeclared_of_mem hf, ?_⟩
    rw [Registry.canWrite, hm]
    rfl
  · exact .inr (.inl hd)
  · cases hp : current.isPresent with
    | false => exact .inl (ho.allows_iff.mpr hp)
    | true => exact .inr (.inr ⟨ho, rfl⟩)

theorem set_of_check_error {thrown : Thrown} {n : Ambient} (hp : s.entity.phase.acceptsUpdates = true)
    (h : registry.assertWritable (s.entity.values.read field) field v .caller s.ambient = .error thrown n) :
    ∃ t, Entity.set registry depth field v s = .error thrown t := by
  have hcheck : (Scene.around (registry.assertWritable (s.entity.values.read field) field v .caller) : Act _ _) s =
      .error thrown { s with ambient := n } := Scene.around_eq_error_iff.mpr ⟨n, h, rfl⟩
  refine ⟨{ s with ambient := n }, ?_⟩
  unfold Entity.set Entity.update
  rw [bind_of_ok ((requireReady_eq_ok_iff (u := ())).mpr ⟨hp, rfl⟩), bind_of_ok (Scene.values_eq s)]
  exact bind_of_error hcheck _

theorem set_of_derived (hp : s.entity.phase.acceptsUpdates = true) (hm : s.ambient.TakesLines)
    (hf : field = "statusUpdateTs" ∨ field = "statusUpdates") :
    ∃ t, Entity.set registry depth field v s = .error (.fault (.derivedField field)) t := by
  obtain ⟨n, -, hn⟩ := hm.writes (show Level.warn ≠ .silent by decide) "derived_field_violation"
    "Rejected direct write to hook-owned field"
    (.record [("entity", .text registry.entityName), ("field", .text field)]) rfl
  refine set_of_check_error (n := n) hp ?_
  have hderived : registry.isDeclared field = true ∧ registry.mutability field = .ok .derived := by
    rcases hf with rfl | rfl <;> decide
  have hanswer : registry.canWrite (some (s.entity.values.read field)) field .caller = .ok (some false) := by
    rw [Registry.canWrite, hderived.2]
    rfl
  rw [Registry.assertWritable_of_derived hderived.1 hanswer (by decide) hderived.2]
  exact bind_of_ok hn _

theorem isSome_describe? {w : Value} (hw : Json.holdsBigint w = false) : w.describe?.isSome = true := by
  unfold Value.describe?
  cases hprint : Json.print? w with
  | some s => rfl
  | none =>
    rw [Journal.print_eq_none_iff, hw] at hprint
    cases hprint

/-- A write over what a field keeps is refused; only a value without a JSON text can keep that from being told. -/
theorem set_of_present (hp : s.entity.phase.acceptsUpdates = true) (hm : s.ambient.TakesLines)
    (ho : registry.IsWriteOnce field) (hh : (s.entity.values.read field).isPresent = true)
    (hv : Json.holdsBigint v = false) :
    ∃ cause t, Entity.set registry depth field v s = .error (.fault cause) t ∧
      Refusal s.entity.values field v cause := by
  have hanswer : registry.canWrite (some (s.entity.values.read field)) field .caller = .ok (some false) := by
    rw [Registry.canWrite, ho.mutability_eq]
    change Except.ok (some !(s.entity.values.read field).isPresent) = _
    rw [hh]
    rfl
  have hcheck := Registry.assertWritable_of_refused (v := v) (m := s.ambient) ho.declared hanswer (by decide)
    (by rw [ho.mutability_eq]; decide)
  cases hwarn : Journal.warn "immutable_field_violation" "Rejected write to immutable field"
      [("entity", .text registry.entityName), ("field", .text field), ("current", s.entity.values.read field),
        ("attempted", v)] s.ambient with
  | ok u n =>
    rw [bind_of_ok hwarn] at hcheck
    obtain ⟨t, ht⟩ := set_of_check_error hp hcheck
    refine ⟨_, t, ht, ?_⟩
    unfold Fault.refusedWrite
    split
    · exact .present ho hh
    · rename_i hnot
      refine .untold ho hh ?_
      cases hb : Json.holdsBigint (s.entity.values.read field) with
      | true => rfl
      | false => exact absurd (by rw [isSome_describe? hb, isSome_describe? hv]; rfl) hnot
  | error thrown n =>
    rw [bind_of_error hwarn] at hcheck
    obtain ⟨t, ht⟩ := set_of_check_error hp hcheck
    obtain rfl := hm.eq_badType (by decide) hwarn
    refine ⟨_, t, ht, .untold ho hh ?_⟩
    cases hb : Json.holdsBigint (s.entity.values.read field) with
    | true => rfl
    | false =>
      obtain ⟨k, -, hk⟩ := hm.writes (show Level.warn ≠ .silent by decide) "immutable_field_violation"
        "Rejected write to immutable field" (.record [("entity", .text registry.entityName), ("field", .text field),
          ("current", s.entity.values.read field), ("attempted", v)])
        (by simp [Registry.holdsBigint_refusal, hb, hv])
      cases hk.symm.trans hwarn

end Refusing

section Written

variable {depth : Nat} {field other : String} {v : Value} {s : Scene Values} {vs : Values} {x : Binary64}

theorem exists_number_of_ofType {minimum : Nat} (hb : (field, minimum) ∈ bounds) (hv : OfType field v) :
    ∃ x, v = .number x := by
  have hnumbers : ∀ p ∈ bounds, (p.1, Value.IsNumber) ∈ fieldTypes := by simp [bounds, fieldTypes]
  exact hv Value.IsNumber (hnumbers _ hb)

theorem read_write_of_ofType (hf : field ∈ registry.fieldNames) (hv : OfType field v) (vs : Values) :
    Entity.read registry (vs.write field v) field = .ok v := by
  obtain ⟨schema, hs⟩ := exists_schema hf
  have hfits := ofType_iff.mp hv schema hs
  have hne : field ≠ "__proto__" := ordinary.ne_base (isDeclared_of_mem hf)
  exact Entity.read_eq_ok_iff.mpr
    ⟨isDeclared_of_mem hf, vs.read_write_self hne v, hfits.ne_undefined, hfits.isCopyable⟩

theorem exists_count (hvs : Sound vs) (hf : field ∈ registry.fieldNames) (ho : other ∈ registry.fieldNames)
    (hb : (other, 1) ∈ bounds) (x : Binary64) :
    ∃ y, Entity.read registry (vs.write field (.number x)) other = .ok (.number y) := by
  have hne : field ≠ "__proto__" := ordinary.ne_base (isDeclared_of_mem hf)
  obtain ⟨y, hy⟩ : ∃ y, (vs.write field (.number x)).read other = .number y := by
    by_cases he : other = field
    · exact ⟨x, by rw [he, vs.read_write_self hne]⟩
    · obtain ⟨n, -, y, hy, -⟩ := hvs.whole other 1 hb
      exact ⟨y, by rw [vs.read_write_of_ne hne he, hy]⟩
  exact ⟨y, Entity.read_eq_ok_iff.mpr ⟨isDeclared_of_mem ho, hy, by simp, rfl⟩⟩

theorem latestStamp_runs {may : Bool} {entries : List Value} {last : Value}
    (hh : Entity.read registry s.entity.values "statusUpdates" = .ok (.list entries))
    (hl : entries.getLast? = some last) (hx : stampOf last = some (.number x)) :
    latestStamp.run (Entity.scope depth registry) may s = .ok (.number x) s := by
  unfold latestStamp
  rw [run_bind_of_ok (run_read_eq_ok_iff.mpr ⟨hh, rfl⟩), run_bind_of_ok (a := last) (run_suitable_eq_ok_iff.mpr
    ⟨by rw [Value.last?, hl, Option.getD_some], rfl⟩), if_pos (truthy_of_stampOf hx)]
  exact run_suitable_eq_ok_iff.mpr ⟨hx, rfl⟩

theorem appendStatus_runs {entries : List Value} {stamp : Value}
    (hs : Entity.read registry s.entity.values "status" = .ok v)
    (ht : Entity.read registry s.entity.values "statusUpdateTs" = .ok stamp)
    (hh : Entity.read registry s.entity.values "statusUpdates" = .ok (.list entries)) :
    appendStatus.run (Entity.scope depth registry) true s =
      .ok () (s.written "statusUpdates" (.list (entries ++ [statusUpdate v stamp]))) := by
  have hc : (Value.list (entries ++ [statusUpdate v stamp])).isCopyable = true := by
    obtain ⟨-, -, -, hs⟩ := Entity.read_eq_ok_iff.mp hs
    obtain ⟨-, -, -, ht⟩ := Entity.read_eq_ok_iff.mp ht
    obtain ⟨-, -, -, hh⟩ := Entity.read_eq_ok_iff.mp hh
    rw [Value.isCopyable, Value.allCopyable_eq] at hh ⊢
    simp [hh, statusUpdate, Value.isCopyable, Value.entriesCopyable, hs, ht]
  simp only [appendStatus, run_bind_eq_ok_iff, run_read_eq_ok_iff, run_suitable_eq_ok_iff, run_write_eq_ok_iff]
  exact ⟨v, _, ⟨hs, rfl⟩, stamp, _, ⟨ht, rfl⟩, _, _, ⟨hh, rfl⟩, entries, _, ⟨rfl, rfl⟩, ⟨rfl, rfl⟩, hc, rfl⟩

theorem postStatusHook_records {entries : List Value} {last : Value}
    (hs : Entity.read registry s.entity.values "status" = .ok v)
    (hh : Entity.read registry s.entity.values "statusUpdates" = .ok (.list entries))
    (hl : entries.getLast? = some last) (hx : stampOf last = some (.number x)) :
    PassesHook depth field .postUpdate postStatusHook s true
      (stamped s (.number (s.ambient.seconds.max x)) entries v) := by
  -- The stamp is written before the entry, so the entry is made of what is read behind that write.
  have hstamp : Entity.read registry (s.entity.values.write "statusUpdateTs" (.number (s.ambient.seconds.max x)))
      "statusUpdateTs" = .ok (.number (s.ambient.seconds.max x)) :=
    Entity.read_eq_ok_iff.mpr ⟨by decide, Values.read_write_self _ (by decide) _, by simp, rfl⟩
  have hlatest : latestStamp.run (Entity.scope depth registry) true s = .ok (.number x) s := latestStamp_runs hh hl hx
  have hwrite : (write "statusUpdateTs" (.number (s.ambient.seconds.max x))).run (Entity.scope depth registry) true s =
      .ok () (s.written "statusUpdateTs" (.number (s.ambient.seconds.max x))) :=
    run_write_eq_ok_iff.mpr ⟨⟨by decide, rfl⟩, rfl, rfl⟩
  rw [← Entity.read_write_of_ne (v := .number (s.ambient.seconds.max x)) (by decide : "statusUpdateTs" ≠ "__proto__")
    (by decide)] at hs hh
  have hrun : stampStatus.run (Entity.scope depth registry) true s =
      .ok () (stamped s (.number (s.ambient.seconds.max x)) entries v) := by
    unfold stampStatus
    rw [run_bind_of_ok (run_now_eq_ok_iff.mpr ⟨rfl, rfl⟩), run_bind_of_ok hlatest,
      run_bind_of_ok (run_suitable_eq_ok_iff.mpr ⟨show (Value.number x).toOperand? = some x from rfl, rfl⟩),
      run_bind_of_ok hwrite]
    exact appendStatus_runs (s := s.written "statusUpdateTs" _) hs hstamp hh
  refine runHook_eq_ok_iff.mpr (.inr ⟨rfl, s, rfl, ?_⟩)
  exact (congrFun (run_bind _ true stampStatus _) s).trans (bind_of_ok hrun _)

end Written

section Verdicts

variable {depth : Nat} {field : String} {v : Value} {s t : Scene Values} {ws : Values} {cause : Fault}
  {hooks : List Hook}

theorem set_of_yields (h : Entity.Dispatches registry field v s hooks) (hm : s.ambient.TakesLines)
    (hy : Yields registry (Entity.scope depth registry) .postUpdate s (hooks.map (field, ·))
      (s.entity.values.write field v) (.ok ws)) :
    ∃ report t, Entity.set registry depth field v s = .ok report t := by
  have hr := runHooks_of_yields hm hy
  generalize hresult : runHooks registry (Entity.scope depth registry) field .postUpdate hooks _ = result at hr
  cases hr with
  | ok _ => exact ⟨_, _, set_of_runHooks h hresult⟩

theorem set_of_yields_error (h : Entity.Dispatches registry field v s hooks) (hm : s.ambient.TakesLines)
    (hy : Yields registry (Entity.scope depth registry) .postUpdate s (hooks.map (field, ·))
      (s.entity.values.write field v) (.error cause)) :
    ∃ t, Entity.set registry depth field v s = .error (.fault cause) t := by
  have hr := runHooks_of_yields hm hy
  generalize hresult : runHooks registry (Entity.scope depth registry) field .postUpdate hooks _ = result at hr
  cases hr with
  | error hn =>
    exact Entity.update_of_refusal h.ready h.allowed h.copyable
      ((dispatchUpdate_eq (s := s.written field v) h.ready h.hooks).trans hresult) (hm.of_steady hn)

def Decided (depth : Nat) (field : String) (v : Value) (s : Scene Values) : Prop :=
  (∃ report t, Entity.set registry depth field v s = .ok report t) ∨
    ∃ cause t, Entity.set registry depth field v s = .error (.fault cause) t ∧ Refusal s.entity.values field v cause

theorem decided_of_bounded {key minimum : Nat} (hm : s.ambient.TakesLines) (hv : OfType field v)
    (hb : (field, minimum) ∈ bounds) (hf : field ∈ registry.fieldNames)
    (h : Entity.Dispatches registry field v s [minimumHook key field minimum]) : Decided depth field v s := by
  obtain ⟨x, rfl⟩ := exists_number_of_ofType hb hv
  have hread := read_write_of_ofType hf hv s.entity.values
  cases hr : reaches minimum (.number x) with
  | true => exact .inl (set_of_yields h hm (.turn (turns_minimum ⟨_, hread, hr⟩) .done))
  | false =>
    obtain ⟨t, ht⟩ := set_of_yields_error h hm (.balk (balks_minimum hread hr))
    exact .inr ⟨_, t, ht, .small h.allowed hb rfl hr⟩

theorem decided_of_counted {key : Nat} (hs : Sound s.entity.values) (hm : s.ambient.TakesLines) (hv : OfType field v)
    (hf : field = "numPidContainers" ∨ field = "numMpcContainers")
    (h : Entity.Dispatches registry field v s [minimumHook key field 1, containerCountHook]) :
    Decided depth field v s := by
  have hcount : field ∈ registry.fieldNames ∧ (field, 1) ∈ bounds := by rcases hf with rfl | rfl <;> decide
  obtain ⟨x, rfl⟩ := exists_number_of_ofType hcount.2 hv
  have hread := read_write_of_ofType hcount.1 hv s.entity.values
  obtain ⟨pid, hpid⟩ := exists_count hs hcount.1 (by decide : "numPidContainers" ∈ registry.fieldNames) (by decide) x
  obtain ⟨mpc, hmpc⟩ := exists_count hs hcount.1 (by decide : "numMpcContainers" ∈ registry.fieldNames) (by decide) x
  cases hr : reaches 1 (.number x) with
  | false =>
    obtain ⟨t, ht⟩ := set_of_yields_error h hm (.balk (balks_minimum hread hr))
    exact .inr ⟨_, t, ht, .small h.allowed hcount.2 rfl hr⟩
  | true =>
    have hfirst : Turns registry (Entity.scope depth registry) .postUpdate s (field, minimumHook key field 1) _ _ :=
      turns_minimum ⟨_, hread, hr⟩
    cases hl : mpc.less pid with
    | false =>
      have hfit : ContainersFit (s.entity.values.write field (.number x)) :=
        ⟨_, _, hpid, hmpc, fun _ _ => congrArg some hl⟩
      exact .inl (set_of_yields h hm (.turn hfirst
        (.turn ⟨false, fun _ => containerCountHook_passes_iff.mpr ⟨hfit, rfl, rfl⟩⟩ .done)))
    | true =>
      obtain ⟨t, ht⟩ := set_of_yields_error h hm (.turn hfirst (.balk (balks_containers hpid hmpc hl)))
      obtain ⟨-, hpid, -⟩ := Entity.read_eq_ok_iff.mp hpid
      obtain ⟨-, hmpc, -⟩ := Entity.read_eq_ok_iff.mp hmpc
      exact .inr ⟨_, t, ht, .crowded h.allowed hf hr ⟨hpid, hmpc, hl⟩⟩

theorem decided_of_status (hs : Furnished s.entity.values) (hm : s.ambient.TakesLines) (hv : OfType "status" v)
    (h : Entity.Dispatches registry "status" v s [postStatusHook]) : Decided depth "status" v s := by
  obtain ⟨entries, hc⟩ := hs.chronicles
  obtain ⟨last, hlast⟩ : ∃ last, entries.getLast? = some last := ⟨_, List.getLast?_eq_some_getLast hc.begun⟩
  obtain ⟨n, -, stamp, hstamp, x, rfl, -⟩ := hc.inOrder.stamped last (List.mem_of_getLast? hlast)
  have hhistory : Entity.read registry (s.entity.values.write "status" v) "statusUpdates" = .ok (.list entries) := by
    rw [Entity.read_write_of_ne (by decide) (by decide), hs.read_eq (by decide) hs.history_ne, hc.read]
  have hrecords : PassesHook depth "status" .postUpdate postStatusHook (s.written "status" v) true _ :=
    postStatusHook_records (read_write_of_ofType (by decide) hv s.entity.values) hhistory hlast hstamp
  obtain ⟨report, t, ht⟩ := runHooks_of_runHook hrecords hm
  exact .inl ⟨report, t, set_of_runHooks h ht⟩

theorem decided_of_features (hm : s.ambient.TakesLines) (hv : OfType "pcsFeatures" v)
    (h : Entity.Dispatches registry "pcsFeatures" v s [featuresHook]) : Decided depth "pcsFeatures" v s := by
  obtain ⟨items, rfl, hitems⟩ := (ofType_pcsFeatures_iff.mp hv).exists_list
  have hread := read_write_of_ofType (by decide) hv s.entity.values
  obtain ⟨ws, -, hturns⟩ : ∃ ws, Normalized _ ws ∧ Turns registry (Entity.scope depth registry) .postUpdate s
      ("pcsFeatures", featuresHook) _ ws :=
    turns_features depth s "pcsFeatures" hread fun item hi => (hitems item hi).exists_text
  exact .inl (set_of_yields h hm (.turn hturns .done))

theorem decided_of_ofType (hs : Furnished s.entity.values) (hp : s.entity.phase.acceptsUpdates = true)
    (hm : s.ambient.TakesLines) (hf : field ∈ registry.fieldNames) (hv : OfType field v) : Decided depth field v s := by
  obtain ⟨schema, hschema⟩ := exists_schema hf
  rcases allows_cases hf (s.entity.values.read field) with ha | hd | ⟨ho, hpresent⟩
  · obtain ⟨hooks, hh, hw⟩ := exists_watched_of_allows ha
    have h : Entity.Dispatches registry field v s hooks := ⟨hp, ha, (ofType_iff.mp hv schema hschema).isCopyable, hh⟩
    cases hw with
    | idle _ _ => exact .inl (set_of_yields h hm .done)
    | bounded _ hb _ _ => exact decided_of_bounded hm hv hb hf h
    | counted hcount => exact decided_of_counted hs.sound hm hv hcount h
    | status => exact decided_of_status hs hm hv h
    | features => exact decided_of_features hm hv h
  · obtain ⟨t, ht⟩ := set_of_derived hp hm hd
    exact .inr ⟨_, t, ht, .derived hd⟩
  · exact .inr (set_of_present hp hm ho hpresent (ofType_iff.mp hv schema hschema).holdsBigint)

end Verdicts

/-- However an infra config was created and whatever was written to it since, with or without success: an update that
answers has its effect and no other, and where a reason speaks against it, it throws. Where the journal takes lines,
an update with a value of the type of its field throws for no other reason, and it throws the refusal that belongs to
the reason. -/
theorem set_has_its_effect {init : Value} {m n : Ambient} {e : Entity} (h : create init m = .ok e n) (depth : Nat)
    (turns : List Turn) (current : Option Entity) {s : Scene Values}
    (he : s.entity = (play depth turns ⟨n, e.state, current⟩).entity) (hclock : s.ambient.clock.isInteger = true)
    {field : String} (hf : field ∈ registry.fieldNames) (v : Value) :
    (∀ report t, Entity.set registry depth field v s = .ok report t →
      HasEffect s.ambient.seconds field v s.entity.values t.entity.values ∧ ¬ Fails s.entity.values field v) ∧
    (s.ambient.TakesLines → OfType field v →
      ((∃ thrown t, Entity.set registry depth field v s = .error thrown t) ↔ Fails s.entity.values field v) ∧
      ∀ thrown t, Entity.set registry depth field v s = .error thrown t →
        ∃ cause, thrown = .fault cause ∧ Refusal s.entity.values field v cause) := by
  have hcreated := (furnished_of_create h).1
  have hs : Furnished s.entity.values := he ▸ Furnished.play (s := ⟨n, e.state, current⟩) hcreated turns
  have hp : s.entity.phase.acceptsUpdates = true := by
    rw [he, phase_play (s := ⟨n, e.state, current⟩) hcreated, phase_of_create h]
    rfl
  have hseconds : s.ambient.seconds.isInteger = true := by
    obtain ⟨k, hk⟩ := Binary64.isInteger_iff.mp hclock
    exact Calendar.epochSeconds_isInteger (Binary64.equalsInt_iff.mp hk).1
  have hok : ∀ report t, Entity.set registry depth field v s = .ok report t →
      HasEffect s.ambient.seconds field v s.entity.values t.entity.values ∧ ¬ Fails s.entity.values field v := by
    intro report t ht
    obtain ⟨ha, -, hu⟩ := updated_of_set ht
    exact ⟨hu.hasEffect hseconds (ne_base_of_allows ha) hs.toGoverned, hu.not_fails ha⟩
  have hdecided : s.ambient.TakesLines → OfType field v → Decided depth field v s := fun hm hv =>
    decided_of_ofType hs hp hm hf hv
  refine ⟨hok, fun hm hv => ⟨⟨?_, fun hfails => ?_⟩, fun thrown t ht => ?_⟩⟩
  · rintro ⟨thrown, t, ht⟩
    rcases hdecided hm hv with ⟨report, u, hu⟩ | ⟨cause, u, -, hr⟩
    · cases ht.symm.trans hu
    · exact hr.fails
  · cases ht : Entity.set registry depth field v s with
    | ok report t => exact ((hok report t ht).2 hfails).elim
    | error thrown t => exact ⟨thrown, t, rfl⟩
  · rcases hdecided hm hv with ⟨report, u, hu⟩ | ⟨cause, u, hu, hr⟩
    · cases ht.symm.trans hu
    · cases ht.symm.trans hu
      exact ⟨cause, rfl, hr⟩

section Sample

theorem ofType_retryCounter (x : Binary64) : OfType "retryCounter" (.number x) := by
  simp [OfType, fieldTypes, Value.IsNumber]

/-- The sample does not take a negative number of retries, and says why. -/
theorem sample_refuses_negative_retries : ∃ e n, create sampleInit Entity.stillness = .ok e n ∧
    ∃ cause t, Entity.set registry 2 "retryCounter" (.number (.ofInt (-1)))
        ⟨Entity.stillness, (InfraConfig.play 2 sampleRefill ⟨n, e.state, none⟩).entity, none⟩ = .error (.fault cause) t ∧
      Refusal (InfraConfig.play 2 sampleRefill ⟨n, e.state, none⟩).entity.values "retryCounter"
        (.number (.ofInt (-1))) cause := by
  obtain ⟨e, n, h⟩ := exists_of_isCreated (by decide +kernel : isCreated sampleInit = true)
  have hsilent : Entity.stillness.IsSilent := rfl
  have hrefused := (set_has_its_effect h 2 sampleRefill none
    (s := ⟨Entity.stillness, (InfraConfig.play 2 sampleRefill ⟨n, e.state, none⟩).entity, none⟩) rfl
    Binary64.zero_isInteger (by decide : "retryCounter" ∈ registry.fieldNames) (.number (.ofInt (-1)))).2 hsilent.takesLines
    (ofType_retryCounter _)
  obtain ⟨thrown, t, ht⟩ := hrefused.1.mpr (.small (by decide : ("retryCounter", 0) ∈ bounds) (by decide +kernel))
  obtain ⟨cause, rfl, hr⟩ := hrefused.2 thrown t ht
  exact ⟨e, n, h, cause, t, ht, hr⟩

def tieredInit : Value :=
  .record
    [("instanceId", .text "study"), ("role", .text "PARTNER"), ("status", .text "CREATED"),
      ("gameType", .text "LIFT"), ("numPidContainers", .number 1), ("numMpcContainers", .number 2),
      ("numFilesPerMpcContainer", .number 40), ("tier", .bigint 5)]

def refusesUntold : Bool :=
  match create tieredInit (Entity.stillness.atLevel .warn) with
  | .ok e n =>
    match Entity.set registry 2 "tier" (.text "rc") ⟨n, e.state, none⟩ with
    | .error (.fault cause) _ => e.state.values.read "tier" = .bigint 5 ∧ cause = .badType
    | _ => false
  | .error _ _ => false

/-- A present value that has no JSON text keeps the refusal to write over it from being thrown. -/
theorem bigint_tier_is_refused_otherwise : ¬ ∀ (init : Value) (m n : Ambient) (e : Entity) (depth : Nat) (field : String)
    (v : Value), create init m = .ok e n → registry.IsWriteOnce field → (e.state.values.read field).isPresent = true →
      OfType field v → ∃ t, Entity.set registry depth field v ⟨n, e.state, none⟩ =
        .error (.fault (.immutableField field (e.state.values.read field) v)) t := by
  intro hall
  have h : refusesUntold = true := by decide +kernel
  have htext : OfType "tier" (.text "rc") := by
    simp [OfType, fieldTypes, Value.IsNullOr, Value.IsText]
  unfold refusesUntold at h
  split at h
  · rename_i e n he
    split at h
    · rename_i cause t ht
      obtain ⟨hheld, rfl⟩ := of_decide_eq_true h
      obtain ⟨u, hu⟩ := hall tieredInit _ n e 2 "tier" (.text "rc") he (by decide) (by rw [hheld]; rfl) htext
      cases hu.symm.trans ht
    · cases h
  · cases h

end Sample

end GovernedConfig.InfraConfig
