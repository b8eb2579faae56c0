import GovernedConfig.Proofs.Entity.Effects
import GovernedConfig.Proofs.Entity.WriteOnce
import GovernedConfig.Proofs.InfraConfig.RoundTrip

/-! # What an infra config holds

An infra config holds its eighteen fields and nothing else. Each of them can be read, unless the last update of it
that went through cleared it. Four fields can be cleared at any time, two as long as they hold nothing, no other ever.
-/

namespace GovernedConfig

theorem Values.own_write {field : String} (h : field ≠ "__proto__") (vs : Values) (v : Value) :
    (vs.write field v).own = Record.insert vs.own field v := by
  unfold Values.write
  rw [if_pos (vs.isPlainName_of_ne h)]

/-- Between two moments an entity's values stayed those of the declared fields, in their order. -/
def Scene.Enumerated (r : Registry) (s t : Scene Values) : Prop :=
  Record.names s.entity.values.own = r.fieldNames → Record.names t.entity.values.own = r.fieldNames

instance (r : Registry) : Scene.Frame (Scene.Enumerated r) where
  refl _ h := h
  trans _ _ _ h g hs := g (h hs)
  around _ _ _ h := h

namespace Entity

open Act

variable {r : Registry}

theorem tolerates_enumerated (hr : r.HasOrdinaryNames) : Tolerates r (Scene.Enumerated r) where
  written s field v origin ha _ hs := by
    have hin : Record.holds s.entity.values.own field = true := by
      obtain ⟨spec, hspec, hn⟩ := List.any_eq_true.mp ha.declared
      rw [Record.holds_iff_mem_names, hs]
      exact List.mem_map.mpr ⟨spec, hspec, by simpa using hn⟩
    rw [Scene.written, Values.own_write (hr.ne_base ha.declared), Record.names_insert_of_holds hin, hs]
  restored s _ _ hs := hs
  visited s t he _ hs := by rwa [he]

theorem names_of_fill {init : Value} {specs : List FieldSpec} {s t : Scene Values}
    (hn : (specs.map FieldSpec.name).Nodup) (hb : "__proto__" ∉ specs.map FieldSpec.name)
    (hi : ∀ name ∈ specs.map FieldSpec.name, Record.index? name = none)
    (hs : ∀ name ∈ specs.map FieldSpec.name, Record.holds s.entity.values.own name = false)
    (h : fill r init specs s = .ok () t) :
    Record.names t.entity.values.own = Record.names s.entity.values.own ++ specs.map FieldSpec.name := by
  induction specs generalizing s with
  | nil =>
    obtain ⟨-, rfl⟩ := pure_eq_ok_iff.mp h
    exact (List.append_nil _).symm
  | cons spec specs ih =>
    simp only [List.map_cons, List.nodup_cons, List.mem_cons, not_or, forall_eq_or_imp] at hn hb hi hs
    obtain ⟨v, m, -, -, -, h⟩ := fill_cons_eq_ok h
    have hown : (s.written spec.name v).entity.values.own = s.entity.values.own ++ [(spec.name, v)] := by
      rw [Scene.written, Values.own_write fun he => hb.1 he.symm]
      exact Record.insert_of_new hs.1 hi.1 v
    have hnew : ∀ name ∈ specs.map FieldSpec.name,
        Record.holds (s.written spec.name v).entity.values.own name = false := by
      intro name hm
      have hne : spec.name ≠ name := by
        rintro rfl
        exact hn.1 hm
      rw [hown, Record.holds, List.any_append, ← Record.holds, hs.2 name hm]
      simpa using hne
    have hrest := ih (s := { s.written spec.name v with ambient := m }) hn.2 hb.2 hi.2 hnew h
    rw [hrest, hown]
    simp [Record.names]

end Entity

namespace InfraConfig

open Act Rules

section Fields

variable {now : Binary64} {vs ws : Values} {field : String} {v : Value}

theorem isWriteOnce_iff : registry.IsWriteOnce field ↔ field ∈ ["instanceId", "gameType", "tier", "creationTs"] := by
  have hnamed : ∀ field ∈ ["instanceId", "gameType", "tier", "creationTs"], registry.IsWriteOnce field := by decide
  have hothers : ∀ spec ∈ registry.fields, registry.IsWriteOnce spec.name →
      spec.name ∈ ["instanceId", "gameType", "tier", "creationTs"] := by decide
  constructor
  · intro h
    obtain ⟨spec, hs, hn⟩ := List.any_eq_true.mp h.declared
    obtain rfl : spec.name = field := by simpa using hn
    exact hothers spec hs h
  · exact hnamed field

/-- The fields that can be cleared: no hook reads them when they are written, and they may be written again, or they
may be empty to begin with. -/
def clearable : List String := ["role", "instances", "gameType", "tier", "pceConfig", "stageFlowClsName"]

/-- A field takes being cleared, given what the fields hold. -/
def TakesClearing (vs : Values) (field : String) : Prop :=
  field ∈ ["role", "instances", "pceConfig", "stageFlowClsName"] ∨
    field ∈ ["gameType", "tier"] ∧ (vs.read field).isPresent = false

theorem TakesClearing.mem_clearable (h : TakesClearing vs field) : field ∈ clearable := by
  unfold TakesClearing at h
  unfold clearable
  grind

theorem takesClearing_of_mem (hf : field ∈ clearable) (ha : registry.Allows (vs.read field) field .caller) :
    TakesClearing vs field := by
  by_cases ho : registry.IsWriteOnce field
  · refine .inr ⟨?_, ho.allows_iff.mp ha⟩
    rw [isWriteOnce_iff] at ho
    simp only [clearable, List.mem_cons, List.not_mem_nil, or_false] at hf ho ⊢
    grind
  · apply Or.inl
    rw [isWriteOnce_iff] at ho
    simp only [clearable, List.mem_cons, List.not_mem_nil, or_false, not_or] at hf ho ⊢
    grind

theorem TakesClearing.allows (h : TakesClearing vs field) : registry.Allows (vs.read field) field .caller := by
  rcases h with hf | ⟨hf, hp⟩
  · simp only [List.mem_cons, List.not_mem_nil, or_false] at hf
    rcases hf with rfl | rfl | rfl | rfl <;> exact ⟨rfl, rfl⟩
  · have ho : registry.IsWriteOnce field := isWriteOnce_iff.mpr (by grind)
    exact ho.allows_iff.mpr hp

theorem hooksFor_of_mem_clearable (hf : field ∈ clearable) : registry.hooksFor field .postUpdate = .ok [] := by
  simp only [clearable, List.mem_cons, List.not_mem_nil, or_false] at hf
  rcases hf with rfl | rfl | rfl | rfl | rfl | rfl <;> rfl

/-- What holds of the fields of an infra config between any two turns. -/
structure Furnished (vs : Values) : Prop extends Governed vs where
  names : Record.names vs.own = registry.fieldNames
  legible : registry.Legible vs
  identified : (vs.read "instanceId").isPresent = true

theorem Governed.stamp_ne (h : Governed vs) : vs.read "statusUpdateTs" ≠ .undefined := by
  obtain ⟨n, -, x, hx, -⟩ := h.sound.whole "statusUpdateTs" 0 (by decide)
  simp [hx]

theorem Governed.history_ne (h : Governed vs) : vs.read "statusUpdates" ≠ .undefined := by
  obtain ⟨entries, hc⟩ := h.chronicles
  simp [hc.read]

theorem Recorded.read_eq (h : Recorded now vs ws) (hs : field ≠ "statusUpdateTs") (hh : field ≠ "statusUpdates") :
    ws.read field = vs.read field := by
  obtain ⟨x, status, history, entries, -, -, -, -, rfl⟩ := h
  rw [Values.read_write_of_ne _ (by decide) hh, Values.read_write_of_ne _ (by decide) hs]

/-- An update that goes through changes the written field and, if that is the status, what belongs to the history. -/
theorem Updated.read_of_ne (hu : Updated now vs field v ws) (hne : field ≠ "__proto__") {other : String}
    (ho : other ≠ field) (hs : field = "status" → other ≠ "statusUpdateTs" ∧ other ≠ "statusUpdates") :
    ws.read other = vs.read other := by
  cases hu with
  | status hr => rw [hr.read_eq (hs rfl).1 (hs rfl).2, vs.read_write_of_ne hne ho]
  | features hn => rw [hn.read_eq ho, vs.read_write_of_ne hne ho]
  | plain _ _ _ => exact vs.read_write_of_ne hne ho v

theorem Recorded.status_ne (h : Recorded now vs ws) : vs.read "status" ≠ .undefined := by
  obtain ⟨x, status, history, entries, -, hs, -⟩ := h
  obtain ⟨-, rfl, hne, -⟩ := Entity.read_eq_ok_iff.mp hs
  exact hne

theorem Normalized.features_ne (h : Normalized vs ws) :
    vs.read "pcsFeatures" ≠ .undefined ∧ ws.read "pcsFeatures" ≠ .undefined := by
  obtain ⟨features, members, hf, -, h⟩ := h
  obtain ⟨-, rfl, hne, -⟩ := Entity.read_eq_ok_iff.mp hf
  refine ⟨hne, ?_⟩
  rcases h with ⟨-, rfl⟩ | ⟨-, rfl⟩
  · exact hne
  · rw [Values.read_write_self _ (by decide)]
    simp

/-- An update that goes through leaves the written field empty if it wrote nothing to it, and every other field
empty if it was empty before. -/
theorem Updated.absent_iff (hu : Updated now vs field v ws) (hvs : Governed vs) (hws : Governed ws)
    (hne : field ≠ "__proto__") (other : String) :
    ws.read other = .undefined ↔ if other = field then v = .undefined else vs.read other = .undefined := by
  have hwrite : (vs.write field v).read other = .undefined ↔
      if other = field then v = .undefined else vs.read other = .undefined := by
    split
    · rename_i he
      rw [he, vs.read_write_self hne]
    · rename_i he
      rw [vs.read_write_of_ne hne he]
  cases hu with
  | status hr =>
    by_cases hs : other = "statusUpdateTs"
    · subst hs
      simp [hvs.stamp_ne, hws.stamp_ne]
    by_cases hh : other = "statusUpdates"
    · subst hh
      simp [hvs.history_ne, hws.history_ne]
    rw [hr.read_eq hs hh, hwrite]
  | features hn =>
    by_cases hf : other = "pcsFeatures"
    · subst hf
      have hv := hn.features_ne.1
      rw [vs.read_write_self hne] at hv
      simp [hv, hn.features_ne.2]
    rw [hn.read_eq hf, hwrite]
  | plain _ _ _ => exact hwrite

theorem Updated.takesClearing (hu : Updated now vs field .undefined ws)
    (ha : registry.Allows (vs.read field) field .caller) (hid : (vs.read "instanceId").isPresent = true) :
    TakesClearing vs field := by
  have hne : field ≠ "__proto__" := ne_base_of_allows ha
  have hself : (vs.write field .undefined).read field = .undefined := vs.read_write_self hne _
  have hclearable : ∀ field ∈ registry.fieldNames, IsPlain field → field ∉ bounds.map Prod.fst →
      field ≠ "instanceId" → field ∈ clearable := by decide
  cases hu with
  | status hr => exact (hr.status_ne hself).elim
  | features hn => exact (hn.features_ne.1 hself).elim
  | plain hp hb _ =>
    have hmem : field ∈ registry.fieldNames := by
      obtain ⟨spec, hs, hn⟩ := List.any_eq_true.mp ha.declared
      exact List.mem_map.mpr ⟨spec, hs, by simpa using hn⟩
    have hbounds : field ∉ bounds.map Prod.fst := by
      intro hm
      obtain ⟨⟨other, minimum⟩, hbound, rfl⟩ := List.mem_map.mp hm
      obtain ⟨w, hw, -⟩ := hb minimum hbound
      obtain ⟨-, hread, hdefined, -⟩ := Entity.read_eq_ok_iff.mp hw
      exact hdefined (hread ▸ hself)
    have hinstance : field ≠ "instanceId" := by
      rintro rfl
      have honce : registry.IsWriteOnce "instanceId" := isWriteOnce_iff.mpr (by simp)
      rw [honce.allows_iff.mp ha] at hid
      cases hid
    exact takesClearing_of_mem (hclearable field hmem hp hbounds hinstance) ha

theorem Furnished.read_eq (h : Furnished vs) (hf : field ∈ registry.fieldNames) (hv : vs.read field ≠ .undefined) :
    Entity.read registry vs field = .ok (vs.read field) :=
  Entity.read_eq_ok_iff.mpr ⟨isDeclared_of_mem hf, rfl, hv, h.legible.2 field (isDeclared_of_mem hf)⟩

end Fields

section Creation

variable {init : Value} {m n : Ambient} {e : Entity}

theorem default_ne {field : String} (hf : field ∈ registry.fieldNames) {v : Value}
    (h : registry.resolveDefault field m = .ok (some v) n) : v ≠ .undefined := by
  simp only [Registry.fieldNames, registry, List.map_cons, List.map_nil, List.mem_cons, List.not_mem_nil,
    or_false] at hf
  rcases hf with rfl | rfl | rfl | rfl | rfl | rfl | rfl | rfl | rfl | rfl | rfl | rfl | rfl | rfl | rfl | rfl |
    rfl | rfl <;> cases h <;> simp

theorem supplies_ne {field : String} (hf : field ∈ registry.fieldNames) {v : Value}
    (h : Entity.Supplies registry init field v) : v ≠ .undefined := by
  obtain ⟨supplied, -, h⟩ := h
  split at h
  · obtain ⟨m, n, h⟩ := h
    exact default_ne hf h
  · rename_i hu
    rwa [h]

theorem names_of_create (h : create init m = .ok e n) : Record.names e.state.values.own = registry.fieldNames := by
  obtain ⟨t, ht, rfl, -⟩ := Entity.construct_of_create h
  obtain ⟨u, w, reports, hu, hw, k, rfl, -⟩ := Entity.construct_eq_ok ht
  obtain ⟨names, _, hn, hu⟩ := bind_eq_ok_iff.mp hu
  obtain ⟨_, _, hc, hu⟩ := bind_eq_ok_iff.mp hu
  obtain ⟨-, rfl⟩ := suitable_eq_ok_iff.mp hn
  obtain ⟨-, rfl⟩ := ofExcept_eq_ok_iff.mp hc
  have hfilled : Record.names u.entity.values.own = registry.fieldNames :=
    Entity.names_of_fill (by decide) (by decide) (by decide) (fun _ _ => rfl) hu
  exact (Lifecycle.completeConstruction_keeps registry
    (Entity.scope_keeps (Entity.tolerates_enumerated ordinary) Entity.nesting) fun _ _ _ h => h).of_ok hw hfilled

theorem furnished_of_create (h : create init m = .ok e n) :
    Furnished e.state.values ∧ ∀ field ∈ registry.fieldNames, e.state.values.read field ≠ .undefined := by
  have hgoverned := (governed_of_create h).1
  have hnames := names_of_create h
  obtain ⟨t, ht, rfl, -⟩ := Entity.construct_of_create h
  have hlegible : registry.Legible t.entity.values :=
    (Entity.construct_keeps (Entity.tolerates_legible ordinary) (fun _ _ _ h => h) _ init).of_ok ht
      (Entity.legible_empty ordinary)
  obtain ⟨us, vs, hfill, ha, hseed, hnorm⟩ := admitted_of_construct ht
  have hid : (t.entity.values.read "instanceId").isPresent = true := by
    obtain ⟨v, hv, hl⟩ := ha.named
    obtain ⟨-, rfl, hne, -⟩ := Entity.read_eq_ok_iff.mp hv
    rw [hnorm.read_eq (by decide), hseed.read_eq (by decide)]
    cases hu : us.read "instanceId" with
    | undefined => exact (hne hu).elim
    | null =>
      rw [hu] at hl
      cases hl
    | _ => rfl
  refine ⟨⟨hgoverned, hnames, hlegible, hid⟩, fun field hf => ?_⟩
  by_cases hh : field = "statusUpdates"
  · rw [hh]
    exact hgoverned.history_ne
  by_cases hfeatures : field = "pcsFeatures"
  · rw [hfeatures]
    exact hnorm.features_ne.2
  rw [hnorm.read_eq hfeatures, hseed.read_eq hh]
  exact supplies_ne hf (hfill field hf).1

end Creation

section Runs

variable {depth : Nat} {s : Scene Values}

/-- The update that a turn makes, if it goes through. -/
def Turn.update? (depth : Nat) (s : Scene Values) (turn : Turn) : Option (String × Value) :=
  match turn.call.act depth (turn.start s) with
  | .ok true _ => turn.call.write? s.entity.values
  | _ => none

theorem Turn.update?_cases (depth : Nat) (hs : s.entity.values.IsPlain) (turn : Turn) :
    (∃ field v, turn.update? depth s = some (field, v) ∧
      registry.Allows (s.entity.values.read field) field .caller ∧
      Updated (Calendar.epochSeconds turn.clock) s.entity.values field v (turn.next depth s).entity.values) ∨
    turn.update? depth s = none ∧ (turn.next depth s).entity = s.entity := by
  rcases turn.next_cases depth hs with ⟨field, v, hw, ha, -, hu, hact⟩ | ⟨he, hact⟩
  · exact .inl ⟨field, v, by rw [update?, hact, hw], ha, hu⟩
  · refine .inr ⟨?_, he⟩
    unfold update?
    split
    · rename_i t ht
      exact (hact t ht).elim
    · rfl

theorem Furnished.next (h : Furnished s.entity.values) (turn : Turn) :
    Furnished (turn.next depth s).entity.values where
  toGoverned := h.toGoverned.next turn
  names := turn.keeps (P := fun vs => Record.names vs.own = registry.fieldNames)
    (Entity.tolerates_enumerated ordinary) (fun _ _ h => h) h.plain h.names
  legible := turn.keeps (P := registry.Legible) (Entity.tolerates_legible ordinary) (fun _ _ h => h) h.plain h.legible
  identified := by
    have honce : registry.IsWriteOnce "instanceId" := isWriteOnce_iff.mpr (by simp)
    refine (turn.keeps (P := fun vs => vs.IsPlain ∧ (vs.read "instanceId").isPresent = true)
      (Entity.tolerates_fixed ordinary) (fun s t hst hs => ?_) h.plain ⟨h.plain, h.identified⟩).2
    obtain ⟨hplain, hread⟩ := hst hs.1
    exact ⟨hplain, by rw [hread "instanceId" honce hs.2]; exact hs.2⟩

/-- What the last update of a field that went through wrote, if one did. -/
def lastWritten (depth : Nat) (field : String) : List Turn → Scene Values → Option Value
  | [], _ => none
  | turn :: turns, s =>
    (lastWritten depth field turns (turn.next depth s)).or
      ((turn.update? depth s).bind fun (written, v) => if field = written then some v else none)

/-- After a turn a field is empty if the turn emptied it, or if it was empty and the turn wrote elsewhere. -/
theorem Furnished.absent_next_iff (h : Furnished s.entity.values) (turn : Turn) (field : String) :
    (turn.next depth s).entity.values.read field = .undefined ↔
      (((turn.update? depth s).bind fun (written, v) => if field = written then some v else none).getD
        (s.entity.values.read field)) = .undefined := by
  rcases turn.update?_cases depth h.plain with ⟨written, v, hw, ha, hu⟩ | ⟨hw, he⟩
  · rw [hu.absent_iff h.toGoverned (h.toGoverned.next turn) (ne_base_of_allows ha) field, hw, Option.bind_some]
    dsimp only
    split <;> rfl
  · rw [hw, he]
    rfl

theorem Furnished.absent_play_iff (h : Furnished s.entity.values) (turns : List Turn) (field : String) :
    (play depth turns s).entity.values.read field = .undefined ↔
      (lastWritten depth field turns s).getD (s.entity.values.read field) = .undefined := by
  induction turns generalizing s with
  | nil => rfl
  | cons turn turns ih =>
    refine (ih (h.next turn)).trans ?_
    rw [lastWritten]
    cases lastWritten depth field turns (turn.next depth s) with
    | some v => rfl
    | none => exact h.absent_next_iff turn field

theorem Furnished.play (h : Furnished s.entity.values) (turns : List Turn) :
    Furnished (play depth turns s).entity.values := by
  induction turns generalizing s with
  | nil => exact h
  | cons turn turns ih => exact ih (h.next turn)

theorem Furnished.mem_clearable (h : Furnished s.entity.values) {turns : List Turn} {field : String}
    (hw : lastWritten depth field turns s = some .undefined) : field ∈ clearable := by
  induction turns generalizing s with
  | nil => cases hw
  | cons turn turns ih =>
    rw [lastWritten] at hw
    cases hl : lastWritten depth field turns (turn.next depth s) with
    | some v =>
      rw [hl] at hw
      exact ih (h.next turn) (hl.trans hw)
    | none =>
      rw [hl, Option.none_or] at hw
      rcases turn.update?_cases depth h.plain with ⟨written, v, hu, ha, hup⟩ | ⟨hu, -⟩
      · rw [hu, Option.bind_some] at hw
        dsimp only at hw
        split at hw
        · rename_i he
          cases hw
          exact he ▸ (hup.takesClearing ha h.identified).mem_clearable
        · cases hw
      · rw [hu] at hw
        cases hw

theorem phase_play (hs : Furnished s.entity.values) (turns : List Turn) :
    (play depth turns s).entity.phase = s.entity.phase := by
  induction turns generalizing s with
  | nil => rfl
  | cons turn turns ih => exact (ih (hs.next turn)).trans (turn.phase_next depth hs.plain)

theorem phase_of_create {init : Value} {m n : Ambient} {e : Entity} (h : create init m = .ok e n) :
    e.state.phase = .ready := by
  obtain ⟨t, ht, rfl, -⟩ := Entity.construct_of_create h
  exact Entity.phase_of_construct ht

theorem set_of_runHooks {field : String} {v : Value} {hooks : List Hook} {report : Report} {t : Scene Values}
    (h : Entity.Dispatches registry field v s hooks)
    (hr : Lifecycle.runHooks registry (Entity.scope depth registry) field .postUpdate hooks (s.written field v) =
      .ok report t) : Entity.set registry depth field v s = .ok report t :=
  Entity.update_eq_ok_iff.mpr ⟨h.ready, h.allowed, h.copyable,
    (Lifecycle.dispatchUpdate_eq (s := s.written field v) h.ready h.hooks).trans hr⟩

/-- A field that takes being cleared is cleared, no matter what the journal does. -/
theorem TakesClearing.set_answers {field : String} (h : TakesClearing s.entity.values field)
    (hp : s.entity.phase.acceptsUpdates = true) (depth : Nat) :
    ∃ report t, Entity.set registry depth field .undefined s = .ok report t := by
  have hd : Entity.Dispatches registry field .undefined s [] :=
    ⟨hp, h.allows, rfl, hooksFor_of_mem_clearable h.mem_clearable⟩
  exact ⟨_, _, set_of_runHooks hd rfl⟩

/-- A turn that means to write nothing to a field does so just if the field takes being cleared. -/
theorem Turn.clears_iff (depth : Nat) (h : Furnished s.entity.values) (hp : s.entity.phase.acceptsUpdates = true)
    {turn : Turn} {field : String} (hw : turn.call.write? s.entity.values = some (field, .undefined)) :
    turn.update? depth s = some (field, .undefined) ↔ TakesClearing s.entity.values field := by
  constructor
  · intro hu
    rcases turn.update?_cases depth h.plain with ⟨written, v, hv, ha, hup⟩ | ⟨hnone, -⟩
    · cases hu.symm.trans hv
      exact hup.takesClearing ha h.identified
    · cases hu.symm.trans hnone
  · intro hc
    obtain ⟨report, t, ht⟩ := TakesClearing.set_answers (s := turn.start s) hc hp depth
    have hact : turn.call.act depth (turn.start s) = .ok true t := by
      obtain ⟨clock, call, whole⟩ := turn
      cases call with
      | set written v =>
        cases hw
        exact bind_of_ok ht _
      | safeSet written v =>
        cases hw
        exact bind_of_ok (Entity.safeSet_of_ok ht) _
      | updateStatus status =>
        cases hw
        simp [TakesClearing] at hc
      | addStageInstance stage =>
        obtain ⟨items, -, hlist⟩ := Option.map_eq_some_iff.mp hw
        cases hlist
    rw [update?, hact]
    exact hw

end Runs

section Readings

variable {vs : Values}

theorem serialize_ne_missing (h : toRecord vs = .ok (contents vs)) (entity field : String) :
    serialize vs ≠ .error (.missingField entity field) := by
  simp only [serialize, h, bind, Except.bind]
  cases Json.print? (.record (contents vs)) with
  | some text => exact fun h => by cases h
  | none => exact fun h => by cases h

/-- However an infra config was created and whatever is written to it then, with or without success, it holds its
eighteen fields and no others. A field is empty exactly if the last update of it that went through emptied it; every
other field can be read. A call that would empty a field goes through exactly if the field takes that: four do at any
time, two as long as they hold nothing, no other does. As long as none of the six is empty, all fields can be read
together, and printing them fails for no missing field. -/
theorem fields_read_until_cleared {init : Value} {m n : Ambient} {e : Entity} (h : create init m = .ok e n)
    (depth : Nat) (turns : List Turn) (current : Option Entity) :
    let s : Scene Values := ⟨n, e.state, current⟩
    let vs := (InfraConfig.play depth turns s).entity.values
    Record.names vs.own = registry.fieldNames ∧
      (∀ field ∈ registry.fieldNames,
        (vs.read field = .undefined ↔ lastWritten depth field turns s = some .undefined) ∧
        (vs.read field = .undefined → field ∈ clearable ∧
          Entity.read registry vs field = .error (.missingField registry.entityName field)) ∧
        (vs.read field ≠ .undefined → Entity.read registry vs field = .ok (vs.read field))) ∧
      (∀ (turn : Turn) (field : String), turn.call.write? vs = some (field, .undefined) →
        (turn.update? depth (InfraConfig.play depth turns s) = some (field, .undefined) ↔ TakesClearing vs field)) ∧
      ((∀ field ∈ clearable, lastWritten depth field turns s ≠ some .undefined) →
        (∃ r, toRecord vs = .ok r ∧ r.names = registry.fieldNames ∧ ∀ entry ∈ r, entry.2 ≠ .undefined) ∧
          ∀ entity field, serialize vs ≠ .error (.missingField entity field)) := by
  intro s vs
  obtain ⟨hs, hdefined⟩ := furnished_of_create h
  have hfurnished : Furnished vs := Furnished.play (s := s) hs turns
  have habsent : ∀ field ∈ registry.fieldNames,
      (vs.read field = .undefined ↔ lastWritten depth field turns s = some .undefined) := by
    intro field hf
    refine (Furnished.absent_play_iff (s := s) hs turns field).trans ?_
    cases lastWritten depth field turns s with
    | some v => simp
    | none => simpa using hdefined field hf
  have hphase : (InfraConfig.play depth turns s).entity.phase.acceptsUpdates = true := by
    rw [phase_play (s := s) hs]
    change e.state.phase.acceptsUpdates = true
    rw [phase_of_create h]
    rfl
  refine ⟨hfurnished.names, fun field hf => ⟨habsent field hf, fun hu => ⟨?_, ?_⟩, hfurnished.read_eq hf⟩,
    fun turn field hw => Turn.clears_iff depth hfurnished hphase hw, fun hc => ?_⟩
  · exact Furnished.mem_clearable (s := s) hs ((habsent field hf).mp hu)
  · rw [Entity.read, isDeclared_of_mem hf, hu]
    rfl
  · have hread : ∀ field ∈ registry.fieldNames, vs.read field ≠ .undefined := by
      intro field hf hu
      have hw := (habsent field hf).mp hu
      exact hc field (Furnished.mem_clearable (s := s) hs hw) hw
    have hrecord : toRecord vs = .ok (contents vs) := readFields_eq fun field hf => hfurnished.read_eq hf (hread field hf)
    refine ⟨⟨contents vs, hrecord, names_contents vs, fun entry he => ?_⟩, serialize_ne_missing hrecord⟩
    obtain ⟨field, hf, rfl⟩ := List.mem_map.mp he
    exact hread field hf

/-- The role of the sample is cleared and then written anew; clearing its number of retries is refused. -/
def sampleRefill : List Turn :=
  [⟨0, .set "role" .undefined, Binary64.zero_isInteger⟩, ⟨0, .safeSet "retryCounter" .undefined, Binary64.zero_isInteger⟩,
    ⟨0, .set "role" (.text "PUBLISHER"), Binary64.zero_isInteger⟩]

def sampleKeeps (turns : List Turn) (fields : List String) : Bool :=
  match create sampleInit Entity.stillness with
  | .ok e n => fields.all fun field => lastWritten 2 field turns ⟨n, e.state, none⟩ ≠ some .undefined
  | .error _ _ => false

/-- All fields of the sample can be read once its role holds something again; the role can be cleared anew then, the
number of retries cannot. -/
theorem sample_refilled_is_readable :
    ∃ e n, create sampleInit Entity.stillness = .ok e n ∧
      let s := InfraConfig.play 2 sampleRefill ⟨n, e.state, none⟩
      (∀ field ∈ clearable, lastWritten 2 field sampleRefill ⟨n, e.state, none⟩ ≠ some .undefined) ∧
        (∃ r, toRecord s.entity.values = .ok r ∧ r.names = registry.fieldNames ∧ ∀ entry ∈ r, entry.2 ≠ .undefined) ∧
        Turn.update? 2 s ⟨0, .safeSet "role" .undefined, Binary64.zero_isInteger⟩ = some ("role", .undefined) ∧
        Turn.update? 2 s ⟨0, .set "retryCounter" .undefined, Binary64.zero_isInteger⟩ ≠
          some ("retryCounter", .undefined) := by
  have h : sampleKeeps sampleRefill clearable = true := by decide +kernel
  unfold sampleKeeps at h
  split at h
  · rename_i e n he
    have hw : ∀ field ∈ clearable, lastWritten 2 field sampleRefill ⟨n, e.state, none⟩ ≠ some .undefined :=
      fun field hf => of_decide_eq_true (List.all_eq_true.mp h field hf)
    obtain ⟨-, -, hclears, hreads⟩ := fields_read_until_cleared he 2 sampleRefill none
    refine ⟨e, n, he, hw, (hreads hw).1, ?_, ?_⟩
    · exact (hclears ⟨0, .safeSet "role" .undefined, Binary64.zero_isInteger⟩ "role" rfl).mpr (.inl (by simp))
    · intro hu
      have htakes := (hclears ⟨0, .set "retryCounter" .undefined, Binary64.zero_isInteger⟩ "retryCounter" rfl).mp hu
      simp [TakesClearing] at htakes
  · cases h

def losesRole : Bool :=
  match create sampleInit Entity.stillness with
  | .ok e n =>
    match Entity.read registry
      (InfraConfig.play 2 [⟨0, .set "role" .undefined, Binary64.zero_isInteger⟩] ⟨n, e.state, none⟩).entity.values "role" with
    | .error cause => cause = .missingField registry.entityName "role"
    | .ok _ => false
  | .error _ _ => false

/-- A ready infra config may have lost a field. -/
theorem cleared_field_is_missing :
    ¬ ∀ (init : Value) (m n : Ambient) (e : Entity) (depth : Nat) (turns : List Turn) (current : Option Entity),
      create init m = .ok e n → ∀ field ∈ registry.fieldNames,
        Entity.read registry (InfraConfig.play depth turns ⟨n, e.state, current⟩).entity.values field ≠
          .error (.missingField registry.entityName field) := by
  intro hall
  have h : losesRole = true := by decide +kernel
  unfold losesRole at h
  split at h
  · rename_i e n he
    split at h
    · rename_i cause hcause
      rw [decide_eq_true_eq] at h
      exact hall sampleInit _ n e 2 _ none he "role" (by decide) (h ▸ hcause)
    · cases h
  · cases h

end Readings

end InfraConfig

end GovernedConfig
