import GovernedConfig.Proofs.InfraConfig.Restoring

/-! # Printing and restoring infra configs

An infra config with typed fields is printed as a text from which it is restored, ready and with the
same fields, the signs of its zeros apart.
-/

namespace GovernedConfig.InfraConfig

open Act Lifecycle

section Contents

variable {vs : Values} {field : String}

def contents (vs : Values) : Record Value := registry.fieldNames.map fun field => (field, vs.read field)

theorem names_contents (vs : Values) : (contents vs).names = registry.fieldNames := by
  rw [contents, Record.names, List.map_map]
  exact List.map_id _

theorem lookup_contents (hf : field ∈ registry.fieldNames) :
    (contents vs).lookup field = some (vs.read field) := by
  refine Record.lookup_of_mem ?_ (List.mem_map_of_mem hf)
  rw [names_contents]
  decide

theorem readFields_eq {fields : List String}
    (h : ∀ field ∈ fields, Entity.read registry vs field = .ok (vs.read field)) :
    readFields vs fields = .ok (fields.map fun field => (field, vs.read field)) := by
  induction fields with
  | nil => rfl
  | cons field fields ih =>
    rw [readFields, h field (List.mem_cons_self ..), ih fun other ho => h other (List.mem_cons_of_mem field ho)]
    rfl

theorem Settled.toRecord_eq (h : Settled vs) : toRecord vs = .ok (contents vs) :=
  readFields_eq fun _ hf => h.read_eq hf

theorem Settled.contents_fit (h : Settled vs) : schema.Fits true (.record (contents vs)) := by
  rw [schema_eq]
  refine .record ?_ (fun name => ?_) fun name s v hs hv => ?_
  · rw [names_contents]
    decide
  · rw [names_contents, names_entries]
  · rw [lookup_contents (mem_fieldNames hs)] at hv
    cases hv
    exact h.fits name s hs

/-- A settled infra config is printed as a text that denotes its fields, without the signs of zeros. -/
theorem Settled.serialize_eq (h : Settled vs) : ∃ text, serialize vs = .ok text ∧
    Json.read? text = some (Value.record (contents vs)).unsignedZeros := by
  obtain ⟨text, hp, hr⟩ := Json.read?_print? (h.contents_fit.isJson schema_isPlain)
  refine ⟨text, ?_, hr⟩
  simp only [serialize, h.toRecord_eq, bind, Except.bind, hp]
  rfl

end Contents

section Restoring

variable {vs ws : Values} {w : Value} {m : Ambient}

theorem readBack_of_agrees (h : (Value.record (contents vs)).unsignedZeros.Agrees w)
    (hw : ∀ field ∈ registry.fieldNames, w.member? field = some (ws.read field)) : ReadBack vs ws := by
  intro field hf
  rw [Value.unsignedZeros, Value.entriesUnsigned_eq] at h
  obtain ⟨q, rfl, hn, hall⟩ := h.exists_record
  have hname : field ∈ q.names := by
    rw [← hn, Record.names_mapValues, names_contents]
    exact hf
  obtain ⟨v, hv⟩ := Record.mem_names_iff.mp hname
  have hm := hw field hf
  rw [Value.member?, Value.lookUp, hv] at hm
  cases hm
  exact hall field _ _ (by rw [Record.lookup_mapValues, lookup_contents hf]; rfl) hv

theorem Settled.populates (h : Settled vs) {text : String} (ht : serialize vs = .ok text) (m : Ambient) :
    ∃ w ws, deserialize text m = create w m ∧
      Entity.populate registry w { ambient := m, entity := { values := {} } } =
        .ok () { ambient := m, entity := { values := ws } } ∧ Settled ws ∧ ReadBack vs ws := by
  obtain ⟨text', hs, hread⟩ := h.serialize_eq
  rw [ht] at hs
  cases hs
  obtain ⟨w, hcheck, hagrees⟩ := Schema.check_of_fits h.contents_fit.unsignedZeros schema_isPlain
  have hw : schema.Fits true w := Schema.fits_of_check schema_isPlain hcheck
  obtain ⟨ws, hp, hplain, hmember⟩ := populate_of_fits (s := { ambient := m, entity := { values := {} } }) hw rfl
  have hback : ReadBack vs ws := readBack_of_agrees hagrees hmember
  exact ⟨w, ws, deserialize_of_check hread hcheck, hp, h.of_readBack hback hplain (fitting_of_fits hw hmember).typed, hback⟩

theorem Settled.restores (h : Settled vs) (hdebug : Journal.Accepts .debug m) (hinfo : Journal.Accepts .info m)
    (hd : (Calendar.stamp? m.clock).isSome = true) :
    ∃ text e n, serialize vs = .ok text ∧ deserialize text m = .ok e n ∧ e.state.phase = .ready ∧
      Settled e.state.values ∧ ReadBack vs e.state.values := by
  obtain ⟨text, hs, -⟩ := h.serialize_eq
  obtain ⟨w, ws, hcreate, hp, hsettled, hback⟩ := h.populates hs m
  obtain ⟨t, ht, hvalues⟩ := Entity.construct_of_idle Entity.nesting hp rfl hsettled.idles hdebug hinfo hd
  refine ⟨text, ⟨registry.sealed, t.entity⟩, t.ambient, hs, ?_, Entity.phase_of_construct ht, ?_, ?_⟩
  · rw [hcreate]
    exact Entity.create_of_construct ht
  · rw [hvalues]
    exact hsettled
  · rw [hvalues]
    exact hback

/-- What is restored from the text of a settled infra config agrees with it, whatever was in the way before. -/
theorem Settled.restored (h : Settled vs) {text : String} (ht : serialize vs = .ok text) {n : Ambient} {e : Entity}
    (hd : deserialize text m = .ok e n) :
    e.state.phase = .ready ∧ Settled e.state.values ∧ ReadBack vs e.state.values := by
  obtain ⟨w, ws, hcreate, hp, hsettled, hback⟩ := h.populates ht m
  rw [hcreate] at hd
  obtain ⟨t, hconstruct, rfl, -⟩ := Entity.construct_of_create hd
  have hvalues : t.entity.values = ws := Entity.values_of_construct hconstruct hp hsettled.idles
  refine ⟨Entity.phase_of_construct hconstruct, ?_, ?_⟩
  · rw [hvalues]
    exact hsettled
  · rw [hvalues]
    exact hback

theorem agrees_contents (h : ReadBack vs ws) :
    (Value.record (contents vs)).unsignedZeros.Agrees (.record (contents ws)) := by
  rw [Value.unsignedZeros, Value.entriesUnsigned_eq]
  refine .record (fun name => ?_) fun name v w hv hw => ?_
  · rw [Record.names_mapValues, names_contents, names_contents]
  · have hf : name ∈ registry.fieldNames := by
      rw [← names_contents ws]
      exact Record.mem_names_iff.mpr ⟨w, hw⟩
    rw [Record.lookup_mapValues, lookup_contents hf] at hv
    rw [lookup_contents hf] at hw
    cases hv
    cases hw
    exact h name hf

end Restoring

section Runs

variable {depth : Nat} {s : Scene Values}

theorem Call.act_keeps (depth : Nat) (call : Call) : (call.act depth).Keeps Scene.Steady := by
  have hset : ∀ field v, (Entity.set registry depth field v).Keeps Scene.Steady :=
    Entity.set_keeps (Entity.tolerates_steady registry) depth
  cases call with
  | set field v => exact (hset field v).bind fun _ => keeps_pure _
  | safeSet field v =>
    refine Act.Keeps.bind (Act.Keeps.tryCatch ?_ fun thrown => ?_) fun _ => keeps_pure _
    · exact (hset field v).bind fun _ => keeps_pure _
    · exact (keeps_ofExcept _).bind fun _ => keeps_pure _
  | updateStatus status =>
    refine Act.Keeps.bind ?_ fun _ => keeps_pure _
    exact (hset _ _).bind fun _ => keeps_pure _
  | addStageInstance stage =>
    refine Act.Keeps.bind ((Entity.get_keeps registry _).bind fun _ => ?_) fun _ => keeps_pure _
    exact (keeps_suitable _).bind fun _ => (hset _ _).bind fun _ => keeps_pure _

theorem accepts_play {level : Level} (h : Journal.Accepts level s.ambient) (depth : Nat) (turns : List Turn) :
    Journal.Accepts level (play depth turns s).ambient := by
  induction turns generalizing s with
  | nil => exact h
  | cons turn turns ih => exact ih ((h.clock turn.clock).of_steady (turn.call.act_keeps depth (turn.start s)))

/-- How an infra config comes about: it is created from typed values or restored from an accepted text. -/
inductive Begins (m : Ambient) (e : Entity) (n : Ambient) : Prop
  | created {init : Value} : IsTypedInit init → create init m = .ok e n → Begins m e n
  | restored {text : String} : deserialize text m = .ok e n → Begins m e n

theorem Begins.exists_init {m n : Ambient} {e : Entity} (h : Begins m e n) :
    ∃ init, IsTypedInit init ∧ create init m = .ok e n := by
  cases h with
  | created hi hc => exact ⟨_, hi, hc⟩
  | restored hd =>
    obtain ⟨w, hw, hc⟩ := create_of_deserialize hd
    exact ⟨w, isTypedInit_of_fits hw, hc⟩

/-- An infra config is printed as a text from which it is restored at a reading of the clock: ready, and
with the same fields, in which no zero has a sign. -/
def RoundTrips (s : Scene Values) (clock : Binary64) : Prop :=
  ∃ text restored n r q, serialize s.entity.values = .ok text ∧
    deserialize text { s.ambient with clock } = .ok restored n ∧ restored.state.phase = .ready ∧
      toRecord s.entity.values = .ok r ∧ toRecord restored.state.values = .ok q ∧
        r.names = registry.fieldNames ∧ q.names = registry.fieldNames ∧
          (Value.record r).unsignedZeros.Agrees (.record q)

/-- However an infra config came about and whatever typed calls were made on it since, with or without
success, it is restored from its text at any reading of the clock, which always has a date. -/
theorem restored_from_its_text {m n : Ambient} {e : Entity} (h : Begins m e n) (depth : Nat)
    (current : Option Entity) {turns : List Turn} (ht : ∀ turn ∈ turns, turn.call.IsTyped)
    {clock : Binary64} (hc : (Calendar.stamp? clock).isSome = true) :
    RoundTrips (play depth turns ⟨n, e.state, current⟩) clock := by
  obtain ⟨init, hi, hcreate⟩ := h.exists_init
  have hs : Settled (play depth turns ⟨n, e.state, current⟩).entity.values :=
    (settled_of_create hcreate hi).play (s := ⟨n, e.state, current⟩) depth ht
  obtain ⟨t, hconstruct, rfl, rfl⟩ := Entity.construct_of_create hcreate
  obtain ⟨hdebug, hinfo⟩ := Entity.accepts_of_construct hconstruct
  have haccepts : ∀ {level}, Journal.Accepts level t.ambient → Journal.Accepts level
      { (play depth turns ⟨t.ambient, t.entity, current⟩).ambient with clock } := fun ha =>
    (accepts_play (s := ⟨t.ambient, t.entity, current⟩) ha depth turns).clock clock
  obtain ⟨text, restored, k, hserialize, hdeserialize, hready, hsettled, hback⟩ :=
    hs.restores (haccepts hdebug) (haccepts hinfo) hc
  exact ⟨text, restored, k, _, _, hserialize, hdeserialize, hready, hs.toRecord_eq, hsettled.toRecord_eq,
    names_contents _, names_contents _, agrees_contents hback⟩

end Runs

section Sample

theorem sampleInit_isTyped : IsTypedInit sampleInit := by
  intro field v hv hu
  rw [ofType_iff]
  intro s hs
  simp only [schema, Schema.entries, List.mem_cons, Prod.mk.injEq, List.not_mem_nil, or_false] at hs
  rcases hs with ⟨rfl, rfl⟩ | ⟨rfl, rfl⟩ | ⟨rfl, rfl⟩ | ⟨rfl, rfl⟩ | ⟨rfl, rfl⟩ | ⟨rfl, rfl⟩ | ⟨rfl, rfl⟩ |
    ⟨rfl, rfl⟩ | ⟨rfl, rfl⟩ | ⟨rfl, rfl⟩ | ⟨rfl, rfl⟩ | ⟨rfl, rfl⟩ | ⟨rfl, rfl⟩ | ⟨rfl, rfl⟩ | ⟨rfl, rfl⟩ |
    ⟨rfl, rfl⟩ | ⟨rfl, rfl⟩ | ⟨rfl, rfl⟩ <;> cases hv
  all_goals first
    | exact (hu rfl).elim
    | exact .text (by simp)
    | exact .oneOf (by decide)
    | exact .number (by simp)
    | exact .list (by simp only [List.forall_mem_cons]; exact ⟨.text (by simp), .text (by simp), by simp⟩)

/-- A stage, a status and a negative zero are written to the sample, and a number that is none is refused. -/
def sampleTurns : List Turn :=
  [⟨1000, .addStageInstance (.record [("status", .text ""), ("kind", .text "PID"), ("instanceId", .text "p")]),
      by decide +kernel⟩,
    ⟨0, .set "numPidContainers" (.number .nan), Binary64.zero_isInteger⟩,
    ⟨.ofInt (-5000), .updateStatus (.text "TIMEOUT"), by decide +kernel⟩,
    ⟨1000, .safeSet "endTs" (.number (.zero true)), by decide +kernel⟩]

theorem sampleTurns_isTyped : ∀ turn ∈ sampleTurns, turn.call.IsTyped := by
  simp only [sampleTurns, List.forall_mem_cons]
  refine ⟨⟨_, rfl, by decide, ?_, ?_, ?_⟩, ?_, ⟨_, by decide, rfl⟩, ?_, by simp⟩
  · exact ⟨_, rfl, "PID", by simp, rfl⟩
  · exact ⟨_, rfl, _, rfl⟩
  · exact ⟨_, rfl, _, rfl⟩
  · simp [Call.IsTyped, OfType, fieldTypes, Value.IsNumber]
  · simp [Call.IsTyped, OfType, fieldTypes, Value.IsNumber]

theorem sample_restored_from_its_text :
    ∃ e n, create sampleInit Entity.stillness = .ok e n ∧
      RoundTrips (play 2 sampleTurns ⟨n, e.state, none⟩) 0 := by
  obtain ⟨e, n, h⟩ := exists_of_isCreated (by decide +kernel : isCreated sampleInit = true)
  exact ⟨e, n, h,
    restored_from_its_text (.created sampleInit_isTyped h) 2 none sampleTurns_isTyped (by decide +kernel)⟩

end Sample

end GovernedConfig.InfraConfig
