import GovernedConfig.Proofs.InfraConfig.FieldTypes
import GovernedConfig.Proofs.InfraConfig.Invariant
import GovernedConfig.Proofs.Schema.Check

/-! # Typed infra configs

Every field of an infra config that was created from typed values has its type, and typed calls keep it so.
-/

namespace GovernedConfig

namespace InfraConfig

open Rules Schema

theorem schema_eq : schema = .fields schema.entries := rfl

theorem names_entries : schema.entries.map Prod.fst = registry.fieldNames := by decide

theorem mem_fieldNames {field : String} {s : Schema} (hs : (field, s) ∈ schema.entries) :
    field ∈ registry.fieldNames := by
  rw [← names_entries]
  exact List.mem_map.mpr ⟨_, hs, rfl⟩

def Typed (vs : Values) : Prop := ∀ field, OfType field (vs.read field)

def IsTypedInit (init : Value) : Prop :=
  ∀ field v, init.member? field = some v → v ≠ .undefined → OfType field v

/-- The values that a call takes have their types; numbers may be any. -/
def Call.IsTyped : Call → Prop
  | set field v => OfType field v
  | safeSet field v => OfType field v
  | updateStatus status => status.IsOneOf statuses
  | addStageInstance stage => stage.IsRecord IsStageInstance

theorem typed_iff {vs : Values} : Typed vs ↔ ∀ field s, (field, s) ∈ schema.entries → s.Fits false (vs.read field) :=
  forall_congr' fun _ => ofType_iff

section Fields

variable {v : Value}

theorem ofType_status_iff : OfType "status" v ↔ statusSchema.Fits false v := by
  simp [ofType_iff, schema, entries]

theorem ofType_statusUpdateTs_iff : OfType "statusUpdateTs" v ↔ epochSchema.Fits false v := by
  simp [ofType_iff, schema, entries]

theorem ofType_instances_iff : OfType "instances" v ↔ (listOf stageInstanceSchema).Fits false v := by
  simp [ofType_iff, schema, entries]

theorem ofType_statusUpdates_iff : OfType "statusUpdates" v ↔ (listOf statusUpdateSchema).Fits false v := by
  simp [ofType_iff, schema, entries]

theorem ofType_pcsFeatures_iff : OfType "pcsFeatures" v ↔ (listOf (text 0)).Fits false v := by
  simp [ofType_iff, schema, entries]

theorem fits_statusUpdate {status stamp : Value} (hs : statusSchema.Fits false status)
    (ht : epochSchema.Fits false stamp) : statusUpdateSchema.Fits false (statusUpdate status stamp) := by
  refine .record (by simp [Record.names]) (by simp [Record.names]) ?_
  intro name schema v hm hv
  simp only [List.mem_cons, Prod.mk.injEq, List.not_mem_nil, or_false] at hm
  rcases hm with ⟨rfl, rfl⟩ | ⟨rfl, rfl⟩
  · cases hv
    exact hs
  · cases hv
    exact ht

theorem fits_append {inner : Schema} {items : List Value} (hitems : ∀ v ∈ items, inner.Fits false v)
    {w : Value} (hw : inner.Fits false w) : (listOf inner).Fits false (.list (items ++ [w])) := by
  refine .list fun u hu => ?_
  rcases List.mem_append.mp hu with hu | hu
  · exact hitems u hu
  · rwa [List.mem_singleton.mp hu]

end Fields

section Updates

variable {now : Binary64} {vs ws : Values} {field : String} {v : Value}

theorem Typed.write (h : Typed vs) (hne : field ≠ "__proto__") (hv : OfType field v) :
    Typed (vs.write field v) := by
  intro other
  by_cases he : other = field
  · subst he
    rwa [vs.read_write_self hne]
  · rw [vs.read_write_of_ne hne he]
    exact h other

theorem Recorded.typed (hr : Recorded now vs ws) (h : Typed vs) : Typed ws := by
  obtain ⟨x, status, history, entries, -, hs, hh, hw, rfl⟩ := hr
  obtain ⟨-, rfl, -⟩ := Entity.read_eq_ok_iff.mp hs
  obtain ⟨-, rfl, -⟩ := Entity.read_eq_ok_iff.mp hh
  have hstamp : epochSchema.Fits false (.number (now.max x)) := .number (by simp)
  obtain ⟨items, hi, hitems⟩ := (ofType_statusUpdates_iff.mp (h "statusUpdates")).exists_list
  rw [hi] at hw
  cases hw
  apply (h.write (by decide) (ofType_statusUpdateTs_iff.mpr hstamp)).write (by decide)
  exact ofType_statusUpdates_iff.mpr
    (fits_append hitems (fits_statusUpdate (ofType_status_iff.mp (h "status")) hstamp))

theorem fits_distinctFrom {seen items : List Value} {minimum : Nat}
    (h : ∀ v ∈ items, (text minimum).Fits false v) : ∀ v ∈ Value.distinctFrom seen items, (text minimum).Fits false v := by
  induction items generalizing seen with
  | nil => simp [Value.distinctFrom]
  | cons v items ih =>
    intro w hw
    have hrest : ∀ u ∈ items, (text minimum).Fits false u := fun u hu => h u (List.mem_cons_of_mem v hu)
    unfold Value.distinctFrom at hw
    split at hw
    · exact ih hrest w hw
    · rcases List.mem_cons.mp hw with rfl | hw
      · cases h v (List.mem_cons_self ..) with
        | text hs => exact .text hs
      · exact ih hrest w hw

theorem Normalized.typed (hn : Normalized vs ws) (h : Typed vs) : Typed ws := by
  obtain ⟨features, members, hf, hm, ⟨-, rfl⟩ | ⟨-, rfl⟩⟩ := hn
  · exact h
  · obtain ⟨-, rfl, -⟩ := Entity.read_eq_ok_iff.mp hf
    refine h.write (by decide) (ofType_pcsFeatures_iff.mpr ?_)
    obtain ⟨items, hi, hitems⟩ := (ofType_pcsFeatures_iff.mp (h "pcsFeatures")).exists_list
    rw [hi] at hm
    cases hm
    exact .list (fits_distinctFrom hitems)

theorem Updated.typed (hu : Updated now vs field v ws) (hne : field ≠ "__proto__") (hv : OfType field v)
    (h : Typed vs) : Typed ws := by
  have hw := h.write hne hv
  cases hu with
  | status hr => exact hr.typed hw
  | features hn => exact hn.typed hw
  | plain _ _ _ => exact hw

end Updates

section Creation

variable {init : Value} {m n : Ambient} {e : Entity}

theorem ofType_default {field : String} {v : Value} (h : registry.resolveDefault field m = .ok (some v) n) :
    OfType field v := by
  rw [ofType_iff]
  intro s hs
  simp only [schema, entries, List.mem_cons, Prod.mk.injEq, List.not_mem_nil, or_false] at hs
  rcases hs with ⟨rfl, rfl⟩ | ⟨rfl, rfl⟩ | ⟨rfl, rfl⟩ | ⟨rfl, rfl⟩ | ⟨rfl, rfl⟩ | ⟨rfl, rfl⟩ | ⟨rfl, rfl⟩ |
    ⟨rfl, rfl⟩ | ⟨rfl, rfl⟩ | ⟨rfl, rfl⟩ | ⟨rfl, rfl⟩ | ⟨rfl, rfl⟩ | ⟨rfl, rfl⟩ | ⟨rfl, rfl⟩ | ⟨rfl, rfl⟩ |
    ⟨rfl, rfl⟩ | ⟨rfl, rfl⟩ | ⟨rfl, rfl⟩ <;> cases h
  all_goals first
    | exact .number (by simp)
    | exact .list (by simp)
    | exact .null
    | exact .text (by simp)

theorem ofType_of_supplies {field : String} {v : Value} (hi : IsTypedInit init)
    (h : Entity.Supplies registry init field v) : OfType field v := by
  obtain ⟨supplied, hs, h⟩ := h
  split at h
  · obtain ⟨m, n, h⟩ := h
    exact ofType_default h
  · rename_i hu
    subst h
    exact hi field v hs hu

theorem typed_of_supplies {us : Values} (hi : IsTypedInit init)
    (h : ∀ field ∈ registry.fieldNames, Entity.Supplies registry init field (us.read field)) : Typed us :=
  typed_iff.mpr fun field s hs => ofType_iff.mp (ofType_of_supplies hi (h field (mem_fieldNames hs))) s hs

theorem Seeded.typed {vs ws : Values} (hs : Seeded vs ws) (h : Typed vs) : Typed ws := by
  obtain ⟨entries, -, ⟨-, rfl⟩ | ⟨-, status, stamp, hst, hts, rfl⟩⟩ := hs
  · exact h
  · obtain ⟨-, rfl, -⟩ := Entity.read_eq_ok_iff.mp hst
    obtain ⟨-, rfl, -⟩ := Entity.read_eq_ok_iff.mp hts
    refine h.write (by decide) (ofType_statusUpdates_iff.mpr (.list fun entry he => ?_))
    rw [List.mem_singleton.mp he]
    exact fits_statusUpdate (ofType_status_iff.mp (h "status"))
      (ofType_statusUpdateTs_iff.mp (h "statusUpdateTs"))

def Named (vs : Values) : Prop := ∃ s, vs.read "instanceId" = .text s ∧ Text.length s ≠ 0

theorem Admitted.named_of_typed {vs : Values} (ha : Admitted vs) (h : Typed vs) : Named vs := by
  obtain ⟨v, hv, hl⟩ := ha.named
  obtain ⟨-, rfl, -⟩ := Entity.read_eq_ok_iff.mp hv
  have hid : (text 1).Fits false (vs.read "instanceId") :=
    typed_iff.mp h "instanceId" (.text 1) (by simp [schema, entries])
  obtain ⟨s, hs⟩ := hid.exists_text
  rw [hs] at hl
  exact ⟨s, hs, by simpa [hasLength] using hl⟩

theorem typed_of_create (h : create init m = .ok e n) (hi : IsTypedInit init) :
    Typed e.state.values ∧ Named e.state.values := by
  obtain ⟨t, ht, rfl, -⟩ := Entity.construct_of_create h
  obtain ⟨us, vs, hfill, ha, hseed, hnorm⟩ := admitted_of_construct ht
  have hus : Typed us := typed_of_supplies hi fun field hf => (hfill field hf).1
  obtain ⟨s, hs, hl⟩ := ha.named_of_typed hus
  refine ⟨hnorm.typed (hseed.typed hus), s, ?_, hl⟩
  rw [show t.entity.values.read "instanceId" = vs.read "instanceId" from hnorm.read_eq (by decide),
    hseed.read_eq (by decide), hs]

end Creation

section Runs

variable {depth : Nat} {s : Scene Values}

theorem Call.ofType_of_write {call : Call} {vs : Values} {field : String} {v : Value} (hc : call.IsTyped)
    (h : Typed vs) (hw : call.write? vs = some (field, v)) : OfType field v := by
  cases call with
  | set field' v' =>
    cases hw
    exact hc
  | safeSet field' v' =>
    cases hw
    exact hc
  | updateStatus status =>
    cases hw
    rw [ofType_status_iff, fits_statusSchema]
    exact hc
  | addStageInstance stage =>
    obtain ⟨items, hi, hw⟩ := Option.map_eq_some_iff.mp hw
    cases hw
    obtain ⟨others, ho, hothers⟩ := (ofType_instances_iff.mp (h "instances")).exists_list
    rw [ho] at hi
    cases hi
    have hstage : stageInstanceSchema.Fits false stage := by
      rw [fits_stageInstanceSchema]
      exact hc
    exact ofType_instances_iff.mpr (fits_append hothers hstage)

theorem Named.ne_of_allows {vs : Values} (h : Named vs) {field : String}
    (ha : registry.Allows (vs.read field) field .caller) : field ≠ "instanceId" := by
  rintro rfl
  obtain ⟨s, hs, -⟩ := h
  have := ha.through
  rw [hs] at this
  cases this

theorem Updated.named {now : Binary64} {vs ws : Values} {field : String} {v : Value}
    (hu : Updated now vs field v ws) (ha : registry.Allows (vs.read field) field .caller) (h : Named vs) : Named ws := by
  have hne := h.ne_of_allows ha
  obtain ⟨s, hs, hl⟩ := h
  refine ⟨s, ?_, hl⟩
  have hw : (vs.write field v).read "instanceId" = .text s := by
    rw [vs.read_write_of_ne (ne_base_of_allows ha) (Ne.symm hne), hs]
  cases hu with
  | status hr =>
    obtain ⟨x, status, history, entries, -, -, -, -, rfl⟩ := hr
    rwa [Values.read_write_of_ne _ (by decide) (by decide), Values.read_write_of_ne _ (by decide) (by decide)]
  | features hn => rwa [hn.read_eq (by decide)]
  | plain _ _ _ => exact hw

/-- What holds of an infra config between any two typed turns. -/
structure Settled (vs : Values) : Prop where
  governed : Governed vs
  typed : Typed vs
  named : Named vs

theorem Settled.next (h : Settled s.entity.values) {turn : Turn} (ht : turn.call.IsTyped) :
    Settled (turn.next depth s).entity.values := by
  have hg : Governed (turn.next depth s).entity.values := h.governed.next turn
  rcases turn.next_cases depth h.governed.plain with ⟨field, v, hw, ha, -, hu, -⟩ | ⟨he, -⟩
  · have hv := Call.ofType_of_write ht h.typed hw
    exact ⟨hg, hu.typed (ne_base_of_allows ha) hv h.typed, hu.named ha h.named⟩
  · rw [he]
    exact h

theorem Settled.play (depth : Nat) (h : Settled s.entity.values) {turns : List Turn}
    (ht : ∀ turn ∈ turns, turn.call.IsTyped) : Settled (play depth turns s).entity.values := by
  induction turns generalizing s with
  | nil => exact h
  | cons turn turns ih =>
    exact ih (h.next (ht turn (List.mem_cons_self ..))) fun other ho => ht other (List.mem_cons_of_mem turn ho)

theorem settled_of_create {init : Value} {m n : Ambient} {e : Entity} (h : create init m = .ok e n)
    (hi : IsTypedInit init) : Settled e.state.values :=
  ⟨(governed_of_create h).1, (typed_of_create h hi).1, (typed_of_create h hi).2⟩

end Runs

section Bounds

variable {vs : Values} {v : Value} {n : Int}

theorem whole_fits {rule : NumberRule} (hv : v.IsWhole n)
    (hr : ∀ x, x.equalsInt n = true → rule.holds x = true) : (number [.integer, rule]).Fits true v := by
  obtain ⟨x, rfl, hx⟩ := hv
  refine .number fun _ => ⟨Binary64.isNan_of_isFinite (Binary64.equalsInt_iff.mp hx).1, fun other ho => ?_⟩
  simp only [List.mem_cons, List.not_mem_nil, or_false] at ho
  rcases ho with rfl | rfl
  · exact Binary64.isInteger_iff.mpr ⟨n, hx⟩
  · exact hr x hx

theorem epoch_fits (h0 : 0 ≤ n) (hv : v.IsWhole n) : epochSchema.Fits true v := by
  apply whole_fits hv
  intro x hx
  change (!x.less (.ofNat 0)) = true
  rw [Binary64.less_of_equalsInt hx Binary64.zero_equalsInt, decide_eq_false (Int.not_lt.mpr h0)]
  rfl

theorem count_fits (h1 : 1 ≤ n) (hv : v.IsWhole n) : countSchema.Fits true v := by
  apply whole_fits hv
  intro x hx
  change (Binary64.ofNat 0).less x = true
  rw [Binary64.less_of_equalsInt Binary64.zero_equalsInt hx,
    decide_eq_true (Int.lt_of_lt_of_le Int.zero_lt_one h1)]

theorem statusUpdate_fits {entry : Value} (h : statusUpdateSchema.Fits false entry) (h0 : 0 ≤ n)
    (hs : IsStamped entry n) : statusUpdateSchema.Fits true entry := by
  cases h with
  | @record _ r hd hn hr =>
    refine .record hd hn fun name schema v hm hv => ?_
    have hfits := hr name schema v hm hv
    simp only [List.mem_cons, Prod.mk.injEq, List.not_mem_nil, or_false] at hm
    rcases hm with ⟨rfl, rfl⟩ | ⟨rfl, rfl⟩
    · exact hfits.of_isLoose (.oneOf _)
    · obtain ⟨stamp, hstamp, hw⟩ := hs
      have he : stamp = v := by
        rw [stampOf, Value.member?, Value.lookUp, hv] at hstamp
        exact (Option.some.inj hstamp).symm
      rw [← he]
      exact epoch_fits h0 hw

theorem stageInstance_isLoose : stageInstanceSchema.IsLoose := by
  refine .fields ?_
  simp only [List.forall_mem_cons]
  exact ⟨.oneOf _, .text, .text, by simp⟩

theorem pceConfig_isLoose : pceConfigSchema.IsLoose := by
  refine .fields ?_
  simp only [List.forall_mem_cons]
  exact ⟨.listOf .text, .text, .text, .text, by simp⟩

theorem fits_history (ht : Typed vs) {entries : List Value} (he : vs.read "statusUpdates" = .list entries)
    (ho : InOrder entries) : (listOf statusUpdateSchema).Fits true (vs.read "statusUpdates") := by
  have hlist := ofType_statusUpdates_iff.mp (ht "statusUpdates")
  rw [he] at hlist ⊢
  cases hlist with
  | list hentries =>
    refine .list fun entry hm => ?_
    obtain ⟨n, h0, hs⟩ := ho.stamped entry hm
    exact statusUpdate_fits (hentries entry hm) h0 hs

theorem Settled.history_fits (h : Settled vs) :
    (listOf statusUpdateSchema).Fits true (vs.read "statusUpdates") := by
  obtain ⟨entries, hc⟩ := h.governed.chronicles
  exact fits_history h.typed hc.read hc.inOrder

def Fitting (vs : Values) : Prop := ∀ field s, (field, s) ∈ schema.entries → s.Fits true (vs.read field)

/-- Typed values keep within the bounds of the payload schema if they keep within those of the rules. -/
theorem fitting_of_bounds (ht : Typed vs) (hn : Named vs)
    (hw : ∀ field minimum, (field, minimum) ∈ bounds → ∃ n : Int, (minimum : Int) ≤ n ∧ (vs.read field).IsWhole n)
    (hh : (listOf statusUpdateSchema).Fits true (vs.read "statusUpdates")) : Fitting vs := by
  intro field s hs
  have htype := typed_iff.mp ht field s hs
  have hepoch : ∀ field, (field, 0) ∈ bounds → epochSchema.Fits true (vs.read field) := by
    intro field hb
    obtain ⟨n, hn, hw⟩ := hw field 0 hb
    exact epoch_fits hn hw
  have hcount : ∀ field, (field, 1) ∈ bounds → countSchema.Fits true (vs.read field) := by
    intro field hb
    obtain ⟨n, hn, hw⟩ := hw field 1 hb
    exact count_fits hn hw
  have hid : (text 1).Fits true (vs.read "instanceId") := by
    obtain ⟨s, hs, hl⟩ := hn
    rw [hs]
    exact .text fun _ => Nat.one_le_iff_ne_zero.mpr hl
  simp only [schema, entries, List.mem_cons, Prod.mk.injEq, List.not_mem_nil, or_false] at hs
  rcases hs with ⟨rfl, rfl⟩ | ⟨rfl, rfl⟩ | ⟨rfl, rfl⟩ | ⟨rfl, rfl⟩ | ⟨rfl, rfl⟩ | ⟨rfl, rfl⟩ | ⟨rfl, rfl⟩ |
    ⟨rfl, rfl⟩ | ⟨rfl, rfl⟩ | ⟨rfl, rfl⟩ | ⟨rfl, rfl⟩ | ⟨rfl, rfl⟩ | ⟨rfl, rfl⟩ | ⟨rfl, rfl⟩ | ⟨rfl, rfl⟩ |
    ⟨rfl, rfl⟩ | ⟨rfl, rfl⟩ | ⟨rfl, rfl⟩
  · exact hid
  · exact htype.of_isLoose (.oneOf _)
  · exact htype.of_isLoose (.oneOf _)
  · exact hepoch _ (by decide)
  · exact htype.of_isLoose (.listOf stageInstance_isLoose)
  · exact htype.of_isLoose (.oneOf _)
  · exact hcount _ (by decide)
  · exact hcount _ (by decide)
  · exact hcount _ (by decide)
  · exact hh
  · exact htype.of_isLoose (.nullable .text)
  · exact htype.of_isLoose (.listOf .text)
  · exact htype.of_isLoose (.nullable pceConfig_isLoose)
  · exact htype.of_isLoose .text
  · exact hepoch _ (by decide)
  · exact hepoch _ (by decide)
  · exact hepoch _ (by decide)
  · exact hcount _ (by decide)

theorem Settled.fits (h : Settled vs) : Fitting vs :=
  fitting_of_bounds h.typed h.named h.governed.sound.whole h.history_fits

end Bounds

end InfraConfig

end GovernedConfig
