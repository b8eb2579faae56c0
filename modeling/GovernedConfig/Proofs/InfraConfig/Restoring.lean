import GovernedConfig.Proofs.InfraConfig.Payload

/-! # Restoring infra configs

No construction rule has anything to do with what a settled infra config holds, so construction from
it ends with just that.
-/

namespace GovernedConfig.InfraConfig

open Act Lifecycle Rules

section Fields

variable {field : String}

theorem exists_schema (hf : field ∈ registry.fieldNames) : ∃ s, (field, s) ∈ schema.entries := by
  rw [← names_entries] at hf
  obtain ⟨⟨field, s⟩, hs, rfl⟩ := List.mem_map.mp hf
  exact ⟨s, hs⟩

theorem isDeclared_of_mem (hf : field ∈ registry.fieldNames) : registry.isDeclared field = true := by
  obtain ⟨spec, hm, he⟩ := List.mem_map.mp hf
  exact List.any_eq_true.mpr ⟨spec, hm, by simpa using he⟩

end Fields

section Idling

variable {depth : Nat} {s : Scene Values} {vs : Values}

theorem Fitting.read_eq (h : Fitting vs) {field : String} (hf : field ∈ registry.fieldNames) :
    Entity.read registry vs field = .ok (vs.read field) := by
  obtain ⟨s, hs⟩ := exists_schema hf
  have hfits := h field s hs
  exact Entity.read_eq_ok_iff.mpr ⟨isDeclared_of_mem hf, rfl, hfits.ne_undefined, hfits.isCopyable⟩

theorem Fitting.typed (h : Fitting vs) : Typed vs :=
  typed_iff.mpr fun field s hs => (h field s hs).unbounded

theorem Settled.read_eq (h : Settled vs) {field : String} (hf : field ∈ registry.fieldNames) :
    Entity.read registry vs field = .ok (vs.read field) :=
  h.fits.read_eq hf

theorem Typed.features (h : Typed vs) :
    ∃ items, vs.read "pcsFeatures" = .list items ∧ ∀ v ∈ items, ∃ s, v = .text s := by
  obtain ⟨items, hi, hitems⟩ := (ofType_pcsFeatures_iff.mp (h "pcsFeatures")).exists_list
  exact ⟨items, hi, fun v hv => (hitems v hv).exists_text⟩

theorem Settled.reaches (h : Settled vs) {field : String} {minimum : Nat} (hb : (field, minimum) ∈ bounds) :
    Reaches vs field minimum := by
  have hf : ∀ p ∈ bounds, p.1 ∈ registry.fieldNames := by decide
  exact ⟨vs.read field, h.read_eq (hf _ hb),
    (reaches_iff (bounds_equalsInt hb)).mpr (h.governed.sound.whole field minimum hb)⟩

theorem Settled.containersFit (h : Settled vs) : ContainersFit vs := by
  obtain ⟨pid, mpc, ⟨x, hx, hp⟩, ⟨y, hy, hm⟩, hle⟩ := h.governed.sound.fitting
  refine ⟨_, _, h.read_eq (by decide), h.read_eq (by decide), fun _ _ => ?_⟩
  rw [hx, hy]
  change some (y.less x) = some false
  rw [Binary64.less_of_equalsInt hm hp, decide_eq_false (Int.not_lt.mpr hle)]

theorem Settled.idles (h : Settled s.entity.values) : ∀ p ∈ schedule registry.fields [],
    runHook registry (Entity.scope depth registry) p.1 .postInit p.2 s = .ok false s := by
  have hminimum : ∀ key field minimum, (field, minimum) ∈ bounds →
      PassesHook depth field .postInit (minimumHook key field minimum) s false s := fun key field minimum hb =>
    minimumHook_passes_iff.mpr ⟨h.reaches hb, rfl, rfl⟩
  rw [schedule_eq]
  simp only [List.forall_mem_cons]
  refine ⟨?_, hminimum _ _ _ (by decide), hminimum _ _ _ (by decide), ?_, hminimum _ _ _ (by decide),
    hminimum _ _ _ (by decide), ?_, ?_, ?_, hminimum _ _ _ (by decide), hminimum _ _ _ (by decide),
    hminimum _ _ _ (by decide), hminimum _ _ _ (by decide), by simp⟩
  · obtain ⟨id, hid, hl⟩ := h.named
    refine instanceIdHook_passes_iff.mpr ⟨⟨_, h.read_eq (by decide), ?_⟩, rfl, rfl⟩
    rw [hid, hasLength, beq_false_of_ne hl]
  · exact containerCountHook_passes_iff.mpr ⟨h.containersFit, rfl, rfl⟩
  · obtain ⟨entries, hc⟩ := h.governed.chronicles
    refine historyOrderHook_passes_iff.mpr ⟨⟨entries, ?_, ?_⟩, rfl, rfl⟩
    · rw [h.read_eq (by decide), hc.read]
    · exact firstOutOfOrder_of_inOrder hc.inOrder
  · obtain ⟨entries, hc⟩ := h.governed.chronicles
    apply seedHistoryHook_idles (h.read_eq (by decide))
    rw [hc.read, hasLength, beq_false_of_ne]
    exact fun hl => hc.begun (List.length_eq_zero_iff.mp hl)
  · obtain ⟨items, hi, ht⟩ := h.typed.features
    have hmembers : distinctMembers (s.entity.values.read "pcsFeatures") = some (Value.distinct items) := by
      rw [hi]
      rfl
    have hlength := Value.length_distinct_of_noTextTwice ht (h.governed.sound.distinct items hi)
    apply featuresHook_idles (h.read_eq (by decide)) hmembers
    rw [hi, hasLength, hlength, beq_self_eq_true]

end Idling

section ReadingBack

variable {v w : Value} {n : Int}

theorem isWhole_of_readBack (hv : v.IsWhole n) (h : v.unsignedZeros.Agrees w) : w.IsWhole n := by
  obtain ⟨x, rfl, hx⟩ := hv
  change Value.Agrees (Value.unsigned (.number x)) w at h
  rw [Value.unsigned] at h
  cases hz : x.isNonzero || x.isNan with
  | true =>
    rw [hz] at h
    exact ⟨x, h.eq_number, hx⟩
  | false =>
    rw [hz] at h
    refine ⟨0, h.eq_number, ?_⟩
    rw [Bool.or_eq_false_iff] at hz
    obtain ⟨negative, rfl⟩ := Binary64.exists_zero hz.1 hz.2
    have hzero : (Binary64.zero negative).equalsInt 0 = true := by cases negative <;> decide +kernel
    rw [Binary64.equalsInt_unique hx hzero]
    exact Binary64.zero_equalsInt

theorem isStamped_of_readBack {entry : Value} {bounded : Bool} (hf : statusUpdateSchema.Fits bounded entry)
    (hs : IsStamped entry n) (h : entry.unsignedZeros.Agrees w) : IsStamped w n := by
  cases hf with
  | @record _ r hd hn hr =>
    obtain ⟨stamp, hl⟩ := Record.mem_names_iff.mp ((hn "statusUpdateTs").mpr (by decide))
    obtain ⟨v, hv, hw⟩ := hs
    have he : stamp = v := by
      rw [stampOf, Value.member?, Value.lookUp, hl] at hv
      exact Option.some.inj hv
    subst he
    rw [Value.unsignedZeros, Value.entriesUnsigned_eq] at h
    obtain ⟨q, rfl, hq, hall⟩ := h.exists_record
    have hname : "statusUpdateTs" ∈ q.names := by
      rw [← hq, Record.names_mapValues]
      exact (hn "statusUpdateTs").mpr (by decide)
    obtain ⟨v', hv'⟩ := Record.mem_names_iff.mp hname
    have ha := hall "statusUpdateTs" stamp.unsignedZeros v' (by rw [Record.lookup_mapValues, hl]; rfl) hv'
    refine ⟨v', ?_, isWhole_of_readBack hw ha⟩
    rw [stampOf, Value.member?, Value.lookUp, hv', Option.getD_some]

variable {vs ws : Values}

/-- Values agree with what others are read back as, field by field. -/
def ReadBack (vs ws : Values) : Prop :=
  ∀ field ∈ registry.fieldNames, (vs.read field).unsignedZeros.Agrees (ws.read field)

theorem Settled.chronicles_of_readBack (h : Settled vs) (hr : ReadBack vs ws) :
    ∃ entries, Chronicles ws entries := by
  obtain ⟨entries, hc⟩ := h.governed.chronicles
  have hagrees := hr "statusUpdates" (by decide)
  have hfits := h.history_fits
  rw [hc.read] at hagrees hfits
  rw [Value.unsignedZeros, Value.allUnsigned_eq] at hagrees
  obtain ⟨others, ho, hl, hall⟩ := hagrees.exists_list
  rw [List.length_map] at hl
  refine ⟨others, ho, ?_, hc.inOrder.of_stamps hl fun i a b ha hb n hn => ?_⟩
  · rw [← List.length_pos_iff_ne_nil, ← hl]
    exact List.length_pos_iff_ne_nil.mpr hc.begun
  · cases hfits with
    | list hentries =>
      refine isStamped_of_readBack (hentries a (List.mem_of_getElem? ha)) hn (hall i _ b ?_ hb)
      rw [List.getElem?_map, ha]
      rfl

theorem Settled.sound_of_readBack (h : Settled vs) (hr : ReadBack vs ws) : Sound ws := by
  have hb : ∀ p ∈ bounds, p.1 ∈ registry.fieldNames := by decide
  refine ⟨fun field minimum hm => ?_, ?_, ?_⟩
  · obtain ⟨n, hn, hw⟩ := h.governed.sound.whole field minimum hm
    exact ⟨n, hn, isWhole_of_readBack hw (hr field (hb _ hm))⟩
  · obtain ⟨pid, mpc, hp, hm, hle⟩ := h.governed.sound.fitting
    exact ⟨pid, mpc, isWhole_of_readBack hp (hr _ (by decide)), isWhole_of_readBack hm (hr _ (by decide)), hle⟩
  · obtain ⟨items, hi, ht⟩ := h.typed.features
    have hagrees := hr "pcsFeatures" (by decide)
    rw [hi, Value.unsignedZeros, Value.allUnsigned_texts ht] at hagrees
    intro others ho
    have hlist := hagrees.eq_texts ht
    rw [ho] at hlist
    cases hlist
    exact h.governed.sound.distinct items hi

theorem Settled.named_of_readBack (h : Settled vs) (hr : ReadBack vs ws) : Named ws := by
  obtain ⟨s, hs, hl⟩ := h.named
  have hagrees := hr "instanceId" (by decide)
  rw [hs] at hagrees
  exact ⟨s, hagrees.eq_text, hl⟩

/-- What is read back for a settled infra config is settled, if it is typed at all. -/
theorem Settled.of_readBack (h : Settled vs) (hr : ReadBack vs ws) (hp : ws.IsPlain) (ht : Typed ws) :
    Settled ws :=
  ⟨⟨hp, h.sound_of_readBack hr, h.chronicles_of_readBack hr⟩, ht, h.named_of_readBack hr⟩

end ReadingBack

section Construction

variable {w : Value} {s : Scene Values}

theorem allows_construction : ∀ spec ∈ registry.fields,
    registry.Allows (Values.read {} spec.name) spec.name .construction := by
  simp only [registry, List.forall_mem_cons]
  refine ⟨⟨rfl, rfl⟩, ⟨rfl, rfl⟩, ⟨rfl, rfl⟩, ⟨rfl, rfl⟩, ⟨rfl, rfl⟩, ⟨rfl, rfl⟩, ⟨rfl, rfl⟩, ⟨rfl, rfl⟩,
    ⟨rfl, rfl⟩, ⟨rfl, rfl⟩, ⟨rfl, rfl⟩, ⟨rfl, rfl⟩, ⟨rfl, rfl⟩, ⟨rfl, rfl⟩, ⟨rfl, rfl⟩, ⟨rfl, rfl⟩,
    ⟨rfl, rfl⟩, ⟨rfl, rfl⟩, by simp⟩

theorem populate_of_fits (hw : schema.Fits true w) (hs : s.entity.values = {}) :
    ∃ vs, Entity.populate registry w s = .ok () { s with entity := { s.entity with values := vs } } ∧
      vs.IsPlain ∧ ∀ field ∈ registry.fieldNames, w.member? field = some (vs.read field) := by
  have hsupplied : ∀ field ∈ registry.fieldNames,
      ∃ v, w.member? field = some v ∧ v ≠ .undefined ∧ v.isCopyable = true := by
    intro field hf
    obtain ⟨s, hs⟩ := exists_schema hf
    obtain ⟨v, hv, hfits⟩ := member_of_fits hw hs
    exact ⟨v, hv, hfits.ne_undefined, hfits.isCopyable⟩
  have hallows : ∀ spec ∈ registry.fields,
      registry.Allows (s.entity.values.read spec.name) spec.name .construction := by
    rw [hs]
    exact allows_construction
  obtain ⟨vs, hfill⟩ := Entity.fill_of_supplied (by decide) (by decide) hallows fun spec hm =>
    hsupplied spec.name (List.mem_map_of_mem hm)
  refine ⟨vs, ?_, ?_, fun field hf => ?_⟩
  · cases hw with
    | @record _ r hd hn hr =>
      have hnames : Entity.checkNames registry r.names = .ok () := by
        refine Entity.checkNames_of_declared fun name hm => isDeclared_of_mem ?_
        rw [← names_entries]
        exact (hn name).mp hm
      have hown : (Value.record r).ownNames? = some r.names := rfl
      unfold Entity.populate
      rw [hown, bind_of_ok (suitable_eq_ok_iff.mpr ⟨rfl, rfl⟩),
        bind_of_ok (ofExcept_eq_ok_iff.mpr ⟨hnames, rfl⟩)]
      exact hfill
  · exact (Entity.fill_keeps (Entity.tolerates_grounded ordinary) w _).of_ok hfill (by rw [hs]; rfl)
  · obtain ⟨⟨supplied, hv, h⟩, -⟩ := (Entity.fill_eq_ok (by decide) (by decide) hfill).1 field hf
    obtain ⟨v, hv', hu, -⟩ := hsupplied field hf
    rw [hv'] at hv
    cases hv
    rw [if_neg hu] at h
    rw [hv', ← h]

theorem fitting_of_fits {vs : Values} (h : schema.Fits true w)
    (hw : ∀ field ∈ registry.fieldNames, w.member? field = some (vs.read field)) : Fitting vs := by
  intro field s hs
  obtain ⟨v, hv, hfits⟩ := member_of_fits h hs
  rw [hw field (mem_fieldNames hs)] at hv
  cases hv
  exact hfits

end Construction

end GovernedConfig.InfraConfig
