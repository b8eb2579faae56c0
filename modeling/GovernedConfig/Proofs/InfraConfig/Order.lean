import GovernedConfig.Proofs.Entity.Locality
import GovernedConfig.Proofs.InfraConfig.Presence

/-! # The order of updates of an infra config

Updates of different fields are not in each other's way: what one of them changes, the other does not look at. Only the
two numbers of containers are looked at together.
-/

namespace GovernedConfig.InfraConfig

open Act Program Rules

section Footprints

def looks (field : String) : List String :=
  if field = "status" then ["instanceId", "status", "statusUpdateTs", "statusUpdates"]
  else if field = "numPidContainers" ∨ field = "numMpcContainers" then
    ["instanceId", "numPidContainers", "numMpcContainers"]
  else if field = "statusUpdateTs" ∨ field = "statusUpdates" then ["instanceId"]
  else ["instanceId", field]

def touches (field : String) : List String :=
  if field = "status" then ["status", "statusUpdateTs", "statusUpdates"]
  else if field = "instanceId" ∨ field = "statusUpdateTs" ∨ field = "statusUpdates" then []
  else [field]

def BothCounts (field other : String) : Prop :=
  field = "numPidContainers" ∧ other = "numMpcContainers" ∨ field = "numMpcContainers" ∧ other = "numPidContainers"

variable {field other : String}

theorem touches_subset_looks (field : String) : {x | x ∈ touches field} ⊆ {x | x ∈ looks field} := by
  intro x hx
  simp only [touches, looks, Set.mem_ofPred_eq] at hx ⊢
  grind

theorem not_looks_of_touches (hne : field ≠ other) (hc : ¬ BothCounts field other) :
    ∀ x ∈ {x | x ∈ touches field}, x ∉ {x | x ∈ looks other} := by
  intro x hx hl
  simp only [touches, looks, BothCounts, Set.mem_ofPred_eq] at hx hl hc
  grind

end Footprints

section Hooks

variable {fields : Set String} {field : String}

theorem minimumHook_within {key minimum : Nat} (h : field ∈ fields) : (minimumHook key field minimum).Within fields :=
  ⟨(within_read h).bind fun _ => within_pure _,
    ((within_read h).bind fun _ => (within_suitable _).bind fun _ => within_fail _).bind fun _ => within_pure _⟩

theorem containerCountHook_within (hp : "numPidContainers" ∈ fields) (hm : "numMpcContainers" ∈ fields) :
    containerCountHook.Within fields := by
  constructor
  · refine (within_read hp).bind fun pid => (within_read hm).bind fun mpc => ?_
    split
    · exact within_suitable _
    · exact within_pure _
  · exact ((within_read hp).bind fun _ => (within_read hm).bind fun _ => (within_suitable _).bind fun _ =>
      (within_suitable _).bind fun _ => within_fail _).bind fun _ => within_pure _

theorem postStatusHook_within (hs : "status" ∈ fields) (ht : "statusUpdateTs" ∈ fields)
    (hh : "statusUpdates" ∈ fields) : postStatusHook.Within fields := by
  have hlatest : latestStamp.Within fields := by
    refine (within_read hh).bind fun history => (within_suitable _).bind fun last => ?_
    split
    · exact within_suitable _
    · exact within_read ht
  have happend : appendStatus.Within fields :=
    (within_read hs).bind fun _ => (within_read ht).bind fun _ => (within_read hh).bind fun _ =>
      (within_suitable _).bind fun _ => within_write hh _
  exact ⟨within_pure _, (within_now.bind fun _ => hlatest.bind fun _ => (within_suitable _).bind fun _ =>
    (within_write ht _).bind fun _ => happend).bind fun _ => within_pure _⟩

theorem featuresHook_within (h : "pcsFeatures" ∈ fields) : featuresHook.Within fields :=
  ⟨(within_read h).bind fun _ => (within_suitable _).bind fun _ => (within_suitable _).bind fun _ => within_pure _,
    ((within_read h).bind fun _ => (within_suitable _).bind fun _ => within_write h _).bind fun _ => within_pure _⟩

theorem Watched.within {hooks : List Hook} (hw : Watched field hooks) :
    ∀ h ∈ hooks, h.Within {x | x ∈ looks field} := by
  cases hw with
  | idle _ _ => exact fun h hm => absurd hm List.not_mem_nil
  | bounded hp _ hpid hmpc =>
    have hself : field ∈ looks field := by
      simp only [IsPlain, List.mem_cons, not_or] at hp
      simp [looks, hp, hpid, hmpc]
    rintro h hm
    obtain rfl := List.mem_singleton.mp hm
    exact minimumHook_within hself
  | counted hf =>
    have hcounts : looks field = ["instanceId", "numPidContainers", "numMpcContainers"] := by
      rcases hf with rfl | rfl <;> rfl
    rw [hcounts]
    simp only [List.forall_mem_cons]
    refine ⟨minimumHook_within ?_, containerCountHook_within (by simp) (by simp), by simp⟩
    rcases hf with rfl | rfl <;> simp
  | status =>
    rintro h hm
    obtain rfl := List.mem_singleton.mp hm
    exact postStatusHook_within (by simp [looks]) (by simp [looks]) (by simp [looks])
  | features =>
    rintro h hm
    obtain rfl := List.mem_singleton.mp hm
    exact featuresHook_within (by simp [looks])

end Hooks

section Updates

variable {vs ws : Values} {s : Scene Values}

/-- The values of an infra config as far as the order of updates rests on them. -/
structure Tabled (vs : Values) : Prop where
  plain : vs.IsPlain
  names : Record.names vs.own = registry.fieldNames
  identified : (vs.read "instanceId").isPresent = true

theorem Furnished.tabled (h : Furnished vs) : Tabled vs := ⟨h.plain, h.names, h.identified⟩

/-- What is held under its eighteen names is all there is to an infra config. -/
theorem Tabled.ext (hvs : Tabled vs) (hws : Tabled ws) (h : ∀ field, vs.read field = ws.read field) : vs = ws := by
  have hown : ∀ {us : Values}, Tabled us → us.own = registry.fieldNames.map fun field => (field, us.read field) := by
    intro us hus
    have hnodup : (Record.names us.own).Nodup := by
      rw [hus.names]
      decide
    have heq := Record.eq_map_names hnodup us.read fun field v hv => by rw [Values.read, hv, Option.getD_some]
    rwa [hus.names] at heq
  obtain ⟨own, base⟩ := vs
  obtain ⟨own', base'⟩ := ws
  obtain rfl : own = own' := by
    refine (hown hvs).trans (Eq.trans ?_ (hown hws).symm)
    simp only [h]
  rw [show base = .record [] from hvs.plain, show base' = .record [] from hws.plain]

theorem read_after_set (hs : Tabled s.entity.values) (depth : Nat) (field : String) (v : Value) {other : String}
    (ho : other ∉ touches field) :
    ((Entity.set registry depth field v).after s).entity.values.read other = s.entity.values.read other := by
  cases h : Entity.set registry depth field v s with
  | error thrown t => rw [after_of_error h, Entity.entity_of_set_error hs.plain h]
  | ok report t =>
    obtain ⟨ha, -, hu⟩ := updated_of_set h
    rw [after_of_ok h]
    have honce : registry.IsWriteOnce "instanceId" := by decide
    -- What is left to hooks, and the id, which is present, is not let through.
    have hopen : field ≠ "instanceId" ∧ field ≠ "statusUpdateTs" ∧ field ≠ "statusUpdates" := by
      refine ⟨?_, ?_, ?_⟩
      · rintro rfl
        have hpresent := hs.identified
        rw [honce.allows_iff.mp ha] at hpresent
        cases hpresent
      · rintro rfl
        cases ha.through
      · rintro rfl
        cases ha.through
    refine hu.read_of_ne (ne_base_of_allows ha) ?_ fun hf => ?_
    · rintro rfl
      simp only [touches] at ho
      grind
    · subst hf
      simp only [touches, if_true, List.mem_cons, List.not_mem_nil, or_false, not_or] at ho
      exact ho.2

theorem update_agrees_of_looks (depth : Nat) (field : String) (v : Value) (k : Ambient) :
    (Entity.set registry depth field v).Even (Scene.Agrees {x | x ∈ looks field} k) := by
  by_cases hb : registry.Bars field
  · exact Entity.update_agrees_of_bars hb v
  · simp only [Registry.Bars, not_or, Bool.not_eq_false] at hb
    obtain ⟨hd, hm⟩ := hb
    obtain ⟨spec, hspec, hn⟩ := List.any_eq_true.mp hd
    have hf : field ∈ registry.fieldNames := List.mem_map.mpr ⟨spec, hspec, by simpa using hn⟩
    have hts : field ≠ "statusUpdateTs" := by
      rintro rfl
      exact hm rfl
    have hupdates : field ≠ "statusUpdates" := by
      rintro rfl
      exact hm rfl
    obtain ⟨hooks, hh, hw⟩ := exists_watched hf hts hupdates
    refine Entity.update_agrees ordinary (fun id hi => ?_) ?_ hh hw.within v
    · obtain rfl : "instanceId" = id := Option.some.inj hi
      simp only [looks, Set.mem_ofPred_eq]
      split_ifs <;> simp
    · simp only [looks, hts, hupdates, Set.mem_ofPred_eq]
      grind

theorem safeSet_confined (depth : Nat) (field : String) (v : Value) :
    Scene.Confined Tabled {x | x ∈ looks field} {x | x ∈ touches field} (Entity.safeSet registry depth field v) where
  even k := Entity.safeSet_agrees (update_agrees_of_looks depth field v k)
  calm s := by
    rw [Entity.after_safeSet]
    exact Entity.set_keeps (Entity.tolerates_calm registry) depth field v s
  keeps s hs := by
    rw [Entity.after_safeSet]
    refine ⟨Entity.set_keeps (Entity.tolerates_grounded ordinary) depth field v s hs.plain,
      Entity.set_keeps (Entity.tolerates_enumerated ordinary) depth field v s hs.names, ?_⟩
    rw [read_after_set hs depth field v]
    · exact hs.identified
    · simp only [touches]
      grind
  untouched s hs other ho := by
    rw [Entity.after_safeSet]
    exact read_after_set hs depth field v ho
  subset := touches_subset_looks field

def Succeeds (depth : Nat) (field : String) (v : Value) (s : Scene Values) : Prop :=
  ∃ report, (Entity.safeSet registry depth field v).outcome s = .ok (.ok report)

instance (depth : Nat) (field : String) (v : Value) (s : Scene Values) : Decidable (Succeeds depth field v s) :=
  match h : (Entity.safeSet registry depth field v).outcome s with
  | .ok (.ok report) => isTrue ⟨report, h⟩
  | .ok (.error cause) => isFalse fun ⟨report, hr⟩ => by cases h.symm.trans hr
  | .error thrown => isFalse fun ⟨report, hr⟩ => by cases h.symm.trans hr

theorem values_of_count {depth : Nat} {field : String} {v : Value}
    (hf : field = "numPidContainers" ∨ field = "numMpcContainers") (h : Succeeds depth field v s) :
    ((Entity.safeSet registry depth field v).after s).entity.values = s.entity.values.write field v := by
  obtain ⟨report, h⟩ := h
  rw [Entity.after_safeSet]
  cases hset : Entity.set registry depth field v s with
  | ok report t =>
    rw [after_of_ok hset]
    obtain ⟨-, -, hu⟩ := updated_of_set hset
    generalize t.entity.values = ws at hu ⊢
    cases hu with
    | status _ => simp at hf
    | features _ => simp at hf
    | plain _ _ _ => rfl
  | error thrown t =>
    have hsafe := Entity.safeSet_of_error hset
    rw [outcome, hsafe] at h
    cases hfault : thrown.toFault with
    | ok cause =>
      rw [hfault] at h
      cases h
    | error cause =>
      rw [hfault] at h
      cases h

end Updates

/-- However an infra config was created and whatever was written to it since, with or without success: of two safe
updates of different fields each comes to the same whichever is made first, be it an answer or a refusal, and the same
infra config is left. The two numbers of containers, which have to fit, leave the same infra config if they are written
with success in either order. -/
theorem safeSets_in_either_order {init : Value} {m n : Ambient} {e : Entity} (h : create init m = .ok e n)
    (depth : Nat) (turns : List Turn) (current : Option Entity) {s : Scene Values}
    (he : s.entity = (play depth turns ⟨n, e.state, current⟩).entity) {field other : String} (hne : field ≠ other)
    (v w : Value) :
    let first := Entity.safeSet registry depth field v
    let second := Entity.safeSet registry depth other w
    (¬ BothCounts field other →
      second.outcome (first.after s) = second.outcome s ∧ first.outcome (second.after s) = first.outcome s ∧
        (second.after (first.after s)).entity = (first.after (second.after s)).entity) ∧
    (BothCounts field other → Succeeds depth field v s → Succeeds depth other w (first.after s) →
      Succeeds depth other w s → Succeeds depth field v (second.after s) →
        (second.after (first.after s)).entity = (first.after (second.after s)).entity) := by
  intro first second
  have hs : Tabled s.entity.values :=
    he ▸ (Furnished.play (s := ⟨n, e.state, current⟩) (furnished_of_create h).1 turns).tabled
  have hfirst := safeSet_confined depth field v
  have hsecond := safeSet_confined depth other w
  have hplain : ∀ vs, Tabled vs → vs.IsPlain := fun _ hvs => hvs.plain
  have hleft := hsecond.keeps _ (hfirst.keeps s hs)
  have hright := hfirst.keeps _ (hsecond.keeps s hs)
  refine ⟨fun hcounts => ?_, fun hcounts hf hfs hg hgf => ?_⟩
  · have hd := not_looks_of_touches hne hcounts
    have hd' := not_looks_of_touches hne.symm fun hc => hcounts (hc.symm.imp And.symm And.symm)
    refine ⟨hsecond.outcome_after hfirst hplain hs hd, hfirst.outcome_after hsecond hplain hs hd', ?_⟩
    exact hfirst.entity_comm hsecond (hleft.ext hright (hfirst.read_comm hsecond hplain hs hd hd'))
  · have hfield : field = "numPidContainers" ∨ field = "numMpcContainers" := hcounts.imp And.left And.left
    have hother : other = "numPidContainers" ∨ other = "numMpcContainers" := (hcounts.imp And.right And.right).symm
    refine hfirst.entity_comm hsecond (hleft.ext hright fun x => ?_)
    have hbase : field ≠ "__proto__" ∧ other ≠ "__proto__" := by
      rcases hcounts with ⟨rfl, rfl⟩ | ⟨rfl, rfl⟩ <;> decide
    rw [values_of_count hother hfs, values_of_count hfield hf, values_of_count hfield hgf, values_of_count hother hg]
    exact s.entity.values.read_write_comm hbase.1 hbase.2 hne v w x

section Sample

def sampleGrows : Bool :=
  match create sampleInit Entity.stillness with
  | .ok e n =>
    let s : Scene Values := ⟨n, e.state, none⟩
    decide (Succeeds 2 "numPidContainers" (.number 2) s ∧
      Succeeds 2 "numMpcContainers" (.number 3)
        ((Entity.safeSet registry 2 "numPidContainers" (.number 2)).after s) ∧
      Succeeds 2 "numMpcContainers" (.number 3) s ∧
      Succeeds 2 "numPidContainers" (.number 2)
        ((Entity.safeSet registry 2 "numMpcContainers" (.number 3)).after s))
  | .error _ _ => false

/-- The order makes no difference to the sample, neither for a status beside a number of retries that is refused nor
for the numbers of containers. -/
theorem sample_in_either_order : ∃ e n, create sampleInit Entity.stillness = .ok e n ∧
    let s : Scene Values := ⟨n, e.state, none⟩
    let status := Entity.safeSet registry 2 "status" (.text "TIMEOUT")
    let retries := Entity.safeSet registry 2 "retryCounter" .null
    let pid := Entity.safeSet registry 2 "numPidContainers" (.number 2)
    let mpc := Entity.safeSet registry 2 "numMpcContainers" (.number 3)
    (retries.after (status.after s)).entity = (status.after (retries.after s)).entity ∧
      (mpc.after (pid.after s)).entity = (pid.after (mpc.after s)).entity := by
  have hgrows : sampleGrows = true := by decide +kernel
  unfold sampleGrows at hgrows
  split at hgrows
  · rename_i e n he
    obtain ⟨hpid, hmpc, hmpc', hpid'⟩ := of_decide_eq_true hgrows
    have hcounts : ¬ BothCounts "status" "retryCounter" := by
      unfold BothCounts
      decide
    refine ⟨e, n, he, ?_, ?_⟩
    · exact ((safeSets_in_either_order he 2 [] none rfl (by decide : "status" ≠ "retryCounter") (.text "TIMEOUT")
        .null).1 hcounts).2.2
    · exact (safeSets_in_either_order he 2 [] none rfl (by decide : "numPidContainers" ≠ "numMpcContainers") (.number 2)
        (.number 3)).2 (.inl ⟨rfl, rfl⟩) hpid hmpc hmpc' hpid'
  · cases hgrows

end Sample

end GovernedConfig.InfraConfig
