import GovernedConfig.Proofs.InfraConfig.Rules

/-! # Updates of an infra config

What an update that answers has done to the values, by the field that was written.
-/

namespace GovernedConfig.InfraConfig

open Act Lifecycle Rules

/-- The fields that hold whole numbers, with the least number that each may hold. -/
def bounds : List (String × Nat) :=
  [("statusUpdateTs", 0), ("numPidContainers", 1), ("numMpcContainers", 1), ("numFilesPerMpcContainer", 1),
    ("retryCounter", 0), ("creationTs", 0), ("endTs", 0), ("mpcComputeConcurrency", 1)]

def Reaches (vs : Values) (field : String) (minimum : Nat) : Prop :=
  ∃ v, Entity.read registry vs field = .ok v ∧ reaches minimum v = true

section Steps

variable {depth : Nat} {field : String} {trigger : Trigger} {hooks : List (String × Hook)} {s t : Scene Values}

abbrev PassesAll (depth : Nat) (trigger : Trigger) (hooks : List (String × Hook)) (s t : Scene Values) : Prop :=
  Passes registry (Entity.scope depth registry) trigger hooks s t

theorem passesAll_nil (h : PassesAll depth trigger [] s t) : t.entity = s.entity := by
  obtain ⟨m, -, rfl⟩ := h
  rfl

theorem passesAll_minimum {key minimum : Nat} {name : String}
    (h : PassesAll depth trigger ((field, minimumHook key name minimum) :: hooks) s t) :
    Reaches s.entity.values name minimum ∧ PassesAll depth trigger hooks s t := by
  obtain ⟨m, acted, u, hm, hu, h⟩ := h
  obtain ⟨hr, -, rfl⟩ := minimumHook_passes_iff.mp hu
  exact ⟨hr, h.of_trace hm⟩

theorem passesAll_containers (h : PassesAll depth trigger ((field, containerCountHook) :: hooks) s t) :
    ContainersFit s.entity.values ∧ PassesAll depth trigger hooks s t := by
  obtain ⟨m, acted, u, hm, hu, h⟩ := h
  obtain ⟨hr, -, rfl⟩ := containerCountHook_passes_iff.mp hu
  exact ⟨hr, h.of_trace hm⟩

end Steps

section Outcomes

/-- What a written status does besides: it is stamped, not before the last stamp, and recorded. -/
def Recorded (now : Binary64) (vs ws : Values) : Prop :=
  ∃ x status history entries, Latest vs x ∧ Entity.read registry vs "status" = .ok status ∧
    Entity.read registry vs "statusUpdates" = .ok history ∧ history.walk? = some entries ∧
      ws = (vs.write "statusUpdateTs" (.number (now.max x))).write "statusUpdates"
        (.list (entries ++ [statusUpdate status (.number (now.max x))]))

/-- What features come to: they are kept, or their repetitions are dropped. -/
def Normalized (vs ws : Values) : Prop :=
  ∃ features members, Entity.read registry vs "pcsFeatures" = .ok features ∧
    distinctMembers features = some members ∧
      (hasLength features members.length = some true ∧ ws = vs ∨
        hasLength features members.length = some false ∧ ws = vs.write "pcsFeatures" (.list members))

/-- The fields whose update does nothing beside the write. -/
def IsPlain (field : String) : Prop :=
  field ∉ ["status", "statusUpdateTs", "statusUpdates", "pcsFeatures"]

instance (field : String) : Decidable (IsPlain field) := inferInstanceAs (Decidable (_ ∉ _))

inductive Watched : (field : String) → List Hook → Prop
  | idle {field : String} : IsPlain field → field ∉ bounds.map Prod.fst → Watched field []
  | bounded {field : String} {key minimum : Nat} : IsPlain field → (field, minimum) ∈ bounds →
      field ≠ "numPidContainers" → field ≠ "numMpcContainers" → Watched field [minimumHook key field minimum]
  | counted {field : String} {key : Nat} : field = "numPidContainers" ∨ field = "numMpcContainers" →
      Watched field [minimumHook key field 1, containerCountHook]
  | status : Watched "status" [postStatusHook]
  | features : Watched "pcsFeatures" [featuresHook]

theorem exists_watched {field : String} (hf : field ∈ registry.fieldNames) (ht : field ≠ "statusUpdateTs")
    (hs : field ≠ "statusUpdates") : ∃ hooks, registry.hooksFor field .postUpdate = .ok hooks ∧ Watched field hooks := by
  simp only [Registry.fieldNames, registry, List.map_cons, List.map_nil, List.mem_cons, List.not_mem_nil,
    or_false] at hf
  rcases hf with rfl | rfl | rfl | rfl | rfl | rfl | rfl | rfl | rfl | rfl | rfl | rfl | rfl | rfl | rfl | rfl |
    rfl | rfl
  · exact ⟨_, rfl, .idle (by decide) (by decide)⟩
  · exact ⟨_, rfl, .idle (by decide) (by decide)⟩
  · exact ⟨_, rfl, .status⟩
  · exact (ht rfl).elim
  · exact ⟨_, rfl, .idle (by decide) (by decide)⟩
  · exact ⟨_, rfl, .idle (by decide) (by decide)⟩
  · exact ⟨_, rfl, .counted (.inl rfl)⟩
  · exact ⟨_, rfl, .counted (.inr rfl)⟩
  · exact ⟨_, rfl, .bounded (by decide) (by decide) (by decide) (by decide)⟩
  · exact (hs rfl).elim
  · exact ⟨_, rfl, .idle (by decide) (by decide)⟩
  · exact ⟨_, rfl, .features⟩
  · exact ⟨_, rfl, .idle (by decide) (by decide)⟩
  · exact ⟨_, rfl, .idle (by decide) (by decide)⟩
  · exact ⟨_, rfl, .bounded (by decide) (by decide) (by decide) (by decide)⟩
  · exact ⟨_, rfl, .bounded (by decide) (by decide) (by decide) (by decide)⟩
  · exact ⟨_, rfl, .bounded (by decide) (by decide) (by decide) (by decide)⟩
  · exact ⟨_, rfl, .bounded (by decide) (by decide) (by decide) (by decide)⟩

theorem bounds_unique {field : String} {least other : Nat} (hl : (field, least) ∈ bounds)
    (ho : (field, other) ∈ bounds) : other = least := by
  have h : ∀ p ∈ bounds, ∀ q ∈ bounds, p.1 = q.1 → q.2 = p.2 := by decide
  exact h _ hl _ ho rfl

/-- What an update of a field with plain values does, if it answers. -/
inductive Updated (now : Binary64) (vs : Values) : (field : String) → (v : Value) → Values → Prop
  | status {v : Value} {ws : Values} :
      Recorded now (vs.write "status" v) ws → Updated now vs "status" v ws
  | features {v : Value} {ws : Values} :
      Normalized (vs.write "pcsFeatures" v) ws → Updated now vs "pcsFeatures" v ws
  | plain {field : String} {v : Value} : IsPlain field →
      (∀ minimum, (field, minimum) ∈ bounds → Reaches (vs.write field v) field minimum) →
      (field = "numPidContainers" ∨ field = "numMpcContainers" → ContainersFit (vs.write field v)) →
        Updated now vs field v (vs.write field v)

variable {depth : Nat} {field : String} {trigger : Trigger} {hooks : List (String × Hook)} {v : Value}
  {s t : Scene Values}

theorem passesAll_record (h : PassesAll depth trigger [(field, postStatusHook)] s t) :
    Recorded s.ambient.seconds s.entity.values t.entity.values := by
  obtain ⟨m, acted, u, hm, hu, h⟩ := h
  obtain ⟨x, status, history, entries, hx, hs, hh, hw, rfl⟩ := postStatusHook_passes hu
  refine ⟨x, status, history, entries, hx, hs, hh, hw, ?_⟩
  rw [passesAll_nil h, show s.ambient.seconds = m.seconds by rw [Ambient.seconds, Ambient.seconds, hm.clock]]
  rfl

theorem passesAll_features (h : PassesAll depth trigger ((field, featuresHook) :: hooks) s t) :
    ∃ u, Normalized s.entity.values u.entity.values ∧ PassesAll depth trigger hooks u t := by
  obtain ⟨m, acted, u, hm, hu, h⟩ := h
  obtain ⟨features, members, hf, hd, ⟨hl, rfl⟩ | ⟨hl, rfl⟩⟩ := featuresHook_passes hu
  · exact ⟨s, ⟨features, members, hf, hd, .inl ⟨hl, rfl⟩⟩, h.of_trace hm⟩
  · exact ⟨_, ⟨features, members, hf, hd, .inr ⟨hl, rfl⟩⟩, h⟩

theorem exists_watched_of_allows {current : Value} (ha : registry.Allows current field .caller) :
    ∃ hooks, registry.hooksFor field .postUpdate = .ok hooks ∧ Watched field hooks := by
  obtain ⟨spec, hs, hn⟩ := List.any_eq_true.mp ha.declared
  refine exists_watched (List.mem_map.mpr ⟨spec, hs, by simpa using hn⟩) ?_ ?_
  · rintro rfl
    cases ha.through
  · rintro rfl
    cases ha.through

theorem updated_of_passesAll {hooks : List Hook} (hw : Watched field hooks)
    (h : PassesAll depth .postUpdate (hooks.map (field, ·)) (s.written field v) t) :
    Updated s.ambient.seconds s.entity.values field v t.entity.values := by
  cases hw with
  | idle hp hb =>
    rw [passesAll_nil h]
    have hne : ∀ minimum, (field, minimum) ∉ bounds := fun minimum hm => hb (List.mem_map_of_mem hm)
    refine .plain hp (fun minimum hm => (hne minimum hm).elim) fun hf => ?_
    rcases hf with rfl | rfl
    · exact (hb (by decide)).elim
    · exact (hb (by decide)).elim
  | bounded hp hb hpid hmpc =>
    obtain ⟨hr, h⟩ := passesAll_minimum h
    rw [passesAll_nil h]
    exact .plain hp (fun other ho => bounds_unique hb ho ▸ hr) fun hf => (hf.elim hpid hmpc).elim
  | counted hf =>
    obtain ⟨hr, h⟩ := passesAll_minimum h
    obtain ⟨hc, h⟩ := passesAll_containers h
    rw [passesAll_nil h]
    have hcount : IsPlain field ∧ (field, 1) ∈ bounds := by rcases hf with rfl | rfl <;> decide
    exact .plain hcount.1 (fun other ho => bounds_unique hcount.2 ho ▸ hr) fun _ => hc
  | status => exact .status (passesAll_record h)
  | features =>
    obtain ⟨u, hn, h⟩ := passesAll_features h
    rw [passesAll_nil h]
    exact .features hn

theorem updated_of_set {report : Report} (h : Entity.set registry depth field v s = .ok report t) :
    registry.Allows (s.entity.values.read field) field .caller ∧ v.isCopyable = true ∧
      Updated s.ambient.seconds s.entity.values field v t.entity.values := by
  obtain ⟨-, ha, hc, hd⟩ := Entity.update_eq_ok_iff.mp h
  obtain ⟨hooks, hh, hp⟩ := passes_of_dispatchUpdate hd
  obtain ⟨watching, hh', hw⟩ := exists_watched_of_allows ha
  obtain rfl : watching = hooks := Except.ok.inj (hh'.symm.trans hh)
  exact ⟨ha, hc, updated_of_passesAll hw hp⟩

end Outcomes

end GovernedConfig.InfraConfig
