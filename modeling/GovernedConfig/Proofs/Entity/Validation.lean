import GovernedConfig.Proofs.Entity.WriteOnce

/-! # Validation hooks

A hook that watches all the fields its condition looks at, and lets nothing through, keeps its condition from
holding on any entity between two operations.
-/

namespace GovernedConfig

open Entity

namespace Hook

/-- The condition of a hook holds in a scene when it runs in the scope of an entity. -/
def HoldsIn (h : Hook) (depth : Nat) (r : Registry) (s : Scene Values) : Prop :=
  ∃ t, h.condition.run (scope depth r) false s = .ok true t

/-- The condition of a hook can hold on some values. -/
def HoldsOn (h : Hook) (r : Registry) (vs : Values) : Prop :=
  ∃ depth s, s.entity.values = vs ∧ h.HoldsIn depth r s

/-- A hook guards some fields of a registry: its condition depends on nothing but them, its action always
throws, it watches each of them, and no update hook assigns any. -/
structure Guards (h : Hook) (r : Registry) (fields : List String) : Prop where
  looks : ∀ depth depth' s s', (∀ field ∈ fields, s'.entity.values.read field = s.entity.values.read field) →
    h.HoldsIn depth r s → h.HoldsIn depth' r s'
  refuses : ∀ depth s, ∃ thrown t, h.action.run (scope depth r) (h.kind == .update) s = .error thrown t
  constructing : h.hasTrigger .postInit = true
  updating : h.hasTrigger .postUpdate = true
  nonempty : fields ≠ []
  watches : ∀ field ∈ fields, ∃ spec, r.find? field = some spec ∧ h ∈ spec.hooks
  /-- Hooks of the registry with the same key are the same hook. -/
  known : ∀ spec ∈ r.fields, ∀ g ∈ spec.hooks, g.key = h.key → g = h
  spared : ∀ spec ∈ r.fields, ∀ g ∈ spec.hooks, g.kind = .update → ∀ depth s field source next t,
    Program.Leads (scope depth r) true g.action s (.assign field source next) t → field ∉ fields

end Hook

theorem Registry.hooksFor_eq_ok_iff {r : Registry} {field : String} {t : Trigger} {hooks : List Hook} :
    r.hooksFor field t = .ok hooks ↔
      ∃ spec, r.find? field = some spec ∧ spec.hooks.filter (·.hasTrigger t) = hooks := by
  unfold hooksFor Registry.spec
  cases r.find? field with
  | none => simp [Except.map]
  | some spec => simp [Except.map]

/-- Between two moments the condition of a hook did not come to hold. -/
def Scene.Guarded (h : Hook) (r : Registry) (s t : Scene Values) : Prop :=
  s.entity.values.IsPlain → t.entity.values.IsPlain ∧
    (¬ h.HoldsOn r s.entity.values → ¬ h.HoldsOn r t.entity.values)

instance (h : Hook) (r : Registry) : Scene.Frame (Scene.Guarded h r) where
  refl _ hs := ⟨hs, id⟩
  trans _ _ _ h g hs := ⟨(g (h hs).1).1, fun hn => (g (h hs).1).2 ((h hs).2 hn)⟩
  around _ _ _ hs := ⟨hs, id⟩

namespace Lifecycle

variable {r : Registry} {h : Hook}

theorem mem_schedule {specs : List FieldSpec} {seen : List Nat} {spec : FieldSpec} (hs : spec ∈ specs)
    (hm : h ∈ spec.hooks) (ht : h.hasTrigger .postInit = true) (hn : h.key ∉ seen)
    (hk : ∀ spec ∈ specs, ∀ g ∈ spec.hooks, g.key = h.key → g = h) : ∃ field, (field, h) ∈ schedule specs seen := by
  induction specs generalizing seen with
  | nil => cases hs
  | cons first specs ih =>
    unfold schedule
    by_cases hf : h ∈ first.hooks
    · have hfresh : h ∈ first.hooks.filter fun g => g.hasTrigger .postInit && !seen.contains g.key := by
        simp [List.mem_filter, hf, ht, hn]
      exact ⟨first.name, List.mem_append_left _ (List.mem_map_of_mem hfresh)⟩
    · have hrest : spec ∈ specs := by
        rcases List.mem_cons.mp hs with rfl | hs
        · exact (hf hm).elim
        · exact hs
      have hunseen : h.key ∉ seen ++ (first.hooks.filter fun g =>
          g.hasTrigger .postInit && !seen.contains g.key).map Hook.key := by
        rw [List.mem_append, List.mem_map]
        rintro (hseen | ⟨g, hg, he⟩)
        · exact hn hseen
        · have hgm := (List.mem_filter.mp hg).1
          rw [hk first (List.mem_cons_self ..) g hgm he] at hgm
          exact hf hgm
      obtain ⟨field, hin⟩ := ih hrest hunseen fun spec hs => hk spec (List.mem_cons_of_mem first hs)
      exact ⟨field, List.mem_append_right _ hin⟩

theorem exists_of_mem_schedule {specs : List FieldSpec} {seen : List Nat} {p : String × Hook}
    (hp : p ∈ schedule specs seen) : ∃ spec ∈ specs, p.2 ∈ spec.hooks := by
  induction specs generalizing seen with
  | nil => cases hp
  | cons first specs ih =>
    unfold schedule at hp
    rcases List.mem_append.mp hp with hp | hp
    · obtain ⟨g, hg, rfl⟩ := List.mem_map.mp hp
      exact ⟨first, List.mem_cons_self .., (List.mem_filter.mp hg).1⟩
    · obtain ⟨spec, hs, hm⟩ := ih hp
      exact ⟨spec, List.mem_cons_of_mem first hs, hm⟩

end Lifecycle

namespace Hook.Guards

open Act Lifecycle

variable {r : Registry} {h : Hook} {fields : List String}

section Steps

variable {depth : Nat} {s t : Scene Values} {field : String} {v : Value}

theorem holdsIn (hg : h.Guards r fields) {vs : Values} (hv : h.HoldsOn r vs) (depth : Nat)
    (hs : ∀ field ∈ fields, s.entity.values.read field = vs.read field) : h.HoldsIn depth r s := by
  obtain ⟨depth', s', rfl, hv⟩ := hv
  exact hg.looks depth' depth s' s hs hv

theorem written (hg : h.Guards r fields) (hf : field ∉ fields) (hne : field ≠ "__proto__") :
    Scene.Guarded h r s (s.written field v) := by
  refine fun hs => ⟨hs.write hne v, fun hn hv => hn ⟨0, s, rfl, hg.holdsIn hv 0 fun other ho => ?_⟩⟩
  have hother : other ≠ field := by
    rintro rfl
    exact hf ho
  exact (Values.read_write_of_ne _ hne hother v).symm

theorem assign_keeps (hg : h.Guards r fields) (hr : r.HasOrdinaryNames) (hf : field ∉ fields) (source : Source) :
    (do write r field (← evaluate r source) .hook : Act (Scene Values) Unit).Keeps (Scene.Guarded h r) :=
  (evaluate_keeps r source).bind fun _ => write_keeps r fun _ ha _ => hg.written hf (hr.ne_base ha.declared)

theorem hook_keeps (hg : h.Guards r fields) (hs : (scope depth r).KeepsBut fields (Scene.Guarded h r))
    {spec : FieldSpec} (hm : spec ∈ r.fields) {g : Hook} (hgm : g ∈ spec.hooks) :
    g.Keeps (scope depth r) (Scene.Guarded h r) where
  condition := Program.run_keeps_of_spares hs fun hmay => by cases hmay
  action := Program.run_keeps_of_spares hs fun hmay => by
    rw [hmay]
    exact hg.spared spec hm g hgm (by simpa using hmay) depth

theorem not_holdsOn_of_passes (hg : h.Guards r fields) {trigger : Trigger} {hooks : List (String × Hook)}
    (hk : ∀ p ∈ hooks, p.2.Keeps (scope depth r) (Scene.Guarded h r)) (hm : (field, h) ∈ hooks)
    (hs : s.entity.values.IsPlain) (hp : Passes r (scope depth r) trigger hooks s t) :
    ¬ h.HoldsOn r t.entity.values := by
  induction hooks generalizing s with
  | nil => cases hm
  | cons head hooks ih =>
    obtain ⟨m, acted, u, hm', hu, hp⟩ := hp
    have hhead := hk head (List.mem_cons_self ..)
    have hrest : ∀ p ∈ hooks, p.2.Keeps (scope depth r) (Scene.Guarded h r) :=
      fun p hp => hk p (List.mem_cons_of_mem head hp)
    rcases List.mem_cons.mp hm with rfl | hm
    · rcases runHook_eq_ok_iff.mp hu with ⟨-, hc⟩ | ⟨-, w, -, ha⟩
      · have hstart : ¬ h.HoldsOn r s.entity.values := by
          intro hv
          obtain ⟨w, hw⟩ := hg.holdsIn (s := { s with ambient := m }) hv depth fun _ _ => rfl
          rw [hc] at hw
          cases hw
        obtain ⟨hu', hnot⟩ := hhead.condition.of_ok hc hs
        exact (Passes.keeps hrest hp hu').2 (hnot hstart)
      · obtain ⟨thrown, x, hx⟩ := hg.refuses depth w
        rw [hx] at ha
        cases ha
    · exact ih hrest hm ((runHook_keeps r hhead head.1 trigger).of_ok hu hs).1 hp

theorem update_keeps (hg : h.Guards r fields) (hr : r.HasOrdinaryNames)
    (hs : (scope depth r).KeepsBut fields (Scene.Guarded h r)) :
    (update r (scope depth r) field v).Keeps (Scene.Guarded h r) := by
  refine .intro (fun s report t hok hplain => ?_) (fun s thrown t herror hplain => ?_)
  · obtain ⟨-, ha, -, hd⟩ := update_eq_ok_iff.mp hok
    obtain ⟨hooks, hh, hp⟩ := passes_of_dispatchUpdate hd
    obtain ⟨spec, hspec, rfl⟩ := Registry.hooksFor_eq_ok_iff.mp hh
    have hne := hr.ne_base ha.declared
    have hk : ∀ p ∈ (spec.hooks.filter (·.hasTrigger .postUpdate)).map (field, ·),
        p.2.Keeps (scope depth r) (Scene.Guarded h r) := by
      rintro _ hin
      obtain ⟨g, hgm, rfl⟩ := List.mem_map.mp hin
      exact hg.hook_keeps hs (List.mem_of_find?_eq_some hspec) (List.mem_filter.mp hgm).1
    have hwritten : (s.written field v).entity.values.IsPlain := hplain.write hne v
    have hpasses := Passes.keeps hk hp
    by_cases hf : field ∈ fields
    · obtain ⟨spec', hspec', hm⟩ := hg.watches field hf
      rw [hspec] at hspec'
      cases hspec'
      have hin : h ∈ spec.hooks.filter (·.hasTrigger .postUpdate) := List.mem_filter.mpr ⟨hm, hg.updating⟩
      exact ⟨(hpasses hwritten).1, fun _ =>
        hg.not_holdsOn_of_passes hk (List.mem_map_of_mem (f := (field, ·)) hin) hwritten hp⟩
    · exact IsTrans.trans _ _ _ (hg.written hf hne) hpasses hplain
  · rcases update_of_error herror with ⟨m, hm, rfl⟩ | ⟨cause, u, m, -, -, -, -, rfl, -⟩
    · exact ⟨hplain, fun hn => hn⟩
    · simp only [Scene.restored, hplain.copied_eq]
      exact ⟨hplain, fun hn => hn⟩

/-- To whatever depth hooks may write entities anew, only assignments of guarded fields can make the condition
hold. -/
theorem scope_keeps (hg : h.Guards r fields) (hr : r.HasOrdinaryNames) :
    ∀ depth, (scope depth r).KeepsBut fields (Scene.Guarded h r)
  | 0 => ⟨get_keeps r, fun _ source hf => hg.assign_keeps hr hf source, pushOntoCopy_keeps r, fun _ _ => keeps_fail _⟩
  | depth + 1 => ⟨get_keeps r, fun _ source hf => hg.assign_keeps hr hf source, pushOntoCopy_keeps r, fun _ _ =>
      scope_set_keeps (fun _ _ he _ hs => by rw [he]; exact ⟨hs, fun hn => hn⟩) (scope_grows depth)
        (hg.update_keeps hr (hg.scope_keeps hr depth))⟩

end Steps

theorem not_holdsOn_of_construct (hg : h.Guards r fields) (hr : r.HasOrdinaryNames) {depth : Nat} {init : Value}
    {s t : Scene Values} (hc : construct r depth init s = .ok () t) (hs : s.entity.values.IsPlain) :
    ¬ h.HoldsOn r t.entity.values := by
  obtain ⟨u, w, reports, hu, hw, m, rfl, -⟩ := construct_eq_ok hc
  obtain ⟨-, x, hx, ht⟩ := completeConstruction_eq_ok hw
  obtain ⟨stamp, m', n, -, rfl, -⟩ := transition_eq_ok ht
  have hplain : u.entity.values.IsPlain := (populate_keeps (tolerates_grounded hr) init).of_ok hu hs
  obtain ⟨field, hf⟩ := List.exists_mem_of_ne_nil fields hg.nonempty
  obtain ⟨spec, hspec, hm⟩ := hg.watches field hf
  obtain ⟨first, hin⟩ := mem_schedule (List.mem_of_find?_eq_some hspec) hm hg.constructing
    (List.not_mem_nil (a := h.key)) hg.known
  have hk : ∀ p ∈ schedule r.fields [], p.2.Keeps (scope depth r) (Scene.Guarded h r) := by
    intro p hp
    obtain ⟨spec, hspec, hm⟩ := exists_of_mem_schedule hp
    exact hg.hook_keeps (hg.scope_keeps hr depth) hspec hm
  exact (hg.not_holdsOn_of_passes hk hin hplain (passes_of_runConstruction hx) :)

end Hook.Guards

namespace Entity

open Act

variable {r : Registry} {h : Hook} {fields : List String}

section Sealing

theorem evaluate_sealed (r : Registry) (source : Source) : evaluate r.sealed source = evaluate r source := by
  induction source with
  | extended field last ih =>
    unfold evaluate
    rw [ih]
    rfl
  | _ => rfl

theorem pushOntoCopy_sealed (r : Registry) : pushOntoCopy r.sealed = pushOntoCopy r := by
  funext field source
  unfold pushOntoCopy
  rw [evaluate_sealed]
  rfl

theorem runEach_sealed (r : Registry) (scope : Scope Values) (field : String) (t : Trigger) (hooks : List Hook)
    (report : Report) : Lifecycle.runEach r.sealed scope field t hooks report =
      Lifecycle.runEach r scope field t hooks report := by
  induction hooks generalizing report with
  | nil => rfl
  | cons h hooks ih =>
    unfold Lifecycle.runEach
    simp only [ih]
    rfl

theorem update_sealed (r : Registry) (scope : Scope Values) : update r.sealed scope = update r scope := by
  funext field v
  unfold update Lifecycle.dispatchUpdate Lifecycle.runHooks
  simp only [runEach_sealed]
  rfl

theorem scope_sealed (depth : Nat) (r : Registry) : scope depth r.sealed = scope depth r := by
  induction depth with
  | zero =>
    unfold scope
    simp only [evaluate_sealed, pushOntoCopy_sealed]
    rfl
  | succ depth ih =>
    unfold scope
    simp only [evaluate_sealed, pushOntoCopy_sealed, update_sealed, ih]
    rfl

theorem set_sealed (depth : Nat) (r : Registry) : set r.sealed depth = set r depth := by
  unfold set
  rw [scope_sealed, update_sealed]

end Sealing

/-- On an entity whose registry has a guarding hook, the condition of that hook holds neither after construction
nor after any updates. -/
theorem guarded_condition_never_holds (hr : r.HasOrdinaryNames) (hg : h.Guards r fields) {init : Value}
    {m n : Ambient × Option Entity} {e e' : Entity} (hc : createBeside r init m = .ok e n) (hl : Later e e')
    (depth : Nat) (m' : Ambient) (current : Option Entity) (t : Scene Values) :
    h.condition.run (scope depth e'.registry) false ⟨m', e'.state, current⟩ ≠ .ok true t := by
  have he := Reachable.created hc
  obtain ⟨u, hu, rfl, -⟩ := construct_of_createBeside hc
  have hnot : ¬ h.HoldsOn r e'.state.values := by
    refine hl.keeps (P := fun e' => ¬ h.HoldsOn r e'.state.values) (hg.not_holdsOn_of_construct hr hu rfl)
      fun e' depth field v m current hlater ih => ?_
    have hplain := (he.later hlater).isPlain (by rw [hlater.registry_eq]; exact hr)
    rw [hlater.registry_eq, set_sealed]
    exact (hg.update_keeps hr (hg.scope_keeps hr depth) ⟨m, e'.state, current⟩ hplain).2 ih
  intro ht
  rw [hl.registry_eq, scope_sealed] at ht
  exact hnot ⟨depth, _, rfl, t, ht⟩

def keepsBelow : Hook where
  key := 1
  id := "keep-below"
  kind := .generic
  triggers := [.postInit, .postUpdate]
  condition := do
    let v ← Program.read "left"
    let limit ← Program.read "limit"
    Program.suitable (limit.less? v)
  action := .fail (.plain "above the limit")

/-- A number that stays below a limit and is copied into a third field. -/
def bounded : Registry where
  entityName := "Bounded"
  fields := [⟨"left", .mutable, some (.value (.number 0)), [copiesOver, keepsBelow]⟩,
    ⟨"limit", .mutable, some (.value (.number 1)), [keepsBelow]⟩, ⟨"right", .mutable, some (.value .null), []⟩]

theorem copiesOver_assigns {depth : Nat} {may : Bool} {field : String} {source : Source}
    {next : Except Thrown Unit → Program Completion} {s t : Scene Values}
    (h : Program.Leads (scope depth r) may copiesOver.action s (.assign field source next) t) : field = "right" := by
  cases h with
  | get h =>
    generalize ((scope depth r).get "left").outcome s = found at h
    cases found with
    | error thrown => cases h
    | ok v =>
      cases h with
      | here => rfl
      | assign h =>
        generalize (Program.assigning (scope depth r) may "right" (.value v)).outcome _ = answer at h
        cases answer <;> cases h

theorem keepsBelow_holdsIn_iff {depth : Nat} {s : Scene Values} :
    keepsBelow.HoldsIn depth r s ↔ ∃ v limit, read r s.entity.values "left" = .ok v ∧
      read r s.entity.values "limit" = .ok limit ∧ limit.less? v = some true := by
  simp only [Hook.HoldsIn, keepsBelow, Program.run_bind_eq_ok_iff, Program.run_read_eq_ok_iff,
    Program.run_suitable_eq_ok_iff]
  constructor
  · rintro ⟨t, v, _, ⟨hv, rfl⟩, limit, _, ⟨hl, rfl⟩, hless, rfl⟩
    exact ⟨v, limit, hv, hl, hless⟩
  · rintro ⟨v, limit, hv, hl, hless⟩
    exact ⟨s, v, s, ⟨hv, rfl⟩, limit, s, ⟨hl, rfl⟩, hless, rfl⟩

theorem bounded_hooks {spec : FieldSpec} (hs : spec ∈ bounded.fields) {g : Hook} (hg : g ∈ spec.hooks) :
    g = copiesOver ∨ g = keepsBelow := by
  simp only [bounded, List.mem_cons, List.not_mem_nil, or_false] at hs
  rcases hs with rfl | rfl | rfl
  · simpa using hg
  · exact .inr (by simpa using hg)
  · cases hg

theorem keepsBelow_guards : keepsBelow.Guards bounded ["left", "limit"] where
  looks depth depth' s s' hsame h := by
    obtain ⟨v, limit, hv, hl, hless⟩ := keepsBelow_holdsIn_iff.mp h
    refine keepsBelow_holdsIn_iff.mpr ⟨v, limit, ?_, ?_, hless⟩
    · rw [read, hsame "left" (by decide)]
      exact hv
    · rw [read, hsame "limit" (by decide)]
      exact hl
  refuses depth s := ⟨_, s, rfl⟩
  constructing := rfl
  updating := rfl
  nonempty := by decide
  watches := by
    simp only [List.mem_cons, List.not_mem_nil, or_false]
    rintro field (rfl | rfl)
    · exact ⟨_, rfl, List.mem_cons_of_mem _ (List.mem_cons_self ..)⟩
    · exact ⟨_, rfl, List.mem_cons_self ..⟩
  known spec hs g hg hkey := by
    rcases bounded_hooks hs hg with rfl | rfl
    · cases hkey
    · rfl
  spared spec hs g hg hkind depth s field source next t hl := by
    rcases bounded_hooks hs hg with rfl | rfl
    · rw [copiesOver_assigns hl]
      decide
    · cases hkind

theorem bounded_ordinary : bounded.HasOrdinaryNames := by
  unfold Registry.HasOrdinaryNames
  decide

def keepsLimit : Bool :=
  match createBeside bounded (.record []) (stillness, none) with
  | .ok e _ => (latched (.number 1) e).state.values.read "left" = .number 1 &&
      (latched (.number 2) e).state.values.read "left" = .number 0
  | .error _ _ => false

/-- The number is raised as far as its limit lets it, and is never above it. -/
theorem left_stays_below_limit :
    ∃ e n, createBeside bounded (.record []) (stillness, none) = .ok e n ∧
      (latched (.number 1) e).state.values.read "left" = .number 1 ∧
      (latched (.number 2) e).state.values.read "left" = .number 0 ∧ ∀ depth m current t,
        keepsBelow.condition.run (scope depth e.registry) false ⟨m, (latched (.number 2) e).state, current⟩ ≠
          .ok true t := by
  have h : keepsLimit = true := by decide +kernel
  unfold keepsLimit at h
  split at h
  · rename_i e n he
    obtain ⟨hraised, hrefused⟩ := Bool.and_eq_true_iff.mp h
    exact ⟨e, n, he, of_decide_eq_true hraised, of_decide_eq_true hrefused, fun depth m current t =>
      guarded_condition_never_holds bounded_ordinary keepsBelow_guards he (later_latched _ _) depth m current t⟩
  · cases h

end Entity

end GovernedConfig
