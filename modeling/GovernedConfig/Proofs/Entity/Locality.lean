import Mathlib.Data.Set.Basic
import GovernedConfig.Proofs.Entity.Requests
import GovernedConfig.Proofs.Entity.Rollback

/-! # What updates look at

An update whose hooks get by with some fields looks at no others: from scenes that agree on these it ends alike. So the
order of two updates makes no difference if neither changes what the other looks at.
-/

namespace GovernedConfig

open Act

/-- Surroundings in which entities find the same as in others. -/
structure Ambient.Agrees (m n : Ambient) : Prop where
  clock : n.clock = m.clock
  threshold : n.threshold = m.threshold
  context : n.context = m.context
  shelf : n.shelf = m.shelf
  settings : n.upcoming = m.upcoming

structure Ambient.Kin (k m n : Ambient) : Prop where
  left : k.Agrees m
  right : k.Agrees n

/-- Scenes of entities on plain bases that agree on some fields, in kindred surroundings. -/
structure Scene.Agrees (fields : Set String) (k : Ambient) (s t : Scene Values) : Prop where
  ambient : k.Kin s.ambient t.ambient
  phase : t.entity.phase = s.entity.phase
  plain : s.entity.values.IsPlain ∧ t.entity.values.IsPlain
  read : ∀ field ∈ fields, t.entity.values.read field = s.entity.values.read field

section Surroundings

variable {k m n : Ambient}

theorem Ambient.Agrees.refl (m : Ambient) : m.Agrees m := ⟨rfl, rfl, rfl, rfl, rfl⟩

theorem Ambient.Agrees.know (h : k.Agrees m) {known : Settings} (hk : m.upcoming = .ok known) :
    k.Agrees { m with settings := some known } :=
  ⟨h.clock, h.threshold, h.context, h.shelf, hk.symm.trans h.settings⟩

/-- Nothing looks at what was told, marked or rejected. -/
theorem Ambient.Agrees.told (h : k.Agrees m) (lines marks : List String) (rejections : List (String × Thrown)) :
    k.Agrees { m with lines, marks, rejections } :=
  ⟨h.clock, h.threshold, h.context, h.shelf, h.settings⟩

namespace Ambient.Kin

theorem told (h : k.Kin m n) {lines marks lines' marks' : List String} {rejections rejections' : List (String × Thrown)} :
    k.Kin { m with lines, marks, rejections }
      { n with lines := lines', marks := marks', rejections := rejections' } :=
  ⟨h.left.told _ _ _, h.right.told _ _ _⟩

theorem clock_eq (h : k.Kin m n) : n.clock = m.clock := h.right.clock.trans h.left.clock.symm

theorem threshold_eq (h : k.Kin m n) : n.threshold = m.threshold := h.right.threshold.trans h.left.threshold.symm

theorem context_eq (h : k.Kin m n) : n.context = m.context := h.right.context.trans h.left.context.symm

theorem shelf_eq (h : k.Kin m n) : n.shelf = m.shelf := h.right.shelf.trans h.left.shelf.symm

theorem upcoming_eq (h : k.Kin m n) : n.upcoming = m.upcoming := h.right.settings.trans h.left.settings.symm

end Ambient.Kin

theorem Ambient.readSettings_even : Ambient.readSettings.Even k.Kin := by
  intro m n h
  rw [readSettings_of_upcoming, readSettings_of_upcoming, h.upcoming_eq]
  cases hm : m.upcoming with
  | ok known => exact .ok ⟨h.left.know hm, h.right.know (h.upcoming_eq.trans hm)⟩
  | error cause => exact .error h

theorem Ambient.stamp_even_of_kin : Ambient.stamp.Even k.Kin := by
  intro m n h
  rw [stamp_eq, stamp_eq, h.clock_eq]
  cases Calendar.stamp? m.clock with
  | some stamp => exact .ok h
  | none => exact .error h

theorem Journal.threshold_even : Journal.threshold.Even k.Kin := by
  intro m n h
  unfold threshold
  rw [bind_of_ok (get_eq m), bind_of_ok (get_eq n), h.threshold_eq]
  cases m.threshold.isPresent with
  | true => exact ((even_suitable _).bind fun _ => even_pure _) m n h
  | false => exact (Ambient.readSettings_even.bind fun _ => even_pure _) m n h

theorem Journal.write_even_of_kin (level : Level) (phase message data : Value) :
    (Journal.write level phase message data).Even k.Kin := by
  refine threshold_even.bind fun least => ?_
  split
  · exact even_pure _
  · refine Ambient.stamp_even_of_kin.bind fun stamp m n h => ?_
    rw [bind_of_ok (get_eq m), bind_of_ok (get_eq n), h.context_eq]
    refine ((even_suitable _).bind fun line => even_modify fun m n h => ?_) m n h
    exact h.told

theorem Registry.assertWritable_even (r : Registry) (current : Option Value) (field : String) (attempted : Value)
    (origin : Origin) : (r.assertWritable current field attempted origin).Even k.Kin := by
  unfold assertWritable
  split
  · exact even_fail _
  · refine (even_ofExcept _).bind fun answer => ?_
    split
    · exact even_pure _
    · refine (even_suitable _).bind fun _ => (even_ofExcept _).bind fun mutability => ?_
      split
      · exact (Journal.write_even_of_kin _ _ _ _).bind fun _ => even_fail _
      · exact (Journal.write_even_of_kin _ _ _ _).bind fun _ => even_fail _

end Surroundings

section Scenes

variable {fields : Set String} {k : Ambient} {s t : Scene Values} {α : Type}

theorem Scene.Agrees.refl (hk : k.Agrees s.ambient) (hs : s.entity.values.IsPlain) : Scene.Agrees fields k s s :=
  ⟨⟨hk, hk⟩, rfl, ⟨hs, hs⟩, fun _ _ => rfl⟩

theorem Scene.Agrees.written (h : Scene.Agrees fields k s t) {field : String} (hne : field ≠ "__proto__") (v : Value) :
    Scene.Agrees fields k (s.written field v) (t.written field v) := by
  refine ⟨h.ambient, h.phase, ⟨h.plain.1.write hne v, h.plain.2.write hne v⟩, fun other ho => ?_⟩
  by_cases he : other = field
  · rw [he, Scene.written, Scene.written, Values.read_write_self _ hne, Values.read_write_self _ hne]
  · rw [Scene.written, Scene.written, Values.read_write_of_ne _ hne he, Values.read_write_of_ne _ hne he, h.read other ho]

theorem Scene.around_agrees {act : Act Ambient α} (h : act.Even k.Kin) :
    (Scene.around act).Even (Scene.Agrees fields k) :=
  fun s t hs => (h s.ambient t.ambient hs.ambient).within fun _ _ hm => ⟨hm, hs.phase, hs.plain, hs.read⟩

end Scenes

theorem Values.read_write_comm {field other : String} (hf : field ≠ "__proto__") (ho : other ≠ "__proto__")
    (hne : field ≠ other) (vs : Values) (v w : Value) (x : String) :
    ((vs.write field v).write other w).read x = ((vs.write other w).write field v).read x := by
  by_cases hx : x = field
  · rw [hx, read_write_of_ne _ ho hne, read_write_self _ hf, read_write_self _ hf]
  · rw [read_write_of_ne _ hf hx]
    by_cases hy : x = other
    · rw [hy, read_write_self _ ho, read_write_self _ ho]
    · rw [read_write_of_ne _ ho hy, read_write_of_ne _ ho hy, read_write_of_ne _ hf hx]

namespace Entity

variable {fields : Set String} {k : Ambient} {r : Registry} {field : String} {depth : Nat}

theorem read_congr {vs ws : Values} (h : ws.read field = vs.read field) : read r ws field = read r vs field := by
  unfold read
  rw [h]

theorem label_congr {vs ws : Values} (hid : ∀ id, r.identityField = some id → ws.read id = vs.read id) :
    label r ws = label r vs := by
  unfold label
  cases hi : r.identityField with
  | none => rfl
  | some id =>
    dsimp only
    rw [hid id hi]

section Requests

theorem get_agrees (hf : field ∈ fields) : (get r field).Even (Scene.Agrees fields k) := by
  intro s t h
  unfold get
  rw [bind_of_ok (Scene.values_eq s), bind_of_ok (Scene.values_eq t), read_congr (h.read field hf)]
  exact even_ofExcept _ s t h

theorem evaluate_agrees : ∀ source : Source, (∀ other ∈ source.fields, other ∈ fields) →
    (evaluate r source).Even (Scene.Agrees fields k)
  | .value _, _ => even_pure _
  | .constant spot v, _ => by
    intro s t h
    unfold evaluate
    rw [bind_of_ok (get_eq s), bind_of_ok (get_eq t), h.ambient.shelf_eq]
    exact .ok h
  | .held field, hs => get_agrees (hs field (List.mem_singleton_self field))
  | .extended field last, hs => (get_agrees (hs field List.mem_cons_self)).bind fun _ => (even_suitable _).bind fun _ =>
      (evaluate_agrees last fun other ho => hs other (List.mem_cons_of_mem field ho)).bind fun _ => even_pure _

theorem pushOntoCopy_agrees (hf : field ∈ fields) {source : Source} (hs : ∀ other ∈ source.fields, other ∈ fields) :
    (pushOntoCopy r field source).Even (Scene.Agrees fields k) :=
  (get_agrees hf).bind fun _ => (evaluate_agrees source hs).bind fun _ => (even_suitable _).bind fun _ => even_pure _

theorem store_agrees (hne : field ≠ "__proto__") (v : Value) : (store field v).Even (Scene.Agrees fields k) := by
  unfold store
  split
  · exact even_fail _
  · exact fun s t h => .ok (h.written hne v)

theorem write_agrees (hr : r.HasOrdinaryNames) (hf : field ∈ fields) (v : Value) (origin : Origin) :
    (write r field v origin).Even (Scene.Agrees fields k) := by
  intro s t h
  unfold write
  rw [bind_of_ok (Scene.values_eq s), bind_of_ok (Scene.values_eq t), h.read field hf]
  refine (Scene.around_agrees (r.assertWritable_even _ _ _ _) s t h).bind fun _ s' t' hs _ h => ?_
  obtain ⟨m, hm, -⟩ := Scene.around_eq_ok_iff.mp hs
  obtain ⟨ha, -⟩ := (Registry.assertWritable_eq_ok_iff r).mp hm
  exact store_agrees (hr.ne_base ha.declared) v s' t' h

theorem run_agrees {α : Type} (hr : r.HasOrdinaryNames) {p : Program α} (hp : p.Within fields) (may : Bool) :
    (p.run (scope depth r) may).Even (Scene.Agrees fields k) := by
  rw [show p.run (scope depth r) may = p.run (scope 0 r) may from
    run_scope (hp.mono (Set.subset_univ fields)) depth may]
  induction p with
  | done a => exact even_pure a
  | raise thrown => exact even_throw thrown
  | get field next ih =>
    exact fun s t h => Program.alike_answer (get_agrees hp.1 s t h) fun h => ih _ (hp.2 _) _ _ h
  | assign field source next ih =>
    have hassign : (if may then (scope 0 r).assign field source else Act.fail .badType).Even (Scene.Agrees fields k) := by
      split
      · exact (evaluate_agrees source hp.1.2).bind fun v => write_agrees hr hp.1.1 v .hook
      · exact even_fail _
    exact fun s t h => Program.alike_answer (hassign s t h) fun h => ih _ (hp.2 _) _ _ h
  | push field source next ih =>
    exact fun s t h => Program.alike_answer (pushOntoCopy_agrees hp.1.1 hp.1.2 s t h) fun h => ih _ (hp.2 _) _ _ h
  | set field v next => exact hp.elim
  | seconds next ih =>
    intro s t h
    unfold Program.run
    rw [bind_of_ok (get_eq s), bind_of_ok (get_eq t), Ambient.seconds, Ambient.seconds, h.ambient.clock_eq]
    exact ih _ (hp _) s t h
  | mark text next ih =>
    refine Even.bind (even_modify fun s t h => ?_) fun _ => ih hp
    exact ⟨h.ambient.told, h.phase, h.plain, h.read⟩
  | mayAssign next ih => exact ih may (hp may)

end Requests

end Entity

namespace Lifecycle

variable {fields : Set String} {k : Ambient} {r : Registry} {field : String} {trigger : Trigger} {depth : Nat}
  {hooks : List Hook}

theorem names_agrees (hid : ∀ id, r.identityField = some id → id ∈ fields) :
    (names r (Entity.scope depth r)).Even (Scene.Agrees fields k) := by
  intro s t h
  rw [names_eq, names_eq, Entity.label_scope, show (Entity.scope 0 r).label = Entity.label r from rfl,
    Entity.label_congr fun id hi => h.read id (hid id hi)]
  exact .ok h

theorem invoke_agrees (hr : r.HasOrdinaryNames) {h : Hook} (hh : h.Within fields) :
    (invoke (Entity.scope depth r) h).Even (Scene.Agrees fields k) := by
  refine (Entity.run_agrees hr hh.action _).bind fun completion => ?_
  cases completion with
  | finished => exact even_pure _
  | deferred failure =>
    cases failure with
    | none => exact even_fail _
    | some thrown =>
      refine Even.bind (even_modify fun s t h => ?_) fun _ => even_fail _
      exact ⟨h.ambient.told, h.phase, h.plain, h.read⟩

theorem runHook_agrees (hr : r.HasOrdinaryNames) (hid : ∀ id, r.identityField = some id → id ∈ fields) {h : Hook}
    (hh : h.Within fields) : (runHook r (Entity.scope depth r) field trigger h).Even (Scene.Agrees fields k) := by
  refine (Entity.run_agrees hr hh.condition _).bind fun holds => ?_
  split
  · refine Even.bind ((invoke_agrees hr hh).tryCatch fun thrown => ?_) fun _ => even_pure _
    exact (names_agrees hid).bind fun _ =>
      (Scene.around_agrees (Journal.write_even_of_kin _ _ _ _)).bind fun _ => even_throw _
  · exact even_pure _

theorem runEach_agrees (hr : r.HasOrdinaryNames) (hid : ∀ id, r.identityField = some id → id ∈ fields)
    (hh : ∀ h ∈ hooks, h.Within fields) (report : Report) :
    (runEach r (Entity.scope depth r) field trigger hooks report).Even (Scene.Agrees fields k) := by
  induction hooks generalizing report with
  | nil => exact even_pure _
  | cons h hooks ih =>
    exact (runHook_agrees hr hid (hh h List.mem_cons_self)).bind fun _ =>
      ih (fun other ho => hh other (List.mem_cons_of_mem h ho)) _

theorem runHooks_agrees (hr : r.HasOrdinaryNames) (hid : ∀ id, r.identityField = some id → id ∈ fields)
    (hh : ∀ h ∈ hooks, h.Within fields) :
    (runHooks r (Entity.scope depth r) field trigger hooks).Even (Scene.Agrees fields k) := by
  refine (runEach_agrees hr hid hh _).bind fun report => ?_
  split
  · exact (names_agrees hid).bind fun _ =>
      (Scene.around_agrees (Journal.write_even_of_kin _ _ _ _)).bind fun _ => even_pure _
  · exact even_pure _

theorem requireReady_agrees : (requireReady (ν := Values)).Even (Scene.Agrees fields k) := by
  intro s t h
  unfold requireReady
  rw [bind_of_ok (get_eq s), bind_of_ok (get_eq t), h.phase]
  cases s.entity.phase.acceptsUpdates with
  | true => exact .ok h
  | false => exact .error h

theorem dispatchUpdate_agrees (hr : r.HasOrdinaryNames) (hid : ∀ id, r.identityField = some id → id ∈ fields)
    (hh : r.hooksFor field .postUpdate = .ok hooks) (hw : ∀ h ∈ hooks, h.Within fields) :
    (dispatchUpdate r (Entity.scope depth r) field).Even (Scene.Agrees fields k) := by
  refine requireReady_agrees.bind fun _ => ?_
  rw [hh]
  exact (runHooks_agrees hr hid hw :)

end Lifecycle

namespace Registry

/-- A field takes no writes of a caller, whatever it holds. -/
def Bars (r : Registry) (field : String) : Prop := r.isDeclared field = false ∨ r.mutability field = .ok .derived

variable {r : Registry} {field : String}

theorem Bars.not_allows (h : r.Bars field) (current : Value) : ¬ r.Allows current field .caller := by
  rintro ⟨hd, ht⟩
  rcases h with h | h
  · rw [hd] at h
    cases h
  · rw [canWrite, h] at ht
    cases ht

theorem Bars.assertWritable_eq (h : r.Bars field) (current other v : Value) :
    r.assertWritable (some current) field v .caller = r.assertWritable (some other) field v .caller := by
  unfold assertWritable
  rcases h with h | h
  · rw [h]
    rfl
  · rw [canWrite, canWrite, h]
    rfl

end Registry

namespace Entity

variable {fields : Set String} {k : Ambient} {r : Registry} {field : String} {depth : Nat}

/-- An update looks at the written field, at the one that names the entity and at those of its hooks. -/
theorem update_agrees (hr : r.HasOrdinaryNames) (hid : ∀ id, r.identityField = some id → id ∈ fields)
    (hf : field ∈ fields) {hooks : List Hook} (hh : r.hooksFor field .postUpdate = .ok hooks)
    (hw : ∀ h ∈ hooks, h.Within fields) (v : Value) :
    (update r (scope depth r) field v).Even (Scene.Agrees fields k) := by
  refine Lifecycle.requireReady_agrees.bind fun _ s t h => ?_
  rw [bind_of_ok (Scene.values_eq s), bind_of_ok (Scene.values_eq t), h.read field hf]
  refine (Scene.around_agrees (r.assertWritable_even _ _ _ _) s t h).bind fun _ s' t' hs _ h' => ?_
  obtain ⟨m, hm, -⟩ := Scene.around_eq_ok_iff.mp hs
  obtain ⟨ha, -⟩ := (Registry.assertWritable_eq_ok_iff r).mp hm
  refine (store_agrees (hr.ne_base ha.declared) v s' t' h').bind fun _ s' t' _ _ h' => ?_
  refine (Lifecycle.dispatchUpdate_agrees hr hid hh hw s' t' h').tryCatch fun thrown s' t' _ _ h' => ?_
  -- Where the dispatch throws, both entities get back the values from which the updates started.
  have hback : Scene.Agrees fields k (s'.restored s.entity.values.copied) (t'.restored t.entity.values.copied) := by
    refine ⟨h'.ambient, h'.phase, ⟨s.entity.values.isPlain_copied, t.entity.values.isPlain_copied⟩, fun other ho => ?_⟩
    rw [Scene.restored, Scene.restored, h.plain.1.copied_eq, h.plain.2.copied_eq, h.read other ho]
  have hlabel : label r t.entity.values.copied = label r s.entity.values.copied :=
    label_congr fun id hi => hback.read id (hid id hi)
  rw [bind_of_ok (Scene.putValues_eq _ s'), bind_of_ok (Scene.putValues_eq _ t'), hlabel]
  exact ((Scene.around_agrees (Journal.write_even_of_kin _ _ _ _)).bind fun _ => even_throw _) _ _ hback

theorem update_agrees_of_bars (hb : r.Bars field) (v : Value) :
    (update r (scope depth r) field v).Even (Scene.Agrees fields k) := by
  refine Lifecycle.requireReady_agrees.bind fun _ s t h => ?_
  rw [bind_of_ok (Scene.values_eq s), bind_of_ok (Scene.values_eq t),
    hb.assertWritable_eq (t.entity.values.read field) (s.entity.values.read field)]
  refine (Scene.around_agrees (r.assertWritable_even _ _ _ _) s t h).bind fun _ s' t' hs _ h' => ?_
  obtain ⟨m, hm, -⟩ := Scene.around_eq_ok_iff.mp hs
  exact (hb.not_allows _ ((Registry.assertWritable_eq_ok_iff r).mp hm).1).elim

theorem safeSet_agrees {v : Value} (h : (update r (scope depth r) field v).Even (Scene.Agrees fields k)) :
    (safeSet r depth field v).Even (Scene.Agrees fields k) :=
  Even.tryCatch (Even.bind h fun _ => even_pure _) fun _ => (even_ofExcept _).bind fun _ => even_pure _

end Entity

/-- An operation on the entity of a scene looks at some fields and changes only some of these, wherever the values have
a property, which it keeps. -/
structure Scene.Confined (P : Values → Prop) (looks touches : Set String) {α : Type} (act : Act (Scene Values) α) :
    Prop where
  even : ∀ k, act.Even (Scene.Agrees looks k)
  calm : act.Keeps Scene.Calm
  keeps : ∀ s, P s.entity.values → P (act.after s).entity.values
  untouched : ∀ s, P s.entity.values → ∀ field ∉ touches,
    (act.after s).entity.values.read field = s.entity.values.read field
  subset : touches ⊆ looks

namespace Scene.Confined

variable {P : Values → Prop} {looks touches others changed : Set String} {α β : Type} {act : Act (Scene Values) α}
  {other : Act (Scene Values) β} {s : Scene Values}

/-- An operation leaves behind what agrees with what it found on all that it does not change. -/
theorem agrees (h : Confined P looks touches act) (hP : ∀ vs, P vs → vs.IsPlain) (hs : P s.entity.values)
    (hd : ∀ field ∈ touches, field ∉ others) : Scene.Agrees others s.ambient s (act.after s) := by
  have hself : Scene.Agrees looks s.ambient s s := .refl (.refl s.ambient) (hP _ hs)
  refine ⟨⟨.refl s.ambient, (h.even s.ambient s s hself).after.ambient.right⟩, (h.calm s).1,
    ⟨hP _ hs, hP _ (h.keeps s hs)⟩, fun field hf => ?_⟩
  exact h.untouched s hs field fun ht => hd field ht hf

/-- What an operation comes to does not depend on whether another was made before that changes nothing it looks at. -/
theorem outcome_after (h : Confined P looks touches act) (g : Confined P others changed other)
    (hP : ∀ vs, P vs → vs.IsPlain) (hs : P s.entity.values) (hd : ∀ field ∈ changed, field ∉ looks) :
    act.outcome (other.after s) = act.outcome s :=
  (h.even s.ambient s (other.after s) (g.agrees hP hs hd)).outcome_eq.symm

/-- Of two operations that are not in each other's way, each makes its changes whichever is made first. -/
theorem read_comm (h : Confined P looks touches act) (g : Confined P others changed other)
    (hP : ∀ vs, P vs → vs.IsPlain) (hs : P s.entity.values) (hd : ∀ field ∈ touches, field ∉ others)
    (hc : ∀ field ∈ changed, field ∉ looks) (field : String) :
    (other.after (act.after s)).entity.values.read field = (act.after (other.after s)).entity.values.read field := by
  have hact := (h.even s.ambient s (other.after s) (g.agrees hP hs hc)).after
  have hother := (g.even s.ambient s (act.after s) (h.agrees hP hs hd)).after
  by_cases ht : field ∈ touches
  · -- The first operation changes it, so the second does not.
    have hn : field ∉ changed := fun hm => hc field hm (h.subset ht)
    rw [g.untouched _ (h.keeps s hs) field hn, hact.read field (h.subset ht)]
  · rw [h.untouched _ (g.keeps s hs) field ht]
    by_cases hm : field ∈ changed
    · exact hother.read field (g.subset hm)
    · rw [g.untouched _ (h.keeps s hs) field hm, g.untouched s hs field hm, h.untouched s hs field ht]

/-- What the order makes no difference to in the values, it makes no difference to in the entity: in phase and history
both operations leave it as it was. -/
theorem entity_comm (h : Confined P looks touches act) (g : Confined P others changed other)
    (hv : (other.after (act.after s)).entity.values = (act.after (other.after s)).entity.values) :
    (other.after (act.after s)).entity = (act.after (other.after s)).entity := by
  obtain ⟨hp, hh⟩ : Scene.Calm s (other.after (act.after s)) := IsTrans.trans _ _ _ (h.calm s) (g.calm _)
  obtain ⟨hp', hh'⟩ : Scene.Calm s (act.after (other.after s)) := IsTrans.trans _ _ _ (g.calm s) (h.calm _)
  generalize (other.after (act.after s)).entity = left, (act.after (other.after s)).entity = right at *
  obtain ⟨values, phase, history⟩ := left
  obtain ⟨values', phase', history'⟩ := right
  obtain rfl : values = values' := hv
  obtain rfl : phase = phase' := hp.trans hp'.symm
  obtain rfl : history = history' := hh.trans hh'.symm
  rfl

end Scene.Confined

end GovernedConfig
