import GovernedConfig.Proofs.Alike
import GovernedConfig.Proofs.Entity.Course
import GovernedConfig.Proofs.Entity.Effects

/-! # Two levels of the journal

The same is done at two levels of the journal, side by side. How it ends depends on the level only where a refused
write is told to the journal at one level and not at the other, and its values cannot be printed: there the two
levels part.
-/

namespace GovernedConfig

open Act

/-- Surroundings that differ in the level of the journal and in what was written there; the labels of entries can be
printed, and the clock has a date. -/
structure Ambient.Beside (a b : Level) (m n : Ambient) : Prop where
  same : ∃ lines, n = { m with threshold := .text b.name, lines }
  level : m.threshold = .text a.name
  labels : Json.holdsBigint (Journal.entry "" .debug m.context .null .null .null) = false
  dated : (Calendar.stamp? m.clock).isSome = true

structure Scene.Beside (a b : Level) (s t : Scene Values) : Prop where
  ambient : s.ambient.Beside a b t.ambient
  entity : t.entity = s.entity
  current : t.current = s.current

/-- Two levels both let warnings through, or both hold them back. -/
def Level.WarnAlike (a b : Level) : Prop := Level.warn.rank < a.rank ↔ Level.warn.rank < b.rank

def Ambient.atLevel (m : Ambient) (level : Level) : Ambient := { m with threshold := .text level.name }

section Surroundings

variable {a b : Level} {m n : Ambient}

namespace Journal

theorem threshold_of_level (h : m.threshold = .text a.name) : threshold m = .ok (some a) m := by
  rw [threshold_eq, h]
  exact congrArg (fun found => EStateM.Result.ok found m) (Level.ofName?_name a)

/-- At a chosen level an entry is held back, or it is written if its data can be printed. -/
theorem write_at_level (level : Level) (h : m.threshold = .text a.name)
    (hl : Json.holdsBigint (entry "" .debug m.context .null .null .null) = false)
    (hd : (Calendar.stamp? m.clock).isSome = true) (phase message : String) (data : Value) :
    ∃ line, write level (.text phase) (.text message) data m =
      if level.rank < a.rank then .ok () m
      else if Json.holdsBigint data = true then .error (.fault .badType) m
      else .ok () { m with lines := m.lines ++ [line] } := by
  obtain ⟨line, -, hw⟩ := write_of_labels (threshold_of_level h) hl hd level phase message data
  exact ⟨line, by simpa using hw⟩

end Journal

theorem Ambient.beside_atLevel (a b : Level) (hl : Journal.Accepts .debug (m.atLevel .debug))
    (hd : (Calendar.stamp? m.clock).isSome = true) : (m.atLevel a).Beside a b (m.atLevel b) := by
  refine ⟨⟨m.lines, rfl⟩, rfl, ?_, hd⟩
  obtain ⟨least, hleast, hheld | hlabels⟩ := hl
  · rw [Journal.threshold_of_level rfl] at hleast
    cases hleast
    cases hheld
  · exact hlabels

namespace Ambient.Beside

theorem clock_eq (h : m.Beside a b n) : n.clock = m.clock := by
  obtain ⟨old, rfl⟩ := h.same
  rfl

theorem context_eq (h : m.Beside a b n) : n.context = m.context := by
  obtain ⟨old, rfl⟩ := h.same
  rfl

theorem level_right (h : m.Beside a b n) : n.threshold = .text b.name := by
  obtain ⟨old, rfl⟩ := h.same
  rfl

theorem lines (h : m.Beside a b n) (before after : List String) :
    Ambient.Beside a b { m with lines := before } { n with lines := after } := by
  obtain ⟨⟨old, rfl⟩, hl, hlabels, hd⟩ := h
  exact ⟨⟨after, rfl⟩, hl, hlabels, hd⟩

theorem map (h : m.Beside a b n) {f : Ambient → Ambient}
    (hf : ∀ threshold lines, f { m with threshold, lines } = { f m with threshold, lines })
    (ht : (f m).threshold = m.threshold) (hc : (f m).context = m.context) (hd : (f m).clock = m.clock) :
    (f m).Beside a b (f n) := by
  obtain ⟨old, rfl⟩ := h.same
  exact ⟨⟨old, hf _ old⟩, ht.trans h.level, hc ▸ h.labels, hd ▸ h.dated⟩

/-- What can be printed is told to the journal without any consequence; so is anything else that both levels let
through, or neither. -/
theorem write (h : m.Beside a b n) {level : Level} (phase message : String) {data : Value}
    (hd : Json.holdsBigint data = false ∨ (level.rank < a.rank ↔ level.rank < b.rank)) :
    Alike (Ambient.Beside a b) (Journal.write level (.text phase) (.text message) data m)
      (Journal.write level (.text phase) (.text message) data n) := by
  obtain ⟨line, hm⟩ := Journal.write_at_level level h.level h.labels h.dated phase message data
  obtain ⟨other, hn⟩ := Journal.write_at_level level h.level_right (h.context_eq ▸ h.labels)
    (h.clock_eq ▸ h.dated) phase message data
  rw [hm, hn]
  cases hdata : Json.holdsBigint data with
  | false =>
    simp only [Bool.false_eq_true, if_false]
    split <;> split
    · exact .ok h
    · exact .ok (h.lines m.lines _)
    · exact .ok (h.lines _ n.lines)
    · exact .ok (h.lines _ _)
  | true =>
    rcases hd with hd | hd
    · rw [hdata] at hd
      cases hd
    · by_cases ha : level.rank < a.rank
      · rw [if_pos ha, if_pos (hd.mp ha)]
        exact .ok h
      · rw [if_neg ha, if_neg fun hb => ha (hd.mpr hb), if_pos rfl, if_pos rfl]
        exact .error h

/-- Where a failure follows that is the failure of the journal itself, it makes no difference what is let through. -/
theorem write_fail {α : Type} (h : m.Beside a b n) {level : Level} (phase message : String) (data : Value) :
    Alike (Ambient.Beside a b)
      ((Journal.write level (.text phase) (.text message) data >>= fun _ => (fail .badType : Act Ambient α)) m)
      ((Journal.write level (.text phase) (.text message) data >>= fun _ => (fail .badType : Act Ambient α)) n) := by
  have hfails : ∀ {k : Ambient} {c : Level} {line : String}, Journal.write level (.text phase) (.text message) data k =
      (if level.rank < c.rank then .ok () k else if Json.holdsBigint data = true then .error (.fault .badType) k
        else .ok () { k with lines := k.lines ++ [line] }) →
      ∃ lines, (Journal.write level (.text phase) (.text message) data >>= fun _ => (fail .badType : Act Ambient α)) k =
        .error (.fault .badType) { k with lines } := by
    intro k c line hw
    split_ifs at hw
    · exact ⟨k.lines, bind_of_ok hw _⟩
    · exact ⟨k.lines, bind_of_error hw _⟩
    · exact ⟨_, bind_of_ok hw _⟩
  obtain ⟨line, hm⟩ := Journal.write_at_level level h.level h.labels h.dated phase message data
  obtain ⟨other, hn⟩ := Journal.write_at_level level h.level_right (h.context_eq ▸ h.labels)
    (h.clock_eq ▸ h.dated) phase message data
  obtain ⟨before, hm⟩ := hfails hm
  obtain ⟨after, hn⟩ := hfails hn
  rw [hm, hn]
  exact .error (h.lines before after)

end Ambient.Beside

theorem Journal.write_even {level : Level} (phase message : String) {data : Value}
    (hd : Json.holdsBigint data = false) :
    (Journal.write level (.text phase) (.text message) data).Even (Ambient.Beside a b) :=
  fun _ _ h => h.write phase message (.inl hd)

theorem Ambient.Beside.settle (h : m.Beside a b n) : (Journal.settle m).Beside a b (Journal.settle n) := by
  have hr : n.rejections = m.rejections := by
    obtain ⟨old, rfl⟩ := h.same
    rfl
  have hcleared := h.map (f := fun m => { m with rejections := [] }) (fun _ _ => rfl) rfl rfl rfl
  unfold Journal.settle
  rw [hr]
  refine List.foldl_rel (r := Ambient.Beside a b) hcleared fun (hook, thrown) _ m n h => ?_
  have hlogged : (Journal.error "async_hook_rejected" "Asynchronous hook settled with an error after being refused"
      [("hookId", .text hook), ("error", .text thrown.summary)]).Even (Ambient.Beside a b) :=
    Journal.write_even _ _ rfl
  have hends := hlogged m n h
  dsimp only
  generalize Journal.error _ _ _ m = result, Journal.error _ _ _ n = result' at hends ⊢
  cases hends <;> assumption

theorem Ambient.stamp_even : Ambient.stamp.Even (Ambient.Beside a b) := by
  intro m n h
  obtain ⟨stamp, hs⟩ := Option.isSome_iff_exists.mp h.dated
  rw [stamp_eq, stamp_eq, h.clock_eq, hs]
  exact .ok h

theorem Ambient.draw_even (key : Nat) : (Ambient.draw key).Even (Ambient.Beside a b) := by
  intro m n h
  obtain ⟨old, rfl⟩ := h.same
  exact .ok (h.map (f := fun m => { m with draws := _ }) (fun _ _ => rfl) rfl rfl rfl)

theorem Default.resolve_even : ∀ d : Default, d.resolve.Even (Ambient.Beside a b)
  | value _ => even_pure _
  | copyOf _ => even_pure _
  | seconds => by
    intro m n h
    obtain ⟨old, rfl⟩ := h.same
    exact .ok h
  | counter key => (Ambient.draw_even key).bind fun _ => even_pure _

theorem Registry.resolveDefault_even (r : Registry) (field : String) :
    (r.resolveDefault field).Even (Ambient.Beside a b) := by
  unfold resolveDefault
  split
  · rename_i d _
    exact d.resolve_even.bind fun _ => even_pure _
  · unfold undeclaredDefault
    split
    · exact even_fail _
    · split_ifs <;> first | exact even_pure _ | exact even_fail _

end Surroundings

section Scenes

variable {a b : Level} {s t : Scene Values} {α β : Type}

theorem Scene.Beside.entity_eq (h : Scene.Beside a b s t) (entity : EntityState Values) :
    Scene.Beside a b { s with entity } { t with entity } := ⟨h.ambient, rfl, h.current⟩

theorem Scene.alike_around {act act' : Act Ambient α} (h : Scene.Beside a b s t)
    (ha : Alike (Ambient.Beside a b) (act s.ambient) (act' t.ambient)) :
    Alike (Scene.Beside a b) (Scene.around act s) (Scene.around act' t) :=
  ha.within fun _ _ hm => ⟨hm, h.entity, h.current⟩

theorem Scene.around_even {act : Act Ambient α} (h : act.Even (Ambient.Beside a b)) :
    (Scene.around act).Even (Scene.Beside a b) := fun s t hs => Scene.alike_around hs (h s.ambient t.ambient hs.ambient)

theorem Scene.alike_visit {act act' : Act (Scene Values) α} (h : Scene.Beside a b s t) (e : Entity)
    (ha : Alike (Scene.Beside a b) (act { ambient := s.ambient, entity := e.state })
      (act' { ambient := t.ambient, entity := e.state })) :
    Alike (Scene.Beside a b) (Scene.visit e act s) (Scene.visit e act' t) := by
  refine Alike.within ha fun u u' hu => ⟨hu.ambient, h.entity, ?_⟩
  dsimp only
  rw [hu.entity]

theorem Scene.values_bind_even {next : Values → Act (Scene Values) β} (hn : ∀ vs, (next vs).Even (Scene.Beside a b)) :
    (Scene.values >>= next).Even (Scene.Beside a b) := by
  intro s t h
  rw [bind_of_ok (Scene.values_eq s), bind_of_ok (Scene.values_eq t), h.entity]
  exact hn _ s t h

theorem Scene.putValues_even (vs : Values) : (Scene.putValues vs).Even (Scene.Beside a b) := by
  intro s t h
  rw [Scene.putValues_eq, Scene.putValues_eq, h.entity]
  exact .ok (h.entity_eq _)

end Scenes

section Writes

variable {a b : Level} {m n : Ambient} {s t : Scene Values} {r : Registry} {field : String} {v current : Value}
  {origin : Origin}

/-- A refused write at which two levels part: the warning is let through at one of them only, and it tells values
that cannot be printed, though the refusal describes them. -/
structure Registry.Parts (a b : Level) (r : Registry) (current : Value) (field : String) (attempted : Value)
    (origin : Origin) : Prop where
  uneven : ¬ a.WarnAlike b
  declared : r.isDeclared field = true
  refused : ∃ answer, r.canWrite (some current) field origin = .ok answer ∧ answer ≠ some true
  told : r.mutability field ≠ .ok .derived
  unprintable : Json.holdsBigint current = true ∨ Json.holdsBigint attempted = true
  described : Fault.refusedWrite field current attempted ≠ .badType

theorem Registry.holdsBigint_refusal : Json.holdsBigint (.record [("entity", .text r.entityName),
    ("field", .text field), ("current", current), ("attempted", v)]) =
      (Json.holdsBigint current || Json.holdsBigint v) := by
  simp [Json.holdsBigint, Json.entriesHoldBigint]

theorem Registry.alike_assertWritable (h : m.Beside a b n) (hp : ¬ r.Parts a b current field v origin) :
    Alike (Ambient.Beside a b) (r.assertWritable (some current) field v origin m)
      (r.assertWritable (some current) field v origin n) := by
  unfold assertWritable
  cases hd : r.isDeclared field with
  | false => exact .error h
  | true =>
    refine (alike_ofExcept _ h).bind fun answer m' n' hm _ h => ?_
    obtain ⟨hanswer, -⟩ := ofExcept_eq_ok_iff.mp hm
    split
    · exact .ok h
    · rename_i hrefused
      refine (alike_suitable _ h).bind fun known m' n' hm _ h => ?_
      obtain ⟨hk, -⟩ := suitable_eq_ok_iff.mp hm
      cases hk
      refine (alike_ofExcept _ h).bind fun mutability m' n' hm _ h => ?_
      obtain ⟨hmutability, -⟩ := ofExcept_eq_ok_iff.mp hm
      split
      · exact (h.write _ _ (.inl rfl)).bind fun _ _ _ _ _ h => .error h
      · rename_i hderived
        by_cases hdescribed : Fault.refusedWrite field current v = .badType
        · -- A refusal that cannot be described fails as the warning does.
          rw [hdescribed]
          exact h.write_fail _ _ _
        refine (h.write _ _ ?_).bind fun _ _ _ _ _ h => .error h
        by_cases hu : a.WarnAlike b
        · exact .inr hu
        · refine .inl ?_
          rw [← Bool.not_eq_true]
          intro hdata
          refine hp ⟨hu, hd, ⟨answer, hanswer, hrefused⟩, fun he => hderived ?_, ?_, hdescribed⟩
          · rw [hmutability] at he
            exact Except.ok.inj he
          · simpa [holdsBigint_refusal] using hdata

theorem Registry.mutability_of_canWrite {held : Option Value} {answer : Option Bool}
    (h : r.canWrite held field origin = .ok answer) : ∃ mutability, r.mutability field = .ok mutability := by
  cases hmutability : r.mutability field with
  | ok mutability => exact ⟨mutability, rfl⟩
  | error cause => simp [canWrite, hmutability, bind, Except.bind] at h

theorem Registry.assertWritable_of_refused {answer : Option Bool} (hd : r.isDeclared field = true)
    (ha : r.canWrite (some current) field origin = .ok answer) (hn : answer ≠ some true)
    (ht : r.mutability field ≠ .ok .derived) : r.assertWritable (some current) field v origin m =
      (Journal.warn "immutable_field_violation" "Rejected write to immutable field" [("entity", .text r.entityName),
        ("field", .text field), ("current", current), ("attempted", v)] >>= fun _ =>
          Act.fail (.refusedWrite field current v)) m := by
  obtain ⟨mutability, hmutability⟩ := mutability_of_canWrite ha
  have hderived : mutability ≠ .derived := fun he => ht (he ▸ hmutability)
  unfold assertWritable
  simp only [hd, Bool.not_true, Bool.false_eq_true, if_false]
  rw [bind_of_ok (ofExcept_eq_ok_iff.mpr ⟨ha, rfl⟩), if_neg hn, bind_of_ok (suitable_eq_ok_iff.mpr ⟨rfl, rfl⟩),
    bind_of_ok (ofExcept_eq_ok_iff.mpr ⟨hmutability, rfl⟩), if_neg hderived]

theorem Registry.assertWritable_of_derived {answer : Option Bool} (hd : r.isDeclared field = true)
    (ha : r.canWrite (some current) field origin = .ok answer) (hn : answer ≠ some true)
    (ht : r.mutability field = .ok .derived) : r.assertWritable (some current) field v origin m =
      (Journal.warn "derived_field_violation" "Rejected direct write to hook-owned field"
        [("entity", .text r.entityName), ("field", .text field)] >>= fun _ => Act.fail (.derivedField field)) m := by
  unfold assertWritable
  simp only [hd, Bool.not_true, Bool.false_eq_true, if_false]
  rw [bind_of_ok (ofExcept_eq_ok_iff.mpr ⟨ha, rfl⟩), if_neg hn, bind_of_ok (suitable_eq_ok_iff.mpr ⟨rfl, rfl⟩),
    bind_of_ok (ofExcept_eq_ok_iff.mpr ⟨ht, rfl⟩), if_pos rfl]

/-- If the values of the refused write cannot be printed, what it throws is up to the level: the failure of the warning
where that is let through, or else the refusal. -/
theorem Registry.outcome_of_unprintable {answer : Option Bool} (hm : m.threshold = .text a.name)
    (hl : Json.holdsBigint (Journal.entry "" .debug m.context .null .null .null) = false)
    (hc : (Calendar.stamp? m.clock).isSome = true) (hd : r.isDeclared field = true)
    (ha : r.canWrite (some current) field origin = .ok answer) (hn : answer ≠ some true)
    (ht : r.mutability field ≠ .ok .derived) (hu : Json.holdsBigint current = true ∨ Json.holdsBigint v = true) :
    (r.assertWritable (some current) field v origin).outcome m = .error (.fault
      (if Level.warn.rank < a.rank then Fault.refusedWrite field current v else .badType)) := by
  obtain ⟨line, hwrite⟩ := Journal.write_at_level .warn hm hl hc "immutable_field_violation"
    "Rejected write to immutable field" (.record [("entity", .text r.entityName), ("field", .text field),
      ("current", current), ("attempted", v)])
  have hdata : Json.holdsBigint (.record [("entity", .text r.entityName), ("field", .text field),
      ("current", current), ("attempted", v)]) = true := by
    simpa [holdsBigint_refusal] using hu
  rw [hdata, if_pos rfl] at hwrite
  have hasked := assertWritable_of_refused (m := m) (v := v) hd ha hn ht
  split_ifs at hwrite ⊢ with hheld
  · exact outcome_of_error (hasked.trans (bind_of_ok hwrite _))
  · exact outcome_of_error (hasked.trans (bind_of_error hwrite _))

/-- A write is told differently at two levels just where they part. -/
theorem Registry.parts_iff (h : m.Beside a b n) : r.Parts a b current field v origin ↔
    (r.assertWritable (some current) field v origin).outcome m ≠
      (r.assertWritable (some current) field v origin).outcome n := by
  constructor
  · rintro ⟨huneven, hd, ⟨answer, ha, hrefused⟩, ht, hu, hdescribed⟩
    rw [outcome_of_unprintable h.level h.labels h.dated hd ha hrefused ht hu,
      outcome_of_unprintable h.level_right (h.context_eq ▸ h.labels) (h.clock_eq ▸ h.dated) hd ha hrefused ht hu]
    by_cases hleft : Level.warn.rank < a.rank <;> by_cases hright : Level.warn.rank < b.rank
    · exact absurd (iff_of_true hleft hright) huneven
    · rw [if_pos hleft, if_neg hright]
      simpa using hdescribed
    · rw [if_neg hleft, if_pos hright]
      simpa using hdescribed.symm
    · exact absurd (iff_of_false hleft hright) huneven
  · intro hne
    exact Classical.byContradiction fun hparts => hne (alike_assertWritable h hparts).outcome_eq

namespace Entity

theorem store_even (field : String) (v : Value) : (store field v).Even (Scene.Beside a b) := by
  unfold store
  split
  · exact even_fail _
  · exact Scene.values_bind_even fun vs => Scene.putValues_even _

theorem alike_write (h : Scene.Beside a b s t) (hp : ¬ r.Parts a b (s.entity.values.read field) field v origin) :
    Alike (Scene.Beside a b) (write r field v origin s) (write r field v origin t) := by
  unfold write
  rw [bind_of_ok (Scene.values_eq s), bind_of_ok (Scene.values_eq t), h.entity]
  exact (Scene.alike_around h (Registry.alike_assertWritable h.ambient hp)).bind fun _ s' t' _ _ h =>
    store_even field v s' t' h

theorem get_even (r : Registry) (field : String) : (get r field).Even (Scene.Beside a b) :=
  Scene.values_bind_even fun _ => even_ofExcept _

theorem evaluate_even (r : Registry) : ∀ source : Source, (evaluate r source).Even (Scene.Beside a b)
  | .value _ => even_pure _
  | .constant spot v => by
    intro s t h
    obtain ⟨old, hn⟩ := h.ambient.same
    have hshelf : t.ambient.shelf = s.ambient.shelf := by rw [hn]
    change Alike _ (EStateM.Result.ok (s.ambient.shelf.constant spot v) s)
      (EStateM.Result.ok (t.ambient.shelf.constant spot v) t)
    rw [hshelf]
    exact .ok h
  | .held field => get_even r field
  | .extended field last => (get_even r field).bind fun _ => (even_suitable _).bind fun _ =>
      (evaluate_even r last).bind fun _ => even_pure _

theorem pushOntoCopy_even (r : Registry) (field : String) (source : Source) :
    (pushOntoCopy r field source).Even (Scene.Beside a b) :=
  (get_even r field).bind fun _ => (evaluate_even r source).bind fun _ => (even_suitable _).bind fun _ => even_pure _

end Entity

end Writes

inductive Write where
  /-- A hook assigns what a source names. -/
  | assign (field : String) (source : Source)
  /-- A hook writes an entity anew. -/
  | anew (field : String) (v : Value)
  /-- A caller updates an entity. -/
  | call (field : String) (v : Value)

/-- Requests in a scope end alike, unless they are writes that are set apart. -/
structure Scope.Evens (a b : Level) (scope : Scope Values) (apart : Write → Scene Values → Prop) : Prop where
  get : ∀ field, (scope.get field).Even (Scene.Beside a b)
  push : ∀ field source, (scope.push field source).Even (Scene.Beside a b)
  assign : ∀ field source s t, Scene.Beside a b s t → ¬ apart (.assign field source) s →
    Alike (Scene.Beside a b) (scope.assign field source s) (scope.assign field source t)
  set : ∀ field v s t, Scene.Beside a b s t → ¬ apart (.anew field v) s →
    Alike (Scene.Beside a b) (scope.set field v s) (scope.set field v t)

section Programs

variable {a b : Level} {scope : Scope Values} {apart : Write → Scene Values → Prop} {s t : Scene Values} {α : Type}

def Program.asks (may : Bool) : Program α → Option Write
  | .assign field source _ => if may then some (.assign field source) else none
  | .set field v _ => some (.anew field v)
  | _ => none

theorem Program.alike_run (hs : scope.Evens a b apart) {may : Bool} {p : Program α} (h : Scene.Beside a b s t)
    (hp : ∀ q u w, Leads scope may p s q u → q.asks may = some w → ¬ apart w u) :
    Alike (Scene.Beside a b) (p.run scope may s) (p.run scope may t) := by
  -- A request that ends alike hands the same outcome to the rest of the program, in scenes that are beside each other.
  induction p generalizing s t with
  | done a => exact .ok h
  | raise thrown => exact .error h
  | get field next ih =>
    exact alike_answer (hs.get field s t h) fun h' => ih _ h' fun q u w hl => hp q u w (.get hl)
  | assign field source next ih =>
    have hrequest : Alike (Scene.Beside a b) (assigning scope may field source s)
        (assigning scope may field source t) := by
      cases may with
      | true => exact hs.assign field source s t h (hp _ s _ .here rfl)
      | false => exact .error h
    exact alike_answer hrequest fun h' => ih _ h' fun q u w hl => hp q u w (.assign hl)
  | push field source next ih =>
    exact alike_answer (hs.push field source s t h) fun h' => ih _ h' fun q u w hl => hp q u w (.push hl)
  | set field v next ih =>
    have hrequest := hs.set field v s t h (hp _ s _ .here rfl)
    exact alike_answer hrequest fun h' => ih _ h' fun q u w hl => hp q u w (.set hl)
  | seconds next ih =>
    change Alike _ ((next s.ambient.seconds).run scope may s) ((next t.ambient.seconds).run scope may t)
    rw [Ambient.seconds, Ambient.seconds, h.ambient.clock_eq]
    exact ih _ h fun q u w hl => hp q u w (.seconds hl)
  | mark text next ih =>
    have hmarked : Scene.Beside a b { s with ambient := s.ambient.mark text } { t with ambient := t.ambient.mark text } :=
      ⟨h.ambient.map (f := Ambient.mark text) (fun _ _ => rfl) rfl rfl rfl, h.entity, h.current⟩
    exact ih hmarked fun q u w hl => hp q u w (.mark hl)
  | mayAssign next ih => exact ih _ h fun q u w hl => hp q u w (.mayAssign hl)

end Programs

namespace Lifecycle

variable {a b : Level} {r : Registry} {scope : Scope Values} {apart : Write → Scene Values → Prop} {field : String}
  {trigger : Trigger} {s t : Scene Values}

/-- Of hooks that run one after the other, one comes to ask for a write: in its condition or in its action, and
those before it have passed. -/
inductive Asks (r : Registry) (scope : Scope Values) (field : String) (trigger : Trigger) :
    List Hook → Scene Values → Write → Scene Values → Prop
  | condition {h : Hook} {hooks : List Hook} {q : Program Bool} {s t : Scene Values} {w : Write} :
      Program.Leads scope false h.condition s q t → q.asks false = some w →
        Asks r scope field trigger (h :: hooks) s w t
  | action {h : Hook} {hooks : List Hook} {q : Program Completion} {s t u : Scene Values} {w : Write} :
      h.condition.run scope false s = .ok true t → Program.Leads scope (h.kind == .update) h.action t q u →
        q.asks (h.kind == .update) = some w → Asks r scope field trigger (h :: hooks) s w u
  | later {h : Hook} {hooks : List Hook} {acted : Bool} {s t u : Scene Values} {w : Write} :
      runHook r scope field trigger h s = .ok acted t → Asks r scope field trigger hooks t w u →
        Asks r scope field trigger (h :: hooks) s w u

theorem names_bind_even {β : Type} (r : Registry) (scope : Scope Values) {next : Record Value → Act (Scene Values) β}
    (hn : ∀ label, (next [("entity", .text r.entityName), ("instance", .text label)]).Even (Scene.Beside a b)) :
    (names r scope >>= next).Even (Scene.Beside a b) := by
  intro s t h
  rw [bind_of_ok (names_eq r scope s), bind_of_ok (names_eq r scope t), h.entity]
  exact hn _ s t h

theorem alike_invoke {h : Hook}
    (ha : Alike (Scene.Beside a b) (h.action.run scope (h.kind == .update) s)
      (h.action.run scope (h.kind == .update) t)) :
    Alike (Scene.Beside a b) (invoke scope h s) (invoke scope h t) := by
  refine ha.bind fun completion s' t' _ _ h' => ?_
  cases completion with
  | finished => exact .ok h'
  | deferred failure =>
    cases failure with
    | none => exact .error h'
    | some thrown =>
      have hm := h'.ambient.map (f := fun m => { m with rejections := m.rejections ++ [(h.id, thrown)] })
        (fun _ _ => rfl) rfl rfl rfl
      exact .error ⟨hm, h'.entity, h'.current⟩

theorem alike_runHook (hs : scope.Evens a b apart) {h : Hook} {hooks : List Hook} (hb : Scene.Beside a b s t)
    (hp : ∀ w u, Asks r scope field trigger (h :: hooks) s w u → ¬ apart w u) :
    Alike (Scene.Beside a b) (runHook r scope field trigger h s) (runHook r scope field trigger h t) := by
  unfold runHook
  refine (Program.alike_run hs hb fun q u w hl hq => hp w u (.condition hl hq)).bind fun holds s' t' hcond _ h' => ?_
  split
  · rename_i hholds
    subst hholds
    have haction := Program.alike_run hs h' fun q u w hl hq => hp w u (.action hcond hl hq)
    refine Alike.bind ((alike_invoke haction).tryCatch fun thrown s' t' _ _ h' => ?_) fun _ _ _ _ _ h' => .ok h'
    exact names_bind_even r scope (fun label => (Scene.around_even (Journal.write_even _ _ rfl)).bind fun _ =>
      even_throw _) s' t' h'
  · exact .ok h'

theorem alike_runEach (hs : scope.Evens a b apart) {hooks : List Hook} (hb : Scene.Beside a b s t)
    (hp : ∀ w u, Asks r scope field trigger hooks s w u → ¬ apart w u) (report : Report) :
    Alike (Scene.Beside a b) (runEach r scope field trigger hooks report s)
      (runEach r scope field trigger hooks report t) := by
  induction hooks generalizing s t report with
  | nil => exact .ok hb
  | cons hook hooks ih =>
    exact (alike_runHook hs hb hp).bind fun acted s' t' hok _ h' =>
      ih h' (fun w u hw => hp w u (.later hok hw)) _

theorem alike_runHooks (hs : scope.Evens a b apart) {hooks : List Hook} (hb : Scene.Beside a b s t)
    (hp : ∀ w u, Asks r scope field trigger hooks s w u → ¬ apart w u) :
    Alike (Scene.Beside a b) (runHooks r scope field trigger hooks s) (runHooks r scope field trigger hooks t) := by
  refine (alike_runEach hs hb hp _).bind fun report s' t' _ _ h' => ?_
  split
  · refine names_bind_even r scope (fun label => (Scene.around_even (Journal.write_even _ _ ?_)).bind fun _ =>
      even_pure _) s' t' h'
    simp [Json.holdsBigint, Json.entriesHoldBigint, anyBigint_texts]
  · exact .ok h'

theorem requireReady_even : (requireReady (ν := Values)).Even (Scene.Beside a b) := by
  intro s t h
  change Alike _ ((if s.entity.phase.acceptsUpdates then pure () else Act.fail _ : Act (Scene Values) Unit) s)
    ((if t.entity.phase.acceptsUpdates then pure () else Act.fail _ : Act (Scene Values) Unit) t)
  rw [h.entity]
  split
  · exact .ok h
  · exact .error h

theorem alike_dispatchUpdate (hs : scope.Evens a b apart) (hb : Scene.Beside a b s t)
    (hp : ∀ hooks w u, r.hooksFor field .postUpdate = .ok hooks → Asks r scope field .postUpdate hooks s w u →
      ¬ apart w u) :
    Alike (Scene.Beside a b) (dispatchUpdate r scope field s) (dispatchUpdate r scope field t) := by
  refine (requireReady_even s t hb).bind fun _ s' t' hs' _ h' => ?_
  obtain ⟨-, rfl⟩ := requireReady_eq_ok_iff.mp hs'
  refine (alike_ofExcept _ h').bind fun hooks s' t' hs' _ h' => ?_
  obtain ⟨hhooks, rfl⟩ := ofExcept_eq_ok_iff.mp hs'
  exact alike_runHooks hs h' fun w u => hp hooks w u hhooks

end Lifecycle

namespace Entity

variable {a b : Level} {depth : Nat} {r : Registry} {field : String} {v : Value} {s t : Scene Values}

/-- In the course of a write two levels part: where it is refused, or where a hook that it runs comes to ask for a
write in the course of which they do. -/
inductive Splits (a b : Level) : (depth : Nat) → Registry → Write → Scene Values → Prop
  | assigned {depth : Nat} {r : Registry} {field : String} {source : Source} {v : Value} {s t : Scene Values} :
      evaluate r source s = .ok v t → r.Parts a b (t.entity.values.read field) field v .hook →
        Splits a b depth r (.assign field source) s
  | refused {depth : Nat} {r : Registry} {field : String} {v : Value} {s : Scene Values} :
      s.entity.phase.acceptsUpdates = true → r.Parts a b (s.entity.values.read field) field v .caller →
        Splits a b depth r (.call field v) s
  | hook {depth : Nat} {r : Registry} {field : String} {v : Value} {s t : Scene Values} {hooks : List Hook}
      {w : Write} : Dispatches r field v s hooks →
        Lifecycle.Asks r (scope depth r) field .postUpdate hooks (s.written field v) w t → Splits a b depth r w t →
          Splits a b depth r (.call field v) s
  | own {depth : Nat} {r : Registry} {field : String} {v : Value} {s : Scene Values} : s.current = none →
      Splits a b depth r (.call field v) s → Splits a b (depth + 1) r (.anew field v) s
  | other {depth : Nat} {r : Registry} {e : Entity} {field : String} {v : Value} {s : Scene Values} :
      s.current = some e → Splits a b depth e.registry (.call field v) { ambient := s.ambient, entity := e.state } →
        Splits a b (depth + 1) r (.anew field v) s

theorem Splits.uneven {w : Write} (h : Splits a b depth r w s) : ¬ a.WarnAlike b := by
  induction h with
  | assigned _ hparts => exact hparts.uneven
  | refused _ hparts => exact hparts.uneven
  | hook _ _ _ ih => exact ih
  | own _ _ ih => exact ih
  | other _ _ ih => exact ih

theorem alike_update (hs : (scope depth r).Evens a b (Splits a b depth r)) (hb : Scene.Beside a b s t)
    (hp : ¬ Splits a b depth r (.call field v) s) :
    Alike (Scene.Beside a b) (update r (scope depth r) field v s) (update r (scope depth r) field v t) := by
  refine (Lifecycle.requireReady_even s t hb).bind fun _ s' t' hs' _ h => ?_
  obtain ⟨hready, rfl⟩ := Lifecycle.requireReady_eq_ok_iff.mp hs'
  rw [bind_of_ok (Scene.values_eq s), bind_of_ok (Scene.values_eq t'), h.entity]
  have hwrite := Registry.alike_assertWritable h.ambient fun hparts => hp (.refused hready hparts)
  refine (Scene.alike_around h hwrite).bind fun _ s' t' hs' _ h => ?_
  obtain ⟨m, hm, rfl⟩ := Scene.around_eq_ok_iff.mp hs'
  obtain ⟨hallows, rfl⟩ := (Registry.assertWritable_eq_ok_iff r).mp hm
  refine (store_even field v _ _ h).bind fun _ s' t' hs' _ h => ?_
  obtain ⟨hcopyable, rfl⟩ := (store_eq_ok_iff (s := s)).mp hs'
  refine (Lifecycle.alike_dispatchUpdate hs h fun hooks w u hhooks hasks hsplits =>
    hp (.hook ⟨hready, hallows, hcopyable, hhooks⟩ hasks hsplits)).tryCatch fun thrown s' t' _ _ h => ?_
  exact ((Scene.putValues_even _).bind fun _ => (Scene.around_even (Journal.write_even _ _ rfl)).bind fun _ =>
    even_throw _) s' t' h

theorem alike_assign (hb : Scene.Beside a b s t) {source : Source}
    (hp : ¬ Splits a b depth r (.assign field source) s) :
    Alike (Scene.Beside a b) ((do write r field (← evaluate r source) .hook : Act (Scene Values) Unit) s)
      ((do write r field (← evaluate r source) .hook : Act (Scene Values) Unit) t) :=
  (evaluate_even r source s t hb).bind fun _ _ _ hs' _ h =>
    alike_write h fun hparts => hp (.assigned hs' hparts)

/-- Whatever hooks ask for ends alike, unless it is a write in the course of which the levels part. -/
theorem scope_evens (depth : Nat) (r : Registry) : (scope depth r).Evens a b (Splits a b depth r) := by
  -- What a hook writes anew is an update to the next lower depth, of the same entity or of the current one.
  induction depth generalizing r with
  | zero =>
    exact ⟨get_even r, pushOntoCopy_even r, fun _ _ _ _ hb hp => alike_assign hb hp, fun _ _ _ _ hb _ => .error hb⟩
  | succ depth ih =>
    refine ⟨get_even r, pushOntoCopy_even r, fun _ _ _ _ hb hp => alike_assign hb hp, fun field v s t hb hp => ?_⟩
    unfold scope
    dsimp only
    rw [bind_of_ok (get_eq s), bind_of_ok (get_eq t), hb.current, hb.entity]
    cases hc : s.current with
    | some e =>
      exact Scene.alike_visit hb e (alike_update (ih e.registry) ⟨hb.ambient, rfl, rfl⟩ fun hsplits =>
        hp (.other hc hsplits))
    | none =>
      dsimp only
      split
      · exact alike_update (ih r) hb fun hsplits => hp (.own hc hsplits)
      · exact .error hb

end Entity

end GovernedConfig
