import GovernedConfig.Proofs.Entity.Levels

/-! # Sessions at two levels of the journal

In a session an entity is created and then called any number of times. At two levels of the journal a session is the
same, answer by answer and state by state, unless the levels part at a refused write in its course.
-/

namespace GovernedConfig

open Act

namespace Entity

section Filling

variable {a b : Level} {r : Registry} {init : Value} {spec : FieldSpec} {specs : List FieldSpec} {s t : Scene Values}

/-- The value with which a field is to be filled: what is supplied for it, or else its default. -/
def offered (r : Registry) (init : Value) (spec : FieldSpec) : Act (Scene Values) (Option Value) := do
  let supplied ← Act.suitable (init.member? spec.name)
  if supplied ≠ .undefined then pure (some supplied) else Scene.around (r.resolveDefault spec.name)

def place (r : Registry) (spec : FieldSpec) : Option Value → Act (Scene Values) Unit
  | some v => write r spec.name v .construction
  | none => Act.fail (.missingField r.entityName spec.name)

theorem fill_cons (r : Registry) (init : Value) (spec : FieldSpec) (specs : List FieldSpec) :
    fill r init (spec :: specs) =
      offered r init spec >>= fun found => place r spec found >>= fun _ => fill r init specs := by
  rw [fill, offered, bind_assoc]
  refine bind_congr fun supplied => ?_
  split
  · rfl
  · refine bind_congr fun found => ?_
    cases found <;> rfl

/-- While fields are filled two levels part where what is offered for a field is refused. -/
inductive FillSplits (a b : Level) (r : Registry) (init : Value) : List FieldSpec → Scene Values → Prop
  | refused {spec : FieldSpec} {specs : List FieldSpec} {v : Value} {s t : Scene Values} :
      offered r init spec s = .ok (some v) t →
        r.Parts a b (t.entity.values.read spec.name) spec.name v .construction → FillSplits a b r init (spec :: specs) s
  | later {spec : FieldSpec} {specs : List FieldSpec} {found : Option Value} {s t u : Scene Values} :
      offered r init spec s = .ok found t → place r spec found t = .ok () u → FillSplits a b r init specs u →
        FillSplits a b r init (spec :: specs) s

theorem FillSplits.uneven (h : FillSplits a b r init specs s) : ¬ a.WarnAlike b := by
  induction h with
  | refused _ hparts => exact hparts.uneven
  | later _ _ _ ih => exact ih

theorem offered_even (r : Registry) (init : Value) (spec : FieldSpec) :
    (offered r init spec).Even (Scene.Beside a b) := by
  refine (even_suitable _).bind fun supplied => ?_
  split
  · exact even_pure _
  · exact Scene.around_even (r.resolveDefault_even _)

theorem alike_place (found : Option Value) (h : Scene.Beside a b s t)
    (hp : ∀ v, found = some v → ¬ r.Parts a b (s.entity.values.read spec.name) spec.name v .construction) :
    Alike (Scene.Beside a b) (place r spec found s) (place r spec found t) := by
  cases found with
  | some v => exact alike_write h (hp v rfl)
  | none => exact .error h

theorem alike_fill (h : Scene.Beside a b s t) (hp : ¬ FillSplits a b r init specs s) :
    Alike (Scene.Beside a b) (fill r init specs s) (fill r init specs t) := by
  induction specs generalizing s t with
  | nil => exact .ok h
  | cons spec specs ih =>
    rw [fill_cons]
    refine (offered_even r init spec s t h).bind fun found s' t' hoffered _ h => ?_
    have hplace := alike_place (r := r) found h fun v hv hparts => hp (.refused (hv ▸ hoffered) hparts)
    exact hplace.bind fun _ _ _ hplaced _ h => ih h fun hsplits => hp (.later hoffered hplaced hsplits)

end Filling

end Entity

namespace Lifecycle

variable {a b : Level} {r : Registry} {scope : Scope Values} {apart : Write → Scene Values → Prop}
  {specs : List FieldSpec} {seen : List Nat} {s t : Scene Values}

def due (spec : FieldSpec) (seen : List Nat) : List Hook :=
  spec.hooks.filter fun h => h.hasTrigger .postInit && !seen.contains h.key

/-- In the course of a construction one of its hooks comes to ask for a write. -/
inductive ConstructionAsks (r : Registry) (scope : Scope Values) :
    List FieldSpec → (seen : List Nat) → Scene Values → Write → Scene Values → Prop
  | here {spec : FieldSpec} {specs : List FieldSpec} {seen : List Nat} {s t : Scene Values} {w : Write} :
      Asks r scope spec.name .postInit (due spec seen) s w t → ConstructionAsks r scope (spec :: specs) seen s w t
  | later {spec : FieldSpec} {specs : List FieldSpec} {seen : List Nat} {report : Report} {s t u : Scene Values}
      {w : Write} : runHooks r scope spec.name .postInit (due spec seen) s = .ok report t →
        ConstructionAsks r scope specs (seen ++ (due spec seen).map Hook.key) t w u →
          ConstructionAsks r scope (spec :: specs) seen s w u

theorem alike_runConstruction (hs : scope.Evens a b apart) (hb : Scene.Beside a b s t)
    (hp : ∀ w u, ConstructionAsks r scope specs seen s w u → ¬ apart w u) (reports : List Report) :
    Alike (Scene.Beside a b) (runConstruction r scope specs seen reports s)
      (runConstruction r scope specs seen reports t) := by
  induction specs generalizing s t seen reports with
  | nil => exact .ok hb
  | cons spec specs ih =>
    unfold runConstruction
    dsimp only
    split
    · -- A field without hooks that are due is passed over, and what is asked later is asked in the same scene.
      rename_i hnone
      have hdue : due spec seen = [] := List.isEmpty_iff.mp hnone
      have hrun : runHooks r scope spec.name .postInit (due spec seen) s = .ok ⟨spec.name, .postInit, [], []⟩ s := by
        rw [hdue]
        rfl
      refine ih hb (fun w u hasks => hp w u (.later hrun ?_)) reports
      rwa [hdue, List.map_nil, List.append_nil]
    · refine (alike_runHooks hs hb fun w u hasks => hp w u (.here hasks)).bind fun report s' t' hrun _ h => ?_
      exact ih h (fun w u hasks => hp w u (.later hrun hasks)) _

theorem transition_even (r : Registry) (scope : Scope Values) (target : Phase) :
    (transition r scope target).Even (Scene.Beside a b) := by
  intro s t h
  unfold transition
  rw [bind_of_ok (get_eq s), bind_of_ok (get_eq t), h.entity]
  refine (Scene.around_even Ambient.stamp_even s t h).bind fun stamp s' t' _ _ h => ?_
  refine Even.bind (even_modify fun u v h => ⟨h.ambient, ?_, h.current⟩) (fun _ => names_bind_even r scope fun label =>
    Scene.around_even (Journal.write_even _ _ rfl)) s' t' h
  dsimp only
  rw [h.entity]

theorem alike_completeConstruction (hs : scope.Evens a b apart) (hb : Scene.Beside a b s t)
    (hp : ∀ w u, ConstructionAsks r scope r.fields [] s w u → ¬ apart w u) :
    Alike (Scene.Beside a b) (completeConstruction r scope s) (completeConstruction r scope t) := by
  unfold completeConstruction
  rw [bind_of_ok (get_eq s), bind_of_ok (get_eq t), hb.entity]
  split
  · exact .error hb
  · exact (alike_runConstruction hs hb hp []).bind fun reports s' t' _ _ h =>
      ((transition_even r scope .ready).bind fun _ => even_pure reports) s' t' h

end Lifecycle

namespace Entity

section Constructing

variable {a b : Level} {depth : Nat} {r : Registry} {init : Value} {s t : Scene Values} {m n : Ambient}

theorem alike_populate (hb : Scene.Beside a b s t) (hp : ∀ names, init.ownNames? = some names →
      checkNames r names = .ok () → ¬ FillSplits a b r init r.fields s) :
    Alike (Scene.Beside a b) (populate r init s) (populate r init t) := by
  refine (alike_suitable _ hb).bind fun names s' t' hs' _ h => ?_
  obtain ⟨hnames, rfl⟩ := suitable_eq_ok_iff.mp hs'
  refine (alike_ofExcept _ h).bind fun _ s' t' hs' _ h => ?_
  obtain ⟨hchecked, rfl⟩ := ofExcept_eq_ok_iff.mp hs'
  exact alike_fill h (hp names hnames hchecked)

/-- In the course of a construction two levels part: where the value for a field is refused, or where a hook comes to
ask for a write in the course of which they do. -/
inductive ConstructionSplits (a b : Level) (depth : Nat) (r : Registry) (init : Value) (s : Scene Values) : Prop
  | filled {names : List String} : init.ownNames? = some names → checkNames r names = .ok () →
      FillSplits a b r init r.fields s → ConstructionSplits a b depth r init s
  | asked {t u : Scene Values} {w : Write} : populate r init s = .ok () t →
      Lifecycle.ConstructionAsks r (scope depth r) r.fields [] t w u → Splits a b depth r w u →
        ConstructionSplits a b depth r init s

theorem ConstructionSplits.uneven (h : ConstructionSplits a b depth r init s) : ¬ a.WarnAlike b := by
  cases h with
  | filled _ _ hf => exact hf.uneven
  | asked _ _ hw => exact hw.uneven

theorem alike_construct (hb : Scene.Beside a b s t) (hp : ¬ ConstructionSplits a b depth r init s) :
    Alike (Scene.Beside a b) (construct r depth init s) (construct r depth init t) := by
  have hbody : Alike (Scene.Beside a b)
      ((do populate r init; let _ ← Lifecycle.completeConstruction r (scope depth r) : Act (Scene Values) Unit) s)
      ((do populate r init; let _ ← Lifecycle.completeConstruction r (scope depth r) : Act (Scene Values) Unit) t) := by
    refine (alike_populate hb fun names hn hc hsplits => hp (.filled hn hc hsplits)).bind fun _ s' t' hs' _ h => ?_
    refine (Lifecycle.alike_completeConstruction (scope_evens depth r) h fun w u hasks hsplits =>
      hp (.asked hs' hasks hsplits)).bind fun _ _ _ _ _ h => .ok h
  refine (hbody.tryCatch fun thrown s' t' _ _ h => ?_).bind fun _ s' t' _ _ h => ?_
  · exact ((even_ofExcept _).bind fun cause => Scene.values_bind_even fun vs =>
      (Scene.around_even (Journal.write_even _ _ rfl)).bind fun _ => even_fail _) s' t' h
  · exact Scene.values_bind_even (fun vs => Scene.around_even (Journal.write_even _ _ rfl)) s' t' h

theorem alike_create (hm : m.Beside a b n)
    (hp : ¬ ConstructionSplits a b nesting r init { ambient := m, entity := { values := {} } }) :
    Alike (Ambient.Beside a b) (create r init m) (create r init n) := by
  have hb : Scene.Beside a b { ambient := m, entity := { values := {} } } { ambient := n, entity := { values := {} } } :=
    ⟨hm, rfl, rfl⟩
  have h := alike_construct hb hp
  unfold create within createBeside
  dsimp only
  generalize construct r nesting init { ambient := m, entity := { values := {} } } = result,
    construct r nesting init { ambient := n, entity := { values := {} } } = result' at h
  cases h with
  | ok h =>
    dsimp only
    rw [h.entity]
    exact .ok h.ambient
  | error h => exact .error h.ambient

end Constructing

inductive Call where
  | get (field : String)
  | set (field : String) (v : Value)
  | safeSet (field : String) (v : Value)
  | isWritable (field : String)

inductive Reply where
  | value (v : Value)
  | report (report : Report)
  | outcome (outcome : Except Fault Report)
  | writable (answer : Option Bool)

namespace Call

def act (depth : Nat) (r : Registry) : Call → Act (Scene Values) Reply
  | get field => do pure (.value (← Entity.get r field))
  | set field v => do pure (.report (← Entity.set r depth field v))
  | safeSet field v => do pure (.outcome (← Entity.safeSet r depth field v))
  | isWritable field => do pure (.writable (← Entity.isWritable r field))

def asks : Call → Option Write
  | get _ | isWritable _ => none
  | set field v | safeSet field v => some (.call field v)

variable {a b : Level} {depth : Nat} {r : Registry} {call : Call} {s t : Scene Values}

theorem alike_act (hb : Scene.Beside a b s t) (hp : ∀ w, call.asks = some w → ¬ Splits a b depth r w s) :
    Alike (Scene.Beside a b) (call.act depth r s) (call.act depth r t) := by
  cases call with
  | get field => exact ((get_even r field).bind fun _ => even_pure _) s t hb
  | isWritable field =>
    have hasked : (Entity.isWritable r field).Even (Scene.Beside a b) := Scene.values_bind_even fun _ => even_ofExcept _
    exact (hasked.bind fun _ => even_pure _) s t hb
  | set field v =>
    exact (alike_update (scope_evens depth r) hb (hp _ rfl)).bind fun _ _ _ _ _ h => .ok h
  | safeSet field v =>
    refine Alike.bind (Alike.tryCatch ?_ fun thrown s' t' _ _ h => ?_) fun _ _ _ _ _ h => .ok h
    · exact (alike_update (scope_evens depth r) hb (hp _ rfl)).bind fun _ _ _ _ _ h => .ok h
    · exact ((even_ofExcept _).bind fun _ => even_pure _) s' t' h

end Call

structure Turn where
  clock : Binary64
  call : Call

/-- Until a turn starts time passes, and what refused actions failed with is logged. -/
def Turn.start (turn : Turn) (s : Scene Values) : Scene Values :=
  { s with ambient := { Journal.settle s.ambient with clock := turn.clock } }

/-- Makes calls one after another. They are told by what each answers or throws, and by the state in which it leaves
the entity. -/
def play (depth : Nat) (r : Registry) : List Turn → Scene Values → List (Except Thrown Reply × EntityState Values)
  | [], _ => []
  | turn :: turns, s =>
    let act := turn.call.act depth r
    let t := act.after (turn.start s)
    (act.outcome (turn.start s), t.entity) :: play depth r turns t

/-- Creates an entity and makes calls of it. A session is told by the state of the new entity and by the calls, or by
the failure of the construction. -/
def session (depth : Nat) (r : Registry) (init : Value) (turns : List Turn) (m : Ambient) :
    Except Thrown (EntityState Values × List (Except Thrown Reply × EntityState Values)) :=
  match create r init m with
  | .ok e n => .ok (e.state, play depth e.registry turns ⟨n, e.state, none⟩)
  | .error thrown _ => .error thrown

section Playing

variable {a b : Level} {depth : Nat} {r : Registry} {init : Value} {turns : List Turn} {s t : Scene Values}
  {m n : Ambient}

/-- Of calls that are made one after another, one asks for a write in the course of which the levels part. -/
inductive PlaySplits (a b : Level) (depth : Nat) (r : Registry) : List Turn → Scene Values → Prop
  | here {turn : Turn} {turns : List Turn} {s : Scene Values} {w : Write} : turn.call.asks = some w →
      Splits a b depth r w (turn.start s) → PlaySplits a b depth r (turn :: turns) s
  | later {turn : Turn} {turns : List Turn} {s : Scene Values} :
      PlaySplits a b depth r turns ((turn.call.act depth r).after (turn.start s)) →
        PlaySplits a b depth r (turn :: turns) s

/-- In the course of a session two levels part: while the entity is created, or in the course of a call. -/
inductive SessionSplits (a b : Level) (depth : Nat) (r : Registry) (init : Value) (turns : List Turn) (m : Ambient) :
    Prop
  | created : ConstructionSplits a b nesting r init { ambient := m, entity := { values := {} } } →
      SessionSplits a b depth r init turns m
  | called {e : Entity} {n : Ambient} : create r init m = .ok e n →
      PlaySplits a b depth e.registry turns ⟨n, e.state, none⟩ → SessionSplits a b depth r init turns m

theorem PlaySplits.uneven (h : PlaySplits a b depth r turns s) : ¬ a.WarnAlike b := by
  induction h with
  | here _ hw => exact hw.uneven
  | later _ ih => exact ih

theorem SessionSplits.uneven (h : SessionSplits a b depth r init turns m) : ¬ a.WarnAlike b := by
  cases h with
  | created hc => exact hc.uneven
  | called _ hp => exact hp.uneven

theorem Turn.beside_start (turn : Turn) (hb : Scene.Beside a b s t) (hd : (Calendar.stamp? turn.clock).isSome = true) :
    Scene.Beside a b (turn.start s) (turn.start t) := by
  obtain ⟨⟨old, hn⟩, hl, hlabels, -⟩ := hb.ambient.settle
  refine ⟨⟨⟨old, ?_⟩, hl, hlabels, hd⟩, hb.entity, hb.current⟩
  rw [Turn.start, Turn.start, hn]

theorem play_eq (hb : Scene.Beside a b s t) (hd : ∀ turn ∈ turns, (Calendar.stamp? turn.clock).isSome = true)
    (hp : ¬ PlaySplits a b depth r turns s) : play depth r turns s = play depth r turns t := by
  induction turns generalizing s t with
  | nil => rfl
  | cons turn turns ih =>
    have hstart := turn.beside_start hb (hd turn (List.mem_cons_self ..))
    have hcall := Call.alike_act hstart fun w hw hsplits => hp (.here hw hsplits)
    have hrest := ih hcall.after (fun other ho => hd other (List.mem_cons_of_mem turn ho)) fun hsplits =>
      hp (.later hsplits)
    rw [play, play, hrest, hcall.outcome_eq, hcall.after.entity]

/-- A session does not depend on the level of the journal, unless levels part in its course: where a write is refused
to a field that keeps its value, the warning about it is let through at one of the levels only, and a value that it
tells cannot be printed. So it never depends on it between levels that both let warnings through, or neither; and where
levels part, the check of the write is told differently indeed. -/
theorem session_same_at_levels (a b : Level) (hl : Journal.Accepts .debug (m.atLevel .debug))
    (hm : (Calendar.stamp? m.clock).isSome = true) (hd : ∀ turn ∈ turns, (Calendar.stamp? turn.clock).isSome = true) :
    (¬ SessionSplits a b depth r init turns (m.atLevel a) →
      session depth r init turns (m.atLevel a) = session depth r init turns (m.atLevel b)) ∧
    (a.WarnAlike b →
      session depth r init turns (m.atLevel a) = session depth r init turns (m.atLevel b)) ∧
    ∀ (q : Registry) (current : Value) (field : String) (v : Value) (origin : Origin),
      q.Parts a b current field v origin ↔
        (q.assertWritable (some current) field v origin).outcome (m.atLevel a) ≠
          (q.assertWritable (some current) field v origin).outcome (m.atLevel b) := by
  have hlevels := Ambient.beside_atLevel a b hl hm
  have hsame : ¬ SessionSplits a b depth r init turns (m.atLevel a) →
      session depth r init turns (m.atLevel a) = session depth r init turns (m.atLevel b) := by
    intro hs
    have hcreated := alike_create hlevels fun hsplits => hs (.created hsplits)
    unfold session
    cases ha : create r init (m.atLevel a) <;> cases hb : create r init (m.atLevel b) <;> rw [ha, hb] at hcreated <;>
      cases hcreated
    · rename_i e n k h
      have hbeside : Scene.Beside a b ⟨n, e.state, none⟩ ⟨k, e.state, none⟩ := ⟨h, rfl, rfl⟩
      dsimp only
      rw [play_eq hbeside hd fun hsplits => hs (.called ha hsplits)]
    · rfl
  exact ⟨hsame, fun heven => hsame fun hsplits => hsplits.uneven heven, fun q _ _ _ _ => q.parts_iff hlevels⟩

end Playing

def keepsake : Registry where
  entityName := "Keepsake"
  fields := [⟨"kept", .immutableAfterInit, none, []⟩]

def replacement (v : Value) : List Turn := [⟨stillness.clock, .set "kept" v⟩]

def refusal? : Except Thrown (EntityState Values × List (Except Thrown Reply × EntityState Values)) → Option Fault
  | .ok (_, [(.error (.fault cause), _)]) => some cause
  | _ => none

theorem keepsake_ordinary : keepsake.HasOrdinaryNames := by
  unfold Registry.HasOrdinaryNames
  decide

theorem replacement_dated (v : Value) : ∀ turn ∈ replacement v, (Calendar.stamp? turn.clock).isSome = true := by
  simpa [replacement] using stillness_dated

theorem stillness_labels : Journal.Accepts .debug (stillness.atLevel .debug) := ⟨some .debug, rfl, .inr rfl⟩

/-- A warning that tells a bigint fails where it is let through, so the refusal is not thrown there. -/
theorem bigint_is_refused_otherwise : ¬ ∀ (a b : Level) (depth : Nat) (r : Registry) (init : Value) (turns : List Turn)
    (m : Ambient), r.HasOrdinaryNames → Journal.Accepts .debug (m.atLevel .debug) →
      (Calendar.stamp? m.clock).isSome = true → (∀ turn ∈ turns, (Calendar.stamp? turn.clock).isSome = true) →
        session depth r init turns (m.atLevel a) = session depth r init turns (m.atLevel b) := by
  intro hall
  have hsame := hall .silent .warn 0 keepsake (.record [("kept", .bigint 5)]) (replacement (.number 6)) stillness
    keepsake_ordinary stillness_labels stillness_dated (replacement_dated _)
  have hsilent : refusal? (session 0 keepsake (.record [("kept", .bigint 5)]) (replacement (.number 6))
      (stillness.atLevel .silent)) = some (.immutableField "kept" (.bigint 5) (.number 6)) := by decide +kernel
  have hwarn : refusal? (session 0 keepsake (.record [("kept", .bigint 5)]) (replacement (.number 6))
      (stillness.atLevel .warn)) = some .badType := by decide +kernel
  rw [hsame, hwarn] at hsilent
  cases hsilent

theorem offered_keepsake (x : Binary64) (s : Scene Values) :
    offered keepsake (.record [("kept", .number x)]) ⟨"kept", .immutableAfterInit, none, []⟩ s =
      .ok (some (.number x)) s := rfl

theorem populate_keepsake (x : Binary64) (m : Ambient) :
    populate keepsake (.record [("kept", .number x)]) { ambient := m, entity := { values := {} } } =
      .ok () { ambient := m, entity := { values := ({} : Values).write "kept" (.number x) } } := rfl

section Numbers

variable {a b : Level} {x y : Binary64} {m : Ambient} {s : Scene Values}

theorem keepsake_construction_is_even : ¬ ConstructionSplits a b nesting keepsake (.record [("kept", .number x)])
    { ambient := m, entity := { values := {} } } := by
  rintro (⟨-, -, hfill⟩ | ⟨-, hasks, -⟩)
  · rcases hfill with ⟨ho, hparts⟩ | ⟨-, -, hrest⟩
    · rw [offered_keepsake] at ho
      cases ho
      rcases hparts.unprintable with h | h <;> cases h
    · cases hrest
  · rcases hasks with hasks | ⟨-, hrest⟩
    · cases hasks
    · cases hrest

theorem replacement_is_even (hheld : s.entity.values.read "kept" = .number x) :
    ¬ PlaySplits a b 0 keepsake.sealed (replacement (.number y)) s := by
  rintro (⟨hw, hsplits⟩ | hrest)
  · cases hw
    rcases hsplits with _ | ⟨-, hparts⟩ | ⟨hd, hasks, -⟩
    · have htold : Registry.Parts a b keepsake.sealed (s.entity.values.read "kept") "kept" (.number y) .caller := hparts
      rw [hheld] at htold
      rcases htold.unprintable with h | h <;> cases h
    · have hnone := hd.hooks
      cases hnone
      cases hasks
  · cases hrest

theorem keepsake_of_numbers_is_even :
    ¬ SessionSplits a b 0 keepsake (.record [("kept", .number x)]) (replacement (.number y)) m := by
  rintro (hc | ⟨he, hp⟩)
  · exact keepsake_construction_is_even hc
  · obtain ⟨t, ht, rfl, -⟩ := construct_of_create he
    have hheld : t.entity.values.read "kept" = .number x := by
      rw [values_of_construct ht (populate_keepsake x m) fun p hp => by cases hp]
      exact Values.read_write_self _ (by decide) _
    exact replacement_is_even (s := ⟨_, t.entity, none⟩) hheld hp

end Numbers

/-- Nothing that is told of numbers parts the levels, so both refuse. -/
theorem number_is_refused_alike :
    refusal? (session 0 keepsake (.record [("kept", .number 5)]) (replacement (.number 6)) (stillness.atLevel .silent)) =
        some (.immutableField "kept" (.number 5) (.number 6)) ∧
      session 0 keepsake (.record [("kept", .number 5)]) (replacement (.number 6)) (stillness.atLevel .silent) =
        session 0 keepsake (.record [("kept", .number 5)]) (replacement (.number 6)) (stillness.atLevel .warn) :=
  ⟨by decide +kernel, (session_same_at_levels .silent .warn stillness_labels stillness_dated
    (replacement_dated _)).1 keepsake_of_numbers_is_even⟩

end Entity

end GovernedConfig
