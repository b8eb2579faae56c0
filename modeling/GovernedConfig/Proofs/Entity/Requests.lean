import Mathlib.Data.Set.Basic
import GovernedConfig.Proofs.Alike
import GovernedConfig.Proofs.Entity.Programs

/-! # What programs request

A program may get by with requests for some fields, and without writing an entity anew. Such a program does the
same wherever these requests are answered the same, so it does not matter what hooks the registry binds, and to
what depth hooks may write.
-/

namespace GovernedConfig

def Source.fields : Source → List String
  | .value _ => []
  | .constant _ _ => []
  | .held field => [field]
  | .extended field last => field :: last.fields

namespace Program

variable {ν α β : Type}

/-- A program reads, assigns and hands on nothing but some fields, and never writes an entity anew. -/
def Within (fields : Set String) : Program α → Prop
  | done _ => True
  | raise _ => True
  | get field next => field ∈ fields ∧ ∀ answer, (next answer).Within fields
  | assign field source next =>
    (field ∈ fields ∧ ∀ other ∈ source.fields, other ∈ fields) ∧ ∀ answer, (next answer).Within fields
  | push field source next =>
    (field ∈ fields ∧ ∀ other ∈ source.fields, other ∈ fields) ∧ ∀ answer, (next answer).Within fields
  | set _ _ _ => False
  | seconds next => ∀ x, (next x).Within fields
  | mark _ next => next.Within fields
  | mayAssign next => ∀ may, (next may).Within fields

/-- All that a program does goes through its scope: it never writes an entity anew. -/
def ThroughScope (p : Program α) : Prop := p.Within Set.univ

section Requests

variable {fields : Set String} {field : String}

theorem within_pure (a : α) : (pure a : Program α).Within fields := trivial

theorem within_fail (cause : Fault) : (fail cause : Program α).Within fields := trivial

theorem within_orRaise (answer : Except Thrown α) : (orRaise answer).Within fields := by
  cases answer <;> trivial

theorem within_suitable (found : Option α) : (suitable found).Within fields := by
  cases found <;> trivial

theorem within_read (h : field ∈ fields) : (read field).Within fields := ⟨h, fun _ => within_orRaise _⟩

theorem within_write (h : field ∈ fields) (v : Value) : (write field v).Within fields :=
  ⟨⟨h, fun _ ho => absurd ho List.not_mem_nil⟩, fun _ => within_orRaise _⟩

theorem within_now : now.Within fields := fun _ => trivial

theorem Within.mono {others : Set String} {p : Program α} (hp : p.Within fields) (h : fields ⊆ others) :
    p.Within others := by
  induction p with
  | done a => trivial
  | raise thrown => trivial
  | get field next ih => exact ⟨h hp.1, fun answer => ih answer (hp.2 answer)⟩
  | assign field source next ih =>
    exact ⟨⟨h hp.1.1, fun other ho => h (hp.1.2 other ho)⟩, fun answer => ih answer (hp.2 answer)⟩
  | push field source next ih =>
    exact ⟨⟨h hp.1.1, fun other ho => h (hp.1.2 other ho)⟩, fun answer => ih answer (hp.2 answer)⟩
  | set field v next => exact hp.elim
  | seconds next ih => exact fun x => ih x (hp x)
  | mark text next ih => exact ih hp
  | mayAssign next ih => exact fun may => ih may (hp may)

theorem Within.bind {p : Program α} {f : α → Program β} (hp : p.Within fields) (hf : ∀ a, (f a).Within fields) :
    (p >>= f).Within fields := by
  induction p with
  | done a => exact hf a
  | raise thrown => trivial
  | get field next ih => exact ⟨hp.1, fun answer => ih answer (hp.2 answer)⟩
  | assign field source next ih => exact ⟨hp.1, fun answer => ih answer (hp.2 answer)⟩
  | push field source next ih => exact ⟨hp.1, fun answer => ih answer (hp.2 answer)⟩
  | set field v next => exact hp.elim
  | seconds next ih => exact fun x => ih x (hp x)
  | mark text next ih => exact ih hp
  | mayAssign next ih => exact fun may => ih may (hp may)

end Requests

theorem Within.run_congr {fields : Set String} {scope scope' : Scope ν} (may : Bool) {p : Program α}
    (hp : p.Within fields) (hget : ∀ field ∈ fields, scope.get field = scope'.get field)
    (hassign : ∀ field ∈ fields, ∀ source, scope.assign field source = scope'.assign field source)
    (hpush : ∀ field ∈ fields, ∀ source, scope.push field source = scope'.push field source) :
    p.run scope may = p.run scope' may := by
  induction p with
  | done a => rfl
  | raise thrown => rfl
  | get field next ih =>
    simp only [run, hget field hp.1, ih _ (hp.2 _)]
  | assign field source next ih =>
    simp only [run, hassign field hp.1.1 source, ih _ (hp.2 _)]
  | push field source next ih =>
    simp only [run, hpush field hp.1.1 source, ih _ (hp.2 _)]
  | set field v next => exact hp.elim
  | seconds next ih => simp only [run, ih _ (hp _)]
  | mark s next ih => simp only [run, ih hp]
  | mayAssign next ih => exact ih may (hp may)

end Program

structure Hook.Within (h : Hook) (fields : Set String) : Prop where
  condition : h.condition.Within fields
  action : h.action.Within fields

def Hook.ThroughScope (h : Hook) : Prop := h.Within Set.univ

namespace Registry

def rebound (r : Registry) (hooks : FieldSpec → List Hook) : Registry :=
  { r with fields := r.fields.map fun spec => { spec with hooks := hooks spec } }

variable (r : Registry) (hooks : FieldSpec → List Hook)

theorem isDeclared_rebound : (r.rebound hooks).isDeclared = r.isDeclared := by
  funext field
  simp [isDeclared, rebound, Function.comp_def]

theorem find?_rebound (field : String) :
    (r.rebound hooks).find? field = (r.find? field).map fun spec => { spec with hooks := hooks spec } := by
  rw [find?, rebound, List.find?_map]
  rfl

theorem mutability_rebound : (r.rebound hooks).mutability = r.mutability := by
  funext field
  unfold mutability Registry.spec
  rw [find?_rebound]
  cases r.find? field <;> rfl

theorem assertWritable_rebound : (r.rebound hooks).assertWritable = r.assertWritable := by
  funext current field attempted origin
  unfold assertWritable canWrite
  rw [isDeclared_rebound, mutability_rebound]
  rfl

end Registry

namespace Entity

open Act Lifecycle

variable {r : Registry} (others : FieldSpec → List Hook)

theorem get_rebound : get (r.rebound others) = get r := by
  funext field
  unfold get read
  rw [Registry.isDeclared_rebound]
  rfl

theorem write_rebound : write (r.rebound others) = write r := by
  funext field v origin
  unfold write
  rw [Registry.assertWritable_rebound]

theorem evaluate_rebound (source : Source) : evaluate (r.rebound others) source = evaluate r source := by
  induction source with
  | held field =>
    unfold evaluate
    rw [get_rebound]
  | extended field last ih =>
    unfold evaluate
    rw [get_rebound, ih]
  | _ => rfl

theorem scope_zero_rebound : scope 0 (r.rebound others) = scope 0 r := by
  have hpush : pushOntoCopy (r.rebound others) = pushOntoCopy r := by
    funext field source
    unfold pushOntoCopy
    rw [get_rebound, evaluate_rebound]
  unfold scope
  simp only [get_rebound, write_rebound, evaluate_rebound, hpush]
  rfl

/-- To whatever depth a scope lets hooks write, a program that acts through it runs as where nothing can be written
anew. -/
theorem run_scope {α : Type} {p : Program α} (hp : p.ThroughScope) (depth : Nat) (may : Bool) :
    p.run (scope depth r) may = p.run (scope 0 r) may := by
  cases depth with
  | zero => rfl
  | succ depth => exact hp.run_congr may (fun _ _ => rfl) (fun _ _ _ => rfl) fun _ _ _ => rfl

theorem label_scope (depth : Nat) : (scope depth r).label = (scope 0 r).label := by cases depth <;> rfl

variable {hooks : List Hook}

theorem runHook_scope {h : Hook} (hh : h.ThroughScope) (depth : Nat) (field : String) (trigger : Trigger) :
    runHook r (scope depth r) field trigger h = runHook r (scope 0 r) field trigger h := by
  unfold runHook invoke names
  rw [run_scope hh.condition, run_scope hh.action, label_scope]

theorem runEach_scope (hh : ∀ h ∈ hooks, h.ThroughScope) (depth : Nat) (field : String) (trigger : Trigger)
    (report : Report) :
    runEach r (scope depth r) field trigger hooks report = runEach r (scope 0 r) field trigger hooks report := by
  induction hooks generalizing report with
  | nil => rfl
  | cons h hooks ih =>
    unfold runEach
    rw [runHook_scope (hh h List.mem_cons_self)]
    simp only [ih fun h hm => hh h (List.mem_cons_of_mem _ hm)]

theorem runHooks_scope (hh : ∀ h ∈ hooks, h.ThroughScope) (depth : Nat) (field : String) (trigger : Trigger) :
    runHooks r (scope depth r) field trigger hooks = runHooks r (scope 0 r) field trigger hooks := by
  unfold runHooks names
  rw [runEach_scope hh, label_scope]

end Entity

end GovernedConfig
