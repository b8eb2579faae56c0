import GovernedConfig.Entity.Values
import GovernedConfig.Journal
import GovernedConfig.Registry

/-! # Scenes and scopes

A scene is one entity's state in its surroundings. A scope says how the requests of hook programs
are answered in a scene; running a program in a scope answers its requests one after another. In
what form values are kept is up to the scope.
-/

namespace GovernedConfig

structure Transition where
  origin : Phase
  target : Phase
  stamp : String
  deriving DecidableEq

structure EntityState (ν : Type) where
  values : ν
  phase : Phase := .constructing
  history : List Transition := []
  deriving DecidableEq

/-- An entity between two operations. -/
structure Entity where
  registry : Registry
  state : EntityState Values

structure Scene (ν : Type) where
  ambient : Ambient
  entity : EntityState ν
  /-- The entity that hooks write anew, if it is another one. -/
  current : Option Entity := none

namespace Scene

variable {ν α : Type}

def around (act : Act Ambient α) : Act (Scene ν) α :=
  Act.within Scene.ambient (fun m s => { s with ambient := m }) act

/-- Runs an operation on another entity, which is then the current one. -/
def visit (e : Entity) (act : Act (Scene Values) α) : Act (Scene ν) α :=
  Act.within (fun s => { ambient := s.ambient, entity := e.state })
    (fun t s => { s with ambient := t.ambient, current := some { e with state := t.entity } }) act

def values : Act (Scene ν) ν := do pure (← get).entity.values

def putValues (values : ν) : Act (Scene ν) Unit :=
  modify fun s => { s with entity := { s.entity with values } }

end Scene

structure Scope (ν : Type) where
  /-- Names the entity in the journal. -/
  label : ν → String
  get : String → Act (Scene ν) Value
  assign : String → Source → Act (Scene ν) Unit
  /-- Pushes onto the list that a read answers with. -/
  push : String → Source → Act (Scene ν) Unit
  /-- A write as a caller would make it, from inside a hook. -/
  set : String → Value → Act (Scene ν) Report

namespace Program

variable {ν α : Type}

/-- Runs a request and hands its outcome to the rest of a program. -/
def answer {β : Type} (request : Act (Scene ν) α) (next : Except Thrown α → Act (Scene ν) β) :
    Act (Scene ν) β := fun s =>
  match request s with
  | .ok a s => next (.ok a) s
  | .error thrown s => next (.error thrown) s

/-- Runs a program; one that may not assign fails where it tries. -/
def run (scope : Scope ν) (may : Bool) : Program α → Act (Scene ν) α
  | done a => pure a
  | raise thrown => throw thrown
  | get field next => answer (scope.get field) fun r => (next r).run scope may
  | assign field source next =>
    answer (if may then scope.assign field source else Act.fail .badType) fun r => (next r).run scope may
  | push field source next => answer (scope.push field source) fun r => (next r).run scope may
  | set field v next => answer (scope.set field v) fun r => (next r).run scope may
  | seconds next => do (next (← MonadState.get).ambient.seconds).run scope may
  | mark s next => do
    modify fun scene => { scene with ambient := scene.ambient.mark s }
    next.run scope may
  | mayAssign next => (next may).run scope may

theorem answer_bind {β γ : Type} (request : Act (Scene ν) α) (next : Except Thrown α → Act (Scene ν) β)
    (f : β → Act (Scene ν) γ) : (answer request next >>= f) = answer request fun r => next r >>= f := by
  funext s
  simp only [Bind.bind, EStateM.bind, answer]
  cases request s <;> rfl

theorem run_bind {β : Type} (scope : Scope ν) (may : Bool) (p : Program α) (f : α → Program β) :
    (p.bind f).run scope may = p.run scope may >>= fun a => (f a).run scope may := by
  induction p with
  | done a => rfl
  | raise thrown => rfl
  | get field next ih => simp only [Program.bind, run, answer_bind, ih]
  | assign field source next ih => simp only [Program.bind, run, answer_bind, ih]
  | push field source next ih => simp only [Program.bind, run, answer_bind, ih]
  | set field v next ih => simp only [Program.bind, run, answer_bind, ih]
  | seconds next ih => funext s; simp only [Program.bind, run, ih]; rfl
  | mark s next ih => funext scene; simp only [Program.bind, run, ih]; rfl
  | mayAssign next ih => simp only [Program.bind, run, ih]

end Program

end GovernedConfig
