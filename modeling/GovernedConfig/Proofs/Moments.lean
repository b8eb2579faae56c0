import GovernedConfig.Proofs.Dispatch

/-! # The moments of a run

A program gets from one request to the next. What its requests keep holds between the start of its run and
any later moment, so it holds of everything that hooks come to see.
-/

namespace GovernedConfig

variable {ν α β : Type}

/-- Every request in a scope keeps a relation, unless it assigns one of some fields. -/
structure Scope.KeepsBut (scope : Scope ν) (fields : List String) (R : Scene ν → Scene ν → Prop) : Prop where
  get : ∀ field, (scope.get field).Keeps R
  assign : ∀ field source, field ∉ fields → (scope.assign field source).Keeps R
  push : ∀ field source, (scope.push field source).Keeps R
  set : ∀ field v, (scope.set field v).Keeps R

def Act.outcome {σ : Type} (act : Act σ α) (s : σ) : Except Thrown α :=
  match act s with
  | .ok a _ => .ok a
  | .error thrown _ => .error thrown

namespace Program

open Act

theorem answer_apply (request : Act (Scene ν) α) (next : Except Thrown α → Act (Scene ν) β) (s : Scene ν) :
    answer request next s = next (request.outcome s) (request.after s) := by
  unfold answer outcome after
  cases request s <;> rfl

theorem after_answer (request : Act (Scene ν) α) (next : Except Thrown α → Act (Scene ν) β) (s : Scene ν) :
    (answer request next).after s = (next (request.outcome s)).after (request.after s) := by
  unfold Act.after
  rw [answer_apply]
  rfl

theorem after_get_bind (f : Scene ν → Act (Scene ν) α) (s : Scene ν) :
    (MonadState.get >>= f).after s = (f s).after s := rfl

theorem after_modify_bind (f : Scene ν → Scene ν) (act : Act (Scene ν) α) (s : Scene ν) :
    (do modify f; act : Act (Scene ν) α).after s = act.after (f s) := rfl

/-- The request of a program that assigns, which fails if it may not. -/
def assigning (scope : Scope ν) (may : Bool) (field : String) (source : Source) : Act (Scene ν) Unit :=
  if may then scope.assign field source else Act.fail .badType

/-- A program that runs from a scene gets to what is left of it in a later scene. -/
inductive Leads (scope : Scope ν) (may : Bool) : Program α → Scene ν → Program α → Scene ν → Prop
  | here {p : Program α} {s : Scene ν} : Leads scope may p s p s
  | get {field : String} {next : Except Thrown Value → Program α} {q : Program α} {s t : Scene ν} :
      Leads scope may (next ((scope.get field).outcome s)) ((scope.get field).after s) q t →
        Leads scope may (.get field next) s q t
  | assign {field : String} {source : Source} {next : Except Thrown Unit → Program α} {q : Program α}
      {s t : Scene ν} :
      Leads scope may (next ((assigning scope may field source).outcome s))
          ((assigning scope may field source).after s) q t →
        Leads scope may (.assign field source next) s q t
  | push {field : String} {source : Source} {next : Except Thrown Unit → Program α} {q : Program α}
      {s t : Scene ν} :
      Leads scope may (next ((scope.push field source).outcome s)) ((scope.push field source).after s) q t →
        Leads scope may (.push field source next) s q t
  | set {field : String} {v : Value} {next : Except Thrown Report → Program α} {q : Program α} {s t : Scene ν} :
      Leads scope may (next ((scope.set field v).outcome s)) ((scope.set field v).after s) q t →
        Leads scope may (.set field v next) s q t
  | seconds {next : Binary64 → Program α} {q : Program α} {s t : Scene ν} :
      Leads scope may (next s.ambient.seconds) s q t → Leads scope may (.seconds next) s q t
  | mark {text : String} {next : Program α} {q : Program α} {s t : Scene ν} :
      Leads scope may next { s with ambient := s.ambient.mark text } q t → Leads scope may (.mark text next) s q t
  | mayAssign {next : Bool → Program α} {q : Program α} {s t : Scene ν} :
      Leads scope may (next may) s q t → Leads scope may (.mayAssign next) s q t

section Keeping

variable {R : Scene ν → Scene ν → Prop} [Scene.Frame R] {scope : Scope ν} {may : Bool}

theorem assigning_keeps {field : String} {source : Source} (h : may = true → (scope.assign field source).Keeps R) :
    (assigning scope may field source).Keeps R := by
  cases may with
  | true => exact h rfl
  | false => exact keeps_fail _

theorem Leads.keeps (hs : scope.Keeps R) {p q : Program α} {s t : Scene ν} (h : Leads scope may p s q t) :
    R s t := by
  induction h with
  | here => exact Std.Refl.refl _
  | get _ ih => exact IsTrans.trans _ _ _ (hs.get _ _) ih
  | @assign field source next q s t _ ih =>
    have hkeep : (assigning scope may field source).Keeps R := assigning_keeps fun _ => hs.assign field source
    exact IsTrans.trans _ _ _ (hkeep s) ih
  | push _ ih => exact IsTrans.trans _ _ _ (hs.push _ _ _) ih
  | set _ ih => exact IsTrans.trans _ _ _ (hs.set _ _ _) ih
  | seconds _ ih => exact ih
  | @mark text next q s t _ ih =>
    have hmark : R s { s with ambient := s.ambient.mark text } :=
      Scene.Frame.around s _ (Ambient.steady_mark text s.ambient)
    exact IsTrans.trans _ _ _ hmark ih
  | mayAssign _ ih => exact ih

theorem run_keeps_of_spares {fields : List String} (hs : scope.KeepsBut fields R) {p : Program α}
    (hp : may = true → ∀ s field source next t,
      Leads scope may p s (.assign field source next) t → field ∉ fields) : (p.run scope may).Keeps R := by
  intro s
  replace hp := fun hm => hp hm s
  induction p generalizing s with
  | done a => exact keeps_pure a s
  | raise thrown => exact keeps_throw thrown s
  | get field next ih =>
    rw [run, after_answer]
    exact IsTrans.trans _ _ _ (hs.get field s) (ih _ _ fun hm f o n t h => hp hm f o n t (.get h))
  | assign field source next ih =>
    rw [run, after_answer]
    have hkeep : (assigning scope may field source).Keeps R :=
      assigning_keeps fun hm => hs.assign field source (hp hm _ _ _ _ .here)
    exact IsTrans.trans _ _ _ (hkeep s) (ih _ _ fun hm f o n t h => hp hm f o n t (.assign h))
  | push field source next ih =>
    rw [run, after_answer]
    exact IsTrans.trans _ _ _ (hs.push field source s) (ih _ _ fun hm f o n t h => hp hm f o n t (.push h))
  | set field v next ih =>
    rw [run, after_answer]
    exact IsTrans.trans _ _ _ (hs.set field v s) (ih _ _ fun hm f o n t h => hp hm f o n t (.set h))
  | seconds next ih =>
    rw [run, after_get_bind]
    exact ih s.ambient.seconds s fun hm f o n t h => hp hm f o n t (.seconds h)
  | mark text next ih =>
    have hmark : R s { s with ambient := s.ambient.mark text } :=
      Scene.Frame.around s _ (Ambient.steady_mark text s.ambient)
    rw [run, after_modify_bind]
    exact IsTrans.trans _ _ _ hmark (ih _ fun hm f o n t h => hp hm f o n t (.mark h))
  | mayAssign next ih => exact ih _ _ fun hm f o n t h => hp hm f o n t (.mayAssign h)

end Keeping

/-- The write that a program is about to make anew, if it is about to make one. -/
def ahead : Program α → Option (String × Value)
  | set field v _ => some (field, v)
  | _ => none

end Program

namespace Lifecycle

variable {r : Registry} {scope : Scope ν} {field : String} {trigger : Trigger}

/-- Hooks that run one after the other come to a scene, about to make a write anew or not: the first of them does
when its condition or its action runs, or a later one does once it has passed. -/
inductive Comes (r : Registry) (scope : Scope ν) (field : String) (trigger : Trigger) :
    List Hook → Scene ν → Option (String × Value) → Scene ν → Prop
  | condition {h : Hook} {hooks : List Hook} {q : Program Bool} {s t : Scene ν} :
      Program.Leads scope false h.condition s q t → Comes r scope field trigger (h :: hooks) s q.ahead t
  | action {h : Hook} {hooks : List Hook} {q : Program Completion} {s t u : Scene ν} :
      h.condition.run scope false s = .ok true t → Program.Leads scope (h.kind == .update) h.action t q u →
        Comes r scope field trigger (h :: hooks) s q.ahead u
  | later {h : Hook} {hooks : List Hook} {acted : Bool} {pending : Option (String × Value)} {s t u : Scene ν} :
      runHook r scope field trigger h s = .ok acted t → Comes r scope field trigger hooks t pending u →
        Comes r scope field trigger (h :: hooks) s pending u

theorem Comes.keeps {R : Scene ν → Scene ν → Prop} [Scene.Frame R] (hs : scope.Keeps R) {hooks : List Hook}
    {pending : Option (String × Value)} {s t : Scene ν} (h : Comes r scope field trigger hooks s pending t) :
    R s t := by
  induction h with
  | condition hl => exact hl.keeps hs
  | action hc hl => exact IsTrans.trans _ _ _ ((Program.run_keeps hs _ _).of_ok hc) (hl.keeps hs)
  | later hh _ ih => exact IsTrans.trans _ _ _ ((runHook_keeps r (hs.hook _) field trigger).of_ok hh) ih

theorem Passes.keeps {R : Scene ν → Scene ν → Prop} [Scene.Frame R] {hooks : List (String × Hook)}
    (hk : ∀ p ∈ hooks, p.2.Keeps scope R) {s t : Scene ν} (h : Passes r scope trigger hooks s t) : R s t := by
  induction hooks generalizing s with
  | nil =>
    obtain ⟨m, hm, rfl⟩ := h
    exact Scene.Frame.around s m hm
  | cons head hooks ih =>
    obtain ⟨m, acted, u, hm, hu, h⟩ := h
    have hhead : R { s with ambient := m } u := (runHook_keeps r (hk head (List.mem_cons_self ..)) _ _).of_ok hu
    have hrest : R u t := ih (fun p hp => hk p (List.mem_cons_of_mem head hp)) h
    exact IsTrans.trans _ _ _ (Scene.Frame.around s m hm) (IsTrans.trans _ _ _ hhead hrest)

end Lifecycle

end GovernedConfig
