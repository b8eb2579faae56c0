import GovernedConfig.Proofs.Moments

/-! # Operations side by side

Two operations end alike if both answer the same or both throw the same, and leave off in related states. What
an operation does not depend on shows when it is run beside itself, from states that differ in just that.
-/

namespace GovernedConfig

namespace Act

variable {σ τ σ' τ' α β : Type}

/-- Two operations ended with the same outcome, in related states. -/
inductive Alike (R : σ → τ → Prop) : EStateM.Result Thrown σ α → EStateM.Result Thrown τ α → Prop
  | ok {a : α} {s : σ} {t : τ} : R s t → Alike R (.ok a s) (.ok a t)
  | error {thrown : Thrown} {s : σ} {t : τ} : R s t → Alike R (.error thrown s) (.error thrown t)

theorem outcome_of_error {act : Act σ α} {s t : σ} {thrown : Thrown} (h : act s = .error thrown t) :
    act.outcome s = .error thrown := by rw [outcome, h]

namespace Alike

variable {R : σ → τ → Prop} {S : σ' → τ' → Prop} {act : Act σ α} {act' : Act τ α} {s : σ} {t : τ}

theorem outcome_eq (h : Alike R (act s) (act' t)) : act.outcome s = act'.outcome t := by
  unfold Act.outcome
  generalize act s = r, act' t = r' at h ⊢
  cases h <;> rfl

theorem after (h : Alike R (act s) (act' t)) : R (act.after s) (act'.after t) := by
  unfold Act.after
  generalize act s = r, act' t = r' at h ⊢
  cases h <;> assumption

theorem of_eq {r r' : EStateM.Result Thrown σ α} (h : r = r') : Alike (· = ·) r r' := by
  subst h
  cases r with
  | ok a s => exact .ok rfl
  | error thrown s => exact .error rfl

protected theorem bind {next : α → Act σ β} {next' : α → Act τ β} (h : Alike R (act s) (act' t))
    (hn : ∀ a s' t', act s = .ok a s' → act' t = .ok a t' → R s' t' → Alike R (next a s') (next' a t')) :
    Alike R ((act >>= next) s) ((act' >>= next') t) := by
  rw [bind_apply, bind_apply]
  cases hs : act s <;> cases ht : act' t <;> rw [hs, ht] at h <;> cases h
  · rename_i h
    exact hn _ _ _ hs ht h
  · rename_i h
    exact .error h

protected theorem tryCatch {handle : Thrown → Act σ α} {handle' : Thrown → Act τ α} (h : Alike R (act s) (act' t))
    (hh : ∀ thrown s' t', act s = .error thrown s' → act' t = .error thrown t' → R s' t' →
      Alike R (handle thrown s') (handle' thrown t')) :
    Alike R ((tryCatch act handle) s) ((tryCatch act' handle') t) := by
  rw [tryCatch_apply, tryCatch_apply]
  cases hs : act s <;> cases ht : act' t <;> rw [hs, ht] at h <;> cases h
  · rename_i h
    exact .ok h
  · rename_i h
    exact hh _ _ _ hs ht h

protected theorem within {part : σ' → σ} {part' : τ' → τ} {put : σ → σ' → σ'} {put' : τ → τ' → τ'} {u : σ'} {v : τ'}
    (h : Alike R (act (part u)) (act' (part' v))) (hp : ∀ s t, R s t → S (put s u) (put' t v)) :
    Alike S (within part put act u) (within part' put' act' v) := by
  unfold within
  cases hs : act (part u) <;> cases ht : act' (part' v) <;> rw [hs, ht] at h <;> cases h
  · rename_i h
    exact .ok (hp _ _ h)
  · rename_i h
    exact .error (hp _ _ h)

end Alike

section Steps

variable {R : σ → τ → Prop} {s : σ} {t : τ}

theorem alike_suitable (found : Option α) (h : R s t) : Alike R (suitable found s) (suitable found t) := by
  cases found with
  | some a => exact .ok h
  | none => exact .error h

theorem alike_ofExcept (found : Except Fault α) (h : R s t) : Alike R (ofExcept found s) (ofExcept found t) := by
  cases found with
  | ok a => exact .ok h
  | error cause => exact .error h

end Steps

/-- An operation ends alike from related states. -/
def Even (R : σ → σ → Prop) (act : Act σ α) : Prop := ∀ s t, R s t → Alike R (act s) (act t)

section Even

variable {R : σ → σ → Prop} {act : Act σ α}

theorem even_pure (a : α) : (pure a : Act σ α).Even R := fun _ _ h => .ok h

theorem even_throw (thrown : Thrown) : (throw thrown : Act σ α).Even R := fun _ _ h => .error h

theorem even_fail (cause : Fault) : (fail cause : Act σ α).Even R := fun _ _ h => .error h

theorem even_suitable (found : Option α) : (suitable found : Act σ α).Even R := fun _ _ h => alike_suitable found h

theorem even_ofExcept (found : Except Fault α) : (ofExcept found : Act σ α).Even R :=
  fun _ _ h => alike_ofExcept found h

theorem even_modify {f : σ → σ} (h : ∀ s t, R s t → R (f s) (f t)) : (modify f : Act σ PUnit).Even R :=
  fun s t hr => .ok (h s t hr)

namespace Even

protected theorem bind {next : α → Act σ β} (h : act.Even R) (hn : ∀ a, (next a).Even R) : (act >>= next).Even R :=
  fun s t hr => (h s t hr).bind fun a s' t' _ _ hr' => hn a s' t' hr'

protected theorem tryCatch {handle : Thrown → Act σ α} (h : act.Even R) (hh : ∀ thrown, (handle thrown).Even R) :
    (tryCatch act handle).Even R :=
  fun s t hr => (h s t hr).tryCatch fun thrown s' t' _ _ hr' => hh thrown s' t' hr'

end Even

end Even

end Act

theorem Program.alike_answer {ν α β : Type} {R : Scene ν → Scene ν → Prop} {request : Act (Scene ν) α}
    {next : Except Thrown α → Act (Scene ν) β} {s t : Scene ν} (h : Act.Alike R (request s) (request t))
    (hn : R (request.after s) (request.after t) →
      Act.Alike R (next (request.outcome s) (request.after s)) (next (request.outcome s) (request.after t))) :
    Act.Alike R (answer request next s) (answer request next t) := by
  rw [answer_apply, answer_apply, ← h.outcome_eq]
  exact hn h.after

end GovernedConfig
