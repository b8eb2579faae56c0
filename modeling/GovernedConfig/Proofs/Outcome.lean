import Mathlib.Order.Defs.Unbundled
import GovernedConfig.Act

/-! # Outcomes of operations

When operations answer and with what, and which relations hold between the state before an
operation and the state in which it leaves off, also by throwing.
-/

namespace GovernedConfig.Act

variable {σ τ α β : Type}

section Answers

variable {s t : σ} {a b : α} {thrown : Thrown}

@[simp] theorem pure_eq_ok_iff : (pure a : Act σ α) s = .ok b t ↔ a = b ∧ s = t := by
  change EStateM.Result.ok a s = .ok b t ↔ _
  simp

@[simp] theorem get_eq_ok_iff {u : σ} : (MonadState.get : Act σ σ) s = .ok u t ↔ s = u ∧ s = t := by
  change EStateM.Result.ok s s = .ok u t ↔ _
  simp

@[simp] theorem get_eq (s : σ) : (MonadState.get : Act σ σ) s = .ok s s := rfl

@[simp] theorem pure_eq (a : α) (s : σ) : (pure a : Act σ α) s = .ok a s := rfl

@[simp] theorem modify_eq (f : σ → σ) (s : σ) : (modify f : Act σ PUnit) s = .ok ⟨⟩ (f s) := rfl

@[simp] theorem fail_eq (cause : Fault) (s : σ) : (fail cause : Act σ α) s = .error (.fault cause) s := rfl

@[simp] theorem throw_eq (thrown : Thrown) (s : σ) : (throw thrown : Act σ α) s = .error thrown s := rfl

@[simp] theorem suitable_eq_ok_iff {found : Option α} :
    (suitable found : Act σ α) s = .ok a t ↔ found = some a ∧ s = t := by
  cases found <;> simp [suitable]

@[simp] theorem ofExcept_eq_ok_iff {found : Except Fault α} :
    (ofExcept found : Act σ α) s = .ok a t ↔ found = .ok a ∧ s = t := by
  cases found <;> simp [ofExcept]

theorem bind_apply (act : Act σ α) (next : α → Act σ β) (s : σ) :
    (act >>= next) s = match act s with
      | .ok a t => next a t
      | .error thrown t => .error thrown t := by
  change EStateM.bind act next s = _
  unfold EStateM.bind
  cases act s <;> rfl

theorem bind_of_ok {act : Act σ α} (h : act s = .ok a t) (next : α → Act σ β) :
    (act >>= next) s = next a t := by
  rw [bind_apply, h]

theorem bind_of_error {act : Act σ α} (h : act s = .error thrown t) (next : α → Act σ β) :
    (act >>= next) s = .error thrown t := by
  rw [bind_apply, h]

theorem tryCatch_apply (act : Act σ α) (handle : Thrown → Act σ α) (s : σ) :
    (tryCatch act handle) s = match act s with
      | .ok a t => .ok a t
      | .error thrown t => handle thrown t := by
  change EStateM.tryCatch act handle s = _
  unfold EStateM.tryCatch
  cases act s <;> rfl

theorem tryCatch_eq_ok_iff {act : Act σ α} {handle : Thrown → Act σ α}
    (hn : ∀ thrown u b v, handle thrown u ≠ .ok b v) :
    (tryCatch act handle) s = .ok a t ↔ act s = .ok a t := by
  rw [tryCatch_apply]
  cases act s with
  | ok b u => rfl
  | error thrown u => simp [hn]

theorem tryCatch_eq_error_iff {act : Act σ α} {handle : Thrown → Act σ α} :
    (tryCatch act handle) s = .error thrown t ↔
      ∃ cause u, act s = .error cause u ∧ handle cause u = .error thrown t := by
  rw [tryCatch_apply]
  cases act s <;> simp [and_assoc]

theorem within_eq_ok_iff {part : σ → τ} {put : τ → σ → σ} {act : Act τ α} :
    within part put act s = .ok a t ↔ ∃ u, act (part s) = .ok a u ∧ t = put u s := by
  unfold within
  cases act (part s) with
  | ok b u => simp [and_assoc, eq_comm (a := put u s)]
  | error thrown u => simp

theorem within_eq_error_iff {part : σ → τ} {put : τ → σ → σ} {act : Act τ α} :
    within part put act s = .error thrown t ↔ ∃ u, act (part s) = .error thrown u ∧ t = put u s := by
  unfold within
  cases act (part s) with
  | ok b u => simp
  | error cause u => simp [and_assoc, eq_comm (a := put u s)]

end Answers

/-- The state in which an operation leaves off, whether it answers or throws. -/
def after (act : Act σ α) (s : σ) : σ :=
  match act s with
  | .ok _ t => t
  | .error _ t => t

theorem after_of_ok {act : Act σ α} {s t : σ} {a : α} (h : act s = .ok a t) : act.after s = t := by
  rw [after, h]

theorem after_of_error {act : Act σ α} {s t : σ} {thrown : Thrown} (h : act s = .error thrown t) :
    act.after s = t := by
  rw [after, h]

theorem after_bind_of_ok {act : Act σ α} {s t : σ} {a : α} (h : act s = .ok a t) (next : α → Act σ β) :
    (act >>= next).after s = (next a).after t := by
  rw [after, bind_of_ok h, after]

theorem after_bind_pure (act : Act σ α) (f : α → β) (s : σ) :
    (do pure (f (← act)) : Act σ β).after s = act.after s := by
  unfold after
  rw [bind_apply]
  cases act s <;> rfl

theorem after_tryCatch_of_ok {act : Act σ α} {s t : σ} {a : α} (h : act s = .ok a t) (handle : Thrown → Act σ α) :
    (tryCatch act handle).after s = t := by
  rw [after, tryCatch_apply, h]

theorem after_tryCatch_of_error {act : Act σ α} {s t : σ} {thrown : Thrown} (h : act s = .error thrown t)
    (handle : Thrown → Act σ α) : (tryCatch act handle).after s = (handle thrown).after t := by
  rw [after, tryCatch_apply, h, after]

theorem after_within (part : σ → τ) (put : τ → σ → σ) (act : Act τ α) (s : σ) :
    (within part put act).after s = put (act.after (part s)) s := by
  unfold after within
  cases act (part s) <;> rfl

def Keeps (R : σ → σ → Prop) (act : Act σ α) : Prop := ∀ s, R s (act.after s)

section Still

variable {R : σ → σ → Prop} [Std.Refl R]

theorem keeps_pure (a : α) : (pure a : Act σ α).Keeps R := fun s => Std.Refl.refl s

theorem keeps_throw (thrown : Thrown) : (throw thrown : Act σ α).Keeps R := fun s => Std.Refl.refl s

theorem keeps_fail (cause : Fault) : (fail cause : Act σ α).Keeps R := fun s => Std.Refl.refl s

theorem keeps_get : (MonadState.get : Act σ σ).Keeps R := fun s => Std.Refl.refl s

theorem keeps_suitable (found : Option α) : (suitable found : Act σ α).Keeps R := by
  cases found with
  | none => exact keeps_fail _
  | some a => exact keeps_pure a

theorem keeps_ofExcept (found : Except Fault α) : (ofExcept found : Act σ α).Keeps R := by
  cases found with
  | ok a => exact keeps_pure a
  | error cause => exact keeps_fail cause

end Still

theorem keeps_modify {R : σ → σ → Prop} {f : σ → σ} (h : ∀ s, R s (f s)) :
    (modify f : Act σ PUnit).Keeps R := h

namespace Keeps

variable {R : σ → σ → Prop} {act : Act σ α}

theorem of_ok (h : act.Keeps R) {s t : σ} {a : α} (hs : act s = .ok a t) : R s t :=
  after_of_ok hs ▸ h s

theorem of_error (h : act.Keeps R) {s t : σ} {thrown : Thrown} (hs : act s = .error thrown t) : R s t :=
  after_of_error hs ▸ h s

theorem intro (hok : ∀ s a t, act s = .ok a t → R s t)
    (herror : ∀ s thrown t, act s = .error thrown t → R s t) : act.Keeps R := by
  intro s
  cases h : act s with
  | ok a t => exact after_of_ok h ▸ hok s a t h
  | error thrown t => exact after_of_error h ▸ herror s thrown t h

theorem mono {S : σ → σ → Prop} (h : act.Keeps R) (hRS : ∀ {s t}, R s t → S s t) : act.Keeps S := fun s => hRS (h s)

protected theorem bind [IsTrans σ R] {next : α → Act σ β} (h : act.Keeps R) (hn : ∀ a, (next a).Keeps R) :
    (act >>= next).Keeps R := by
  intro s
  cases ha : act s with
  | ok a t =>
    rw [after_bind_of_ok ha]
    exact IsTrans.trans _ _ _ (h.of_ok ha) (hn a t)
  | error thrown t =>
    rw [after_of_error (bind_of_error ha next)]
    exact h.of_error ha

protected theorem tryCatch [IsTrans σ R] {handle : Thrown → Act σ α} (h : act.Keeps R)
    (hh : ∀ thrown, (handle thrown).Keeps R) : (tryCatch act handle).Keeps R := by
  intro s
  cases ha : act s with
  | ok a t =>
    rw [after_tryCatch_of_ok ha]
    exact h.of_ok ha
  | error thrown t =>
    rw [after_tryCatch_of_error ha]
    exact IsTrans.trans _ _ _ (h.of_error ha) (hh thrown t)

protected theorem within {S : τ → τ → Prop} {part : σ → τ} {put : τ → σ → σ} {act : Act τ α} (h : act.Keeps S)
    (hp : ∀ s u, S (part s) u → R s (put u s)) : (within part put act).Keeps R := by
  refine intro (fun s a t hs => ?_) (fun s thrown t hs => ?_)
  · obtain ⟨u, hu, rfl⟩ := within_eq_ok_iff.mp hs
    exact hp s u (h.of_ok hu)
  · obtain ⟨u, hu, rfl⟩ := within_eq_error_iff.mp hs
    exact hp s u (h.of_error hu)

end Keeps

section Throwing

variable {P : Thrown → Prop}

def Throws (P : Thrown → Prop) (act : Act σ α) : Prop := ∀ s thrown t, act s = .error thrown t → P thrown

theorem throws_pure (a : α) : (pure a : Act σ α).Throws P := fun _ _ _ h => by cases h

theorem throws_get : (MonadState.get : Act σ σ).Throws P := fun _ _ _ h => by cases h

theorem throws_modify (f : σ → σ) : (modify f : Act σ PUnit).Throws P := fun _ _ _ h => by cases h

theorem throws_fail {cause : Fault} (h : P (.fault cause)) : (fail cause : Act σ α).Throws P := by
  intro s thrown t hf
  cases hf
  exact h

theorem throws_suitable (h : P (.fault .badType)) (found : Option α) : (suitable found : Act σ α).Throws P := by
  cases found with
  | some a => exact throws_pure a
  | none => exact throws_fail h

theorem throws_ofExcept {found : Except Fault α} (h : ∀ cause, found = .error cause → P (.fault cause)) :
    (ofExcept found : Act σ α).Throws P := by
  cases found with
  | ok a => exact throws_pure a
  | error cause => exact throws_fail (h cause rfl)

namespace Throws

theorem mono {Q : Thrown → Prop} {act : Act σ α} (h : act.Throws P) (hPQ : ∀ {thrown}, P thrown → Q thrown) :
    act.Throws Q := fun s thrown t he => hPQ (h s thrown t he)

protected theorem bind {act : Act σ α} {next : α → Act σ β} (h : act.Throws P) (hn : ∀ a, (next a).Throws P) :
    (act >>= next).Throws P := by
  intro s thrown t he
  rcases bind_eq_error_iff.mp he with he | ⟨a, u, -, he⟩
  · exact h s thrown t he
  · exact hn a u thrown t he

protected theorem tryCatch {act : Act σ α} {handle : Thrown → Act σ α} (h : ∀ thrown, (handle thrown).Throws P) :
    (tryCatch act handle).Throws P := by
  intro s thrown t he
  obtain ⟨cause, u, -, he⟩ := tryCatch_eq_error_iff.mp he
  exact h cause u thrown t he

protected theorem within {part : σ → τ} {put : τ → σ → σ} {act : Act τ α} (h : act.Throws P) :
    (within part put act).Throws P := by
  intro s thrown t he
  obtain ⟨u, hu, -⟩ := within_eq_error_iff.mp he
  exact h _ thrown u hu

end Throws

end Throwing

end GovernedConfig.Act
