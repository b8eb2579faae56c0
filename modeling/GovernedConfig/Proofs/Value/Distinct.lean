import Mathlib.Data.List.Basic
import GovernedConfig.Value.Basic

/-! # Lists without repetition

Dropping repetitions leaves no text twice, and a list that keeps its length had none to drop.
-/

namespace GovernedConfig.Value

def NoTextTwice (items : List Value) : Prop := items.Pairwise fun v w => ∀ s, v = text s → w ≠ text s

variable {seen items : List Value}

theorem unsigned_eq_text_iff {v : Value} {s : String} : v.unsigned = text s ↔ v = text s := by
  cases v with
  | number x =>
    simp only [unsigned]
    split <;> simp
  | _ => simp [unsigned]

theorem text_sameKey_self (s : String) : (text s).sameKey (text s) = true := by simp [sameKey, same]

theorem not_mem_distinctFrom {s : String} (h : text s ∈ seen) : text s ∉ distinctFrom seen items := by
  induction items generalizing seen with
  | nil => simp [distinctFrom]
  | cons v items ih =>
    unfold distinctFrom
    split
    · exact ih h
    · rename_i hv
      rw [List.mem_cons, not_or]
      refine ⟨fun he => hv ?_, ih (List.mem_cons_of_mem v h)⟩
      rw [unsigned_eq_text_iff.mp he.symm]
      exact List.any_eq_true.mpr ⟨_, h, text_sameKey_self s⟩

theorem noTextTwice_distinctFrom (seen items : List Value) : NoTextTwice (distinctFrom seen items) := by
  induction items generalizing seen with
  | nil => exact .nil
  | cons v items ih =>
    unfold distinctFrom
    split
    · exact ih seen
    · refine .cons (fun w hw s hs he => ?_) (ih (v :: seen))
      rw [unsigned_eq_text_iff] at hs
      subst hs he
      exact not_mem_distinctFrom (List.mem_cons_self ..) hw

theorem noTextTwice_distinct (items : List Value) : NoTextTwice (distinct items) :=
  noTextTwice_distinctFrom [] items

theorem length_distinctFrom_le (seen items : List Value) : (distinctFrom seen items).length ≤ items.length := by
  induction items generalizing seen with
  | nil => exact Nat.le_refl _
  | cons v items ih =>
    unfold distinctFrom
    split
    · exact Nat.le_succ_of_le (ih seen)
    · exact Nat.succ_le_succ (ih _)

theorem not_sameKey_of_length_distinctFrom (h : (distinctFrom seen items).length = items.length) :
    (∀ v ∈ items, ∀ w ∈ seen, v.sameKey w = false) ∧ items.Pairwise fun v w => w.sameKey v = false := by
  induction items generalizing seen with
  | nil => exact ⟨by simp, .nil⟩
  | cons v items ih =>
    unfold distinctFrom at h
    split at h
    · have := length_distinctFrom_le seen items
      rw [List.length_cons] at h
      omega
    · rename_i hv
      obtain ⟨hseen, hpair⟩ := ih (Nat.succ.inj h)
      refine ⟨fun w hw u hu => ?_, .cons (fun w hw => hseen w hw v (List.mem_cons_self ..)) hpair⟩
      rcases List.mem_cons.mp hw with rfl | hw
      · exact Bool.eq_false_iff.mpr fun hs => hv (List.any_eq_true.mpr ⟨u, hu, hs⟩)
      · exact hseen w hw u (List.mem_cons_of_mem v hu)

theorem length_distinctFrom (hs : ∀ v ∈ items, ∀ w ∈ seen, v.sameKey w = false)
    (hp : items.Pairwise fun v w => w.sameKey v = false) : (distinctFrom seen items).length = items.length := by
  induction items generalizing seen with
  | nil => rfl
  | cons v items ih =>
    have hv : ¬ seen.any v.sameKey = true := by
      rw [Bool.not_eq_true, List.any_eq_false]
      intro w hw
      rw [hs v (List.mem_cons_self ..) w hw]
      decide
    obtain ⟨hhead, htail⟩ := List.pairwise_cons.mp hp
    unfold distinctFrom
    rw [if_neg hv, List.length_cons, List.length_cons, ih (fun w hw u hu => ?_) htail]
    rcases List.mem_cons.mp hu with rfl | hu
    · exact hhead w hw
    · exact hs w (List.mem_cons_of_mem v hw) u hu

theorem length_distinct_of_noTextTwice (ht : ∀ v ∈ items, ∃ s, v = text s) (h : NoTextTwice items) :
    (distinct items).length = items.length := by
  refine length_distinctFrom (by simp) (h.imp_of_mem fun {v w} hv hw hne => ?_)
  obtain ⟨s, rfl⟩ := ht v hv
  obtain ⟨t, rfl⟩ := ht w hw
  simp only [sameKey, same, beq_eq_false_iff_ne]
  rintro rfl
  exact hne t rfl rfl

/-- Among texts, the first occurrences are kept in order; what was seen before counts as an occurrence. -/
theorem distinctFrom_eq_eraseDups (ht : ∀ v ∈ items, ∃ s, v = text s) (seen : List Value) :
    distinctFrom seen items = (items.filter fun v => !seen.any v.sameKey).eraseDups := by
  induction items generalizing seen with
  | nil => rfl
  | cons v items ih =>
    obtain ⟨s, rfl⟩ := ht v (List.mem_cons_self ..)
    have hrest : ∀ w ∈ items, ∃ t, w = text t := fun w hw => ht w (List.mem_cons_of_mem _ hw)
    unfold distinctFrom
    cases hs : seen.any (text s).sameKey with
    | true => rw [if_pos rfl, List.filter_cons_of_neg (by simp [hs]), ih hrest]
    | false =>
      rw [if_neg Bool.false_ne_true, List.filter_cons_of_pos (by simp [hs]), List.eraseDups_cons, List.filter_filter,
        ih hrest]
      refine congrArg₂ _ rfl (congrArg _ (List.filter_congr fun w hw => ?_))
      obtain ⟨t, rfl⟩ := hrest w hw
      have hkey : (text t).sameKey (text s) = (text t == text s) := by simp [sameKey, same]
      rw [List.any_cons, hkey, Bool.not_or]

theorem distinct_eq_eraseDups (ht : ∀ v ∈ items, ∃ s, v = text s) : distinct items = items.eraseDups := by
  refine (distinctFrom_eq_eraseDups ht []).trans (congrArg _ ?_)
  exact List.filter_eq_self.mpr fun _ _ => rfl

theorem eq_distinctFrom_of_length (ht : ∀ v ∈ items, ∃ s, v = text s)
    (h : (distinctFrom seen items).length = items.length) : items = distinctFrom seen items := by
  induction items generalizing seen with
  | nil => rfl
  | cons v items ih =>
    obtain ⟨s, rfl⟩ := ht v (List.mem_cons_self ..)
    unfold distinctFrom at h ⊢
    split at h
    · have := length_distinctFrom_le seen items
      rw [List.length_cons] at h
      omega
    · rename_i hs
      rw [if_neg hs]
      exact congrArg _ (ih (fun w hw => ht w (List.mem_cons_of_mem _ hw)) (Nat.succ.inj h))

theorem noTextTwice_of_length_distinct (h : (distinct items).length = items.length) : NoTextTwice items := by
  apply (not_sameKey_of_length_distinctFrom h).2.imp
  rintro v w hs s rfl rfl
  rw [text_sameKey_self] at hs
  cases hs

end GovernedConfig.Value
