import GovernedConfig.Value.Basic

/-! # Agreement of values

Two values agree if they differ in the order of record entries at most, wherever the records stand.
-/

namespace GovernedConfig.Value

inductive Agrees : Value → Value → Prop
  | refl (v : Value) : Agrees v v
  | list {items others : List Value} : items.length = others.length →
      (∀ (i : Nat) v w, items[i]? = some v → others[i]? = some w → Agrees v w) → Agrees (list items) (list others)
  | record {r q : Record Value} : (∀ name, name ∈ r.names ↔ name ∈ q.names) →
      (∀ name v w, r.lookup name = some v → q.lookup name = some w → Agrees v w) → Agrees (record r) (record q)

variable {v w : Value}

theorem Agrees.eq_text {s : String} (h : Agrees (text s) w) : w = text s := by
  cases h
  rfl

theorem Agrees.eq_number {x : Binary64} (h : Agrees (number x) w) : w = number x := by
  cases h
  rfl

theorem Agrees.exists_list {items : List Value} (h : Agrees (.list items) w) :
    ∃ others, w = .list others ∧ items.length = others.length ∧
      ∀ (i : Nat) v w, items[i]? = some v → others[i]? = some w → Agrees v w := by
  cases h with
  | refl =>
    refine ⟨items, rfl, rfl, fun i v w hv hw => ?_⟩
    rw [hv] at hw
    cases hw
    exact .refl v
  | list hl hall => exact ⟨_, rfl, hl, hall⟩

theorem Agrees.eq_texts {items : List Value} (ht : ∀ v ∈ items, ∃ s, v = .text s)
    (h : Agrees (.list items) w) : w = .list items := by
  obtain ⟨others, rfl, hl, hall⟩ := h.exists_list
  refine congrArg Value.list (List.ext_getElem hl.symm fun i hi hj => ?_)
  obtain ⟨s, hs⟩ := ht items[i] (List.getElem_mem _)
  have ha := hall i _ _ (List.getElem?_eq_getElem hj) (List.getElem?_eq_getElem hi)
  rw [hs] at ha ⊢
  exact ha.eq_text

theorem Agrees.exists_record {r : Record Value} (h : Agrees (.record r) w) :
    ∃ q : Record Value, w = .record q ∧ (∀ name, name ∈ r.names ↔ name ∈ q.names) ∧
      ∀ name v w, r.lookup name = some v → q.lookup name = some w → Agrees v w := by
  cases h with
  | refl =>
    refine ⟨r, rfl, fun _ => Iff.rfl, fun name v w hv hw => ?_⟩
    rw [hv] at hw
    cases hw
    exact .refl v
  | record hn hall => exact ⟨_, rfl, hn, hall⟩

theorem Agrees.ne_undefined (h : v.Agrees w) (hv : v ≠ undefined) : w ≠ undefined := by
  cases h with
  | refl => exact hv
  | list _ _ => simp
  | record _ _ => simp

theorem allCopyable_eq (items : List Value) : allCopyable items = items.all isCopyable := by
  induction items with
  | nil => rfl
  | cons v items ih => rw [allCopyable, ih, List.all_cons]

theorem entriesCopyable_eq (r : Record Value) : entriesCopyable r = r.all fun entry => entry.2.isCopyable := by
  induction r with
  | nil => rfl
  | cons entry r ih =>
    obtain ⟨name, v⟩ := entry
    rw [entriesCopyable, ih, List.all_cons]

end GovernedConfig.Value
