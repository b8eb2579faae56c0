import Mathlib.Data.List.Nodup
import Mathlib.Data.List.TakeWhile
import GovernedConfig.Value.Record

/-! # Entries of records

Records with other values under the same names, and records that hold no name twice.
-/

namespace GovernedConfig.Record

variable {α β : Type} {r : Record α}

section Mapping

def mapValues (f : α → β) (r : Record α) : Record β := r.map fun entry => (entry.1, f entry.2)

theorem names_mapValues (f : α → β) (r : Record α) : (r.mapValues f).names = r.names := by
  simp [names, mapValues]

theorem holds_mapValues (f : α → β) (r : Record α) (name : String) :
    (r.mapValues f).holds name = r.holds name := by
  unfold holds mapValues
  rw [List.any_map]
  rfl

theorem lookup_mapValues (f : α → β) (r : Record α) (name : String) :
    (r.mapValues f).lookup name = (r.lookup name).map f := by
  induction r with
  | nil => rfl
  | cons entry r ih =>
    obtain ⟨k, a⟩ := entry
    by_cases hk : name = k
    · subst hk
      rw [lookup_cons_self]
      exact lookup_cons_self ..
    · rw [lookup_cons_of_ne hk, ← ih]
      exact lookup_cons_of_ne hk ..

theorem insert_mapValues (f : α → β) (r : Record α) (name : String) (a : α) :
    (r.insert name a).mapValues f = (r.mapValues f).insert name (f a) := by
  unfold insert
  rw [holds_mapValues]
  split
  · unfold mapValues
    rw [List.map_map, List.map_map]
    congr 1
    funext entry
    by_cases hk : entry.1 = name <;> simp [hk]
  · split
    · simp [mapValues]
    · simp only [mapValues, List.map_append, List.map_cons, List.takeWhile_map, List.dropWhile_map]
      rfl

theorem overlay_mapValues (f : α → β) (r upper : Record α) :
    overlay (r.mapValues f) (upper.mapValues f) = (overlay r upper).mapValues f := by
  induction upper generalizing r with
  | nil => rfl
  | cons entry upper ih =>
    have hstep := ih (r.insert entry.1 entry.2)
    rw [insert_mapValues] at hstep
    exact hstep

theorem ofEntries_mapValues (f : α → β) (r : Record α) :
    ofEntries (r.mapValues f) = (ofEntries r).mapValues f := overlay_mapValues f [] r

end Mapping

section Names

variable {name : String} {a : α}

theorem names_insert_of_holds (h : r.holds name = true) (a : α) : (r.insert name a).names = r.names := by
  rw [insert, if_pos h, names, names, List.map_map]
  refine List.map_congr_left fun entry _ => ?_
  by_cases hk : entry.1 = name <;> simp [hk]

theorem insert_of_new (h : r.holds name = false) (hi : index? name = none) (a : α) :
    r.insert name a = r ++ [(name, a)] := by
  rw [insert, h, if_neg (by simp), hi]

theorem holds_iff_mem_names : r.holds name = true ↔ name ∈ r.names := by
  simp [holds, names]

theorem mem_names_iff : name ∈ r.names ↔ ∃ a, r.lookup name = some a := by
  induction r with
  | nil => simp [names]
  | cons entry r ih =>
    obtain ⟨k, b⟩ := entry
    by_cases hk : name = k
    · subst hk
      simp [names]
    · rw [lookup_cons_of_ne hk, ← ih]
      simp [names, hk]

theorem lookup_of_mem (hr : r.names.Nodup) (h : (name, a) ∈ r) : r.lookup name = some a := by
  induction r with
  | nil => cases h
  | cons entry r ih =>
    obtain ⟨k, b⟩ := entry
    rw [names, List.map_cons, List.nodup_cons] at hr
    rcases List.mem_cons.mp h with he | hm
    · cases he
      exact lookup_cons_self ..
    · have hne : name ≠ k := by
        rintro rfl
        exact hr.1 (List.mem_map.mpr ⟨(name, a), hm, rfl⟩)
      rw [lookup_cons_of_ne hne, ih hr.2 hm]

theorem eq_map_names (hr : r.names.Nodup) (f : String → α) (hf : ∀ name a, r.lookup name = some a → f name = a) :
    r = r.names.map fun name => (name, f name) := by
  rw [names, List.map_map]
  refine (List.map_id r).symm.trans (List.map_congr_left fun entry he => ?_)
  exact congrArg (Prod.mk entry.1) (hf entry.1 entry.2 (lookup_of_mem hr he)).symm

theorem ofEntries_self (hr : r.names.Nodup) (hi : ∀ name ∈ r.names, index? name = none) : ofEntries r = r := by
  have hall : ∀ s : Record α, (∀ name ∈ r.names, s.holds name = false) → overlay s r = s ++ r := by
    induction r with
    | nil => exact fun s _ => (List.append_nil s).symm
    | cons entry r ih =>
      intro s hs
      obtain ⟨k, b⟩ := entry
      rw [names, List.map_cons, List.nodup_cons] at hr
      have hinsert : s.insert k b = s ++ [(k, b)] :=
        insert_of_new (hs k (by simp [names])) (hi k (by simp [names])) b
      have hheld : ∀ name ∈ names r, holds (s ++ [(k, b)]) name = false := by
        intro name hn
        have hne : k ≠ name := by
          rintro rfl
          exact hr.1 hn
        have hold := hs name (List.mem_cons_of_mem _ hn)
        simp only [holds, List.any_append, List.any_cons, List.any_nil, Bool.or_false, Bool.or_eq_false_iff,
          beq_eq_false_iff_ne] at hold ⊢
        exact ⟨hold, hne⟩
      have hrest := ih hr.2 (fun name hn => hi name (List.mem_cons_of_mem _ hn)) (s ++ [(k, b)]) hheld
      rw [List.append_assoc] at hrest
      rw [← List.singleton_append, ← hrest, ← hinsert]
      rfl
  exact hall [] fun _ _ => rfl

end Names

end GovernedConfig.Record
