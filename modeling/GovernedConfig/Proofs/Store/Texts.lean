import GovernedConfig.Proofs.Value.Records
import GovernedConfig.Store.Remote

/-! # Texts by instance id

What memory and the server answer to the id of an instance after a text was kept or erased.
-/

namespace GovernedConfig

theorem Value.sameKey_text_iff {id : String} {v : Value} : (Value.text id).sameKey v = true ↔ v = .text id := by
  cases v <;> simp [Value.sameKey, Value.same, @eq_comm _ id]

namespace Memory

variable {m : Memory} {id other text : String}

theorem textOf?_cons (entry : Value × String) (m : Memory) (id : String) :
    textOf? (entry :: m) (.text id) = if entry.1 = .text id then some entry.2 else m.textOf? (.text id) := by
  unfold textOf?
  rw [List.find?_cons]
  by_cases he : entry.1 = .text id
  · rw [Value.sameKey_text_iff.mpr he, if_pos he]
    rfl
  · rw [Bool.eq_false_iff.mpr fun hs => he (Value.sameKey_text_iff.mp hs), if_neg he]

theorem textOf?_append (m : Memory) (id text other : String) :
    textOf? (m ++ [(.text id, text)]) (.text other) =
      (m.textOf? (.text other)).or (if other = id then some text else none) := by
  induction m with
  | nil =>
    rw [List.nil_append, textOf?_cons]
    simp [textOf?, @eq_comm _ id]
  | cons entry m ih =>
    rw [List.cons_append, textOf?_cons, textOf?_cons, ih]
    split <;> rfl

theorem textOf?_replace (m : Memory) (id text other : String) :
    textOf? (m.map fun entry => if (Value.text id).sameKey entry.1 then (entry.1, text) else entry) (.text other) =
      if other = id then (m.textOf? (.text id)).map fun _ => text else m.textOf? (.text other) := by
  induction m with
  | nil => simp [textOf?]
  | cons entry m ih =>
    rw [List.map_cons, textOf?_cons, textOf?_cons, textOf?_cons, ih]
    by_cases hentry : entry.1 = .text id
    · rw [if_pos (Value.sameKey_text_iff.mpr hentry), hentry]
      by_cases ho : other = id
      · simp [ho]
      · simp [ho, Ne.symm ho]
    · rw [if_neg fun hs => hentry (Value.sameKey_text_iff.mp hs)]
      by_cases ho : other = id
      · simp [ho, hentry]
      · simp [ho]

theorem any_sameKey_eq (m : Memory) (id : Value) :
    (m.any fun entry => id.sameKey entry.1) = (m.textOf? id).isSome := by
  rw [textOf?, Option.isSome_map, List.isSome_find?]

theorem textOf?_insert (m : Memory) (id text other : String) :
    (m.insert (.text id) text).textOf? (.text other) =
      if other = id then some text else m.textOf? (.text other) := by
  unfold insert
  rw [any_sameKey_eq]
  cases hid : m.textOf? (.text id) with
  | none =>
    rw [Option.isSome_none, if_neg (by simp), textOf?_append]
    by_cases ho : other = id
    · rw [ho, hid, if_pos rfl]
      rfl
    · rw [if_neg ho, if_neg ho, Option.or_none]
  | some held =>
    rw [Option.isSome_some, if_pos rfl, textOf?_replace, hid]
    rfl

theorem textOf?_erase (m : Memory) (id other : String) :
    (m.erase (.text id)).textOf? (.text other) = if other = id then none else m.textOf? (.text other) := by
  induction m with
  | nil => simp [erase, textOf?]
  | cons entry m ih =>
    rw [textOf?_cons]
    unfold erase at ih ⊢
    by_cases hentry : entry.1 = .text id
    · rw [List.filter_cons_of_neg (by rw [Value.sameKey_text_iff.mpr hentry]; decide), ih, hentry]
      by_cases ho : other = id
      · simp [ho]
      · simp [ho, Ne.symm ho]
    · have hsame : (Value.text id).sameKey entry.1 = false :=
        Bool.eq_false_iff.mpr fun hs => hentry (Value.sameKey_text_iff.mp hs)
      rw [List.filter_cons_of_pos (by rw [hsame]; rfl), textOf?_cons, ih]
      by_cases ho : other = id
      · simp [ho, hentry]
      · simp [ho]

/-- The ids under which memory holds texts, each of them once. -/
structure Indexes (m : Memory) (ids : List String) : Prop where
  nodup : ids.Nodup
  keys : m.map Prod.fst = ids.map .text

namespace Indexes

variable {ids : List String}

theorem length_eq (h : m.Indexes ids) : m.length = ids.length := by
  rw [← List.length_map Prod.fst, h.keys, List.length_map]

theorem isSome_iff (h : m.Indexes ids) : (m.textOf? (.text id)).isSome = true ↔ id ∈ ids := by
  have hkeys : (m.textOf? (.text id)).isSome = (m.map Prod.fst).any (Value.text id).sameKey := by
    rw [← any_sameKey_eq, List.any_map]
    rfl
  rw [hkeys, h.keys, List.any_map, List.any_eq_true]
  simp [Value.sameKey_text_iff]

theorem insert (h : m.Indexes ids) (id text : String) : ∃ others, (m.insert (.text id) text).Indexes others := by
  unfold Memory.insert
  rw [any_sameKey_eq]
  by_cases hid : id ∈ ids
  · rw [if_pos (h.isSome_iff.mpr hid)]
    refine ⟨ids, h.nodup, ?_⟩
    rw [List.map_map, ← h.keys]
    refine List.map_congr_left fun entry _ => ?_
    simp only [Function.comp]
    split <;> rfl
  · rw [if_neg (mt h.isSome_iff.mp hid)]
    refine ⟨ids ++ [id], List.nodup_append.mpr ⟨h.nodup, List.nodup_singleton id, ?_⟩, ?_⟩
    · rintro a ha _ hb rfl
      exact hid (List.mem_singleton.mp hb ▸ ha)
    · rw [List.map_append, h.keys, List.map_append]
      rfl

theorem erase (h : m.Indexes ids) (id : String) : ∃ others, (m.erase (.text id)).Indexes others := by
  refine ⟨ids.filter (fun other => !(Value.text id).sameKey (.text other)), h.nodup.filter _, ?_⟩
  have hkeys : (m.erase (.text id)).map Prod.fst = (m.map Prod.fst).filter fun key => !(Value.text id).sameKey key := by
    rw [Memory.erase, List.filter_map]
    rfl
  rw [hkeys, h.keys, List.filter_map]
  rfl

end Indexes

end Memory

namespace Record

variable {α : Type}

theorem holds_eq_isSome (r : Record α) (name : String) : r.holds name = (r.lookup name).isSome := by
  induction r with
  | nil => rfl
  | cons entry r ih =>
    obtain ⟨other, a⟩ := entry
    by_cases ho : name = other
    · subst ho
      rw [lookup_cons_self]
      simp [holds]
    · rw [lookup_cons_of_ne ho, ← ih]
      simp [holds, Ne.symm ho]

theorem lookup_insert (r : Record α) (name : String) (a : α) (other : String) :
    (r.insert name a).lookup other = if other = name then some a else r.lookup other := by
  split
  · rename_i h
    rw [h, lookup_insert_self]
  · rename_i h
    exact lookup_insert_of_ne h r a

theorem lookup_erase (r : Record α) (name other : String) :
    (r.erase name).lookup other = if other = name then none else r.lookup other := by
  split
  · rename_i h
    rw [h, lookup_erase_self]
  · rename_i h
    exact lookup_erase_of_ne h r

end Record

end GovernedConfig
