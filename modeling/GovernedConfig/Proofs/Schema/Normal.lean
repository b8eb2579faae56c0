import GovernedConfig.Proofs.Schema.Check
import GovernedConfig.Proofs.Value.Shapes

/-! # What checking makes of a value

A check against a record schema gives back what it makes of the entries, each under its name. What was given at a
place that the schema describes is checked there, and a second check changes nothing more.
-/

namespace GovernedConfig

namespace Value

def at? : Value → List String → Option Value
  | v, [] => some v
  | record r, name :: path => (r.lookup name).bind (·.at? path)
  | _, _ :: _ => none

theorem at?_undefined {path : List String} {v : Value} (h : undefined.at? path = some v) : v = undefined := by
  cases path with
  | nil =>
    cases h
    rfl
  | cons name path => cases h

end Value

namespace Schema

variable {schema : Schema} {entries : List (String × Schema)} {r q : Record Value} {v w : Value} {name : String}

section Entries

theorem names_of_checkFields (h : checkFields entries r = .ok q) : q.names.Sublist (entries.map Prod.fst) := by
  induction entries generalizing q with
  | nil =>
    cases h
    exact .slnil
  | cons entry entries ih =>
    obtain ⟨name, schema⟩ := entry
    rw [checkFields_cons] at h
    split at h
    · rename_i w more hw hmore
      cases h
      split_ifs
      · exact (ih hmore).cons name
      · exact (ih hmore).cons_cons name
    all_goals cases h

/-- What a check makes of an entry stands under its name, unless it is `undefined` where there was nothing. -/
theorem lookup_of_checkFields (hd : (entries.map Prod.fst).Nodup) (h : checkFields entries r = .ok q)
    (he : (name, schema) ∈ entries) : ∃ w, schema.check ((r.lookup name).getD .undefined) = .ok w ∧
      q.lookup name = if w = .undefined ∧ !Record.holds r name then none else some w := by
  induction entries generalizing q with
  | nil => cases he
  | cons entry entries ih =>
    obtain ⟨other, otherSchema⟩ := entry
    rw [List.map_cons, List.nodup_cons] at hd
    rw [checkFields_cons] at h
    split at h
    · rename_i u more hu hmore
      cases h
      have hnew : List.lookup name more = none ∨ name ≠ other := by
        by_cases hn : name = other
        · subst hn
          refine .inl (Record.lookup_eq_none (Bool.eq_false_iff.mpr fun hh => hd.1 ?_))
          exact (names_of_checkFields hmore).subset (Record.holds_iff_mem_names.mp hh)
        · exact .inr hn
      rcases List.mem_cons.mp he with hm | hm
      · cases hm
        refine ⟨u, hu, ?_⟩
        split_ifs
        · exact hnew.resolve_right fun hn => hn rfl
        · exact Record.lookup_cons_self ..
      · have hne : name ≠ other := by
          rintro rfl
          exact hd.1 (List.mem_map.mpr ⟨_, hm, rfl⟩)
        obtain ⟨w, hw, hq⟩ := ih hd.2 hmore hm
        refine ⟨w, hw, hq ▸ ?_⟩
        split_ifs
        · rfl
        · exact Record.lookup_cons_of_ne hne ..
    all_goals cases h

theorem mem_of_lookup (h : entries.lookup name = some schema) : (name, schema) ∈ entries := by
  obtain ⟨before, behind, hsplit, -⟩ := List.lookup_eq_some_iff.mp h
  simp [hsplit]

/-- Whatever a check against a schema gives back is there and has a property. -/
def Yields (schema : Schema) (P : Value → Prop) : Prop := ∀ v w, schema.check v = .ok w → w ≠ .undefined ∧ P w

variable {P : Value → Prop}

theorem Yields.withDefault (h : schema.Yields P) (default : Value) : (withDefault default schema).Yields P := by
  intro v w hw
  rw [check_withDefault] at hw
  exact h _ _ hw

theorem Yields.has (h : schema.Yields P) (hd : (entries.map Prod.fst).Nodup) (hq : checkFields entries r = .ok q)
    (he : entries.lookup name = some schema) : q.Has name P := by
  obtain ⟨w, hw, hkept⟩ := lookup_of_checkFields hd hq (mem_of_lookup he)
  obtain ⟨hthere, hp⟩ := h _ w hw
  rw [if_neg fun hc => hthere hc.1] at hkept
  exact ⟨w, hkept, hp⟩

theorem Yields.mayHave (h : schema.Yields P) (hd : (entries.map Prod.fst).Nodup)
    (hq : checkFields entries r = .ok q) (he : entries.lookup name = some (optional schema)) : q.MayHave name P := by
  intro u hu
  obtain ⟨w, hw, hkept⟩ := lookup_of_checkFields hd hq (mem_of_lookup he)
  rw [hu] at hkept
  split_ifs at hkept
  cases hkept
  rw [check_optional] at hw
  split_ifs at hw with hv
  · cases hw
    exact .inl hv
  · exact .inr (h _ _ hw).2

end Entries

theorem yields_record {Q : Record Value → Prop} (h : ∀ r q, checkFields entries r = .ok q → Q q) :
    (fields entries).Yields fun v => ∃ q, v = .record q ∧ Q q := by
  intro v w hw
  obtain ⟨r, q, -, hq, rfl⟩ := exists_record_of_check_fields hw
  exact ⟨by simp, q, rfl, h r q hq⟩

section Places

/-- What a schema asks of a value that is there. -/
def core : Schema → Schema
  | optional inner => inner.core
  | withDefault _ inner => inner.core
  | schema => schema

theorem check_core (hv : v ≠ .undefined) : ∀ schema : Schema, schema.check v = schema.core.check v
  | optional inner => by rw [check_optional, if_neg hv, core, check_core hv inner]
  | withDefault default inner => by rw [check_withDefault, if_neg hv, core, check_core hv inner]
  | text _ => rfl
  | number _ => rfl
  | numeral _ => rfl
  | flag => rfl
  | oneOf _ => rfl
  | exactly _ => rfl
  | oneOfNumbers _ => rfl
  | anyRecord => rfl
  | nullable _ => rfl
  | listOf _ => rfl
  | fields _ => rfl
  | tagged _ _ => rfl

def at? : Schema → List String → Option Schema
  | schema, [] => some schema.core
  | schema, name :: path =>
    match schema.core with
    | fields entries => (entries.lookup name).bind (·.at? path)
    | _ => none

/-- A schema of single values, which are given back as they are. -/
def isScalar : Schema → Bool
  | text _ => true
  | number _ => true
  | flag => true
  | oneOf _ => true
  | exactly _ => true
  | oneOfNumbers _ => true
  | _ => false

theorem eq_of_check_scalar (hs : schema.isScalar = true) (h : schema.check v = .ok w) : w = v := by
  cases schema with
  | text minimum =>
    cases v with
    | text s =>
      rw [check] at h
      split_ifs at h
      · cases h
      · cases h
        rfl
    | _ => cases h
  | number rules =>
    cases v with
    | number x => exact eq_of_checkNumber h
    | _ => cases h
  | flag =>
    cases v with
    | bool b =>
      cases h
      rfl
    | _ => cases h
  | oneOf options =>
    cases v with
    | text s =>
      rw [check] at h
      split_ifs at h
      · cases h
        rfl
      · cases h
    | _ => cases h
  | exactly option =>
    rw [check] at h
    split_ifs at h
    · cases h
      rfl
    · cases h
  | oneOfNumbers options =>
    rw [check] at h
    split_ifs at h
    · cases h
      rfl
    · cases h
  | _ => cases hs

/-- Each record schema within a schema names its entries once, no default gives way to `undefined`, and variants are
told apart by the texts that they are named after. -/
inductive IsStable : Schema → Prop
  | scalar {schema : Schema} : schema.isScalar = true → IsStable schema
  | anyRecord : IsStable anyRecord
  | optional {inner : Schema} : IsStable inner → IsStable (optional inner)
  | withDefault {inner : Schema} (default : Value) : IsStable inner → inner.check .undefined ≠ .ok .undefined →
      IsStable (withDefault default inner)
  | fields {entries : List (String × Schema)} : (entries.map Prod.fst).Nodup → (∀ entry ∈ entries, IsStable entry.2) →
      IsStable (fields entries)
  | tagged {tag : String} {variants : List (String × Schema)} : (∀ variant ∈ variants, IsStable variant.2) →
      (∀ variant ∈ variants, ∃ entries, variant.2 = fields entries ∧ (tag, Schema.exactly variant.1) ∈ entries) →
        IsStable (tagged tag variants)

theorem check_undefined_of_isScalar (hs : schema.isScalar = true) : schema.check .undefined ≠ .ok .undefined := by
  intro h
  cases schema with
  | exactly option =>
    have hnone : Value.undefined ≠ .text option := by simp
    rw [check, if_neg hnone] at h
    cases h
  | oneOfNumbers options =>
    have hnone : (options.any fun x => Value.undefined.same (.number x)) = false := by simp [Value.same]
    rw [check, hnone] at h
    cases h
  | text minimum => cases h
  | number rules => cases h
  | flag => cases h
  | oneOf options => cases h
  | _ => cases hs

theorem IsStable.defaulted (default : Value) (hs : schema.isScalar = true) :
    (Schema.withDefault default schema).IsStable :=
  .withDefault default (.scalar hs) (check_undefined_of_isScalar hs)

theorem isStable_fields_iff :
    (fields entries).IsStable ↔ (entries.map Prod.fst).Nodup ∧ ∀ entry ∈ entries, entry.2.IsStable := by
  constructor
  · intro h
    cases h with
    | scalar hs => cases hs
    | fields hd hs => exact ⟨hd, hs⟩
  · rintro ⟨hd, hs⟩
    exact .fields hd hs

theorem IsStable.core (h : schema.IsStable) : schema.core.IsStable := by
  induction h with
  | optional _ ih => exact ih
  | withDefault _ _ _ ih => exact ih
  | @scalar schema hs => cases schema <;> first | exact .scalar hs | cases hs
  | anyRecord => exact .anyRecord
  | fields hd hs _ => exact .fields hd hs
  | tagged hs ht _ => exact .tagged hs ht

/-- What is given at a place is checked against what the schema asks of it there, and what the check makes of it
stands at the same place. -/
theorem check_at {inner : Schema} {path : List String} {x : Value} (hs : schema.IsStable) (h : schema.check v = .ok w)
    (hi : schema.at? path = some inner) (hx : v.at? path = some x) (hu : x ≠ .undefined) :
    ∃ y, inner.check x = .ok y ∧ (y ≠ .undefined → w.at? path = some y) := by
  induction path generalizing schema v w with
  | nil =>
    cases hi
    cases hx
    exact ⟨w, by rw [← check_core hu, h], fun _ => rfl⟩
  | cons name path ih =>
    cases v with
    | record r =>
      have hcore := hs.core
      rw [check_core (by simp)] at h
      rw [at?] at hi
      split at hi
      · rename_i entries hfields
        rw [hfields] at h hcore
        obtain ⟨hd, hstable⟩ := isStable_fields_iff.mp hcore
        obtain ⟨other, ho, hi⟩ := Option.bind_eq_some_iff.mp hi
        obtain ⟨u, hr, hx⟩ := Option.bind_eq_some_iff.mp hx
        have he := mem_of_lookup ho
        obtain ⟨_, q, hv, hq, rfl⟩ := exists_record_of_check_fields h
        cases hv
        obtain ⟨w, hw, hkept⟩ := lookup_of_checkFields hd hq he
        rw [hr] at hw
        obtain ⟨y, hy, hat⟩ := ih (hstable _ he) hw hi hx
        refine ⟨y, hy, fun hne => ?_⟩
        have hw : w ≠ .undefined := by
          rintro rfl
          exact hne (Value.at?_undefined (hat hne))
        rw [if_neg fun hc => hw hc.1] at hkept
        rw [Value.at?, hkept]
        exact hat hne
      · cases hi
    | _ => cases hx

end Places

section Repetition

/-- A record that answers to the names of a schema what a check gave back is given back once more. -/
theorem checkFields_again {s : Record Value} (hd : (entries.map Prod.fst).Nodup)
    (hs : ∀ entry ∈ entries, ∀ v w, entry.2.check v = .ok w → entry.2.check w = .ok w)
    (h : checkFields entries r = .ok q) (hq : ∀ name ∈ entries.map Prod.fst, s.lookup name = q.lookup name) :
    checkFields entries s = .ok q := by
  induction entries generalizing q with
  | nil =>
    cases h
    rfl
  | cons entry entries ih =>
    obtain ⟨name, schema⟩ := entry
    have hlookup := hq name List.mem_cons_self
    obtain ⟨w, hw, hkept⟩ := lookup_of_checkFields hd h List.mem_cons_self
    rw [List.map_cons, List.nodup_cons] at hd
    rw [checkFields, hw] at h
    have hagain : schema.check w = .ok w := hs _ List.mem_cons_self _ _ hw
    cases hmore : checkFields entries r with
    | error issues =>
      rw [hmore] at h
      cases h
    | ok more =>
      rw [hmore] at h
      cases h
      have hrest : checkFields entries s = .ok more := by
        refine ih hd.2 (fun other ho => hs other (List.mem_cons_of_mem _ ho)) hmore fun other ho => ?_
        have hne : other ≠ name := fun he => hd.1 (he ▸ ho)
        rw [hq other (List.mem_cons_of_mem _ ho)]
        split_ifs
        · rfl
        · exact Record.lookup_cons_of_ne hne ..
      rw [hkept] at hlookup
      by_cases hdropped : w = .undefined ∧ (!Record.holds r name) = true
      · rw [if_pos hdropped] at hlookup ⊢
        obtain ⟨rfl, -⟩ := hdropped
        have hnone : (!Record.holds s name) = true := by
          rw [Bool.not_eq_true', ← Bool.not_eq_true, Record.holds_iff_mem_names, Record.mem_names_iff]
          rintro ⟨v, hv⟩
          rw [hlookup] at hv
          cases hv
        rw [checkFields, hlookup, Option.getD_none, hagain, hrest]
        exact congrArg _ (if_pos ⟨rfl, hnone⟩)
      · rw [if_neg hdropped] at hlookup ⊢
        have hheld : ¬ (w = .undefined ∧ (!Record.holds s name) = true) := by
          rw [Record.holds_iff_mem_names.mpr (Record.mem_names_iff.mpr ⟨w, hlookup⟩)]
          simp
        rw [checkFields, hlookup, Option.getD_some, hagain, hrest]
        exact congrArg _ (if_neg hheld)

theorem checkVariants_eq_some {variants : List (String × Schema)} {tag : Value} {answer : Except (List Issue) Value}
    (h : checkVariants variants tag v = some answer) :
    ∃ variant ∈ variants, tag = .text variant.1 ∧ answer = variant.2.check v ∧
      ∀ u, checkVariants variants tag u = some (variant.2.check u) := by
  induction variants with
  | nil => cases h
  | cons variant variants ih =>
    obtain ⟨name, schema⟩ := variant
    rw [checkVariants_cons] at h
    split_ifs at h with ht
    · cases h
      exact ⟨_, List.mem_cons_self, ht, rfl, fun u => by rw [checkVariants_cons, if_pos ht]⟩
    · obtain ⟨variant, hm, hname, ha, hall⟩ := ih h
      exact ⟨variant, List.mem_cons_of_mem _ hm, hname, ha, fun u => by rw [checkVariants_cons, if_neg ht, hall]⟩

/-- What a check gives back, a second check gives back unchanged. -/
theorem check_again (hs : schema.IsStable) (h : schema.check v = .ok w) : schema.check w = .ok w := by
  induction hs generalizing v w with
  | scalar hs =>
    obtain rfl := eq_of_check_scalar hs h
    exact h
  | anyRecord =>
    cases v with
    | record entries =>
      cases h
      have herased : Record.erase (Record.erase entries "__proto__") "__proto__" = Record.erase entries "__proto__" := by
        simp [Record.erase, List.filter_filter]
      exact congrArg (Except.ok ∘ Value.record) herased
    | _ => cases h
  | optional _ ih =>
    rw [check_optional] at h ⊢
    split_ifs at h with hv
    · cases h
      exact if_pos hv
    · rw [ih h, ite_self]
  | withDefault default _ hd ih =>
    rw [check_withDefault] at h ⊢
    have hagain := ih h
    have hw : w ≠ .undefined := by
      rintro rfl
      exact hd hagain
    rw [if_neg hw, hagain]
  | fields hd _ ih =>
    obtain ⟨r, q, rfl, hq, rfl⟩ := exists_record_of_check_fields h
    have hagain := checkFields_again hd (fun entry he v w => ih entry he) hq fun name _ => rfl
    rw [check_fields]
    simp only [hagain]
    rfl
  | @tagged tag variants hs ht ih =>
    cases v with
    | record r =>
      rw [check] at h
      cases hc : checkVariants variants ((r.lookup tag).getD .undefined) (.record r) with
      | none =>
        rw [hc] at h
        cases h
      | some answer =>
        rw [hc, Option.getD_some] at h
        obtain ⟨variant, hm, hname, rfl, hall⟩ := checkVariants_eq_some hc
        obtain ⟨entries, hentries, htag⟩ := ht variant hm
        have hagain := ih variant hm h
        have hfields := hs variant hm
        rw [hentries] at h hfields
        obtain ⟨_, q, -, hq, rfl⟩ := exists_record_of_check_fields h
        obtain ⟨u, hu, hkept⟩ := lookup_of_checkFields (isStable_fields_iff.mp hfields).1 hq htag
        have hu : u = .text variant.1 := by
          rw [check] at hu
          split_ifs at hu with hv
          · cases hu
            exact hv
          · cases hu
        subst hu
        rw [if_neg fun hc => Value.noConfusion hc.1] at hkept
        rw [check, hkept, Option.getD_some, ← hname, hall, Option.getD_some, hagain]
    | _ => cases h

end Repetition

end Schema

end GovernedConfig
