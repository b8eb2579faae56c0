import Mathlib.Data.List.Nodup
import GovernedConfig.Json.Printer
import GovernedConfig.Proofs.Json.RoundTrip
import GovernedConfig.Proofs.Number.Whole
import GovernedConfig.Proofs.Value.Agreement
import GovernedConfig.Schema.Check

/-! # Values that fit a schema

A value fits a schema if it has the type that the schema describes, and, unless bounds are left aside,
keeps within the bounds of the schema. Checking gives back what fits, and only what fits.
-/

namespace GovernedConfig.Schema

/-- A value has the type of a schema: a record has the given entries and no others. Numbers and the
lengths of texts count only if `bounded` is set. -/
inductive Fits (bounded : Bool) : Schema → Value → Prop
  | text {minimum : Nat} {s : String} : (bounded = true → minimum ≤ Text.length s) →
      Fits bounded (text minimum) (.text s)
  | number {rules : List NumberRule} {x : Binary64} :
      (bounded = true → x.isNan = false ∧ ∀ rule ∈ rules, rule.holds x = true) →
        Fits bounded (number rules) (.number x)
  | oneOf {options : List String} {s : String} : s ∈ options → Fits bounded (oneOf options) (.text s)
  | null {inner : Schema} : Fits bounded (nullable inner) .null
  | present {inner : Schema} {v : Value} : Fits bounded inner v → Fits bounded (nullable inner) v
  | list {inner : Schema} {items : List Value} : (∀ v ∈ items, Fits bounded inner v) →
      Fits bounded (listOf inner) (.list items)
  | record {entries : List (String × Schema)} {r : Record Value} : r.names.Nodup →
      (∀ name, name ∈ r.names ↔ name ∈ entries.map Prod.fst) →
        (∀ name schema v, (name, schema) ∈ entries → r.lookup name = some v → Fits bounded schema v) →
          Fits bounded (fields entries) (.record r)

/-- A schema for JSON: its numbers are whole, and it names each entry once, none of them by an index. -/
inductive IsPlain : Schema → Prop
  | text (minimum : Nat) : IsPlain (text minimum)
  | number {rules : List NumberRule} : .integer ∈ rules → IsPlain (number rules)
  | oneOf (options : List String) : IsPlain (oneOf options)
  | nullable {inner : Schema} : IsPlain inner → IsPlain (nullable inner)
  | listOf {inner : Schema} : IsPlain inner → IsPlain (listOf inner)
  | fields {entries : List (String × Schema)} : (entries.map Prod.fst).Nodup →
      (∀ name ∈ entries.map Prod.fst, Record.index? name = none) → (∀ entry ∈ entries, IsPlain entry.2) →
        IsPlain (fields entries)

inductive IsLoose : Schema → Prop
  | text : IsLoose (text 0)
  | oneOf (options : List String) : IsLoose (oneOf options)
  | nullable {inner : Schema} : IsLoose inner → IsLoose (nullable inner)
  | listOf {inner : Schema} : IsLoose inner → IsLoose (listOf inner)
  | fields {entries : List (String × Schema)} : (∀ entry ∈ entries, IsLoose entry.2) → IsLoose (fields entries)

variable {bounded : Bool} {schema : Schema} {v w : Value}

section Shapes

theorem Fits.ne_undefined (h : Fits bounded schema v) : v ≠ .undefined := by
  induction h <;> simp_all

theorem Fits.exists_text {minimum : Nat} (h : Fits bounded (Schema.text minimum) v) : ∃ s, v = .text s := by
  cases h
  exact ⟨_, rfl⟩

theorem Fits.exists_list {inner : Schema} (h : Fits bounded (listOf inner) v) :
    ∃ items, v = .list items ∧ ∀ w ∈ items, Fits bounded inner w := by
  cases h with
  | list hitems => exact ⟨_, rfl, hitems⟩

theorem fits_entry {entries : List (String × Schema)} {r : Record Value}
    (hn : ∀ name, name ∈ r.names ↔ name ∈ entries.map Prod.fst)
    {P : Schema → Value → Prop}
    (hr : ∀ name schema v, (name, schema) ∈ entries → r.lookup name = some v → P schema v)
    (hd : r.names.Nodup) {entry : String × Value} (he : entry ∈ r) :
    ∃ schema, (entry.1, schema) ∈ entries ∧ P schema entry.2 := by
  obtain ⟨name, v⟩ := entry
  have hname : name ∈ entries.map Prod.fst := (hn name).mp (List.mem_map_of_mem he)
  obtain ⟨⟨other, schema⟩, hs, rfl⟩ := List.mem_map.mp hname
  exact ⟨schema, hs, hr _ schema v hs (Record.lookup_of_mem hd he)⟩

theorem Fits.isCopyable (h : Fits bounded schema v) : v.isCopyable = true := by
  induction h with
  | text _ => rfl
  | number _ => rfl
  | oneOf _ => rfl
  | null => rfl
  | present _ ih => exact ih
  | list _ ih => rw [Value.isCopyable, Value.allCopyable_eq, List.all_eq_true]; exact ih
  | record hd hn _ ih =>
    rw [Value.isCopyable, Value.entriesCopyable_eq, List.all_eq_true]
    intro entry he
    obtain ⟨schema, -, hc⟩ := fits_entry hn ih hd he
    exact hc

theorem Fits.holdsBigint (h : Fits bounded schema v) : Json.holdsBigint v = false := by
  induction h with
  | text _ => rfl
  | number _ => rfl
  | oneOf _ => rfl
  | null => rfl
  | present _ ih => exact ih
  | list _ ih =>
    rw [Json.holdsBigint, Json.anyBigint_eq, List.any_eq_false]
    intro w hw
    rw [ih w hw]
    decide
  | record hd hn _ ih =>
    rw [Json.holdsBigint, Json.entriesHoldBigint_eq, List.any_eq_false]
    intro entry he
    obtain ⟨schema, -, hfree⟩ := fits_entry hn ih hd he
    rw [hfree]
    decide

theorem Fits.isJson (h : Fits true schema v) (hp : schema.IsPlain) : Json.IsJson v := by
  induction h with
  | text _ => exact .text _
  | @number rules x hx =>
    cases hp with
    | number hi =>
      have hx := (hx rfl).2 _ hi
      rw [NumberRule.holds, Binary64.isInteger, Bool.and_eq_true] at hx
      exact .number hx.1
  | oneOf _ => exact .text _
  | null => exact .null
  | present _ ih =>
    cases hp with
    | nullable hp => exact ih hp
  | list _ ih =>
    cases hp with
    | listOf hp => exact .list fun v hv => ih v hv hp
  | record hd hn _ ih =>
    cases hp with
    | fields hnames hi hp =>
      refine .record (Record.ofEntries_self hd fun name hm => hi name ((hn name).mp hm)) fun entry he => ?_
      obtain ⟨schema, hs, hj⟩ := fits_entry hn ih hd he
      exact hj (hp _ hs)

theorem Fits.of_isLoose (h : Fits bounded schema v) (hl : schema.IsLoose) : Fits true schema v := by
  induction h with
  | text _ =>
    cases hl
    exact .text fun _ => Nat.zero_le _
  | number _ => cases hl
  | oneOf hs => exact .oneOf hs
  | null => exact .null
  | present _ ih =>
    cases hl with
    | nullable hl => exact .present (ih hl)
  | list _ ih =>
    cases hl with
    | listOf hl => exact .list fun v hv => ih v hv hl
  | record hd hn _ ih =>
    cases hl with
    | fields hl => exact .record hd hn fun name schema v hs hv => ih name schema v hs hv (hl _ hs)

theorem Fits.unbounded (h : Fits bounded schema v) : Fits false schema v := by
  induction h with
  | text _ => exact .text (by simp)
  | number _ => exact .number (by simp)
  | oneOf hs => exact .oneOf hs
  | null => exact .null
  | present _ ih => exact .present ih
  | list _ ih => exact .list ih
  | record hd hn _ ih => exact .record hd hn ih

end Shapes

section Zeros

theorem holds_unsigned {x : Binary64} (hz : x.isNonzero = false) (hn : x.isNan = false) (rule : NumberRule) :
    rule.holds x = rule.holds 0 := by
  obtain ⟨negative, rfl⟩ := Binary64.exists_zero hz hn
  cases negative <;> cases rule <;> decide +kernel

theorem Fits.unsignedZeros (h : Fits bounded schema v) : Fits bounded schema v.unsignedZeros := by
  induction h with
  | text hs => exact .text hs
  | @number rules x hx =>
    change Fits bounded _ (Value.unsigned (.number x))
    rw [Value.unsigned]
    cases hz : x.isNonzero || x.isNan with
    | true => exact .number hx
    | false =>
      rw [Bool.or_eq_false_iff] at hz
      refine .number fun hb => ⟨by decide +kernel, fun rule hr => ?_⟩
      rw [← holds_unsigned hz.1 hz.2]
      exact (hx hb).2 rule hr
  | oneOf hs => exact .oneOf hs
  | null => exact .null
  | present _ ih => exact .present ih
  | list _ ih =>
    rw [Value.unsignedZeros, Value.allUnsigned_eq]
    refine .list fun w hw => ?_
    obtain ⟨v, hv, rfl⟩ := List.mem_map.mp hw
    exact ih v hv
  | record hd hn _ ih =>
    rw [Value.unsignedZeros, Value.entriesUnsigned_eq]
    refine .record (by rwa [Record.names_mapValues]) (fun name => by rw [Record.names_mapValues, hn name]) ?_
    intro name schema w hs hw
    rw [Record.lookup_mapValues] at hw
    obtain ⟨v, hv, rfl⟩ := Option.map_eq_some_iff.mp hw
    exact ih name schema v hs hv

end Zeros

end GovernedConfig.Schema
