import GovernedConfig.Proofs.Json.Numbers
import GovernedConfig.Proofs.Json.Texts
import GovernedConfig.Proofs.Value.Zeros

/-! # Reading back JSON

A value that JSON can say is read back from its text as it was, except that zeros have no sign.
-/

namespace GovernedConfig.Json

/-- The values that JSON can say: numbers are finite, and entries stand in property order. -/
inductive IsJson : Value → Prop
  | null : IsJson .null
  | bool (b : Bool) : IsJson (.bool b)
  | number {x : Binary64} : x.isFinite = true → IsJson (.number x)
  | text (s : String) : IsJson (.text s)
  | list {items : List Value} : (∀ v ∈ items, IsJson v) → IsJson (.list items)
  | record {r : Record Value} : Record.ofEntries r = r → (∀ entry ∈ r, IsJson entry.2) → IsJson (.record r)

section Characters

variable {v : Value} {rest : List Char}

theorem IsJson.hasForm (h : IsJson v) : Json.hasForm v = true := by cases h <;> rfl

theorem ends_cons {c : Char} (h : c = ',' ∨ c = ']' ∨ c = '\x7d') : Ends (c :: rest) := by
  rintro d ⟨⟩
  rcases h with rfl | rfl | rfl <;> decide

theorem memberCharacters_eq (items : List Value) : memberCharacters items = items.map characters := by
  induction items with
  | nil => rfl
  | cons v items ih => rw [memberCharacters, ih, List.map_cons]

def pair (entry : String × Value) : List Char := quote entry.1 ++ ':' :: characters entry.2

theorem entryCharacters_eq {r : Record Value} (h : ∀ entry ∈ r, IsJson entry.2) :
    entryCharacters r = r.map pair := by
  induction r with
  | nil => rfl
  | cons entry r ih =>
    obtain ⟨name, v⟩ := entry
    have hv : Json.hasForm v = true := (h (name, v) (by simp)).hasForm
    rw [entryCharacters, if_pos hv, ih fun e he => h e (by simp [he]), List.map_cons]
    rfl

theorem skip_cons {c : Char} (cs : List Char) (h : isSpace c = false) : skip (c :: cs) = c :: cs := by
  simp [skip, h]

theorem digit_apart {c : Char} (h : c = '-' ∨ c.isDigit = true) :
    isSpace c = false ∧ c ≠ '"' ∧ c ≠ '[' ∧ c ≠ '\x7b' ∧ c ≠ 't' ∧ c ≠ 'f' ∧ c ≠ 'n' ∧ c ≠ ']' := by
  have hall : ∀ d : Char, d.isDigit = false → c.isDigit = true → c ≠ d := by
    rintro d hd hc rfl
    rw [hd] at hc
    cases hc
  rcases h with rfl | h
  · decide
  · refine ⟨?_, ?_, ?_, ?_, ?_, ?_, ?_, ?_⟩
    · simp only [isSpace, Bool.or_eq_false_iff, beq_eq_false_iff_ne]
      exact ⟨⟨⟨hall _ rfl h, hall _ rfl h⟩, hall _ rfl h⟩, hall _ rfl h⟩
    all_goals exact hall _ rfl h

theorem head_of_number {x : Binary64} (hx : x.isFinite = true) :
    ∃ c cs, number x = c :: cs ∧ (c = '-' ∨ c.isDigit = true) := by
  have hscan := scanNumber_number hx (by simp [Ends] : Ends [])
  rw [List.append_nil] at hscan
  obtain ⟨found, hfound, -⟩ := Option.map_eq_some_iff.mp hscan
  obtain ⟨c, hc, hd⟩ := head_of_scanNumber hfound
  obtain ⟨cs, hcs⟩ := List.head?_eq_some_iff.mp hc
  exact ⟨c, cs, hcs, hd⟩

theorem IsJson.head (h : IsJson v) : ∃ c cs, characters v = c :: cs ∧ isSpace c = false ∧ c ≠ ']' := by
  cases h with
  | null => exact ⟨'n', _, rfl, by decide, by decide⟩
  | bool b => cases b <;> exact ⟨_, _, rfl, by decide, by decide⟩
  | number hx =>
    obtain ⟨c, cs, hcs, hd⟩ := head_of_number hx
    exact ⟨c, cs, hcs, (digit_apart hd).1, (digit_apart hd).2.2.2.2.2.2.2⟩
  | text s => exact ⟨'"', _, rfl, by decide, by decide⟩
  | list hitems => exact ⟨'[', _, rfl, by decide, by decide⟩
  | record ho hr => exact ⟨'\x7b', _, rfl, by decide, by decide⟩

end Characters

section Scanning

/-- A value is read back from its characters wherever they end, with enough fuel. -/
def ReadsBack (v : Value) : Prop :=
  ∀ fuel rest, (characters v).length ≤ fuel → Ends rest →
    scanValue fuel (characters v ++ rest) = some (v.unsignedZeros, rest)

variable {fuel : Nat} {cs rest : List Char} {v : Value} {name : String}

theorem scanItems_last (h : scanValue fuel cs = some (v, ']' :: rest)) :
    scanItems (fuel + 1) cs = some ([v], rest) := by
  simp [scanItems, h, skip, isSpace]

theorem scanItems_more (h : scanValue fuel cs = some (v, ',' :: rest)) :
    scanItems (fuel + 1) cs = (scanItems fuel rest).map fun found => (v :: found.1, found.2) := by
  simp [scanItems, h, skip, isSpace]

theorem scanEntries_last (h : scanValue fuel cs = some (v, '\x7d' :: rest)) :
    scanEntries (fuel + 1) (quote name ++ ':' :: cs) = some ([(name, v)], rest) := by
  simp [scanEntries, quote, skip, isSpace, scanText_escapeAll, h]

theorem scanEntries_more (h : scanValue fuel cs = some (v, ',' :: rest)) :
    scanEntries (fuel + 1) (quote name ++ ':' :: cs) =
      (scanEntries fuel rest).map fun found => ((name, v) :: found.1, found.2) := by
  simp [scanEntries, quote, skip, isSpace, scanText_escapeAll, h]

theorem scanItems_characters {items : List Value} (hne : items ≠ []) (h : ∀ v ∈ items, ReadsBack v)
    (rest : List Char) (fuel : Nat) (hfuel : (commas (items.map characters)).length ≤ fuel) :
    scanItems (fuel + 1) (commas (items.map characters) ++ ']' :: rest) =
      some (items.map Value.unsignedZeros, rest) := by
  induction items generalizing fuel with
  | nil => exact (hne rfl).elim
  | cons v items ih =>
    have hv := h v (List.mem_cons_self ..)
    cases items with
    | nil => exact scanItems_last (hv fuel _ hfuel (ends_cons (by simp)))
    | cons w items =>
      have hrest := ih (by simp) fun u hu => h u (List.mem_cons_of_mem v hu)
      simp only [List.map_cons, commas, List.length_append, List.length_cons] at hfuel hrest ⊢
      obtain ⟨fuel, rfl⟩ : ∃ k, fuel = k + 1 := ⟨fuel - 1, by omega⟩
      rw [List.append_assoc, List.cons_append,
        scanItems_more (hv (fuel + 1) _ (by omega) (ends_cons (by simp))), hrest fuel (by omega)]
      rfl

theorem scanEntries_characters {r : Record Value} (hne : r ≠ []) (h : ∀ entry ∈ r, ReadsBack entry.2)
    (rest : List Char) (fuel : Nat) (hfuel : (commas (r.map pair)).length ≤ fuel) :
    scanEntries (fuel + 1) (commas (r.map pair) ++ '\x7d' :: rest) =
      some (r.mapValues Value.unsignedZeros, rest) := by
  induction r generalizing fuel with
  | nil => exact (hne rfl).elim
  | cons entry r ih =>
    have hv := h entry (List.mem_cons_self ..)
    have hpair : ∀ tail, pair entry ++ tail = quote entry.1 ++ ':' :: (characters entry.2 ++ tail) := by
      intro tail
      rw [pair, List.append_assoc, List.cons_append]
    have hlength : (characters entry.2).length ≤ (pair entry).length := by
      rw [pair, List.length_append, List.length_cons]
      omega
    cases r with
    | nil =>
      simp only [List.map_cons, List.map_nil, commas] at hfuel ⊢
      rw [hpair]
      exact scanEntries_last (hv fuel _ (by omega) (ends_cons (by simp)))
    | cons other r =>
      have hrest := ih (by simp) fun e he => h e (List.mem_cons_of_mem _ he)
      simp only [List.map_cons, commas, List.length_append, List.length_cons] at hfuel hrest ⊢
      obtain ⟨fuel, rfl⟩ : ∃ k, fuel = k + 1 := ⟨fuel - 1, by omega⟩
      rw [List.append_assoc, List.cons_append, hpair,
        scanEntries_more (hv (fuel + 1) _ (by omega) (ends_cons (by simp))), hrest fuel (by omega)]
      rfl

end Scanning

section Values

variable {v : Value} {rest : List Char}

theorem scanWord_self (word : String) (v : Value) : scanWord word v (word.toList ++ rest) = some (v, rest) := by
  rw [scanWord, if_pos (by simp), ← String.length_toList, List.drop_left]

theorem scanValue_number {fuel : Nat} {c : Char} {cs : List Char} (hc : c = '-' ∨ c.isDigit = true) :
    scanValue (fuel + 1) (c :: cs) = (scanNumber (c :: cs)).map fun found => (.number found.1, found.2) := by
  obtain ⟨hs, hq, hl, hr, ht, hf, hn, -⟩ := digit_apart hc
  simp only [scanValue, skip_cons cs hs, if_neg hq, if_neg hl, if_neg hr, if_neg ht, if_neg hf, if_neg hn]

theorem scanValue_list {fuel : Nat} {c : Char} {cs : List Char} (hs : isSpace c = false) (hc : c ≠ ']') :
    scanValue (fuel + 1) ('[' :: c :: cs) =
      (scanItems fuel (c :: cs)).map fun found => (.list found.1, found.2) := by
  have hskip : skip ('[' :: c :: cs) = '[' :: c :: cs := rfl
  simp only [scanValue, hskip, skip_cons cs hs, if_neg (by decide : ¬ '[' = '"'), if_true]
  split
  · rename_i h
    exact (hc (List.cons.inj h).1).elim
  · rfl

theorem scanValue_record {fuel : Nat} {cs : List Char} :
    scanValue (fuel + 1) ('\x7b' :: '"' :: cs) =
      (scanEntries fuel ('"' :: cs)).map fun found => (.record (Record.ofEntries found.1), found.2) := by
  simp [scanValue, skip, isSpace]

theorem readsBack_of_isJson (h : IsJson v) : ReadsBack v := by
  induction h with
  | null =>
    intro fuel rest hfuel _
    obtain ⟨fuel, rfl⟩ : ∃ k, fuel = k + 1 := ⟨fuel - 1, by simp [characters] at hfuel; omega⟩
    exact scanWord_self "null" .null
  | bool b =>
    intro fuel rest hfuel _
    obtain ⟨fuel, rfl⟩ : ∃ k, fuel = k + 1 := ⟨fuel - 1, by cases b <;> simp [characters] at hfuel <;> omega⟩
    cases b with
    | true => exact scanWord_self "true" (.bool true)
    | false => exact scanWord_self "false" (.bool false)
  | @number x hx =>
    intro fuel rest hfuel hr
    obtain ⟨c, cs, hcs, hc⟩ := head_of_number hx
    have hnumber := scanNumber_number hx hr
    rw [characters] at hfuel ⊢
    rw [hcs] at hfuel hnumber ⊢
    obtain ⟨fuel, rfl⟩ : ∃ k, fuel = k + 1 := ⟨fuel - 1, by simp at hfuel; omega⟩
    rw [List.cons_append, scanValue_number hc]
    exact hnumber
  | text s =>
    intro fuel rest hfuel _
    obtain ⟨fuel, rfl⟩ : ∃ k, fuel = k + 1 := ⟨fuel - 1, by simp [characters, quote] at hfuel; omega⟩
    simp [characters, quote, scanValue, skip, isSpace, scanText_escapeAll, Value.unsignedZeros, Value.unsigned]
  | @list items hitems ih =>
    intro fuel rest hfuel hr
    rw [characters, memberCharacters_eq] at hfuel ⊢
    rw [Value.unsignedZeros, Value.allUnsigned_eq]
    simp only [List.cons_append, List.append_assoc, List.nil_append, List.length_cons, List.length_append,
      List.length_nil] at hfuel ⊢
    obtain ⟨fuel, rfl⟩ : ∃ k, fuel = k + 2 := ⟨fuel - 2, by omega⟩
    cases items with
    | nil => simp [scanValue, skip, isSpace, commas]
    | cons v items =>
      have hall := scanItems_characters (by simp) ih rest fuel (by omega)
      obtain ⟨c, cs, hcs, hs, hc⟩ : ∃ c cs, commas ((v :: items).map characters) = c :: cs ∧
          isSpace c = false ∧ c ≠ ']' := by
        obtain ⟨c, cs, hcs, hs, hc⟩ := (hitems v (List.mem_cons_self ..)).head
        cases items with
        | nil => exact ⟨c, cs, hcs, hs, hc⟩
        | cons w items =>
          exact ⟨c, cs ++ ',' :: commas ((w :: items).map characters), by simp [commas, hcs], hs, hc⟩
      rw [hcs, List.cons_append] at hall ⊢
      rw [scanValue_list hs hc, hall]
      rfl
  | @record r ho hentries ih =>
    intro fuel rest hfuel hr
    rw [characters, entryCharacters_eq hentries] at hfuel ⊢
    rw [Value.unsignedZeros, Value.entriesUnsigned_eq]
    simp only [List.cons_append, List.append_assoc, List.nil_append, List.length_cons, List.length_append,
      List.length_nil] at hfuel ⊢
    obtain ⟨fuel, rfl⟩ : ∃ k, fuel = k + 2 := ⟨fuel - 2, by omega⟩
    cases r with
    | nil => simp [scanValue, skip, isSpace, commas, Record.mapValues]
    | cons entry r =>
      have hall := scanEntries_characters (by simp) ih rest fuel (by omega)
      obtain ⟨cs, hcs⟩ : ∃ cs, commas ((entry :: r).map pair) = '"' :: cs := by
        cases r with
        | nil => exact ⟨_, rfl⟩
        | cons other r => exact ⟨_, rfl⟩
      rw [hcs, List.cons_append] at hall ⊢
      rw [scanValue_record, hall, Option.map_some, Record.ofEntries_mapValues, ho]

theorem anyBigint_eq (items : List Value) : anyBigint items = items.any holdsBigint := by
  induction items with
  | nil => rfl
  | cons v items ih => rw [anyBigint, ih, List.any_cons]

theorem entriesHoldBigint_eq (r : Record Value) :
    entriesHoldBigint r = r.any fun entry => holdsBigint entry.2 := by
  induction r with
  | nil => rfl
  | cons entry r ih =>
    obtain ⟨name, v⟩ := entry
    rw [entriesHoldBigint, ih, List.any_cons]

theorem holdsBigint_of_isJson (h : IsJson v) : holdsBigint v = false := by
  induction h with
  | list _ ih =>
    rw [holdsBigint, anyBigint_eq, List.any_eq_false]
    intro w hw
    rw [ih w hw]
    decide
  | record _ _ ih =>
    rw [holdsBigint, entriesHoldBigint_eq, List.any_eq_false]
    intro entry he
    rw [ih entry he]
    decide
  | _ => rfl

/-- A value that JSON can say is printed, and read back without the signs of its zeros. -/
theorem read?_print? (h : IsJson v) : ∃ s, print? v = some s ∧ read? s = some v.unsignedZeros := by
  refine ⟨String.ofList (characters v), ?_, ?_⟩
  · rw [print?, holdsBigint_of_isJson h, if_neg (by simp), if_pos h.hasForm]
  · have hread := readsBack_of_isJson h ((characters v).length + 1) [] (by omega) (by simp [Ends])
    rw [List.append_nil] at hread
    simp only [read?, String.toList_ofList, hread]
    rfl

end Values

end GovernedConfig.Json
