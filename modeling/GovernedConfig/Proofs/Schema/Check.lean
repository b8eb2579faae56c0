import GovernedConfig.Proofs.Schema.Fits

/-! # Checking against a schema

A check accepts what fits the schema and gives it back with the entries of records in the order of
the schema. Whatever a check accepts, what it gives back fits.
-/

namespace GovernedConfig.Schema

variable {schema : Schema} {v w : Value}

section Acceptance

theorem checkMembers_of_agrees {check : Value → Except (List Issue) Value} {items : List Value}
    (h : ∀ v ∈ items, ∃ w, check v = .ok w ∧ v.Agrees w) (position : Nat) :
    ∃ others, checkMembers check position items = .ok others ∧ items.length = others.length ∧
      ∀ (i : Nat) v w, items[i]? = some v → others[i]? = some w → v.Agrees w := by
  induction items generalizing position with
  | nil => exact ⟨[], rfl, rfl, by simp⟩
  | cons v items ih =>
    obtain ⟨w, hw, ha⟩ := h v (List.mem_cons_self ..)
    obtain ⟨others, ho, hl, hall⟩ := ih (fun u hu => h u (List.mem_cons_of_mem v hu)) (position + 1)
    refine ⟨w :: others, by simp only [checkMembers_cons, hw, ho], by rw [List.length_cons, List.length_cons, hl], ?_⟩
    intro i u u' hu hu'
    cases i with
    | zero =>
      cases hu
      cases hu'
      exact ha
    | succ i => exact hall i u u' hu hu'

theorem checkFields_of_agrees {entries : List (String × Schema)} {r : Record Value}
    (hd : (entries.map Prod.fst).Nodup)
    (h : ∀ entry ∈ entries, ∃ v w, r.lookup entry.1 = some v ∧ v ≠ .undefined ∧
      entry.2.check v = .ok w ∧ v.Agrees w) :
    ∃ q, checkFields entries r = .ok q ∧ Record.names q = entries.map Prod.fst ∧
      ∀ name v w, r.lookup name = some v → q.lookup name = some w → v.Agrees w := by
  induction entries with
  | nil => exact ⟨[], rfl, rfl, by simp⟩
  | cons entry entries ih =>
    obtain ⟨name, schema⟩ := entry
    rw [List.map_cons, List.nodup_cons] at hd
    obtain ⟨v, w, hv, hu, hw, ha⟩ := h _ (List.mem_cons_self ..)
    obtain ⟨q, hq, hn, hall⟩ := ih hd.2 fun other ho => h other (List.mem_cons_of_mem _ ho)
    have hkeep : ¬ (w = .undefined ∧ (!Record.holds r name) = true) := fun hc => ha.ne_undefined hu hc.1
    refine ⟨(name, w) :: q, ?_, ?_, ?_⟩
    · dsimp only at hv hw
      simp only [checkFields_cons, hv, Option.getD_some, hw, hq, if_neg hkeep]
    · rw [Record.names, List.map_cons, List.map_cons, ← hn]
      rfl
    · intro other u u' hr hq'
      by_cases ho : other = name
      · subst ho
        rw [Record.lookup_cons_self] at hq'
        dsimp only at hv
        rw [hv] at hr
        cases hr
        cases hq'
        exact ha
      · rw [Record.lookup_cons_of_ne ho] at hq'
        exact hall other u u' hr hq'

theorem check_of_fits (h : Fits true schema v) (hp : schema.IsPlain) :
    ∃ w, schema.check v = .ok w ∧ v.Agrees w := by
  induction h with
  | @text minimum s hs =>
    refine ⟨_, ?_, .refl _⟩
    rw [check]
    exact if_neg (Nat.not_lt.mpr (hs rfl))
  | @number rules x hx =>
    obtain ⟨hn, hr⟩ := hx rfl
    have hf : rules.filter (fun rule => !rule.holds x) = [] := by
      rw [List.filter_eq_nil_iff]
      intro rule hm
      rw [hr rule hm]
      decide
    refine ⟨_, ?_, .refl _⟩
    rw [check]
    simp [checkNumber, hn, hf]
  | oneOf hs =>
    refine ⟨_, ?_, .refl _⟩
    rw [check]
    exact if_pos hs
  | null => exact ⟨_, by rw [check_nullable, if_pos rfl], .refl _⟩
  | @present inner v _ ih =>
    cases hp with
    | nullable hp =>
      rw [check_nullable]
      by_cases hv : v = .null
      · exact ⟨v, if_pos hv, .refl _⟩
      · rw [if_neg hv]
        exact ih hp
  | list _ ih =>
    cases hp with
    | listOf hp =>
      obtain ⟨others, ho, hl, hall⟩ := checkMembers_of_agrees (fun v hv => ih v hv hp) 0
      refine ⟨.list others, ?_, .list hl hall⟩
      rw [check_listOf]
      simp only [ho]
      rfl
  | @record entries r hd hn hfits ih =>
    cases hp with
    | fields hnames _ hp =>
      obtain ⟨q, hq, hqn, hall⟩ := checkFields_of_agrees (r := r) hnames fun entry he => by
        obtain ⟨v, hv⟩ := Record.mem_names_iff.mp ((hn entry.1).mpr (List.mem_map_of_mem he))
        obtain ⟨w, hw, ha⟩ := ih entry.1 entry.2 v he hv (hp _ he)
        exact ⟨v, w, hv, (hfits entry.1 entry.2 v he hv).ne_undefined, hw, ha⟩
      refine ⟨.record q, ?_, .record (fun name => by rw [hqn, hn name]) hall⟩
      rw [check_fields]
      simp only [hq]
      rfl

end Acceptance

section Soundness

theorem eq_of_checkNumber {rules : List NumberRule} {x : Binary64} (h : checkNumber rules x = .ok w) :
    w = .number x := by
  unfold checkNumber at h
  split at h
  · cases h
  · split at h <;> cases h
    rfl

theorem fits_of_checkNumber {rules : List NumberRule} {x : Binary64} (h : checkNumber rules x = .ok w) :
    Fits true (number rules) w := by
  unfold checkNumber at h
  split at h
  · cases h
  · rename_i hn
    split at h
    · rename_i hf
      cases h
      refine .number fun _ => ⟨by simpa using hn, fun rule hr => ?_⟩
      have hall := List.filter_eq_nil_iff.mp hf rule hr
      simpa using hall
    · cases h

theorem fits_of_checkMembers {items others : List Value}
    (hc : ∀ v w, schema.check v = .ok w → Fits true schema w) {position : Nat} (h : checkMembers schema.check position items = .ok others) :
    ∀ w ∈ others, Fits true schema w := by
  induction items generalizing position others with
  | nil =>
    cases h
    simp
  | cons v items ih =>
    rw [checkMembers_cons] at h
    split at h
    · rename_i w ws hw hws
      cases h
      intro u hu
      rcases List.mem_cons.mp hu with rfl | hu
      · exact hc v u hw
      · exact ih hws u hu
    all_goals cases h

theorem fits_of_checkFields {entries : List (String × Schema)} {r q : Record Value}
    (hd : (entries.map Prod.fst).Nodup)
    (hc : ∀ entry ∈ entries, ∀ v w, entry.2.check v = .ok w → Fits true entry.2 w)
    (h : checkFields entries r = .ok q) :
    q.names = entries.map Prod.fst ∧
      ∀ name schema w, (name, schema) ∈ entries → q.lookup name = some w → Fits true schema w := by
  induction entries generalizing q with
  | nil =>
    cases h
    exact ⟨rfl, by simp⟩
  | cons entry entries ih =>
    obtain ⟨name, schema⟩ := entry
    rw [List.map_cons, List.nodup_cons] at hd
    rw [checkFields_cons] at h
    split at h
    · rename_i w more hw hmore
      obtain ⟨hn, hall⟩ := ih hd.2 (fun other ho => hc other (List.mem_cons_of_mem _ ho)) hmore
      have hfits : Fits true schema w := hc _ (List.mem_cons_self ..) _ _ hw
      rw [if_neg fun he => hfits.ne_undefined he.1] at h
      cases h
      constructor
      · rw [Record.names, List.map_cons, List.map_cons, ← hn]
        rfl
      · intro other schema' u hm hu
        rcases List.mem_cons.mp hm with he | hrest
        · cases he
          rw [Record.lookup_cons_self] at hu
          cases hu
          exact hfits
        · have hne : other ≠ name := by
            rintro rfl
            exact hd.1 (List.mem_map.mpr ⟨(other, schema'), hrest, rfl⟩)
          rw [Record.lookup_cons_of_ne hne] at hu
          exact hall other schema' u hrest hu
    all_goals cases h

theorem exists_record_of_check_fields {entries : List (String × Schema)} (h : (fields entries).check v = .ok w) :
    ∃ r q, v = .record r ∧ checkFields entries r = .ok q ∧ w = .record q := by
  cases v with
  | record r =>
    rw [check_fields] at h
    cases hq : checkFields entries r with
    | error issues =>
      rw [hq] at h
      cases h
    | ok q =>
      rw [hq] at h
      cases h
      exact ⟨r, q, rfl, hq, rfl⟩
  | _ => cases h

theorem fits_of_check (hp : schema.IsPlain) (h : schema.check v = .ok w) : Fits true schema w := by
  induction hp generalizing v w with
  | text minimum =>
    cases v with
    | text s =>
      rw [check] at h
      split at h
      · cases h
      · rename_i hs
        cases h
        exact .text fun _ => Nat.not_lt.mp hs
    | _ => cases h
  | number _ =>
    cases v with
    | number x => exact fits_of_checkNumber h
    | _ => cases h
  | oneOf options =>
    cases v with
    | text s =>
      rw [check] at h
      split at h
      · rename_i hs
        cases h
        exact .oneOf hs
      · cases h
    | _ => cases h
  | nullable _ ih =>
    rw [check_nullable] at h
    split at h
    · rename_i hv
      cases h
      rw [hv]
      exact .null
    · exact .present (ih h)
  | @listOf inner _ ih =>
    cases v with
    | list items =>
      rw [check_listOf] at h
      cases ho : checkMembers inner.check 0 items with
      | error issues =>
        rw [ho] at h
        cases h
      | ok others =>
        rw [ho] at h
        cases h
        exact .list (fits_of_checkMembers (fun v w => ih) ho)
    | _ => cases h
  | @fields entries hd _ _ ih =>
    obtain ⟨r, q, -, hq, rfl⟩ := exists_record_of_check_fields h
    obtain ⟨hn, hall⟩ := fits_of_checkFields hd (fun entry he v w => ih entry he) hq
    exact .record (by rwa [hn]) (fun name => by rw [hn]) hall

theorem exists_record_of_check {entries : List (String × Schema)} (hp : (fields entries).IsPlain)
    (h : (fields entries).check v = .ok w) :
    ∃ q, w = .record q ∧ Record.names q = entries.map Prod.fst := by
  cases hp with
  | fields hd _ hplain =>
    obtain ⟨_, q, -, hq, rfl⟩ := exists_record_of_check_fields h
    exact ⟨q, rfl, (fits_of_checkFields hd (fun entry he v w => fits_of_check (hplain entry he)) hq).1⟩

end Soundness

section Converse

theorem members_accepted {check : Value → Except (List Issue) Value} {items others : List Value} {position : Nat}
    (h : checkMembers check position items = .ok others) : ∀ v ∈ items, ∃ w, check v = .ok w := by
  induction items generalizing position others with
  | nil => simp
  | cons v items ih =>
    rw [checkMembers_cons] at h
    split at h
    · rename_i w ws hw hws
      intro u hu
      rcases List.mem_cons.mp hu with rfl | hu
      · exact ⟨w, hw⟩
      · exact ih hws u hu
    all_goals cases h

theorem entries_accepted {entries : List (String × Schema)} {r q : Record Value}
    (h : checkFields entries r = .ok q) :
    ∀ entry ∈ entries, ∃ w, entry.2.check ((r.lookup entry.1).getD .undefined) = .ok w := by
  induction entries generalizing q with
  | nil => simp
  | cons entry entries ih =>
    rw [checkFields_cons] at h
    split at h
    · rename_i w more hw hmore
      intro other ho
      rcases List.mem_cons.mp ho with rfl | ho
      · exact ⟨w, hw⟩
      · exact ih hmore other ho
    all_goals cases h

/-- What has the type of a schema and is accepted keeps within the bounds. -/
theorem Fits.of_accepted (h : Fits false schema v) (hc : schema.check v = .ok w) : Fits true schema v := by
  induction h generalizing w with
  | @text minimum s _ =>
    refine .text fun _ => Nat.not_lt.mp fun hs => ?_
    rw [check, if_pos hs] at hc
    cases hc
  | number _ =>
    rw [check] at hc
    obtain rfl := eq_of_checkNumber hc
    exact fits_of_checkNumber hc
  | oneOf hs => exact .oneOf hs
  | null => exact .null
  | @present inner v hv ih =>
    by_cases hn : v = .null
    · subst hn
      exact .null
    · rw [check_nullable, if_neg hn] at hc
      exact .present (ih hc)
  | @list inner items _ ih =>
    rw [check_listOf] at hc
    cases ho : checkMembers inner.check 0 items with
    | error issues =>
      rw [ho] at hc
      cases hc
    | ok others =>
      refine .list fun u hu => ?_
      obtain ⟨w, hw⟩ := members_accepted ho u hu
      exact ih u hu hw
  | @record entries r hd hn _ ih =>
    rw [check_fields] at hc
    cases hq : checkFields entries r with
    | error issues =>
      rw [hq] at hc
      cases hc
    | ok q =>
      refine .record hd hn fun name schema u hs hu => ?_
      obtain ⟨w, hw⟩ := entries_accepted hq _ hs
      rw [hu, Option.getD_some] at hw
      exact ih name schema u hs hu hw

end Converse

end GovernedConfig.Schema
