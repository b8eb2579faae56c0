import GovernedConfig.InfraConfig.Rules
import GovernedConfig.Proofs.Value.Whole

/-! # Stamps of a history

The order of the entries of a status history, as the rule that checks it sees it, and how a history
goes on.
-/

namespace GovernedConfig.InfraConfig

open Rules

/-- An entry is stamped with a number that equals an integer. -/
def IsStamped (entry : Value) (n : Int) : Prop := ∃ v, stampOf entry = some v ∧ v.IsWhole n

/-- The stamps of a history are integers from zero up and never go back. -/
structure InOrder (entries : List Value) : Prop where
  stamped : ∀ entry ∈ entries, ∃ n : Int, 0 ≤ n ∧ IsStamped entry n
  sorted : entries.Pairwise fun a b => ∀ m n, IsStamped a m → IsStamped b n → m ≤ n

theorem IsStamped.unique {entry : Value} {m n : Int} (hm : IsStamped entry m) (hn : IsStamped entry n) :
    m = n := by
  obtain ⟨v, hv, hm⟩ := hm
  obtain ⟨w, hw, hn⟩ := hn
  rw [hv] at hw
  cases hw
  exact hm.unique hn

theorem stampOf_statusUpdate (status stamp : Value) : stampOf (statusUpdate status stamp) = some stamp := rfl

theorem inherited_stamp (kind : ValueKind) : Value.inherited kind "statusUpdateTs" = .undefined := by
  cases kind <;> decide

theorem truthy_of_stampOf {entry : Value} {x : Binary64} (h : stampOf entry = some (.number x)) :
    entry.truthy = true := by
  have hi : Record.index? "statusUpdateTs" = none := by decide
  cases entry with
  | callable c => rfl
  | list items => rfl
  | record entries => rfl
  | undefined => cases h
  | null => cases h
  | text s => simp [stampOf, Value.member?, hi, inherited_stamp] at h
  | _ => simp [stampOf, Value.member?, inherited_stamp] at h

section Order

variable {before : Option Binary64} {stamp : Value} {x : Binary64}

theorem not_less_zero {n : Int} (h0 : 0 ≤ n) (hn : x.equalsInt n = true) : x.less 0 = false := by
  change x.less (.ofNat 0) = false
  rw [Binary64.less_of_equalsInt hn Binary64.zero_equalsInt, decide_eq_false (Int.not_lt.mpr h0)]

theorem stampFits_eq_some (h : stampFits before stamp = some x) :
    stamp = .number x ∧ ∃ n : Int, 0 ≤ n ∧ x.equalsInt n = true ∧
      ∀ y m, before = some y → y.equalsInt m = true → m ≤ n := by
  cases stamp with
  | number y =>
    simp only [stampFits] at h
    split at h
    · rename_i hc
      cases h
      simp only [Bool.and_eq_true, Bool.not_eq_true'] at hc
      obtain ⟨⟨hi, h0⟩, hb⟩ := hc
      obtain ⟨n, hn⟩ := Binary64.isInteger_iff.mp hi
      change x.less (.ofNat 0) = false at h0
      rw [Binary64.less_of_equalsInt hn Binary64.zero_equalsInt, decide_eq_false_iff_not, Int.not_lt] at h0
      refine ⟨rfl, n, h0, hn, ?_⟩
      rintro y m rfl hm
      rw [Option.any_some, Binary64.less_of_equalsInt hn hm, decide_eq_false_iff_not, Int.not_lt] at hb
      exact hb
    · cases h
  | _ => cases h

/-- A history that passes the check is in order, and after the stamp before it. -/
theorem inOrder_of_firstOutOfOrder {entries : List Value} {position : Nat}
    (h : firstOutOfOrder before position entries = some none) (hb : ∀ y, before = some y → y.isInteger = true) :
    InOrder entries ∧ ∀ y m, before = some y → y.equalsInt m = true →
      ∀ entry ∈ entries, ∀ n, IsStamped entry n → m ≤ n := by
  induction entries generalizing before position with
  | nil => exact ⟨⟨by simp, .nil⟩, by simp⟩
  | cons entry entries ih =>
    unfold firstOutOfOrder at h
    cases hs : stampOf entry with
    | none => simp [hs] at h
    | some stamp =>
      simp only [hs] at h
      cases hf : stampFits before stamp with
      | none => simp [hf] at h
      | some x =>
        simp only [hf] at h
        obtain ⟨rfl, n, h0, hn, hle⟩ := stampFits_eq_some hf
        have hentry : IsStamped entry n := ⟨_, hs, x, rfl, hn⟩
        obtain ⟨hin, hrest⟩ := ih h fun y hy => by cases hy; exact Binary64.isInteger_iff.mpr ⟨n, hn⟩
        refine ⟨⟨?_, .cons (fun b hb m k hm hk => ?_) hin.sorted⟩, fun y m hy hm b hb k hk => ?_⟩
        · intro b hb
          rcases List.mem_cons.mp hb with rfl | hb
          · exact ⟨n, h0, hentry⟩
          · exact hin.stamped b hb
        · rw [hm.unique hentry]
          exact hrest x n rfl hn b hb k hk
        · have hmn := hle y m hy hm
          rcases List.mem_cons.mp hb with rfl | hb
          · rwa [hk.unique hentry]
          · exact hmn.trans (hrest x n rfl hn b hb k hk)

end Order

section Drops

inductive DropsAt (entries : List Value) : Nat → Prop
  | intro {i : Nat} {a b : Value} {m n : Int} : entries[i]? = some a → entries[i + 1]? = some b → IsStamped a m →
      IsStamped b n → n < m → DropsAt entries (i + 1)

structure FirstDrop (entries : List Value) (i : Nat) : Prop where
  drops : DropsAt entries i
  first : ∀ j < i, ¬ DropsAt entries j

variable {before entry : Value} {entries : List Value} {m n : Int}

theorem not_dropsAt_singleton (i : Nat) : ¬ DropsAt [entry] i := by
  rintro ⟨-, hb, -⟩
  cases hb

/-- Behind another entry the entries drop where they did, and the first of them perhaps as well. -/
theorem dropsAt_cons_iff (hb : IsStamped before m) (he : IsStamped entry n) {i : Nat} :
    DropsAt (before :: entry :: entries) i ↔ (i = 1 ∧ n < m) ∨ ∃ j, i = j + 1 ∧ DropsAt (entry :: entries) j := by
  constructor
  · rintro @⟨i, a, b, k, l, ha, hb', hk, hl, hlt⟩
    cases i with
    | zero =>
      cases ha
      cases hb'
      rw [hk.unique hb, hl.unique he] at hlt
      exact .inl ⟨rfl, hlt⟩
    | succ i => exact .inr ⟨i + 1, rfl, .intro ha hb' hk hl hlt⟩
  · rintro (⟨rfl, hlt⟩ | ⟨_, rfl, @⟨i, a, b, k, l, ha, hb', hk, hl, hlt⟩⟩)
    · exact .intro rfl rfl hb he hlt
    · exact .intro (i := i + 1) ha hb' hk hl hlt

theorem stampFits_of_equalsInt {x y : Binary64} (h0 : 0 ≤ n) (hn : x.equalsInt n = true)
    (hm : y.equalsInt m = true) : stampFits (some y) (.number x) = if n < m then none else some x := by
  have hbefore : x.less y = decide (n < m) := Binary64.less_of_equalsInt hn hm
  simp only [stampFits, Binary64.isInteger_iff.mpr ⟨n, hn⟩, not_less_zero h0 hn, Option.any_some, hbefore]
  by_cases h : n < m <;> simp [h]

/-- What the check finds in entries that are stamped from zero up: the first drop, or nothing if none drops. -/
inductive Finds (entries : List Value) (offset : Nat) : Option (Nat × Value) → Prop
  | nothing : (∀ i, ¬ DropsAt entries i) → Finds entries offset none
  | drop {i : Nat} {entry : Value} {x : Binary64} : FirstDrop entries i → entries[i]? = some entry →
      stampOf entry = some (.number x) → Finds entries offset (some (offset + i, .number x))

/-- The recursion carries the entry before the checked ones, whose stamp it compares with. -/
theorem finds_after {x : Binary64} (hb : stampOf before = some (.number x)) (hm : x.equalsInt m = true)
    (hs : ∀ entry ∈ entries, ∃ n : Int, 0 ≤ n ∧ IsStamped entry n) (position : Nat) :
    ∃ found, firstOutOfOrder (some x) (position + 1) entries = some found ∧
      Finds (before :: entries) position found := by
  induction entries generalizing before x m position with
  | nil => exact ⟨none, rfl, .nothing not_dropsAt_singleton⟩
  | cons entry entries ih =>
    obtain ⟨n, h0, stamp, hstamp, y, rfl, hy⟩ := hs entry (List.mem_cons_self ..)
    have hbefore : IsStamped before m := ⟨_, hb, x, rfl, hm⟩
    have hentry : IsStamped entry n := ⟨_, hstamp, y, rfl, hy⟩
    have hcons : ∀ i, DropsAt (before :: entry :: entries) i ↔
        (i = 1 ∧ n < m) ∨ ∃ j, i = j + 1 ∧ DropsAt (entry :: entries) j := fun i => dropsAt_cons_iff hbefore hentry
    rw [firstOutOfOrder]
    simp only [hstamp, stampFits_of_equalsInt h0 hy hm]
    by_cases hlt : n < m
    · rw [if_pos hlt]
      refine ⟨_, rfl, .drop (i := 1) ⟨(hcons 1).mpr (.inl ⟨rfl, hlt⟩), fun j hj hd => ?_⟩ rfl hstamp⟩
      cases hd
      omega
    · rw [if_neg hlt]
      obtain ⟨found, hf, hfinds⟩ := ih hstamp hy (fun other ho => hs other (List.mem_cons_of_mem entry ho))
        (position + 1)
      refine ⟨found, hf, ?_⟩
      cases hfinds with
      | nothing hno =>
        refine .nothing fun i hd => ?_
        rcases (hcons i).mp hd with ⟨-, h⟩ | ⟨j, -, h⟩
        · exact hlt h
        · exact hno j h
      | @drop i e x hfirst he hs' =>
        rw [Nat.add_assoc, Nat.add_comm 1 i]
        refine .drop (i := i + 1) ⟨(hcons _).mpr (.inr ⟨i, rfl, hfirst.drops⟩), fun j hj hd => ?_⟩ he hs'
        rcases (hcons j).mp hd with ⟨-, h⟩ | ⟨k, rfl, h⟩
        · exact hlt h
        · exact hfirst.first k (Nat.lt_of_succ_lt_succ hj) h

theorem finds_of_stamped (hs : ∀ entry ∈ entries, ∃ n : Int, 0 ≤ n ∧ IsStamped entry n) :
    ∃ found, firstOutOfOrder none 0 entries = some found ∧ Finds entries 0 found := by
  cases entries with
  | nil =>
    refine ⟨none, rfl, .nothing ?_⟩
    rintro _ ⟨ha, -⟩
    cases ha
  | cons entry entries =>
    obtain ⟨n, h0, stamp, hstamp, x, rfl, hx⟩ := hs entry (List.mem_cons_self ..)
    have hfits : stampFits none (.number x) = some x := by
      simp [stampFits, Binary64.isInteger_iff.mpr ⟨n, hx⟩, not_less_zero h0 hx]
    rw [firstOutOfOrder]
    simp only [hstamp, hfits]
    exact finds_after hstamp hx (fun other ho => hs other (List.mem_cons_of_mem entry ho)) 0

theorem InOrder.not_dropsAt (h : InOrder entries) (i : Nat) : ¬ DropsAt entries i := by
  rintro ⟨ha, hb, hm, hn, hlt⟩
  obtain ⟨hi, rfl⟩ := List.getElem?_eq_some_iff.mp ha
  obtain ⟨hj, rfl⟩ := List.getElem?_eq_some_iff.mp hb
  have hle := List.pairwise_iff_getElem.mp h.sorted _ _ hi hj (Nat.lt_succ_self _) _ _ hm hn
  omega

theorem FirstDrop.unique {i j : Nat} (hi : FirstDrop entries i) (hj : FirstDrop entries j) : i = j := by
  rcases Nat.lt_trichotomy i j with h | h | h
  · exact (hj.first i h hi.drops).elim
  · exact h
  · exact (hi.first j h hj.drops).elim

theorem no_drop_or_firstDrop (hs : ∀ entry ∈ entries, ∃ n : Int, 0 ≤ n ∧ IsStamped entry n) :
    (∀ i, ¬ DropsAt entries i) ∨ ∃ i entry x, FirstDrop entries i ∧ entries[i]? = some entry ∧
      stampOf entry = some (.number x) := by
  obtain ⟨found, -, hfinds⟩ := finds_of_stamped hs
  cases hfinds with
  | nothing hno => exact .inl hno
  | drop hfirst he hx => exact .inr ⟨_, _, _, hfirst, he, hx⟩

theorem firstOutOfOrder_of_no_drop (hs : ∀ entry ∈ entries, ∃ n : Int, 0 ≤ n ∧ IsStamped entry n)
    (hno : ∀ i, ¬ DropsAt entries i) : firstOutOfOrder none 0 entries = some none := by
  obtain ⟨found, hf, hfinds⟩ := finds_of_stamped hs
  cases hfinds with
  | nothing _ => exact hf
  | drop hfirst _ _ => exact (hno _ hfirst.drops).elim

theorem firstOutOfOrder_of_firstDrop (hs : ∀ entry ∈ entries, ∃ n : Int, 0 ≤ n ∧ IsStamped entry n) {i : Nat}
    {x : Binary64} (hi : FirstDrop entries i) (he : entries[i]? = some entry) (hx : stampOf entry = some (.number x)) :
    firstOutOfOrder none 0 entries = some (some (i, .number x)) := by
  obtain ⟨found, hf, hfinds⟩ := finds_of_stamped hs
  cases hfinds with
  | nothing hno => exact (hno i hi.drops).elim
  | drop hfirst he' hx' =>
    cases hi.unique hfirst
    cases he.symm.trans he'
    cases hx.symm.trans hx'
    rwa [Nat.zero_add] at hf

theorem firstOutOfOrder_of_inOrder (h : InOrder entries) : firstOutOfOrder none 0 entries = some none :=
  firstOutOfOrder_of_no_drop h.stamped h.not_dropsAt

end Drops

section Growth

variable {entries : List Value}

theorem InOrder.append {entry : Value} {n : Int} (h : InOrder entries) (hn : 0 ≤ n) (he : IsStamped entry n)
    (hl : ∀ last m, entries.getLast? = some last → IsStamped last m → m ≤ n) :
    InOrder (entries ++ [entry]) := by
  constructor
  · intro b hb
    rcases List.mem_append.mp hb with hb | hb
    · exact h.stamped b hb
    · rw [List.mem_singleton.mp hb]
      exact ⟨n, hn, he⟩
  · rw [List.pairwise_append]
    refine ⟨h.sorted, List.pairwise_singleton _ _, fun a ha b hb m k hm hk => ?_⟩
    rw [List.mem_singleton.mp hb] at hk
    rw [hk.unique he]
    obtain ⟨front, last, rfl⟩ : ∃ front last, entries = front ++ [last] :=
      ⟨entries.dropLast, entries.getLast (List.ne_nil_of_mem ha), (List.dropLast_concat_getLast _).symm⟩
    have hlast := hl last
    rw [List.getLast?_concat] at hlast
    rcases List.mem_append.mp ha with ha | ha
    · obtain ⟨i, -, hi⟩ := h.stamped last (by simp)
      exact ((List.pairwise_append.mp h.sorted).2.2 a ha last (by simp) m i hm hi).trans (hlast i rfl hi)
    · rw [List.mem_singleton.mp ha] at hm
      exact hlast m rfl hm

theorem InOrder.of_stamps {others : List Value} (h : InOrder entries) (hl : entries.length = others.length)
    (hs : ∀ (i : Nat) a b, entries[i]? = some a → others[i]? = some b → ∀ n, IsStamped a n → IsStamped b n) :
    InOrder others := by
  have hback : ∀ {i : Nat} {b}, others[i]? = some b →
      ∃ a n, entries[i]? = some a ∧ 0 ≤ n ∧ IsStamped a n ∧ IsStamped b n := by
    intro i b hb
    obtain ⟨hi, -⟩ := List.getElem?_eq_some_iff.mp hb
    have ha : entries[i]? = some entries[i] := List.getElem?_eq_getElem (hl ▸ hi)
    obtain ⟨n, h0, hn⟩ := h.stamped entries[i] (List.getElem_mem _)
    exact ⟨entries[i], n, ha, h0, hn, hs i _ b ha hb n hn⟩
  constructor
  · intro b hb
    obtain ⟨i, hi⟩ := List.mem_iff_getElem?.mp hb
    obtain ⟨a, n, -, h0, -, hn⟩ := hback hi
    exact ⟨n, h0, hn⟩
  · rw [List.pairwise_iff_getElem]
    intro i j hi hj hij m n hm hn
    obtain ⟨a, m', ha, -, ham, hm'⟩ := hback (List.getElem?_eq_getElem hi)
    obtain ⟨b, n', hb, -, hbn, hn'⟩ := hback (List.getElem?_eq_getElem hj)
    obtain ⟨hia, rfl⟩ := List.getElem?_eq_some_iff.mp ha
    obtain ⟨hjb, rfl⟩ := List.getElem?_eq_some_iff.mp hb
    rw [hm.unique hm', hn.unique hn']
    exact List.pairwise_iff_getElem.mp h.sorted i j hia hjb hij m' n' ham hbn

end Growth

end GovernedConfig.InfraConfig
