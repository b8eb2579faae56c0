import Mathlib.Data.List.Induction
import Mathlib.Tactic.SplitIfs
import GovernedConfig.Proofs.Value.Records

/-! # Property order

Array indices come first in a record, by their size, and the other names come after them, each name once. Entries
that are written over those of another record take their places in this order.
-/

namespace GovernedConfig.Record

variable {α : Type}

def isIndex (name : String) : Bool := (index? name).isSome

/-- The order of two names in a record: an index comes before greater ones and before names that are none, and names
that are none are only apart. -/
def Precedes (former latter : String) : Prop :=
  match index? former, index? latter with
  | some i, some j => i < j
  | some _, none => True
  | none, some _ => False
  | none, none => former ≠ latter

instance (former latter : String) : Decidable (Precedes former latter) := by
  unfold Precedes
  split <;> infer_instance

def InOrder (r : Record α) : Prop := r.Pairwise fun former latter => Precedes former.1 latter.1

instance (r : Record α) : Decidable r.InOrder := inferInstanceAs (Decidable (List.Pairwise _ r))

theorem Precedes.ne {former latter : String} (h : Precedes former latter) : former ≠ latter := by
  rintro rfl
  unfold Precedes at h
  split at h <;> simp_all

theorem InOrder.nodup {r : Record α} (h : r.InOrder) : r.names.Nodup :=
  List.pairwise_map.mpr (h.imp Precedes.ne)

section Overlay

variable {r lower upper : Record α} {name : String} {a : α}

theorem overlay_concat (lower upper : Record α) (entry : String × α) :
    overlay lower (upper ++ [entry]) = (overlay lower upper).insert entry.1 entry.2 := by
  unfold overlay
  rw [List.foldl_append]
  rfl

theorem holds_append (r s : Record α) (name : String) : holds (r ++ s) name = (r.holds name || s.holds name) :=
  List.any_append

theorem not_holds_of_precedes (h : ∀ entry ∈ r, Precedes entry.1 name) : r.holds name = false := by
  rw [holds, List.any_eq_false]
  intro entry he
  simpa using (h entry he).ne

theorem lookup_concat (h : ∀ entry ∈ r, Precedes entry.1 name) (other : String) :
    (r ++ [(name, a)]).lookup other = if other = name then some a else r.lookup other := by
  rw [List.lookup_append]
  by_cases ho : other = name
  · subst ho
    rw [if_pos rfl, lookup_eq_none (not_holds_of_precedes h), Option.none_or, lookup_cons_self]
  · rw [if_neg ho, lookup_cons_of_ne ho, List.lookup_nil, Option.or_none]

def indexed (r : Record α) : Record α := r.filter fun entry => isIndex entry.1

/-- The entries of a record, with what another one holds under their names. -/
def refreshed (lower upper : Record α) : Record α :=
  lower.map fun entry => (entry.1, (upper.lookup entry.1).getD entry.2)

/-- The entries of a record whose names are no indices and not held by another one. -/
def additions (lower upper : Record α) : Record α :=
  upper.filter fun entry => !isIndex entry.1 && !lower.holds entry.1

theorem holds_refreshed (lower upper : Record α) (name : String) :
    (lower.refreshed upper).holds name = lower.holds name := by
  unfold holds refreshed
  rw [List.any_map]
  rfl

theorem not_holds_of_isIndex (hi : isIndex name = true) (hr : ∀ entry ∈ r, isIndex entry.1 = false) :
    r.holds name = false := by
  rw [holds, List.any_eq_false]
  intro entry he hname
  have hindex := hr entry he
  rw [beq_iff_eq.mp hname, hi] at hindex
  cases hindex

theorem map_of_not_holds (h : r.holds name = false) :
    (r.map fun entry => if entry.1 == name then (name, a) else entry) = r := by
  have hsame : ∀ entry ∈ r, (if entry.1 == name then (name, a) else entry) = id entry := fun entry he =>
    if_neg (List.any_eq_false.mp h entry he)
  rw [List.map_congr_left hsame, List.map_id]

theorem refreshed_nil (lower : Record α) : lower.refreshed [] = lower := by
  unfold refreshed
  exact List.map_id lower

theorem refreshed_concat (h : ∀ entry ∈ upper, Precedes entry.1 name) :
    lower.refreshed (upper ++ [(name, a)]) =
      (lower.refreshed upper).map fun entry => if entry.1 == name then (name, a) else entry := by
  unfold refreshed
  rw [List.map_map]
  apply List.map_congr_left
  intro entry _
  rw [Function.comp_apply, lookup_concat h]
  by_cases he : entry.1 = name <;> simp [he]

theorem indexed_concat (r : Record α) (name : String) (a : α) :
    indexed (r ++ [(name, a)]) = r.indexed ++ if isIndex name then [(name, a)] else [] := by
  rw [indexed, List.filter_append, List.filter_singleton, Bool.cond_eq_ite]
  rfl

theorem additions_concat (lower upper : Record α) (name : String) (a : α) :
    lower.additions (upper ++ [(name, a)]) =
      lower.additions upper ++ if !isIndex name && !lower.holds name then [(name, a)] else [] := by
  rw [additions, List.filter_append, List.filter_singleton, Bool.cond_eq_ite]
  rfl

theorem insert_index {indices others : Record α} (hi : isIndex name = true)
    (hindices : ∀ entry ∈ indices, isIndex entry.1 = true) (hbefore : ∀ entry ∈ indices, Precedes entry.1 name)
    (hothers : ∀ entry ∈ others, isIndex entry.1 = false) :
    insert (indices ++ others) name a = indices ++ [(name, a)] ++ others := by
  obtain ⟨i, hi'⟩ := Option.isSome_iff_exists.mp hi
  have hnew : holds (indices ++ others) name = false := by
    rw [holds_append, not_holds_of_precedes hbefore, not_holds_of_isIndex hi hothers, Bool.false_or]
  have hpass : ∀ entry ∈ indices, precedes i entry = true := by
    intro entry he
    obtain ⟨j, hj⟩ := Option.isSome_iff_exists.mp (hindices entry he)
    have hp := hbefore entry he
    rw [Precedes, hj, hi'] at hp
    simpa [precedes, hj] using hp
  have hstop : ∀ entry ∈ others, ¬ precedes i entry = true := by
    intro entry he
    rw [precedes, Option.not_isSome_iff_eq_none.mp (Bool.eq_false_iff.mp (hothers entry he))]
    exact Bool.false_ne_true
  have hsplit : others.takeWhile (precedes i) = [] ∧ others.dropWhile (precedes i) = others := by
    cases others with
    | nil => exact ⟨rfl, rfl⟩
    | cons entry others =>
      have hhead := hstop entry List.mem_cons_self
      exact ⟨List.takeWhile_cons_of_neg hhead, List.dropWhile_cons_of_neg hhead⟩
  rw [insert, hnew, if_neg Bool.false_ne_true, hi']
  dsimp only
  rw [List.takeWhile_append_of_pos hpass, List.dropWhile_append_of_pos hpass, hsplit.1, hsplit.2, List.append_nil,
    List.append_assoc]
  rfl

/-- Entries in property order that are written over those of a record whose names are no indices: the indices come
first, what the record held keeps its place, and the rest follows. -/
theorem overlay_eq (hl : ∀ entry ∈ lower, isIndex entry.1 = false) (hu : upper.InOrder) :
    overlay lower upper = upper.indexed ++ (lower.refreshed upper ++ lower.additions upper) := by
  induction upper using List.reverseRecOn with
  | nil =>
    simp [overlay, indexed, additions, refreshed_nil]
  | append_singleton upper entry ih =>
    obtain ⟨name, a⟩ := entry
    obtain ⟨hupper, -, hlast⟩ := List.pairwise_append.mp hu
    have hbefore : ∀ former ∈ upper, Precedes former.1 name :=
      fun former hf => hlast former hf (name, a) List.mem_cons_self
    have hindices : ∀ former ∈ indexed upper, Precedes former.1 name :=
      fun former hf => hbefore former (List.mem_filter.mp hf).1
    have hadded : (lower.additions upper).holds name = false :=
      not_holds_of_precedes fun former hf => hbefore former (List.mem_filter.mp hf).1
    have hnone := not_holds_of_precedes hindices
    rw [overlay_concat, ih hupper, refreshed_concat hbefore, additions_concat, indexed_concat]
    dsimp only
    cases hi : isIndex name with
    | true =>
      have hnumbered : ∀ former ∈ indexed upper, isIndex former.1 = true :=
        fun former hf => (List.mem_filter.mp hf).2
      have hothers : ∀ former ∈ lower.refreshed upper ++ lower.additions upper, isIndex former.1 = false := by
        intro former hf
        rcases List.mem_append.mp hf with hf | hf
        · obtain ⟨entry, he, rfl⟩ := List.mem_map.mp hf
          exact hl entry he
        · simpa using (Bool.and_eq_true_iff.mp (List.mem_filter.mp hf).2).1
      have hkeep : (lower.refreshed upper).holds name = false := by
        rw [holds_refreshed]
        exact not_holds_of_isIndex hi hl
      rw [insert_index hi hnumbered hindices hothers, map_of_not_holds hkeep]
      simp
    | false =>
      cases hheld : lower.holds name with
      | true =>
        have hthere : holds (indexed upper ++ (lower.refreshed upper ++ lower.additions upper)) name = true := by
          rw [holds_append, holds_append, holds_refreshed, hheld, Bool.true_or, Bool.or_true]
        rw [insert, if_pos hthere, List.map_append, List.map_append, map_of_not_holds hnone, map_of_not_holds hadded]
        simp
      | false =>
        have hkeep : (lower.refreshed upper).holds name = false := by rw [holds_refreshed, hheld]
        have hnew : holds (indexed upper ++ (lower.refreshed upper ++ lower.additions upper)) name = false := by
          rw [holds_append, holds_append, hnone, hkeep, hadded]
          rfl
        rw [insert_of_new hnew (Option.not_isSome_iff_eq_none.mp (Bool.eq_false_iff.mp hi)), map_of_not_holds hkeep]
        simp

end Overlay

end GovernedConfig.Record
