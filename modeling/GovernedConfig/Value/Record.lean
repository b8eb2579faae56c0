/-! # Records

A record is a list of named entries in property order: names that are array indices come first,
ascending, then the other names in the order of their first insertion. Writing a name that is
already there keeps its position.
-/

namespace GovernedConfig

abbrev Record (α : Type) := List (String × α)

namespace Record

variable {α : Type}

/-- The array index that a name spells canonically. -/
def index? (name : String) : Option Nat :=
  let cs := name.toList
  if cs.isEmpty || !cs.all Char.isDigit || (cs.length > 1 && cs.head? == some '0') then none
  else
    let n := cs.foldl (fun n c => n * 10 + (c.toNat - '0'.toNat)) 0
    if n < 4294967295 then some n else none

def names (r : Record α) : List String := r.map Prod.fst

def holds (r : Record α) (name : String) : Bool := r.any (·.1 == name)

def precedes (i : Nat) (entry : String × α) : Bool :=
  match index? entry.1 with
  | some j => j < i
  | none => false

def insert (r : Record α) (name : String) (a : α) : Record α :=
  if r.holds name then r.map fun entry => if entry.1 == name then (name, a) else entry
  else match index? name with
    | none => r ++ [(name, a)]
    | some i => r.takeWhile (precedes i) ++ (name, a) :: r.dropWhile (precedes i)

theorem lookup_cons_self (name : String) (a : α) (r : Record α) : ((name, a) :: r).lookup name = some a :=
  List.lookup_cons_self

theorem lookup_cons_of_ne {name other : String} (h : other ≠ name) (a : α) (r : Record α) :
    ((name, a) :: r).lookup other = r.lookup other := by
  rw [List.lookup_cons, beq_false_of_ne h]

theorem lookup_eq_none {r : Record α} {name : String} (h : r.holds name = false) : r.lookup name = none := by
  induction r with
  | nil => rfl
  | cons entry r ih =>
    simp only [holds, List.any_cons, Bool.or_eq_false_iff, beq_eq_false_iff_ne] at h
    rw [lookup_cons_of_ne (Ne.symm h.1), ih h.2]

theorem lookup_map_self {r : Record α} {name : String} (h : r.holds name) (a : α) :
    (r.map fun entry => if entry.1 == name then (name, a) else entry).lookup name = some a := by
  induction r with
  | nil => simp [holds] at h
  | cons entry r ih =>
    by_cases hk : entry.1 = name
    · simp [hk]
    · have hr : Record.holds r name := by simpa [holds, hk] using h
      rw [List.map_cons, if_neg (by simpa using hk), lookup_cons_of_ne (Ne.symm hk), ih hr]

theorem lookup_map_of_ne {name other : String} (h : other ≠ name) (r : Record α) (a : α) :
    (r.map fun entry => if entry.1 == name then (name, a) else entry).lookup other = r.lookup other := by
  induction r with
  | nil => rfl
  | cons entry r ih =>
    obtain ⟨k, b⟩ := entry
    rw [List.map_cons]
    by_cases hk : k = name
    · rw [if_pos (by simpa using hk), lookup_cons_of_ne h, hk, lookup_cons_of_ne h, ih]
    · rw [if_neg (by simpa using hk)]
      by_cases ho : other = k
      · rw [ho, lookup_cons_self, lookup_cons_self]
      · rw [lookup_cons_of_ne ho, lookup_cons_of_ne ho, ih]

theorem lookup_insert_self (r : Record α) (name : String) (a : α) : (r.insert name a).lookup name = some a := by
  unfold insert
  split
  · rename_i h; exact lookup_map_self h a
  · rename_i h
    have hr : r.lookup name = none := lookup_eq_none (by simpa using h)
    split
    · rw [List.lookup_append, hr, lookup_cons_self, Option.none_or]
    · rename_i i _
      rw [← List.takeWhile_append_dropWhile (p := precedes i) (l := r), List.lookup_append,
        Option.or_eq_none_iff] at hr
      rw [List.lookup_append, hr.1, lookup_cons_self, Option.none_or]

theorem lookup_insert_of_ne {name other : String} (h : other ≠ name) (r : Record α) (a : α) :
    (r.insert name a).lookup other = r.lookup other := by
  unfold insert
  split
  · exact lookup_map_of_ne h r a
  · split
    · rw [List.lookup_append, lookup_cons_of_ne h, List.lookup_nil, Option.or_none]
    · rename_i i _
      rw [List.lookup_append, lookup_cons_of_ne h, ← List.lookup_append, List.takeWhile_append_dropWhile]

def erase (r : Record α) (name : String) : Record α := r.filter (·.1 != name)

theorem lookup_erase_self (r : Record α) (name : String) : (r.erase name).lookup name = none :=
  lookup_eq_none (by simp [holds, erase])

theorem lookup_erase_of_ne {name other : String} (h : other ≠ name) (r : Record α) :
    (r.erase name).lookup other = r.lookup other := by
  induction r with
  | nil => rfl
  | cons entry r ih =>
    obtain ⟨k, b⟩ := entry
    unfold erase at ih ⊢
    by_cases hk : k = name
    · rw [List.filter_cons_of_neg (by simpa using hk), hk, lookup_cons_of_ne h, ih]
    · rw [List.filter_cons_of_pos (by simpa using hk)]
      by_cases ho : other = k
      · rw [ho, lookup_cons_self, lookup_cons_self]
      · rw [lookup_cons_of_ne ho, lookup_cons_of_ne ho, ih]

/-- The entries of `upper` written over those of `r`. -/
def overlay (r upper : Record α) : Record α := upper.foldl (fun r entry => r.insert entry.1 entry.2) r

def ofEntries (entries : List (String × α)) : Record α := overlay [] entries

end Record

end GovernedConfig
