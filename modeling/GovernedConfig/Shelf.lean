import GovernedConfig.Value.Basic

/-! # Shared values

A shelf keeps lists and records at places, so that several holders of one list see it grow. What is
held inside a list or a record has a place of its own. What a place holds at the moment can be taken
down as a plain value at any time, and a value that was put up comes down unchanged.
-/

namespace GovernedConfig

/-- Something held: a value of its own, or what stands at a place of the shelf. -/
inductive Slot where
  | own (v : Value)
  | shared (place : Nat)
  deriving DecidableEq, Inhabited

/-- What stands at a place. -/
inductive Cell where
  | list (slots : List Slot)
  | record (slots : Record Slot)
  deriving DecidableEq

/-- Where a value is written down: the key of a hook, and the position of a step in its action. -/
abbrev Spot := Nat × Nat

structure Shelf where
  cells : Array Cell := #[]
  /-- What is held of values that are written down once and used many times. -/
  constants : List (Spot × Slot) := []

namespace Shelf

/-- What a slot holds as a plain value, to a depth. -/
def valueAt (cells : Array Cell) : (depth : Nat) → Slot → Value
  | _, .own v => v
  | 0, .shared _ => .undefined
  | depth + 1, .shared place =>
    match cells[place]? with
    | none => .undefined
    | some (.list slots) => .list (slots.map (valueAt cells depth))
    | some (.record slots) => .record (slots.map fun (name, slot) => (name, valueAt cells depth slot))

/-- What a slot holds at the moment; nothing that was put up is deeper than there are places. -/
def value (s : Shelf) (slot : Slot) : Value := valueAt s.cells s.cells.size slot

def put (cell : Cell) (s : Shelf) : Slot × Shelf := (.shared s.cells.size, { s with cells := s.cells.push cell })

mutual

/-- Holds a value; every list and every record in it gets a place. -/
def hold : Value → Shelf → Slot × Shelf
  | .list items, s =>
    let (slots, s) := holdAll items s
    s.put (.list slots)
  | .record entries, s =>
    let (slots, s) := holdEntries entries s
    s.put (.record slots)
  | v, s => (.own v, s)

def holdAll : List Value → Shelf → List Slot × Shelf
  | [], s => ([], s)
  | v :: vs, s =>
    let (slot, s) := hold v s
    let (slots, s) := holdAll vs s
    (slot :: slots, s)

def holdEntries : List (String × Value) → Shelf → Record Slot × Shelf
  | [], s => ([], s)
  | (name, v) :: rest, s =>
    let (slot, s) := hold v s
    let (slots, s) := holdEntries rest s
    ((name, slot) :: slots, s)

end

/-- Holds a value that is written down at a spot, once. -/
def holdConstant (spot : Spot) (v : Value) (s : Shelf) : Slot × Shelf :=
  match s.constants.lookup spot with
  | some slot => (slot, s)
  | none =>
    let (slot, s) := hold v s
    (slot, { s with constants := (spot, slot) :: s.constants })

/-- A value that is written down at a spot, as it has become. -/
def constant (s : Shelf) (spot : Spot) (v : Value) : Value :=
  match s.constants.lookup spot with
  | some slot => s.value slot
  | none => v

def cell? (s : Shelf) : Slot → Option Cell
  | .own _ => none
  | .shared place => s.cells[place]?

def slots? (s : Shelf) (slot : Slot) : Option (List Slot) :=
  match slot, s.cell? slot with
  | _, some (.list slots) => some slots
  | .own v, none => v.walk?.map (List.map .own)
  | _, _ => none

/-- What a slot answers to a name; `undefined` and `null` answer nothing. -/
def member? (s : Shelf) (slot : Slot) (name : String) : Option Slot :=
  match slot, s.cell? slot with
  | _, some (.list slots) =>
    match Record.index? name with
    | some i => some (slots[i]?.getD (.own .undefined))
    | none => some (.own (Value.besideItems slots.length name))
  | _, some (.record slots) => some ((slots.lookup name).getD (.own (Value.inherited .record name)))
  | .own v, none => (v.member? name).map .own
  | .shared _, none => none

/-- The shelf after a list took one more member; nothing else takes one. -/
def push? (s : Shelf) (slot added : Slot) : Option Shelf :=
  match slot, s.cell? slot with
  | .shared place, some (.list slots) =>
    some { s with cells := s.cells.setIfInBounds place (.list (slots ++ [added])) }
  | _, _ => none

/-- Whatever stands on the one shelf stands on the other, at the same place. -/
def Keeps (s t : Shelf) : Prop :=
  ∀ (place : Nat) (cell : Cell), s.cells[place]? = some cell → t.cells[place]? = some cell

theorem Keeps.trans {s t u : Shelf} (h : s.Keeps t) (h' : t.Keeps u) : s.Keeps u :=
  fun place cell hp => h' place cell (h place cell hp)

theorem keeps_put (cell : Cell) (s : Shelf) : s.Keeps (s.put cell).2 := by
  intro place c h
  have hlt := (Array.getElem?_eq_some_iff.mp h).1
  rw [put, Array.getElem?_push_lt hlt, ← h, Array.getElem?_eq_getElem hlt]

mutual

theorem keeps_hold (v : Value) (s : Shelf) : s.Keeps (hold v s).2 ∧ s.cells.size ≤ (hold v s).2.cells.size := by
  cases v with
  | list items =>
    have h := keeps_holdAll items s
    simp only [hold]
    exact ⟨h.1.trans (keeps_put _ _), by simp only [put, Array.size_push]; omega⟩
  | record entries =>
    have h := keeps_holdEntries entries s
    simp only [hold]
    exact ⟨h.1.trans (keeps_put _ _), by simp only [put, Array.size_push]; omega⟩
  | _ => exact ⟨fun _ _ h => h, Nat.le_refl _⟩

theorem keeps_holdAll (vs : List Value) (s : Shelf) :
    s.Keeps (holdAll vs s).2 ∧ s.cells.size ≤ (holdAll vs s).2.cells.size := by
  cases vs with
  | nil => exact ⟨fun _ _ h => h, Nat.le_refl _⟩
  | cons v vs =>
    have h := keeps_hold v s
    have hs := keeps_holdAll vs (hold v s).2
    simp only [holdAll]
    exact ⟨h.1.trans hs.1, Nat.le_trans h.2 hs.2⟩

theorem keeps_holdEntries (r : List (String × Value)) (s : Shelf) :
    s.Keeps (holdEntries r s).2 ∧ s.cells.size ≤ (holdEntries r s).2.cells.size := by
  cases r with
  | nil => exact ⟨fun _ _ h => h, Nat.le_refl _⟩
  | cons entry r =>
    have h := keeps_hold entry.2 s
    have hs := keeps_holdEntries r (hold entry.2 s).2
    simp only [holdEntries]
    exact ⟨h.1.trans hs.1, Nat.le_trans h.2 hs.2⟩

end

theorem cell_put (cell : Cell) (s : Shelf) : (s.put cell).2.cells[s.cells.size]? = some cell := by
  rw [put, Array.getElem?_push_size]

mutual

/-- A value that was put up comes down unchanged, also after more was put up. -/
theorem valueAt_hold (v : Value) (s t : Shelf) (depth : Nat) (ht : (hold v s).2.Keeps t)
    (hd : (hold v s).2.cells.size ≤ s.cells.size + depth) : valueAt t.cells depth (hold v s).1 = v := by
  cases v with
  | list items =>
    have hk := (keeps_holdAll items s).2
    simp only [hold, put, Array.size_push] at hd
    obtain ⟨d, rfl⟩ : ∃ d, depth = d + 1 := ⟨depth - 1, by omega⟩
    have hc := ht _ _ (cell_put (.list (holdAll items s).1) (holdAll items s).2)
    simp only [hold, put, valueAt, hc]
    rw [valueAt_holdAll items s t d ((keeps_put _ _).trans ht) (by omega)]
  | record entries =>
    have hk := (keeps_holdEntries entries s).2
    simp only [hold, put, Array.size_push] at hd
    obtain ⟨d, rfl⟩ : ∃ d, depth = d + 1 := ⟨depth - 1, by omega⟩
    have hc := ht _ _ (cell_put (.record (holdEntries entries s).1) (holdEntries entries s).2)
    simp only [hold, put, valueAt, hc]
    rw [valueAt_holdEntries entries s t d ((keeps_put _ _).trans ht) (by omega)]
  | _ => cases depth <;> rfl

theorem valueAt_holdAll (vs : List Value) (s t : Shelf) (depth : Nat) (ht : (holdAll vs s).2.Keeps t)
    (hd : (holdAll vs s).2.cells.size ≤ s.cells.size + depth) :
    (holdAll vs s).1.map (valueAt t.cells depth) = vs := by
  cases vs with
  | nil => rfl
  | cons v vs =>
    have hv := keeps_hold v s
    have hvs := keeps_holdAll vs (hold v s).2
    simp only [holdAll] at ht hd ⊢
    rw [List.map_cons, valueAt_hold v s t depth (hvs.1.trans ht) (by omega),
      valueAt_holdAll vs (hold v s).2 t depth ht (by omega)]

theorem valueAt_holdEntries (r : List (String × Value)) (s t : Shelf) (depth : Nat)
    (ht : (holdEntries r s).2.Keeps t) (hd : (holdEntries r s).2.cells.size ≤ s.cells.size + depth) :
    (holdEntries r s).1.map (fun (name, slot) => (name, valueAt t.cells depth slot)) = r := by
  cases r with
  | nil => rfl
  | cons entry r =>
    have hv := keeps_hold entry.2 s
    have hr := keeps_holdEntries r (hold entry.2 s).2
    simp only [holdEntries] at ht hd ⊢
    rw [List.map_cons, valueAt_hold entry.2 s t depth (hr.1.trans ht) (by omega),
      valueAt_holdEntries r (hold entry.2 s).2 t depth ht (by omega)]

end

theorem value_hold (v : Value) (s : Shelf) : (hold v s).2.value (hold v s).1 = v :=
  valueAt_hold v s _ _ (fun _ _ h => h) (Nat.le_add_left _ _)

end Shelf

end GovernedConfig
