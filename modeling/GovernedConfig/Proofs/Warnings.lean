import GovernedConfig.Proofs.Journal

/-! # Warnings

While the journal lets warnings through, every warning and every error that it is told becomes a line, provided that it
can be printed; and a line that is there stays there.
-/

namespace GovernedConfig

open Act

namespace Ambient

/-- The journal lets warnings through and can print its labels, and the clock has a date. -/
structure Warns (m : Ambient) : Prop where
  level : ∃ least n, Journal.threshold m = .ok least n ∧
    (least.any fun least => Level.warn.rank < least.rank) = false
  labels : Json.holdsBigint (Journal.entry "" .debug m.context .null .null .null) = false
  dated : (Calendar.stamp? m.clock).isSome = true

/-- Among the lines that the journal got in between there is a warning or an error. -/
def Alarmed (m n : Ambient) : Prop :=
  ∃ told, n.lines = m.lines ++ told ∧ ∃ line ∈ told, Journal.Tells m .warn line ∨ Journal.Tells m .error line

variable {m n k : Ambient} {level : Level}

theorem GrowsTo.tells_iff (h : m.GrowsTo n) {line : String} : Journal.Tells n level line ↔ Journal.Tells m level line := by
  unfold Journal.Tells
  rw [h.clock, h.context]

theorem Alarmed.of_grows (h : m.Alarmed n) (g : n.GrowsTo k) : m.Alarmed k := by
  obtain ⟨told, hn, line, hline, hl⟩ := h
  obtain ⟨more, hk⟩ := g.lines
  refine ⟨told ++ more, ?_, line, List.mem_append_left _ hline, hl⟩
  rw [← hk, hn, List.append_assoc]

theorem GrowsTo.alarmed (g : k.GrowsTo m) (h : m.Alarmed n) : k.Alarmed n := by
  obtain ⟨told, hn, line, hline, hl⟩ := h
  obtain ⟨before, hm⟩ := g.lines
  refine ⟨before ++ told, ?_, line, List.mem_append_right _ hline, ?_⟩
  · rw [hn, ← hm, List.append_assoc]
  · rwa [g.tells_iff, g.tells_iff] at hl

theorem not_alarmed (h : n.lines = m.lines) : ¬ m.Alarmed n := by
  rintro ⟨told, hn, line, hline, -⟩
  rw [h, List.self_eq_append_right] at hn
  rw [hn] at hline
  cases hline

end Ambient

namespace Journal

variable {m n : Ambient}

theorem threshold_eq_ok_iff {least : Option Level} : threshold m = .ok least n ↔
    if m.threshold.isPresent then ∃ name, m.threshold.toText? = some name ∧ least = Level.ofName? name ∧ n = m
    else ∃ known, m.upcoming = .ok known ∧ least = some known.threshold ∧ n = { m with settings := some known } := by
  rw [threshold_eq, Ambient.readSettings_of_upcoming]
  split
  · cases m.threshold.toText? <;> simp [eq_comm]
  · cases m.upcoming <;> simp [eq_comm]

theorem eq_of_threshold {least : Option Level} (h : threshold m = .ok least n) :
    ∃ settings, n = { m with settings } := by
  rw [threshold_eq_ok_iff] at h
  split at h
  · obtain ⟨-, -, -, rfl⟩ := h
    exact ⟨n.settings, rfl⟩
  · obtain ⟨known, -, -, rfl⟩ := h
    exact ⟨_, rfl⟩

theorem threshold_of_grows (g : m.GrowsTo n) {least : Option Level} {m' : Ambient} (h : threshold m = .ok least m') :
    ∃ n', threshold n = .ok least n' := by
  simp only [threshold_eq_ok_iff, g.threshold, g.upcoming] at h ⊢
  split at h
  · rename_i hp
    obtain ⟨name, hname, hl, -⟩ := h
    exact ⟨n, by rw [if_pos hp]; exact ⟨name, hname, hl, rfl⟩⟩
  · rename_i hp
    obtain ⟨known, hk, hl, -⟩ := h
    exact ⟨_, by rw [if_neg hp]; exact ⟨known, hk, hl, rfl⟩⟩

end Journal

namespace Ambient.Warns

variable {m n : Ambient} {level : Level}

theorem of_grows (h : m.Warns) (g : m.GrowsTo n) : n.Warns := by
  obtain ⟨⟨least, m', hl, hlow⟩, hlabels, hdated⟩ := h
  obtain ⟨n', hn⟩ := Journal.threshold_of_grows g hl
  exact ⟨⟨least, n', hn, hlow⟩, g.context ▸ hlabels, g.clock ▸ hdated⟩

/-- What comes of an entry: only its own level can hold it back, and only its data can keep it from being printed. -/
theorem write_eq (h : m.Warns) (level : Level) (phase message : String) (data : Value) :
    ∃ held settings line, (Level.warn.rank ≤ level.rank → held = false) ∧
      (Json.holdsBigint data = false → Journal.Tells m level line) ∧
        Journal.write level (.text phase) (.text message) data m =
          if held = true then .ok () { m with settings }
          else if Json.holdsBigint data = true then .error (.fault .badType) { m with settings }
          else .ok () { m with settings, lines := m.lines ++ [line] } := by
  obtain ⟨⟨least, m', hl, hlow⟩, hlabels, hdated⟩ := h
  obtain ⟨settings, rfl⟩ := Journal.eq_of_threshold hl
  obtain ⟨line, htells, hw⟩ := Journal.write_of_labels hl hlabels hdated level phase message data
  refine ⟨_, settings, line, fun hrank => ?_, htells, hw⟩
  cases least with
  | none => rfl
  | some least =>
    simp only [Option.any_some, decide_eq_false_iff_not] at hlow ⊢
    omega

theorem writes (h : m.Warns) (level : Level) (phase message : String) (data : Value)
    (hd : Json.holdsBigint data = false) : ∃ n, Journal.write level (.text phase) (.text message) data m = .ok () n := by
  obtain ⟨held, settings, line, -, -, hw⟩ := h.write_eq level phase message data
  rw [hw, hd]
  cases held
  · exact ⟨_, rfl⟩
  · exact ⟨_, rfl⟩

theorem alarms (h : m.Warns) (hlevel : level = .warn ∨ level = .error) (phase message : String)
    (data : Value) (hd : Json.holdsBigint data = false) :
    ∃ n, Journal.write level (.text phase) (.text message) data m = .ok () n ∧ m.Alarmed n := by
  obtain ⟨held, settings, line, hheld, htells, hw⟩ := h.write_eq level phase message data
  have hrank : Level.warn.rank ≤ level.rank := by rcases hlevel with rfl | rfl <;> decide
  rw [hw, hheld hrank, hd]
  refine ⟨_, rfl, [line], rfl, line, List.mem_singleton_self line, ?_⟩
  rcases hlevel with rfl | rfl
  · exact .inl (htells hd)
  · exact .inr (htells hd)

theorem fails (h : m.Warns) (phase message : String) (data : Value) (hd : Json.holdsBigint data = true) :
    ∃ n, Journal.write .warn (.text phase) (.text message) data m = .error (.fault .badType) n ∧ n.lines = m.lines := by
  obtain ⟨held, settings, line, hheld, -, hw⟩ := h.write_eq .warn phase message data
  rw [hw, hheld (Nat.le_refl _), hd]
  exact ⟨_, rfl, rfl⟩

end Ambient.Warns

end GovernedConfig
