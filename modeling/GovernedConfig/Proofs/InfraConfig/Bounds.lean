import GovernedConfig.Proofs.InfraConfig.Construction
import GovernedConfig.Proofs.Value.Distinct
import GovernedConfig.Proofs.Value.Whole

/-! # Bounds of an infra config

Whole numbers within their bounds, fitting numbers of containers and features without repetition, and
what the rules have to do with them.
-/

namespace GovernedConfig.InfraConfig

open Rules

/-- The numbers of an infra config are whole and within their bounds, there are at most as many PID
containers as MPC containers, and no feature is listed twice. -/
structure Sound (vs : Values) : Prop where
  whole : ∀ field minimum, (field, minimum) ∈ bounds →
    ∃ n : Int, (minimum : Int) ≤ n ∧ (vs.read field).IsWhole n
  fitting : ∃ pid mpc : Int, (vs.read "numPidContainers").IsWhole pid ∧
    (vs.read "numMpcContainers").IsWhole mpc ∧ pid ≤ mpc
  distinct : ∀ items, vs.read "pcsFeatures" = .list items → Value.NoTextTwice items

variable {vs ws : Values} {field : String} {minimum : Nat}

theorem reaches_iff {v : Value} (hm : (Binary64.ofNat minimum).equalsInt minimum = true) :
    reaches minimum v = true ↔ ∃ n : Int, (minimum : Int) ≤ n ∧ v.IsWhole n := by
  constructor
  · intro h
    cases v with
    | number x =>
      rw [reaches, Bool.and_eq_true] at h
      obtain ⟨n, hn⟩ := Binary64.isInteger_iff.mp h.1
      have hl := h.2
      rw [Binary64.less_of_equalsInt hn hm, Bool.not_eq_true', decide_eq_false_iff_not, Int.not_lt] at hl
      exact ⟨n, hl, x, rfl, hn⟩
    | _ => cases h
  · rintro ⟨n, hle, x, rfl, hn⟩
    rw [reaches, Binary64.isInteger_iff.mpr ⟨n, hn⟩, Binary64.less_of_equalsInt hn hm,
      decide_eq_false (Int.not_lt.mpr hle)]
    rfl

theorem bounds_equalsInt (h : (field, minimum) ∈ bounds) :
    (Binary64.ofNat minimum).equalsInt minimum = true := by
  have hall : ∀ p ∈ bounds, p.2 = 0 ∨ p.2 = 1 := by decide
  rcases hall _ h with h | h <;> dsimp only at h <;> subst h
  · exact Binary64.zero_equalsInt
  · exact Binary64.one_equalsInt

theorem Reaches.isWhole (hb : (field, minimum) ∈ bounds) (h : Reaches vs field minimum) :
    ∃ n : Int, (minimum : Int) ≤ n ∧ (vs.read field).IsWhole n := by
  obtain ⟨v, hv, hr⟩ := h
  obtain ⟨-, rfl, -⟩ := Entity.read_eq_ok_iff.mp hv
  exact (reaches_iff (bounds_equalsInt hb)).mp hr

theorem ContainersFit.le (h : ContainersFit vs) {pid mpc : Int} (hp : (vs.read "numPidContainers").IsWhole pid)
    (hm : (vs.read "numMpcContainers").IsWhole mpc) : pid ≤ mpc := by
  obtain ⟨v, w, hv, hw, hl⟩ := h
  obtain ⟨-, rfl, -⟩ := Entity.read_eq_ok_iff.mp hv
  obtain ⟨-, rfl, -⟩ := Entity.read_eq_ok_iff.mp hw
  obtain ⟨x, hx, hxp⟩ := hp
  obtain ⟨y, hy, hym⟩ := hm
  rw [hx, hy] at hl
  have hless : y.less x = false := Option.some.inj (hl rfl rfl)
  rw [Binary64.less_of_equalsInt hym hxp, decide_eq_false_iff_not] at hless
  exact Int.not_lt.mp hless

theorem Normalized.noTextTwice (h : Normalized vs ws) {items : List Value}
    (hi : ws.read "pcsFeatures" = .list items) : Value.NoTextTwice items := by
  obtain ⟨features, members, hf, hm, ⟨hl, rfl⟩ | ⟨-, rfl⟩⟩ := h
  · obtain ⟨-, rfl, -⟩ := Entity.read_eq_ok_iff.mp hf
    rw [hi] at hm hl
    cases hm
    exact Value.noTextTwice_of_length_distinct (of_decide_eq_true (Option.some.inj hl)).symm
  · rw [Values.read_write_self _ (by decide)] at hi
    cases hi
    obtain ⟨-, rfl, -⟩ := Entity.read_eq_ok_iff.mp hf
    cases hv : vs.read "pcsFeatures" with
    | null =>
      rw [hv] at hm
      cases hm
      exact .nil
    | _ =>
      rw [hv] at hm
      first
        | cases hm; exact Value.noTextTwice_distinct _
        | cases hm

end GovernedConfig.InfraConfig
