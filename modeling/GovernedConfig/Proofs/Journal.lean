import Mathlib.Tactic.SplitIfs
import GovernedConfig.Mutability
import GovernedConfig.Proofs.Outcome

/-! # Traces in the surroundings

Whatever an entity does, it leaves traces in its surroundings at most: the clock, the environment and
the logger stay what they are, and settings that were read stay read. With a silent logger nothing is
written at all.
-/

namespace GovernedConfig

/-- Between two moments nothing happened to the surroundings but traces. -/
structure Ambient.Steady (m n : Ambient) : Prop where
  clock : n.clock = m.clock
  environment : n.environment = m.environment
  threshold : n.threshold = m.threshold
  context : n.context = m.context
  settings : ∀ known, m.settings = some known → n.settings = some known

namespace Ambient

open Act

instance : Std.Refl Steady := ⟨fun _ => ⟨rfl, rfl, rfl, rfl, fun _ h => h⟩⟩

instance : IsTrans Ambient Steady :=
  ⟨fun _ _ _ h g => ⟨g.clock.trans h.clock, g.environment.trans h.environment, g.threshold.trans h.threshold,
    g.context.trans h.context, fun known hk => g.settings known (h.settings known hk)⟩⟩

theorem steady_mark (s : String) (m : Ambient) : m.Steady (m.mark s) := ⟨rfl, rfl, rfl, rfl, fun _ h => h⟩

theorem readSettings_eq (m : Ambient) :
    readSettings m = match m.settings with
      | some known => .ok known m
      | none => match Settings.parse (.record m.environment) with
        | .ok known => .ok known { m with settings := some known }
        | .error cause => .error (.fault cause) m := by
  simp only [readSettings, bind_apply, get_eq]
  cases m.settings with
  | some known => rfl
  | none =>
    simp only [bind_apply, get_eq]
    cases Settings.parse (.record m.environment) <;> rfl

def upcoming (m : Ambient) : Except Fault Settings :=
  match m.settings with
  | some known => .ok known
  | none => Settings.parse (.record m.environment)

theorem readSettings_of_upcoming (m : Ambient) : readSettings m = match m.upcoming with
    | .ok known => .ok known { m with settings := some known }
    | .error cause => .error (.fault cause) m := by
  obtain ⟨clock, environment, settings, threshold, context, lines, marks, rejections, draws, shelf⟩ := m
  rw [readSettings_eq]
  cases settings with
  | some known => rfl
  | none => rfl

/-- Between two moments nothing happened to the surroundings but traces, and what the journal was told is still
there. Settings that come to be read are the ones that would have been read before. -/
structure GrowsTo (m n : Ambient) : Prop extends m.Steady n where
  upcoming : n.upcoming = m.upcoming
  lines : m.lines <+: n.lines

instance : Std.Refl GrowsTo := ⟨fun m => ⟨Std.Refl.refl m, rfl, List.prefix_rfl⟩⟩

instance : IsTrans Ambient GrowsTo :=
  ⟨fun _ _ _ h g => ⟨IsTrans.trans _ _ _ h.toSteady g.toSteady, g.upcoming.trans h.upcoming, h.lines.trans g.lines⟩⟩

theorem growsTo_lines (m : Ambient) (more : List String) : m.GrowsTo { m with lines := m.lines ++ more } :=
  ⟨⟨rfl, rfl, rfl, rfl, fun _ h => h⟩, rfl, List.prefix_append ..⟩

theorem growsTo_traces (m : Ambient) (marks : List String) (rejections : List (String × Thrown))
    (draws : List (Nat × Nat)) (shelf : Shelf) : m.GrowsTo { m with marks, rejections, draws, shelf } :=
  ⟨⟨rfl, rfl, rfl, rfl, fun _ h => h⟩, rfl, List.prefix_rfl⟩

theorem growsTo_known {m : Ambient} {known : Settings} (h : m.upcoming = .ok known) :
    m.GrowsTo { m with settings := some known } := by
  refine ⟨⟨rfl, rfl, rfl, rfl, fun other ho => ?_⟩, h.symm, List.prefix_rfl⟩
  rw [upcoming, ho] at h
  cases h
  rfl

theorem readSettings_grows : readSettings.Keeps GrowsTo := by
  intro m
  rw [Act.after, readSettings_of_upcoming]
  cases hm : m.upcoming with
  | ok known => exact growsTo_known hm
  | error cause => exact Std.Refl.refl m

theorem stamp_eq (m : Ambient) : stamp m = match Calendar.stamp? m.clock with
    | some s => .ok s m
    | none => .error (.fault .outOfRange) m := by
  unfold stamp
  rw [bind_of_ok (get_eq m)]
  cases Calendar.stamp? m.clock <;> rfl

theorem stamp_grows : stamp.Keeps GrowsTo := by
  refine keeps_get.bind fun m => ?_
  split
  · exact keeps_pure _
  · exact keeps_fail _

theorem draw_grows (key : Nat) : (draw key).Keeps GrowsTo :=
  keeps_get.bind fun _ => (keeps_modify fun _ => growsTo_traces ..).bind fun _ => keeps_pure _

def IsSilent (m : Ambient) : Prop := m.threshold = .text Level.silent.name

theorem Steady.isSilent {m n : Ambient} (h : m.Steady n) (hm : m.IsSilent) : n.IsSilent :=
  h.threshold.trans hm

end Ambient

namespace Journal

open Act Ambient

theorem threshold_grows : threshold.Keeps GrowsTo := by
  refine keeps_get.bind fun m => ?_
  dsimp only
  split
  · exact (keeps_suitable _).bind fun _ => keeps_pure _
  · exact readSettings_grows.bind fun _ => keeps_pure _

theorem write_grows (level : Level) (phase message data : Value) :
    (write level phase message data).Keeps GrowsTo := by
  apply threshold_grows.bind
  intro least
  split
  · exact keeps_pure _
  · exact stamp_grows.bind fun _ => keeps_get.bind fun _ => (keeps_suitable _).bind fun _ =>
      keeps_modify fun _ => growsTo_lines ..

theorem write_keeps (level : Level) (phase message data : Value) : (write level phase message data).Keeps Steady :=
  (write_grows level phase message data).mono GrowsTo.toSteady

inductive Hinders : Thrown → Prop
  | badType : Hinders (.fault .badType)
  | outOfRange : Hinders (.fault .outOfRange)
  | environment (issues : List String) : Hinders (.fault (.environment issues))

theorem hinders_of_parse {environment : Value} {cause : Fault} (h : Settings.parse environment = .error cause) :
    Hinders (.fault cause) := by
  unfold Settings.parse at h
  split at h
  · cases h
  · cases h
  · cases h
    unfold Settings.faultOf
    split
    · exact .badType
    · exact .environment _

theorem readSettings_throws : readSettings.Throws Hinders := by
  refine throws_get.bind fun m => ?_
  split
  · exact throws_pure _
  · exact throws_get.bind fun m => (throws_ofExcept fun cause h => hinders_of_parse h).bind fun known =>
      (throws_modify _).bind fun _ => throws_pure _

theorem threshold_throws : threshold.Throws Hinders := by
  refine throws_get.bind fun m => ?_
  dsimp only
  split
  · exact (throws_suitable .badType _).bind fun _ => throws_pure _
  · exact readSettings_throws.bind fun _ => throws_pure _

theorem stamp_throws : stamp.Throws Hinders := by
  refine throws_get.bind fun m => ?_
  split
  · exact throws_pure _
  · exact throws_fail .outOfRange

theorem write_throws (level : Level) (phase message data : Value) :
    (write level phase message data).Throws Hinders := by
  refine threshold_throws.bind fun least => ?_
  split
  · exact throws_pure _
  · exact stamp_throws.bind fun _ => throws_get.bind fun _ => (throws_suitable .badType _).bind fun _ =>
      throws_modify _

/-- A silent logger writes nothing, and asks for nothing that could fail. -/
theorem write_of_silent {level : Level} (hl : level ≠ .silent) {m : Ambient} (hm : m.IsSilent)
    (phase message data : Value) : write level phase message data m = .ok () m := by
  have ht : threshold m = .ok (some .silent) m := by
    simp only [threshold, bind_apply, get_eq, show m.threshold = .text Level.silent.name from hm]
    rfl
  rw [write, bind_of_ok ht]
  cases level <;> first | rfl | exact absurd rfl hl

section Acceptance

variable {level : Level} {phase message data : Value} {m n : Ambient}

theorem holdsBigint_entry_iff {stamp : String} {context : Value} :
    Json.holdsBigint (entry stamp level context phase message data) = false ↔
      Json.holdsBigint (entry "" .debug context .null .null .null) = false ∧
        Json.holdsBigint phase = false ∧ Json.holdsBigint message = false ∧ Json.holdsBigint data = false := by
  unfold entry
  dsimp only
  split_ifs <;> simp [Json.holdsBigint, Json.entriesHoldBigint, and_assoc, and_comm]

theorem print_eq_none_iff {v : Value} : Json.print? v = none ↔ Json.holdsBigint v = true := by
  unfold Json.print?
  split_ifs <;> simp_all

/-- Entries of a level are dealt with, whatever they say, while the clock has a date: the threshold is
known, and it holds them back or their labels can be printed. -/
def Accepts (level : Level) (m : Ambient) : Prop :=
  ∃ least, threshold m = .ok least m ∧ ((least.any fun least => level.rank < least.rank) = true ∨
    Json.holdsBigint (entry "" .debug m.context .null .null .null) = false)

theorem threshold_eq (m : Ambient) :
    threshold m = if m.threshold.isPresent then
        match m.threshold.toText? with
        | some name => .ok (Level.ofName? name) m
        | none => .error (.fault .badType) m
      else match readSettings m with
        | .ok known n => .ok (some known.threshold) n
        | .error thrown n => .error thrown n := by
  unfold threshold
  rw [bind_of_ok (get_eq m)]
  split
  · cases m.threshold.toText? <;> rfl
  · rw [bind_apply]
    cases readSettings m <;> rfl

theorem threshold_of_known {least : Option Level} (ht : n.threshold = m.threshold)
    (hs : ∀ known, m.settings = some known → n.settings = some known) (h : threshold m = .ok least m) :
    threshold n = .ok least n := by
  rw [threshold_eq] at h ⊢
  rw [ht]
  split at h
  · rename_i hp
    rw [if_pos hp]
    cases hm : m.threshold.toText? with
    | none =>
      rw [hm] at h
      cases h
    | some name =>
      rw [hm] at h
      cases h
      rfl
  · rename_i hp
    rw [if_neg hp]
    rw [readSettings_eq] at h ⊢
    cases hm : m.settings with
    | some known =>
      rw [hm] at h
      rw [hs known hm]
      cases h
      rfl
    | none =>
      rw [hm] at h
      cases hp : Settings.parse (.record m.environment) with
      | error cause => simp [hp] at h
      | ok known =>
        simp only [hp, EStateM.Result.ok.injEq] at h
        have hset := congrArg Ambient.settings h.2
        rw [hm] at hset
        cases hset

theorem threshold_again {least : Option Level} (h : threshold m = .ok least n) : threshold n = .ok least n := by
  rw [threshold_eq] at h
  split at h
  · rename_i hp
    cases hm : m.threshold.toText? with
    | none => simp [hm] at h
    | some name =>
      simp only [hm] at h
      cases h
      rw [threshold_eq, if_pos hp, hm]
  · rename_i hp
    rw [readSettings_eq] at h
    cases hm : m.settings with
    | some known =>
      simp only [hm] at h
      cases h
      rw [threshold_eq, if_neg hp, readSettings_eq, hm]
    | none =>
      cases hparse : Settings.parse (.record m.environment) with
      | error cause => simp [hm, hparse] at h
      | ok known =>
        simp only [hm, hparse] at h
        cases h
        rw [threshold_eq, if_neg hp, readSettings_eq]

theorem Accepts.of_steady (h : Accepts level m) (hn : m.Steady n) : Accepts level n := by
  obtain ⟨least, hl, hc⟩ := h
  refine ⟨least, threshold_of_known hn.threshold hn.settings hl, ?_⟩
  rwa [hn.context]

theorem Accepts.clock (h : Accepts level m) (x : Binary64) : Accepts level { m with clock := x } := by
  obtain ⟨least, hl, hc⟩ := h
  exact ⟨least, threshold_of_known (m := m) rfl (fun _ hk => hk) hl, hc⟩

theorem accepts_of_write (h : write level phase message data m = .ok () n) : Accepts level n := by
  obtain ⟨least, k, hk, hw⟩ := bind_eq_ok_iff.mp h
  have hk := threshold_again hk
  split at hw
  · rename_i hl
    obtain ⟨-, rfl⟩ := pure_eq_ok_iff.mp hw
    exact ⟨least, hk, .inl hl⟩
  · obtain ⟨stamp, k', hs, hw⟩ := bind_eq_ok_iff.mp hw
    have hsteady : k.Steady k' := (stamp_grows.of_ok hs).toSteady
    rw [bind_of_ok (get_eq k')] at hw
    obtain ⟨line, _, hline, hw⟩ := bind_eq_ok_iff.mp hw
    obtain ⟨hp, rfl⟩ := suitable_eq_ok_iff.mp hline
    cases hw
    have hfree : Json.holdsBigint (entry stamp level k'.context phase message data) = false := by
      rw [← Bool.not_eq_true, ← print_eq_none_iff, hp]
      simp
    rw [hsteady.context] at hfree
    have hacc : Accepts level k := ⟨least, hk, .inr (holdsBigint_entry_iff.mp hfree).1⟩
    exact (hacc.of_steady hsteady).of_steady ⟨rfl, rfl, rfl, rfl, fun _ h => h⟩

theorem exists_print {v : Value} (h : Json.holdsBigint v = false) : ∃ line, Json.print? v = some line := by
  refine Option.ne_none_iff_exists'.mp fun hn => ?_
  rw [print_eq_none_iff, h] at hn
  cases hn

/-- Once the threshold is known an entry is held back, or it is printed and written down. -/
theorem write_of_threshold {least : Option Level} {stamp : String} (h : threshold m = .ok least n)
    (hs : Calendar.stamp? n.clock = some stamp) (level : Level) (phase message data : Value) :
    write level phase message data m =
      if (least.any fun least => level.rank < least.rank) = true then .ok () n
      else match Json.print? (entry stamp level n.context phase message data) with
        | some line => .ok () { n with lines := n.lines ++ [line] }
        | none => .error (.fault .badType) n := by
  have hstamp : Ambient.stamp n = .ok stamp n := by rw [stamp_eq, hs]
  unfold write
  rw [bind_of_ok h]
  split
  · rfl
  · rw [bind_of_ok hstamp, bind_of_ok (get_eq n)]
    cases Json.print? (entry stamp level n.context phase message data) <;> rfl

/-- A line that is told at some level in given surroundings: at their time and under their labels. -/
def Tells (m : Ambient) (level : Level) (line : String) : Prop :=
  ∃ stamp phase message data, Calendar.stamp? m.clock = some stamp ∧
    Json.print? (entry stamp level m.context (.text phase) (.text message) data) = some line

theorem write_of_labels {least : Option Level} (h : threshold m = .ok least n)
    (hl : Json.holdsBigint (entry "" .debug n.context .null .null .null) = false)
    (hd : (Calendar.stamp? n.clock).isSome = true) (level : Level) (phase message : String) (data : Value) :
    ∃ line, (Json.holdsBigint data = false → Tells n level line) ∧
      write level (.text phase) (.text message) data m =
        if (least.any fun least => level.rank < least.rank) = true then .ok () n
        else if Json.holdsBigint data = true then .error (.fault .badType) n
        else .ok () { n with lines := n.lines ++ [line] } := by
  obtain ⟨stamp, hs⟩ := Option.isSome_iff_exists.mp hd
  rw [write_of_threshold h hs]
  cases hdata : Json.holdsBigint data with
  | true =>
    have hp : Json.print? (entry stamp level n.context (.text phase) (.text message) data) = none := by
      rw [print_eq_none_iff, ← Bool.not_eq_false, holdsBigint_entry_iff, hdata]
      simp
    exact ⟨"", by simp, by rw [hp]; rfl⟩
  | false =>
    have hfree : Json.holdsBigint (entry stamp level n.context (.text phase) (.text message) data) = false :=
      holdsBigint_entry_iff.mpr ⟨hl, rfl, rfl, hdata⟩
    obtain ⟨line, hline⟩ := exists_print hfree
    exact ⟨line, fun _ => ⟨stamp, phase, message, data, hs, hline⟩, by rw [hline]; rfl⟩

theorem write_of_accepts (phase message data : Value) (h : Accepts level m)
    (hd : (Calendar.stamp? m.clock).isSome = true) (hp : Json.holdsBigint phase = false) (hm : Json.holdsBigint message = false)
    (hdata : Json.holdsBigint data = false) : ∃ n, write level phase message data m = .ok () n := by
  obtain ⟨least, hl, hc⟩ := h
  obtain ⟨stamp, hs⟩ := Option.isSome_iff_exists.mp hd
  rw [write_of_threshold hl hs]
  split
  · exact ⟨m, rfl⟩
  · rename_i hlow
    obtain ⟨line, hline⟩ := exists_print (holdsBigint_entry_iff.mpr ⟨hc.resolve_left hlow, hp, hm, hdata⟩)
    rw [hline]
    exact ⟨_, rfl⟩

end Acceptance

end Journal

open Act

/-- The journal takes whatever can be printed, and the clock has a date. -/
structure Ambient.Orderly (m : Ambient) : Prop where
  accepts : ∀ level, level ≠ .silent → Journal.Accepts level m
  dated : (Calendar.stamp? m.clock).isSome = true

section Journaling

variable {m n : Ambient} {level : Level}

theorem Ambient.Orderly.of_steady (h : m.Orderly) (hn : m.Steady n) : n.Orderly :=
  ⟨fun level hl => (h.accepts level hl).of_steady hn, hn.clock ▸ h.dated⟩

/-- From now on the journal writes whatever can be printed, or holds it back. -/
def Ambient.TakesLines (m : Ambient) : Prop :=
  ∀ n, m.Steady n → ∀ level, level ≠ .silent → ∀ (phase message : String) (data : Value),
    Json.holdsBigint data = false → ∃ k, Journal.write level (.text phase) (.text message) data n = .ok () k

theorem Ambient.Orderly.takesLines (h : m.Orderly) : m.TakesLines := fun _ hn _ hl phase message _ hd =>
  Journal.write_of_accepts (.text phase) (.text message) _ ((h.of_steady hn).accepts _ hl) (h.of_steady hn).dated rfl
    rfl hd

theorem Ambient.IsSilent.takesLines (h : m.IsSilent) : m.TakesLines := fun _ hn _ hl _ _ _ _ =>
  ⟨_, Journal.write_of_silent hl (hn.isSilent h) _ _ _⟩

theorem Ambient.TakesLines.of_steady (h : m.TakesLines) (hn : m.Steady n) : n.TakesLines := fun _ hk =>
  h _ (IsTrans.trans _ _ _ hn hk)

theorem Ambient.TakesLines.writes (h : m.TakesLines) (hl : level ≠ .silent) (phase message : String) (data : Value)
    (hd : Json.holdsBigint data = false) :
    ∃ n, m.Steady n ∧ Journal.write level (.text phase) (.text message) data m = .ok () n := by
  obtain ⟨n, hn⟩ := h m (Std.Refl.refl m) level hl phase message data hd
  exact ⟨n, (Journal.write_keeps _ _ _ _).of_ok hn, hn⟩

theorem Ambient.TakesLines.eq_badType (h : m.TakesLines) (hl : level ≠ .silent) {phase message : String} {data : Value}
    {thrown : Thrown} (hw : Journal.write level (.text phase) (.text message) data m = .error thrown n) :
    thrown = .fault .badType := by
  obtain ⟨k, hk⟩ := h m (Std.Refl.refl m) level hl phase message .null rfl
  obtain ⟨least, m', hleast, hk⟩ := bind_eq_ok_iff.mp hk
  unfold Journal.write at hw
  rw [bind_of_ok hleast] at hw
  split at hk
  · rename_i hheld
    rw [if_pos hheld] at hw
    cases hw
  · rename_i hheld
    obtain ⟨stamp, n', hstamp, -⟩ := bind_eq_ok_iff.mp hk
    rw [if_neg hheld, bind_of_ok hstamp, bind_of_ok (get_eq n')] at hw
    rcases bind_eq_error_iff.mp hw with hw | ⟨_, _, -, hw⟩
    · generalize Json.print? _ = found at hw
      cases found with
      | some line => cases hw
      | none =>
        cases hw
        rfl
    · cases hw

theorem anyBigint_texts (texts : List String) : Json.anyBigint (texts.map .text) = false := by
  induction texts with
  | nil => rfl
  | cons s texts ih => exact ih

end Journaling

namespace Default

open Act

theorem resolve_grows : ∀ d : Default, d.resolve.Keeps Ambient.GrowsTo
  | value _ => keeps_pure _
  | copyOf _ => keeps_pure _
  | seconds => keeps_get.bind fun _ => keeps_pure _
  | counter key => (Ambient.draw_grows key).bind fun _ => keeps_pure _

end Default

namespace Registry

open Act

variable (r : Registry)

theorem undeclaredDefault_grows (field : String) : (r.undeclaredDefault field).Keeps Ambient.GrowsTo := by
  unfold undeclaredDefault
  split
  · exact keeps_fail _
  · split_ifs <;> first | exact keeps_pure _ | exact keeps_fail _

theorem resolveDefault_grows (field : String) : (r.resolveDefault field).Keeps Ambient.GrowsTo := by
  unfold resolveDefault
  split
  · rename_i d _
    exact d.resolve_grows.bind fun _ => keeps_pure _
  · exact r.undeclaredDefault_grows field

theorem assertWritable_grows (current : Option Value) (field : String) (attempted : Value) (origin : Origin) :
    (r.assertWritable current field attempted origin).Keeps Ambient.GrowsTo := by
  unfold assertWritable
  split
  · exact keeps_fail _
  · refine (keeps_ofExcept _).bind fun answer => ?_
    split
    · exact keeps_pure _
    · refine (keeps_suitable _).bind fun _ => (keeps_ofExcept _).bind fun mutability => ?_
      split
      · exact (Journal.write_grows _ _ _ _).bind fun _ => keeps_fail _
      · exact (Journal.write_grows _ _ _ _).bind fun _ => keeps_fail _

/-- A field may be written: it is declared, and its declaration lets the write through. -/
structure Allows (current : Value) (field : String) (origin : Origin) : Prop where
  declared : r.isDeclared field = true
  through : r.canWrite current field origin = .ok (some true)

theorem assertWritable_eq_ok_iff {current : Value} {field : String} {attempted : Value} {origin : Origin}
    {m n : Ambient} {u : Unit} :
    r.assertWritable current field attempted origin m = .ok u n ↔ r.Allows current field origin ∧ m = n := by
  unfold assertWritable
  cases hd : r.isDeclared field with
  | false => simpa using fun h : r.Allows current field origin => by simpa [hd] using h.declared
  | true =>
    simp only [Bool.not_true, Bool.false_eq_true, if_false, Act.bind_eq_ok_iff, Act.ofExcept_eq_ok_iff]
    constructor
    · rintro ⟨answer, _, ⟨ha, rfl⟩, h⟩
      split at h
      · rename_i ht
        exact ⟨⟨hd, ht ▸ ha⟩, (Act.pure_eq_ok_iff.mp h).2⟩
      · obtain ⟨known, _, -, mutability, _, -, h⟩ := by
          simpa only [Act.bind_eq_ok_iff] using h
        split at h <;> simp [Act.bind_eq_ok_iff] at h
    · rintro ⟨h, rfl⟩
      exact ⟨_, _, ⟨h.through, rfl⟩, by simp⟩

end Registry

end GovernedConfig
