import GovernedConfig.Proofs.InfraConfig.Bounds
import GovernedConfig.Proofs.InfraConfig.Runs
import GovernedConfig.Proofs.InfraConfig.Stamps

/-! # The invariant of infra configs

Sound numbers and features together with a history that has begun and is in order: construction
establishes them, and each turn keeps them.
-/

namespace GovernedConfig.InfraConfig

open Rules

/-- The values hold a history that has begun and is in order. -/
structure Chronicles (vs : Values) (entries : List Value) : Prop where
  read : vs.read "statusUpdates" = .list entries
  begun : entries ≠ []
  inOrder : InOrder entries

/-- What holds of an infra config between any two turns. -/
structure Governed (vs : Values) : Prop where
  plain : vs.IsPlain
  sound : Sound vs
  chronicles : ∃ entries, Chronicles vs entries

section Writes

variable {vs : Values} {field : String} {v : Value}

theorem Sound.write (h : Sound vs) (hne : field ≠ "__proto__")
    (hb : ∀ minimum, (field, minimum) ∈ bounds → ∃ n : Int, (minimum : Int) ≤ n ∧ v.IsWhole n)
    (hc : field = "numPidContainers" ∨ field = "numMpcContainers" → ContainersFit (vs.write field v))
    (hf : field = "pcsFeatures" → ∀ items, v = .list items → Value.NoTextTwice items) :
    Sound (vs.write field v) := by
  have hwhole : ∀ other minimum, (other, minimum) ∈ bounds →
      ∃ n : Int, (minimum : Int) ≤ n ∧ ((vs.write field v).read other).IsWhole n := by
    intro other minimum hm
    by_cases he : other = field
    · subst he
      rw [vs.read_write_self hne]
      exact hb minimum hm
    · rw [vs.read_write_of_ne hne he]
      exact h.whole other minimum hm
  refine ⟨hwhole, ?_, ?_⟩
  · by_cases he : field = "numPidContainers" ∨ field = "numMpcContainers"
    · obtain ⟨pid, -, hp⟩ := hwhole "numPidContainers" 1 (by decide)
      obtain ⟨mpc, -, hm⟩ := hwhole "numMpcContainers" 1 (by decide)
      exact ⟨pid, mpc, hp, hm, (hc he).le hp hm⟩
    · rw [not_or] at he
      rw [vs.read_write_of_ne hne (Ne.symm he.1), vs.read_write_of_ne hne (Ne.symm he.2)]
      exact h.fitting
  · intro items hi
    by_cases he : field = "pcsFeatures"
    · subst he
      rw [vs.read_write_self hne] at hi
      exact hf rfl items hi
    · rw [vs.read_write_of_ne hne (Ne.symm he)] at hi
      exact h.distinct items hi

theorem Chronicles.write {entries : List Value} (h : Chronicles vs entries) (hne : field ≠ "__proto__")
    (hs : field ≠ "statusUpdates") (v : Value) : Chronicles (vs.write field v) entries :=
  ⟨by rw [vs.read_write_of_ne hne (Ne.symm hs), h.read], h.begun, h.inOrder⟩

end Writes

section Updates

variable {now : Binary64} {vs ws : Values} {field : String} {v : Value} {entries : List Value}

/-- The last entry of a history tells the latest stamp. -/
theorem Latest.last_entry {x : Binary64} (hl : Latest vs x) (h : Chronicles vs entries) :
    ∃ last n, entries.getLast? = some last ∧ stampOf last = some (.number x) ∧ 0 ≤ n ∧ x.equalsInt n = true := by
  obtain ⟨history, last, latest, hh, hlast, hs, hx⟩ := hl
  obtain ⟨-, rfl, -⟩ := Entity.read_eq_ok_iff.mp hh
  rw [h.read] at hlast
  obtain ⟨front, final, rfl⟩ : ∃ front final, entries = front ++ [final] :=
    ⟨_, _, (List.dropLast_concat_getLast h.begun).symm⟩
  have he : final = last := by simpa [Value.last?] using hlast
  subst he
  obtain ⟨n, h0, _, hstamp, y, rfl, hn⟩ := h.inOrder.stamped final (by simp)
  rw [if_pos (truthy_of_stampOf hstamp), hstamp] at hs
  cases hs
  cases hx
  exact ⟨final, n, List.getLast?_concat, hstamp, h0, hn⟩

/-- How a history goes on with a status: by one entry, stamped with the clock reading but not before the
last entry. -/
def GrowsBy (now : Binary64) (status : Value) (entries : List Value) (x : Binary64) (grown : List Value) : Prop :=
  ∃ last latest, entries.getLast? = some last ∧ stampOf last = some (.number latest) ∧ x = now.max latest ∧
    grown = entries ++ [statusUpdate status (.number x)]

theorem Recorded.keeps (hr : Recorded now vs ws) (hn : now.isInteger = true) (hs : Sound vs)
    (hc : Chronicles vs entries) :
    Sound ws ∧ ∃ x grown, GrowsBy now (vs.read "status") entries x grown ∧ Chronicles ws grown ∧
      ws.read "statusUpdateTs" = .number x ∧ ws.read "status" = vs.read "status" := by
  obtain ⟨k, hk⟩ := Binary64.isInteger_iff.mp hn
  obtain ⟨x, status, history, entries', hx, hstatus, hh, hw, rfl⟩ := hr
  obtain ⟨-, rfl, -⟩ := Entity.read_eq_ok_iff.mp hstatus
  obtain ⟨-, rfl, -⟩ := Entity.read_eq_ok_iff.mp hh
  rw [hc.read] at hw
  cases hw
  obtain ⟨last, n, hlast, hstamp, h0, hxn⟩ := hx.last_entry hc
  have hmax : (now.max x).equalsInt (max k n) = true := Binary64.max_equalsInt hk hxn
  have h0max : 0 ≤ max k n := Int.le_trans h0 (Int.le_max_right k n)
  constructor
  · refine Sound.write ?_ (by decide) (by simp [bounds]) (by simp) (by simp)
    refine hs.write (by decide) (fun minimum hm => ?_) (by simp) (by simp)
    have h0m : minimum = 0 := by simpa [bounds] using hm
    exact ⟨max k n, by omega, _, rfl, hmax⟩
  · refine ⟨now.max x, _, ⟨last, x, hlast, hstamp, rfl, rfl⟩, ⟨?_, by simp, ?_⟩, ?_, ?_⟩
    · exact Values.read_write_self _ (by decide) _
    · refine hc.inOrder.append h0max ⟨_, stampOf_statusUpdate _ _, _, rfl, hmax⟩ fun final m hf hm => ?_
      rw [hlast] at hf
      cases hf
      rw [hm.unique ⟨_, hstamp, x, rfl, hxn⟩]
      exact Int.le_max_right k n
    · rw [Values.read_write_of_ne _ (by decide) (by decide), Values.read_write_self _ (by decide)]
    · rw [Values.read_write_of_ne _ (by decide) (by decide), Values.read_write_of_ne _ (by decide) (by decide)]

theorem Normalized.keeps (hnorm : Normalized vs ws)
    (hb : ∀ field minimum, (field, minimum) ∈ bounds → ∃ n : Int, (minimum : Int) ≤ n ∧ (vs.read field).IsWhole n)
    (hfit : ∃ pid mpc : Int, (vs.read "numPidContainers").IsWhole pid ∧
      (vs.read "numMpcContainers").IsWhole mpc ∧ pid ≤ mpc) : Sound ws := by
  have hread : ∀ {field}, field ≠ "pcsFeatures" → ws.read field = vs.read field := hnorm.read_eq
  refine ⟨fun field minimum hm => ?_, ?_, fun items => hnorm.noTextTwice⟩
  · have hne : ∀ p ∈ bounds, p.1 ≠ "pcsFeatures" := by decide
    rw [hread (hne _ hm)]
    exact hb field minimum hm
  · rwa [hread (by decide), hread (by decide)]

/-- An update keeps the invariant; it makes the history grow if it writes the status, and only then. -/
theorem Updated.keeps (hu : Updated now vs field v ws) (hn : now.isInteger = true) (hne : field ≠ "__proto__")
    (hs : Sound vs) (hc : Chronicles vs entries) :
    Sound ws ∧ ∃ grown, Chronicles ws grown ∧
      (field ≠ "status" ∧ grown = entries ∨ field = "status" ∧ ∃ x, GrowsBy now v entries x grown ∧
        ws.read "statusUpdateTs" = .number x ∧ ws.read "status" = v) := by
  cases hu with
  | status hr =>
    have hw : Sound (vs.write "status" v) := hs.write hne (by simp [bounds]) (by simp) (by simp)
    obtain ⟨hsound, x, grown, hg, hchron, hts, hst⟩ := hr.keeps hn hw (hc.write hne (by decide) v)
    rw [vs.read_write_self hne] at hg hst
    exact ⟨hsound, grown, hchron, .inr ⟨rfl, x, hg, hts, hst⟩⟩
  | features hnorm =>
    have hread : ∀ {field}, field ≠ "pcsFeatures" → (vs.write "pcsFeatures" v).read field = vs.read field :=
      fun h => vs.read_write_of_ne hne h v
    have hsound : Sound ws := by
      refine hnorm.keeps (fun field minimum hm => ?_) ?_
      · have hall : ∀ p ∈ bounds, p.1 ≠ "pcsFeatures" := by decide
        rw [hread (hall _ hm)]
        exact hs.whole field minimum hm
      · rw [hread (by decide), hread (by decide)]
        exact hs.fitting
    refine ⟨hsound, entries, ⟨?_, hc.begun, hc.inOrder⟩, .inl ⟨by decide, rfl⟩⟩
    rw [hnorm.read_eq (by decide), hread (by decide), hc.read]
  | plain hp hb hf =>
    simp only [IsPlain, List.mem_cons, List.not_mem_nil, or_false, not_or] at hp
    refine ⟨hs.write hne (fun minimum hm => ?_) hf fun h => (hp.2.2.2 h).elim, entries,
      hc.write hne hp.2.2.1 v, .inl ⟨hp.1, rfl⟩⟩
    have := (hb minimum hm).isWhole hm
    rwa [vs.read_write_self hne] at this

end Updates

section Creation

variable {init : Value} {m n : Ambient} {e : Entity}

theorem reaches_of_admitted {vs : Values} (h : Admitted vs) {field : String} {minimum : Nat}
    (hb : (field, minimum) ∈ bounds) : ∃ n : Int, (minimum : Int) ≤ n ∧ (vs.read field).IsWhole n :=
  (h.bounded field minimum hb).isWhole hb

/-- How the history of a new infra config starts: as supplied, or else with its status and stamp. -/
def Starts (init : Value) (vs : Values) (entries : List Value) : Prop :=
  (entries ≠ [] ∧ init.member? "statusUpdates" = some (.list entries)) ∨
    ((init.member? "statusUpdates" = some .undefined ∨ init.member? "statusUpdates" = some (.list [])) ∧
      entries = [statusUpdate (vs.read "status") (vs.read "statusUpdateTs")])

theorem supplies_history {v : Value} (h : Entity.Supplies registry init "statusUpdates" v) :
    init.member? "statusUpdates" = some v ∨ init.member? "statusUpdates" = some .undefined ∧ v = .list [] := by
  obtain ⟨supplied, hs, h⟩ := h
  split at h
  · rename_i hu
    obtain ⟨m, n, h⟩ := h
    cases h
    exact .inr ⟨by rw [hs, hu], rfl⟩
  · exact .inl (by rw [hs, h])

theorem Seeded.chronicles {us vs : Values} (h : Seeded us vs) (ha : Admitted us)
    (hs : Entity.Supplies registry init "statusUpdates" (us.read "statusUpdates")) :
    ∃ entries, Chronicles vs entries ∧ Starts init vs entries := by
  obtain ⟨supplied, he, horder⟩ := ha.ordered
  obtain ⟨hin, -⟩ := inOrder_of_firstOutOfOrder horder (by simp)
  obtain ⟨entries, he', h⟩ := h
  rw [he] at he'
  cases he'
  obtain ⟨-, hread, -⟩ := Entity.read_eq_ok_iff.mp he
  rw [hread] at hs
  rcases h with ⟨hne, rfl⟩ | ⟨rfl, status, stamp, hst, hts, rfl⟩
  · refine ⟨supplied, ⟨hread, hne, hin⟩, .inl ⟨hne, ?_⟩⟩
    rcases supplies_history hs with h | ⟨-, h⟩
    · exact h
    · cases h
      exact (hne rfl).elim
  · obtain ⟨-, rfl, -⟩ := Entity.read_eq_ok_iff.mp hst
    obtain ⟨-, rfl, -⟩ := Entity.read_eq_ok_iff.mp hts
    obtain ⟨k, h0, hk⟩ := reaches_of_admitted ha (by decide : ("statusUpdateTs", 0) ∈ bounds)
    have hentry : InOrder [statusUpdate (us.read "status") (us.read "statusUpdateTs")] :=
      ⟨fun entry hm => by rw [List.mem_singleton.mp hm]; exact ⟨k, h0, _, stampOf_statusUpdate _ _, hk⟩,
        List.pairwise_singleton _ _⟩
    refine ⟨_, ⟨us.read_write_self (by decide) _, by simp, hentry⟩, .inr ⟨?_, ?_⟩⟩
    · rcases supplies_history hs with h | ⟨h, -⟩
      · exact .inr h
      · exact .inl h
    · rw [us.read_write_of_ne (by decide) (by decide), us.read_write_of_ne (by decide) (by decide)]

theorem governed_of_create (h : create init m = .ok e n) :
    Governed e.state.values ∧
      ∃ entries, Chronicles e.state.values entries ∧ Starts init e.state.values entries := by
  obtain ⟨t, ht, rfl, -⟩ := Entity.construct_of_create h
  have hplain : t.entity.values.IsPlain :=
    (Entity.construct_keeps (Entity.tolerates_grounded ordinary) (fun _ _ _ h => h) _ init).of_ok ht rfl
  obtain ⟨us, vs, hfill, ha, hseed, hnorm⟩ := admitted_of_construct ht
  obtain ⟨entries, hc, hstart⟩ := hseed.chronicles ha (hfill "statusUpdates" (by decide)).1
  have hread : ∀ {field}, field ≠ "pcsFeatures" → t.entity.values.read field = vs.read field := hnorm.read_eq
  have hc' : Chronicles t.entity.values entries := ⟨by rw [hread (by decide), hc.read], hc.begun, hc.inOrder⟩
  have hbounds : ∀ field minimum, (field, minimum) ∈ bounds →
      ∃ n : Int, (minimum : Int) ≤ n ∧ (vs.read field).IsWhole n := by
    intro field minimum hb
    have hne : ∀ p ∈ bounds, p.1 ≠ "statusUpdates" := by decide
    rw [hseed.read_eq (hne _ hb)]
    exact reaches_of_admitted ha hb
  have hfit : ∃ pid mpc : Int, (vs.read "numPidContainers").IsWhole pid ∧
      (vs.read "numMpcContainers").IsWhole mpc ∧ pid ≤ mpc := by
    rw [hseed.read_eq (by decide), hseed.read_eq (by decide)]
    obtain ⟨pid, -, hp⟩ := reaches_of_admitted ha (by decide : ("numPidContainers", 1) ∈ bounds)
    obtain ⟨mpc, -, hm⟩ := reaches_of_admitted ha (by decide : ("numMpcContainers", 1) ∈ bounds)
    exact ⟨pid, mpc, hp, hm, ha.containers.le hp hm⟩
  refine ⟨⟨hplain, hnorm.keeps hbounds hfit, entries, hc'⟩, entries, hc', ?_⟩
  unfold Starts at hstart ⊢
  rwa [hread (by decide), hread (by decide)]

end Creation

section Runs

variable {depth : Nat} {s : Scene Values}

theorem epochSeconds_isInteger (turn : Turn) : (Calendar.epochSeconds turn.clock).isInteger = true := by
  obtain ⟨k, hk⟩ := Binary64.isInteger_iff.mp turn.whole
  exact Calendar.epochSeconds_isInteger (Binary64.equalsInt_iff.mp hk).1

theorem ne_base_of_allows {current : Value} {field : String} {origin : Origin}
    (h : registry.Allows current field origin) : field ≠ "__proto__" := ordinary.ne_base h.declared

theorem Governed.next (h : Governed s.entity.values) (turn : Turn) :
    Governed (turn.next depth s).entity.values := by
  have hplain := turn.isPlain_next depth h.plain
  obtain ⟨entries, hc⟩ := h.chronicles
  rcases turn.next_cases depth h.plain with ⟨field, v, -, ha, -, hu, -⟩ | ⟨he, -⟩
  · obtain ⟨hs, grown, hg, -⟩ := hu.keeps (epochSeconds_isInteger turn) (ne_base_of_allows ha) h.sound hc
    exact ⟨hplain, hs, grown, hg⟩
  · rw [he]
    exact h

theorem Governed.play (depth : Nat) (h : Governed s.entity.values) (turns : List Turn) :
    Governed (play depth turns s).entity.values := by
  induction turns generalizing s with
  | nil => exact h
  | cons turn turns ih => exact ih (h.next turn)

/-- However an infra config was created and whatever is written to it then, with or without success, its
numbers are whole and within their bounds, its numbers of containers fit, and no feature is listed
twice. -/
theorem stays_sound {init : Value} {m n : Ambient} {e : Entity} (h : create init m = .ok e n) (depth : Nat)
    (turns : List Turn) (current : Option Entity) :
    Sound (InfraConfig.play depth turns ⟨n, e.state, current⟩).entity.values :=
  ((governed_of_create h).1.play depth (s := ⟨n, e.state, current⟩) turns).sound

end Runs

section Sample

/-- The least that an infra config is created from, with twice the same feature. -/
def sampleInit : Value :=
  .record
    [("instanceId", .text "study"), ("role", .text "PARTNER"), ("status", .text "CREATED"),
      ("gameType", .text "LIFT"), ("numPidContainers", .number 1), ("numMpcContainers", .number 2),
      ("numFilesPerMpcContainer", .number 40), ("pcsFeatures", .list [.text "a", .text "a"])]

def isCreated (init : Value) : Bool :=
  match create init Entity.stillness with
  | .ok _ _ => true
  | .error _ _ => false

theorem exists_of_isCreated {init : Value} (h : isCreated init = true) :
    ∃ e n, create init Entity.stillness = .ok e n := by
  unfold isCreated at h
  split at h
  · rename_i e n he
    exact ⟨e, n, he⟩
  · cases h

/-- An attempt to have more PID containers than MPC containers leaves the sample sound. -/
theorem sample_stays_sound :
    ∃ e n, create sampleInit Entity.stillness = .ok e n ∧
      Sound (InfraConfig.play 2 [⟨0, .set "numPidContainers" (.number 3), by decide +kernel⟩]
        ⟨n, e.state, none⟩).entity.values := by
  obtain ⟨e, n, h⟩ := exists_of_isCreated (by decide +kernel : isCreated sampleInit = true)
  exact ⟨e, n, h, stays_sound h 2 _ none⟩

end Sample

end GovernedConfig.InfraConfig
