import GovernedConfig.Proofs.Store.Outages

/-! # The hybrid store without its server

Whatever the server does, a save and a deletion do their part in memory and answer. A load goes by the text
that the server answers with, for better or worse, and by memory in every other case.
-/

namespace GovernedConfig

open Act

theorem Memory.erase_insert (m : Memory) (id text : String) :
    (m.insert (.text id) text).erase (.text id) = m.erase (.text id) := by
  unfold insert erase
  split
  · rw [List.filter_map]
    have hkey : ((fun entry : Value × String => !(Value.text id).sameKey entry.1) ∘
        fun entry => if (Value.text id).sameKey entry.1 then (entry.1, text) else entry) =
          fun entry => !(Value.text id).sameKey entry.1 := by
      funext entry
      dsimp only [Function.comp]
      split <;> rfl
    rw [hkey]
    refine (List.map_congr_left fun entry he => ?_).trans (List.map_id _)
    have hother : (Value.text id).sameKey entry.1 = false := by simpa using (List.mem_filter.mp he).2
    rw [hother]
    rfl
  · have hself : (Value.text id).sameKey (.text id) = true := Value.sameKey_text_iff.mpr rfl
    rw [List.filter_append, List.filter_cons_of_neg (by simp [hself]), List.filter_nil, List.append_nil]

namespace Remote

variable {α : Type} {r : Remote} {operation : StoreOperation} {id : String}
  {run : String → Server → Except Thrown (α × Server)} {s t : Storage}

/-- A command is answered and changes nothing but the server, or its failure is put down to the server and nothing
changes at all. -/
theorem ask_cases (r : Remote) (operation : StoreOperation) (id : String)
    (run : String → Server → Except Thrown (α × Server)) (s : Storage) :
    (∃ a server, r.ask operation (.text id) run s = .ok a { s with server }) ∨
      ∃ thrown, r.ask operation (.text id) run s = .error thrown s ∧ thrown.IsOutage := by
  unfold ask require
  rw [bind_apply, bind_of_ok (get_eq s)]
  cases hlink : s.available r.link with
  | false => exact .inr ⟨_, rfl, _, _, _, rfl⟩
  | true =>
    simp only [if_true, pure_eq]
    rw [bind_of_ok (suitable_eq_ok_iff.mpr ⟨keyOf_text id, rfl⟩), command, bind_of_ok (get_eq s)]
    cases hrun : run (textKey id) s.server with
    | ok answered => exact .inl ⟨_, _, rfl⟩
    | error cause => exact .inr ⟨_, rfl, _, _, _, rfl⟩

theorem exists_server_of_ask {a : α} (h : r.ask operation (.text id) run s = .ok a t) :
    ∃ server, t = { s with server } := by
  rcases r.ask_cases operation id run s with ⟨b, server, ha⟩ | ⟨thrown, ha, -⟩
  · cases h.symm.trans ha
    exact ⟨server, rfl⟩
  · cases h.symm.trans ha

theorem isOutage_of_ask {thrown : Thrown} (h : r.ask operation (.text id) run s = .error thrown t) :
    thrown.IsOutage ∧ t = s := by
  rcases r.ask_cases operation id run s with ⟨b, server, ha⟩ | ⟨failed, ha, ho⟩
  · cases h.symm.trans ha
  · cases h.symm.trans ha
    exact ⟨ho, rfl⟩

end Remote

namespace Hybrid

open InfraConfig Remote

variable {h : Hybrid} {r : Remote} {id : String} {s : Storage}

/-- The text that the server answers with when it is asked for an id. It is none where there is no server,
where no client can be had, where the command is refused and where nothing is kept. -/
def fetched? (h : Hybrid) (id : String) (s : Storage) : Option String :=
  h.remote.bind fun r => if s.answers r.link .get then s.server.data.lookup (textKey id) else none

def reportsDeletion (h : Hybrid) (id : String) (s : Storage) : Bool :=
  h.remote.any fun r => s.answers r.link .del && s.server.data.holds (textKey id)

theorem degrade_of_silent {operation : StoreOperation} {id : Value} {thrown : Thrown} (hs : s.ambient.IsSilent)
    (ho : thrown.IsOutage) : degrade operation id thrown s = .ok () s := by
  obtain ⟨failed, failedId, reason, rfl⟩ := ho
  unfold degrade
  exact within_eq_ok_iff.mpr ⟨_, Journal.write_of_silent (show Level.warn ≠ .silent by decide) hs _ _ _, rfl⟩

theorem save_of_silent (h : Hybrid) (hs : s.ambient.IsSilent) {d : Deposit} {text : String}
    (hid : d.id = .ok (.text id)) (ht : d.text = .ok text) :
    ∃ server, h.save d s = .ok () { s with memory := s.memory.insert (.text id) text, server } := by
  unfold save
  rw [bind_of_ok (Memory.save_eq hid ht s), replicate]
  cases h.remote with
  | none => exact ⟨s.server, rfl⟩
  | some r =>
    dsimp only
    rw [tryCatch_apply]
    cases hsave : r.save d { s with memory := s.memory.insert (.text id) text } with
    | ok _ t =>
      rw [save_eq_ask hid ht] at hsave
      obtain ⟨server, rfl⟩ := exists_server_of_ask hsave
      exact ⟨server, rfl⟩
    | error thrown t =>
      rw [save_eq_ask hid ht] at hsave
      obtain ⟨ho, rfl⟩ := isOutage_of_ask hsave
      dsimp only
      rw [bind_of_ok (ofExcept_eq_ok_iff.mpr ⟨hid, rfl⟩)]
      exact ⟨s.server, degrade_of_silent hs ho⟩

theorem delete_of_silent (h : Hybrid) (hs : s.ambient.IsSilent) (id : String) :
    ∃ server, h.delete (.text id) s = .ok (h.reportsDeletion id s || (s.memory.textOf? (.text id)).isSome)
      { s with memory := s.memory.erase (.text id), server } := by
  have hmemory : Memory.delete (.text id) s =
      .ok (s.memory.textOf? (.text id)).isSome { s with memory := s.memory.erase (.text id) } := rfl
  unfold delete reportsDeletion
  rw [bind_of_ok hmemory]
  cases h.remote with
  | none => exact ⟨s.server, rfl⟩
  | some r =>
    dsimp only
    rw [tryCatch_apply, Option.any_some]
    cases ha : s.answers r.link .del with
    | true =>
      rw [bind_of_ok (delete_of_answers (s := { s with memory := s.memory.erase (.text id) }) id ha)]
      exact ⟨_, rfl⟩
    | false =>
      obtain ⟨thrown, hd⟩ := delete_of_silence (s := { s with memory := s.memory.erase (.text id) }) id ha
      rw [bind_of_error hd]
      dsimp only
      rw [bind_of_ok (degrade_of_silent (by exact hs) (isOutage_of_ask hd).1)]
      exact ⟨s.server, rfl⟩

theorem loadRemote_of_fetched_eq_none (hs : s.ambient.IsSilent) (hf : h.fetched? id s = none) :
    h.loadRemote (.text id) s = .ok none s := by
  unfold loadRemote
  unfold fetched? at hf
  cases hr : h.remote with
  | none => rfl
  | some r =>
    rw [hr, Option.bind_some] at hf
    dsimp only
    rw [bind_of_ok (get_eq s)]
    split
    · rw [tryCatch_apply]
      cases ha : s.answers r.link .get with
      | true =>
        rw [ha, if_pos rfl] at hf
        rw [load_of_answers id ha, hf]
        rfl
      | false =>
        obtain ⟨thrown, hf⟩ := fetch_of_silence id ha
        rw [load_eq_ask, bind_of_error hf]
        dsimp only
        rw [bind_of_ok (degrade_of_silent hs (isOutage_of_ask hf).1)]
        rfl
    · rfl

theorem load_of_fetched_eq_none (hs : s.ambient.IsSilent) (hf : h.fetched? id s = none) :
    h.load (.text id) s = Memory.load (.text id) s := by
  unfold load
  rw [bind_of_ok (loadRemote_of_fetched_eq_none hs hf)]

theorem load_of_fetched_eq_some {text : String} (hf : h.fetched? id s = some text) :
    h.load (.text id) s = rebuild (some text) s := by
  obtain ⟨r, hr, hf⟩ := Option.bind_eq_some_iff.mp hf
  split at hf
  · rename_i ha
    rw [load_eq_rebuild hr ha, Storage.served?, if_pos ha, hf, Option.some_or]
  · cases hf

/-- Only the server fails a store, and a load does without it. -/
theorem load_noOutage_of_silent (h : Hybrid) (hs : s.ambient.IsSilent) (id : String) {thrown : Thrown} {t : Storage}
    (hl : h.load (.text id) s = .error thrown t) : ¬ thrown.IsOutage := by
  cases hf : h.fetched? id s with
  | none =>
    rw [load_of_fetched_eq_none hs hf] at hl
    exact rebuild_noOutage (s.memory.textOf? (.text id)) s thrown t hl
  | some text =>
    rw [load_of_fetched_eq_some hf] at hl
    exact rebuild_noOutage _ _ _ _ hl

/-- With a silent logger nothing that the server does gets in the way. A save of an infra config answers, with its text
in memory under its id and all else in memory as before. A deletion answers, with nothing in memory under the id
and all else as before, and tells whether there was something in memory or the server reports a deletion. A
load never fails for the server: it is one from memory, or what comes of reading the text that the server has. -/
theorem does_without_server (h : Hybrid) (hs : s.ambient.IsSilent) :
    (∀ vs, Attained vs → ∃ id text t, vs.read "instanceId" = .text id ∧ serialize vs = .ok text ∧
      h.save (.ofInfraConfig vs) s = .ok () t ∧ t.memory.textOf? (.text id) = some text ∧
        t.memory.erase (.text id) = s.memory.erase (.text id)) ∧
    (∀ id, ∃ removed t, h.delete (.text id) s = .ok removed t ∧
      (removed = true ↔ (s.memory.textOf? (.text id)).isSome = true ∨ h.reportsDeletion id s = true) ∧
        t.memory.textOf? (.text id) = none ∧ t.memory = s.memory.erase (.text id)) ∧
    ∀ id, (∀ thrown t, h.load (.text id) s = .error thrown t → ¬ thrown.IsOutage) ∧
      (h.fetched? id s = none → h.load (.text id) s = Memory.load (.text id) s) ∧
        ∀ text, h.fetched? id s = some text → h.load (.text id) s = (do
          let e ← Storage.around (deserialize text)
          pure (some e) : Act Storage (Option Entity)) s := by
  refine ⟨fun vs ha => ?_, fun id => ?_, fun id => ⟨fun thrown t => h.load_noOutage_of_silent hs id,
    load_of_fetched_eq_none hs, fun text => load_of_fetched_eq_some⟩⟩
  · obtain ⟨id, text, hid, ⟨-, ht⟩, hdeposit, htext⟩ := ha.settled.deposit
    obtain ⟨server, hsave⟩ := h.save_of_silent hs hdeposit htext
    refine ⟨id, text, _, hid, ht, hsave, ?_, s.memory.erase_insert id text⟩
    exact (s.memory.textOf?_insert id text id).trans (if_pos rfl)
  · obtain ⟨server, hdelete⟩ := h.delete_of_silent hs id
    refine ⟨_, _, hdelete, ?_, (s.memory.textOf?_erase id id).trans (if_pos rfl), rfl⟩
    rw [Bool.or_eq_true, or_comm]

/-- Memory holds some texts, and the server has none and refuses to write and to read. -/
def refusing (memory : Memory) : Storage :=
  { fresh with
    memory
    server := { failures := [(.set, .value (.text "READONLY")), (.get, .fault (.plain "timeout"))] } }

/-- What the server refuses to write is kept in memory, and loaded from there when the server refuses to read. -/
theorem refused_text_is_in_memory :
    ∃ vs id text t, Attained vs ∧ serialize vs = .ok text ∧
      mirroredStore.save (.ofInfraConfig vs) (refusing []) = .ok () t ∧ t.memory.textOf? (.text id) = some text ∧
        mirroredStore.load (.text id) (refusing [(.text id, text)]) =
          Memory.load (.text id) (refusing [(.text id, text)]) := by
  obtain ⟨vs, -, ha, -⟩ := exists_attained
  have hsilent : ∀ memory, (refusing memory).ambient.IsSilent := fun _ => rfl
  obtain ⟨hsave, -, -⟩ := does_without_server mirroredStore (hsilent [])
  obtain ⟨id, text, t, -, ht, hs, hm, -⟩ := hsave vs ha
  obtain ⟨-, -, hload⟩ := does_without_server mirroredStore (hsilent [(.text id, text)])
  exact ⟨vs, id, text, t, ha, ht, hs, hm, (hload id).2.1 rfl⟩

end Hybrid

end GovernedConfig
