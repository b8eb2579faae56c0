import GovernedConfig.Proofs.Store.Failures
import GovernedConfig.Proofs.Store.Texts
import GovernedConfig.Store.Hybrid

/-! # What the hybrid store does

A save or a deletion always reaches memory, and the server if that answers the command. A load asks the
server first, if that answers, and changes no text.
-/

namespace GovernedConfig

open Act

def Storage.answers (s : Storage) (link : Link) (c : Command) : Bool :=
  s.available link && (s.server.failures.lookup c).isNone

namespace Storage

structure Still (s t : Storage) : Prop where
  memory : t.memory = s.memory
  data : t.server.data = s.server.data

instance : Std.Refl Still := ⟨fun _ => ⟨rfl, rfl⟩⟩

instance : IsTrans Storage Still := ⟨fun _ _ _ h g => ⟨g.memory.trans h.memory, g.data.trans h.data⟩⟩

theorem around_still {α : Type} (act : Act Ambient α) : (around act).Keeps Still :=
  Act.Keeps.within (S := fun _ _ => True) (fun _ => trivial) fun _ _ _ => ⟨rfl, rfl⟩

variable {α : Type} {s : Storage} {link : Link} {c : Command}

theorem answers_congr {t : Storage} (hp : t.pool = s.pool) (hu : t.server.up = s.server.up)
    (hf : t.server.failures = s.server.failures) : t.answers link c = s.answers link c := by
  unfold answers
  rw [hf]
  cases link <;> simp only [available, hp, hu]

theorem answers_eq_true_iff : s.answers link c = true ↔ s.available link = true ∧ s.server.accept c = .ok () := by
  unfold answers Server.accept
  cases s.server.failures.lookup c <;> simp

theorem accept_of_answers_eq_false (h : s.answers link c = false) (ha : s.available link = true) :
    ∃ thrown, s.server.accept c = .error thrown := by
  unfold answers at h
  unfold Server.accept
  cases hl : s.server.failures.lookup c with
  | none => simp [ha, hl] at h
  | some thrown => exact ⟨thrown, rfl⟩

end Storage

namespace Remote

variable {r : Remote} {id text : String} {s t : Storage}

def textKey (id : String) : String := "infra-config:" ++ id

theorem keyOf_text (id : String) : keyOf (.text id) = some (textKey id) := rfl

theorem textKey_inj {id other : String} : textKey id = textKey other ↔ id = other := by
  unfold textKey
  exact String.append_right_inj _

section Asking

variable {α : Type} {operation : StoreOperation} {c : Command}
  {run : String → Server → Except Thrown (α × Server)} {a : α} {server : Server}

def ask (r : Remote) (operation : StoreOperation) (id : Value)
    (run : String → Server → Except Thrown (α × Server)) : Act Storage α := do
  r.require operation id
  let key ← Act.suitable (keyOf id)
  command operation id (run key)

theorem ask_of_answers (ha : s.answers r.link c = true)
    (hrun : s.server.accept c = .ok () → run (textKey id) s.server = .ok (a, server)) :
    r.ask operation (.text id) run s = .ok a { s with server } := by
  obtain ⟨hlink, haccept⟩ := Storage.answers_eq_true_iff.mp ha
  have hrequire : r.require operation (.text id) s = .ok () s := by
    unfold require
    rw [bind_of_ok (get_eq s), if_pos hlink]
    rfl
  unfold ask
  rw [bind_of_ok hrequire, bind_of_ok (suitable_eq_ok_iff.mpr ⟨keyOf_text id, rfl⟩)]
  unfold command
  rw [bind_of_ok (get_eq s), hrun haccept]
  rfl

theorem ask_of_silence (ha : s.answers r.link c = false)
    (hrun : ∀ thrown, s.server.accept c = .error thrown → run (textKey id) s.server = .error thrown) :
    ∃ thrown, r.ask operation (.text id) run s = .error thrown s := by
  unfold ask require
  rw [bind_apply, bind_of_ok (get_eq s)]
  cases hlink : s.available r.link with
  | false => exact ⟨_, rfl⟩
  | true =>
    obtain ⟨thrown, haccept⟩ := Storage.accept_of_answers_eq_false ha hlink
    have hcommand : command operation (.text id) (run (textKey id)) s =
        .error (.fault (.failedStore operation (.text id) thrown.summary)) s := by
      unfold command
      rw [bind_of_ok (get_eq s), hrun thrown haccept]
      rfl
    exact ⟨_, (bind_of_ok (suitable_eq_ok_iff.mpr ⟨keyOf_text id, rfl⟩) _).trans hcommand⟩

end Asking

section Saving

variable {d : Deposit} (hid : d.id = .ok (.text id)) (htext : d.text = .ok text)
  (httl : (Value.number 0).less? r.ttlSeconds = some false)

include hid htext

theorem save_eq_ask :
    r.save d s = r.ask .save (.text id) (fun key server => do pure ((), ← r.keep key text server)) s := by
  unfold save ask
  rw [bind_of_ok (ofExcept_eq_ok_iff.mpr ⟨hid, rfl⟩), htext]
  rfl

include httl

theorem save_of_answers (ha : s.answers r.link .set = true) :
    r.save d s = .ok () { s with server := s.server.put (textKey id) text } := by
  rw [save_eq_ask hid htext]
  refine ask_of_answers ha fun haccept => ?_
  rw [keep, httl, Server.write, haccept]
  rfl

theorem save_of_silence (ha : s.answers r.link .set = false) : ∃ thrown, r.save d s = .error thrown s := by
  rw [save_eq_ask hid htext]
  refine ask_of_silence ha fun thrown haccept => ?_
  rw [keep, httl, Server.write, haccept]
  rfl

end Saving

theorem delete_of_answers (id : String) (ha : s.answers r.link .del = true) : r.delete (.text id) s =
    .ok (s.server.data.holds (textKey id)) { s with server :=
      { s.server with data := s.server.data.erase (textKey id) } } := by
  refine ask_of_answers ha fun haccept => ?_
  rw [Server.remove, haccept]
  rfl

theorem delete_of_silence (id : String) (ha : s.answers r.link .del = false) :
    ∃ thrown, r.delete (.text id) s = .error thrown s := by
  refine ask_of_silence ha fun thrown haccept => ?_
  rw [Server.remove, haccept]
  rfl

/-- What a load makes of the text that it finds, if it finds one. -/
def rebuild : Option String → Act Storage (Option Entity)
  | none => pure none
  | some text => do pure (some (← Storage.around (InfraConfig.deserialize text)))

def fetch (key : String) (server : Server) : Except Thrown (Option String × Server) := do
  pure (← server.fetch key, server)

theorem load_eq_ask (r : Remote) (id : Value) : r.load id = r.ask .load id fetch >>= rebuild := by
  unfold load ask
  simp only [bind_assoc]
  rfl

theorem load_of_answers (id : String) (ha : s.answers r.link .get = true) :
    r.load (.text id) s = rebuild (s.server.data.lookup (textKey id)) s := by
  rw [load_eq_ask]
  refine bind_of_ok (ask_of_answers ha fun haccept => ?_) _
  rw [fetch, Server.fetch, haccept]
  rfl

theorem fetch_of_silence (id : String) (ha : s.answers r.link .get = false) :
    ∃ thrown, r.ask .load (.text id) fetch s = .error thrown s := by
  refine ask_of_silence ha fun thrown haccept => ?_
  rw [fetch, Server.fetch, haccept]
  rfl

theorem load_of_silence (id : String) (ha : s.answers r.link .get = false) :
    ∃ thrown, r.load (.text id) s = .error thrown s := by
  obtain ⟨thrown, h⟩ := fetch_of_silence id ha
  rw [load_eq_ask]
  exact ⟨thrown, bind_of_error h _⟩

end Remote

namespace Storage

def kept (s : Storage) (link : Link) (id text : String) : Storage :=
  { s with
    memory := s.memory.insert (.text id) text
    server := if s.answers link .set then s.server.put (Remote.textKey id) text else s.server }

def erased (s : Storage) (link : Link) (id : String) : Storage :=
  { s with
    memory := s.memory.erase (.text id)
    server := if s.answers link .del then { s.server with data := s.server.data.erase (Remote.textKey id) }
      else s.server }

variable (s : Storage) (link : Link) (own text id : String)

theorem textOf?_kept : (s.kept link own text).memory.textOf? (.text id) =
    if id = own then some text else s.memory.textOf? (.text id) := Memory.textOf?_insert s.memory own text id

theorem textOf?_erased : (s.erased link own).memory.textOf? (.text id) =
    if id = own then none else s.memory.textOf? (.text id) := Memory.textOf?_erase s.memory own id

theorem lookup_kept : (s.kept link own text).server.data.lookup (Remote.textKey id) =
    if s.answers link .set ∧ id = own then some text else s.server.data.lookup (Remote.textKey id) := by
  unfold kept
  by_cases ha : s.answers link .set = true
  · simp only [ha, if_true, Server.put, Record.lookup_insert, Remote.textKey_inj, true_and]
  · rw [if_neg ha, if_neg fun h => ha h.1]

theorem lookup_erased : (s.erased link own).server.data.lookup (Remote.textKey id) =
    if s.answers link .del ∧ id = own then none else s.server.data.lookup (Remote.textKey id) := by
  unfold erased
  by_cases ha : s.answers link .del = true
  · simp only [ha, if_true, Record.lookup_erase, Remote.textKey_inj, true_and]
  · rw [if_neg ha, if_neg fun h => ha h.1]

/-- The text that a load of an id goes by: the one on the server, if that answers with one, or else the one in
memory. -/
def served? (s : Storage) (link : Link) (id : String) : Option String :=
  if s.answers link .get then (s.server.data.lookup (Remote.textKey id)).or (s.memory.textOf? (.text id))
  else s.memory.textOf? (.text id)

end Storage

theorem Memory.save_eq {d : Deposit} {id text : String} (hid : d.id = .ok (.text id)) (ht : d.text = .ok text)
    (s : Storage) : Memory.save d s = .ok () { s with memory := s.memory.insert (.text id) text } := by
  unfold Memory.save
  rw [bind_of_ok (ofExcept_eq_ok_iff.mpr ⟨hid, rfl⟩), bind_of_ok (ofExcept_eq_ok_iff.mpr ⟨ht, rfl⟩)]
  rfl

namespace Hybrid

open Remote

variable {h : Hybrid} {r : Remote} {id text : String} {s t : Storage}

theorem degrade_still (operation : StoreOperation) (id : Value) (thrown : Thrown) :
    (degrade operation id thrown).Keeps Storage.Still := by
  unfold degrade
  split
  · exact Storage.around_still _
  · exact keeps_throw _

theorem after_save (hr : h.remote = some r) {d : Deposit} (hid : d.id = .ok (.text id)) (htext : d.text = .ok text)
    (httl : (Value.number 0).less? r.ttlSeconds = some false) :
    Storage.Still (s.kept r.link id text) ((h.save d).after s) := by
  unfold save
  rw [after_bind_of_ok (Memory.save_eq hid htext s), replicate, hr]
  dsimp only
  unfold Storage.kept
  cases ha : s.answers r.link .set with
  | true =>
    have hsave := save_of_answers (s := { s with memory := s.memory.insert (.text id) text }) hid htext httl ha
    rw [after_tryCatch_of_ok hsave]
    exact Std.Refl.refl _
  | false =>
    obtain ⟨thrown, hsave⟩ :=
      save_of_silence (s := { s with memory := s.memory.insert (.text id) text }) hid htext httl ha
    rw [after_tryCatch_of_error hsave, after_bind_of_ok (ofExcept_eq_ok_iff.mpr ⟨hid, rfl⟩)]
    exact degrade_still _ _ _ _

theorem after_delete (hr : h.remote = some r) :
    Storage.Still (s.erased r.link id) ((h.delete (.text id)).after s) := by
  have hmemory : Memory.delete (.text id) s =
      .ok (s.memory.textOf? (.text id)).isSome { s with memory := s.memory.erase (.text id) } := rfl
  unfold delete
  rw [after_bind_of_ok hmemory, hr]
  dsimp only
  unfold Storage.erased
  cases ha : s.answers r.link .del with
  | true =>
    have hdelete := delete_of_answers (s := { s with memory := s.memory.erase (.text id) }) id ha
    have hboth := bind_of_ok hdelete fun gone =>
      (pure (gone || (s.memory.textOf? (.text id)).isSome) : Act Storage Bool)
    rw [pure_eq] at hboth
    rw [after_tryCatch_of_ok hboth]
    exact Std.Refl.refl _
  | false =>
    obtain ⟨thrown, hdelete⟩ := delete_of_silence (s := { s with memory := s.memory.erase (.text id) }) id ha
    rw [after_tryCatch_of_error (bind_of_error hdelete _)]
    exact ((degrade_still _ _ _).bind fun _ => keeps_pure _) _

theorem rebuild_still (text : Option String) : (rebuild text).Keeps Storage.Still := by
  cases text with
  | none => exact keeps_pure _
  | some text => exact (Storage.around_still _).bind fun _ => keeps_pure _

theorem remote_load_still (r : Remote) (id : String) : (r.load (.text id)).Keeps Storage.Still := by
  intro s
  cases ha : s.answers r.link .get with
  | true =>
    rw [Act.after, load_of_answers id ha]
    exact rebuild_still _ s
  | false =>
    obtain ⟨thrown, hl⟩ := load_of_silence id ha
    rw [after_of_error hl]
    exact Std.Refl.refl s

theorem loadRemote_still (h : Hybrid) (id : String) : (h.loadRemote (.text id)).Keeps Storage.Still := by
  unfold loadRemote
  split
  · exact keeps_pure _
  · refine keeps_get.bind fun s => ?_
    split
    · exact (remote_load_still _ id).tryCatch fun _ => (degrade_still _ _ _).bind fun _ => keeps_pure _
    · exact keeps_pure _

theorem load_still (h : Hybrid) (id : String) : (h.load (.text id)).Keeps Storage.Still := by
  refine (loadRemote_still h id).bind fun found => ?_
  cases found with
  | some e => exact keeps_pure _
  | none => exact keeps_get.bind fun s => rebuild_still _

def ReadAs (text : String) (e : Entity) : Prop := ∃ m n, InfraConfig.deserialize text m = .ok e n

theorem readAs_of_rebuild {text : Option String} {found : Option Entity} (hb : rebuild text s = .ok found t) :
    Option.Rel ReadAs text found := by
  cases text with
  | none =>
    obtain ⟨rfl, -⟩ := pure_eq_ok_iff.mp hb
    exact .none
  | some text =>
    obtain ⟨e, u, hu, hb⟩ := bind_eq_ok_iff.mp hb
    obtain ⟨n, hn, rfl⟩ := within_eq_ok_iff.mp hu
    obtain ⟨rfl, -⟩ := pure_eq_ok_iff.mp hb
    exact .some ⟨s.ambient, n, hn⟩

theorem rebuild_noOutage (text : Option String) : (rebuild text).NoOutage := by
  cases text with
  | none => exact throws_pure _
  | some text => exact (InfraConfig.deserialize_noOutage text).within.bind fun _ => throws_pure _

theorem degrade_of_not_isOutage {operation : StoreOperation} {id : Value} {thrown : Thrown}
    (hn : ¬ thrown.IsOutage) : degrade operation id thrown = throw thrown := by
  unfold degrade
  split
  · exact (hn ⟨_, _, _, rfl⟩).elim
  · rfl

/-- The server's part in a load: what it answers, or nothing. -/
theorem loadRemote_eq_ok (hr : h.remote = some r) {found : Option Entity}
    (hl : h.loadRemote (.text id) s = .ok found t) :
    Option.Rel ReadAs (if s.answers r.link .get then s.server.data.lookup (textKey id) else none) found := by
  unfold loadRemote at hl
  rw [hr] at hl
  dsimp only at hl
  rw [bind_of_ok (get_eq s)] at hl
  have hdegraded : ∀ {thrown u}, (do
      degrade .load (.text id) thrown
      pure none : Act Storage (Option Entity)) u = .ok found t → found = none ∧ thrown.IsOutage := by
    intro thrown u hd
    obtain ⟨_, _, hw, hd⟩ := bind_eq_ok_iff.mp hd
    refine ⟨(pure_eq_ok_iff.mp hd).1.symm, Classical.byContradiction fun hn => ?_⟩
    rw [degrade_of_not_isOutage hn] at hw
    cases hw
  cases ha : s.answers r.link .get with
  | true =>
    rw [if_pos (Storage.answers_eq_true_iff.mp ha).1, tryCatch_apply, load_of_answers id ha] at hl
    rw [if_pos rfl]
    cases hb : rebuild (s.server.data.lookup (textKey id)) s with
    | ok e u =>
      rw [hb] at hl
      cases hl
      exact readAs_of_rebuild hb
    | error thrown u =>
      rw [hb] at hl
      exact (rebuild_noOutage _ _ _ _ hb (hdegraded hl).2).elim
  | false =>
    rw [if_neg (by simp)]
    split at hl
    · obtain ⟨thrown, hs⟩ := load_of_silence id ha
      rw [tryCatch_apply, hs] at hl
      rw [(hdegraded hl).1]
      exact .none
    · obtain ⟨rfl, -⟩ := pure_eq_ok_iff.mp hl
      exact .none

theorem load_eq_ok (hr : h.remote = some r) {found : Option Entity} (hl : h.load (.text id) s = .ok found t) :
    Option.Rel ReadAs (s.served? r.link id) found := by
  obtain ⟨first, u, hu, hl⟩ := bind_eq_ok_iff.mp hl
  have hfirst := loadRemote_eq_ok hr hu
  have hstill : Storage.Still s u := (loadRemote_still h id).of_ok hu
  unfold Storage.served?
  generalize s.server.data.lookup (textKey id) = text at hfirst ⊢
  cases first with
  | some e =>
    obtain ⟨rfl, -⟩ := pure_eq_ok_iff.mp hl
    split at hfirst
    · rename_i ha
      rw [if_pos ha]
      cases hfirst with
      | some hread => exact .some hread
    · cases hfirst
  | none =>
    have hmemory : Option.Rel ReadAs (s.memory.textOf? (.text id)) found := by
      rw [← hstill.memory]
      exact readAs_of_rebuild hl
    split at hfirst
    · rename_i ha
      rw [if_pos ha]
      cases hfirst
      exact hmemory
    · rename_i ha
      rwa [if_neg ha]

/-- While the server answers reads, a load rebuilds what it goes by, whatever comes of that. -/
theorem load_eq_rebuild (hr : h.remote = some r) (ha : s.answers r.link .get = true) :
    h.load (.text id) s = rebuild (s.served? r.link id) s := by
  have hremote : h.loadRemote (.text id) s = (tryCatch (rebuild (s.server.data.lookup (textKey id)))
      fun thrown => do
        degrade .load (.text id) thrown
        pure none) s := by
    unfold loadRemote
    rw [hr]
    dsimp only
    rw [bind_of_ok (get_eq s), if_pos (Storage.answers_eq_true_iff.mp ha).1, tryCatch_apply, tryCatch_apply,
      load_of_answers id ha]
  unfold load
  rw [Storage.served?, if_pos ha]
  cases hl : s.server.data.lookup (textKey id) with
  | none =>
    rw [hl] at hremote
    rw [bind_of_ok (hremote.trans rfl), Option.none_or]
    rfl
  | some held =>
    rw [hl] at hremote
    rw [Option.some_or]
    cases hb : rebuild (some held) s with
    | ok found t =>
      obtain ⟨e, u, hu, he⟩ := bind_eq_ok_iff.mp hb
      obtain ⟨rfl, rfl⟩ := pure_eq_ok_iff.mp he
      rw [tryCatch_apply, hb] at hremote
      exact bind_of_ok hremote _
    | error thrown t =>
      rw [tryCatch_apply, hb] at hremote
      dsimp only at hremote
      rw [degrade_of_not_isOutage (rebuild_noOutage _ _ _ _ hb)] at hremote
      exact bind_of_error hremote _

end Hybrid

end GovernedConfig
