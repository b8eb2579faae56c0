import GovernedConfig.Proofs.Alike
import GovernedConfig.Proofs.Store.Hybrid

/-! # What the store on the server looks at

An operation of the store goes by what the server keeps under the key of its id, and touches nothing that is
kept under another key.
-/

namespace GovernedConfig

open Act

namespace Server

/-- Two servers differ in what they keep under other keys at most. -/
def SameFor (key : String) (s t : Server) : Prop :=
  ∃ data : Record String, t = { s with data } ∧ data.lookup key = s.data.lookup key

def Spares (key : String) (s t : Server) : Prop := ∀ other ≠ key, t.data.lookup other = s.data.lookup other

end Server

namespace Storage

def SameFor (key : String) (s t : Storage) : Prop := ∃ server, t = { s with server } ∧ s.server.SameFor key server

def Spares (key : String) (s t : Storage) : Prop := s.server.Spares key t.server

instance (key : String) : Std.Refl (Spares key) := ⟨fun _ _ _ => rfl⟩

instance (key : String) : IsTrans Storage (Spares key) := ⟨fun _ _ _ h g other ho => (g other ho).trans (h other ho)⟩

end Storage

namespace Remote

open Storage

variable {α β : Type} {key : String}

/-- An operation on the storage reads and writes nothing that the server keeps under another key. -/
structure Confined (key : String) (act : Act Storage α) : Prop where
  reads : ∀ s t, s.SameFor key t → Alike (SameFor key) (act s) (act t)
  writes : act.Keeps (Spares key)

namespace Confined

theorem pure (a : α) : Confined key (Pure.pure a) := ⟨fun _ _ h => .ok h, keeps_pure a⟩

theorem throw (thrown : Thrown) : Confined key (throw thrown : Act Storage α) :=
  ⟨fun _ _ h => .error h, keeps_throw thrown⟩

theorem bind {act : Act Storage α} {next : α → Act Storage β} (h : Confined key act)
    (hn : ∀ a, Confined key (next a)) : Confined key (act >>= next) where
  reads s t hs := (h.reads s t hs).bind fun a s' t' _ _ h => (hn a).reads s' t' h
  writes := h.writes.bind fun a => (hn a).writes

theorem ofExcept (found : Except Fault α) : Confined key (Act.ofExcept found) := by
  cases found with
  | ok a => exact pure a
  | error cause => exact throw _

theorem around (act : Act Ambient α) : Confined key (Storage.around act) where
  reads s t := by
    rintro ⟨server, rfl, h⟩
    exact Alike.within (.of_eq rfl) fun m n hm => ⟨server, by rw [hm], h⟩
  writes := Keeps.within (S := fun _ _ => True) (fun _ => trivial) fun _ _ _ _ _ => rfl

end Confined

theorem require_confined (r : Remote) (operation : StoreOperation) (id : Value) :
    Confined key (r.require operation id) where
  reads s t hs := by
    have ha : t.available r.link = s.available r.link := by
      obtain ⟨server, rfl, data, rfl, -⟩ := hs
      cases r.link <;> rfl
    unfold require
    rw [bind_of_ok (get_eq s), bind_of_ok (get_eq t), ha]
    split
    · exact .ok hs
    · exact .error hs
  writes := by
    refine keeps_get.bind fun s => ?_
    split
    · exact keeps_pure _
    · exact keeps_fail _

structure ConfinedCommand (key : String) (run : Server → Except Thrown (α × Server)) : Prop where
  reads : ∀ s t, s.SameFor key t → (∃ thrown, run s = .error thrown ∧ run t = .error thrown) ∨
    ∃ a s' t', run s = .ok (a, s') ∧ run t = .ok (a, t') ∧ s'.SameFor key t'
  writes : ∀ s a s', run s = .ok (a, s') → s.Spares key s'

namespace ConfinedCommand

variable {run : Server → Except Thrown (α × Server)}

/-- A command that is answered once it is accepted is confined if its answer and its effect are. -/
theorem of_accept (c : Command) (answer : Server → α) (change : Server → Server)
    (hrun : run = fun s => do
      s.accept c
      Pure.pure (answer s, change s))
    (hr : ∀ s t, s.SameFor key t → answer s = answer t ∧ (change s).SameFor key (change t))
    (hw : ∀ s : Server, s.Spares key (change s)) : ConfinedCommand key run where
  reads s t hs := by
    have ha : t.accept c = s.accept c := by
      obtain ⟨data, rfl, -⟩ := hs
      rfl
    rw [hrun]
    dsimp only
    rw [ha]
    cases s.accept c with
    | error thrown => exact .inl ⟨thrown, rfl, rfl⟩
    | ok _ =>
      obtain ⟨hanswer, hchange⟩ := hr s t hs
      exact .inr ⟨answer s, change s, change t, rfl, by rw [hanswer]; rfl, hchange⟩
  writes s a s' h := by
    rw [hrun] at h
    dsimp only at h
    cases ha : s.accept c with
    | error thrown =>
      rw [ha] at h
      cases h
    | ok _ =>
      rw [ha] at h
      cases h
      exact hw s

theorem command (h : ConfinedCommand key run) (operation : StoreOperation) (id : Value) :
    Confined key (Remote.command operation id run) where
  reads s t := by
    rintro ⟨server, rfl, hs⟩
    unfold Remote.command
    rw [bind_of_ok (get_eq s), bind_of_ok (get_eq _)]
    rcases h.reads _ _ hs with ⟨thrown, hrun, hrun'⟩ | ⟨a, s', t', hrun, hrun', hs'⟩
    · dsimp only
      rw [hrun, hrun']
      exact .error ⟨server, rfl, hs⟩
    · dsimp only
      rw [hrun, hrun']
      exact .ok ⟨t', rfl, hs'⟩
  writes := by
    intro s
    unfold Act.after Remote.command
    rw [bind_of_ok (get_eq s)]
    cases hrun : run s.server with
    | error thrown => exact Std.Refl.refl s
    | ok answered => exact h.writes _ _ _ hrun

end ConfinedCommand

section Commands

theorem fetch_confined (key : String) : ConfinedCommand key (fetch key) := by
  refine .of_accept .get (fun s => s.data.lookup key) id ?_ (fun s t hs => ?_) fun s _ _ => rfl
  · funext s
    unfold fetch Server.fetch
    cases s.accept .get <;> rfl
  · obtain ⟨data, rfl, hd⟩ := hs
    exact ⟨hd.symm, data, rfl, hd⟩

theorem remove_confined (key : String) : ConfinedCommand key (fun server => server.remove key) := by
  refine .of_accept .del (fun s => s.data.holds key) (fun s => { s with data := s.data.erase key }) ?_
    (fun s t hs => ?_) fun s other ho => ?_
  · funext s
    unfold Server.remove
    cases s.accept .del <;> rfl
  · obtain ⟨data, rfl, hd⟩ := hs
    refine ⟨?_, Record.erase data key, rfl, ?_⟩
    · rw [Record.holds_eq_isSome, Record.holds_eq_isSome, hd]
    · rw [Record.lookup_erase_self, Record.lookup_erase_self]
  · exact Record.lookup_erase_of_ne ho _

theorem keep_confined (r : Remote) (key text : String) :
    ConfinedCommand key (fun server => do pure ((), ← r.keep key text server)) := by
  have hput : ∀ s t : Server, s.SameFor key t → (s.put key text).SameFor key (t.put key text) := by
    rintro s t ⟨data, rfl, -⟩
    refine ⟨_, rfl, ?_⟩
    rw [Server.put, Record.lookup_insert_self, Record.lookup_insert_self]
  have hspares : ∀ s : Server, s.Spares key (s.put key text) := fun s other ho => Record.lookup_insert_of_ne ho _ _
  unfold keep
  cases (Value.number 0).less? r.ttlSeconds with
  | none => exact ⟨fun _ _ _ => .inl ⟨_, rfl, rfl⟩, fun _ _ _ h => by cases h⟩
  | some expires =>
    cases expires with
    | false =>
      refine .of_accept .set (fun _ => ()) (fun s => s.put key text) ?_ (fun s t hs => ⟨rfl, hput s t hs⟩) hspares
      funext s
      dsimp only
      unfold Server.write
      cases s.accept .set <;> rfl
    | true =>
      refine .of_accept .setex (fun _ => ())
        (fun s => { s.put key text with expiries := Record.insert s.expiries key r.ttlSeconds }) ?_
        (fun s t hs => ⟨rfl, ?_⟩) hspares
      · funext s
        dsimp only
        unfold Server.writeExpiring
        cases s.accept .setex <;> rfl
      · obtain ⟨data, ht, hd⟩ := hput s t hs
        obtain ⟨_, rfl, -⟩ := hs
        exact ⟨data, by rw [ht], hd⟩

end Commands

section Operations

variable (r : Remote) (id : String)

theorem ask_confined {operation : StoreOperation} {run : String → Server → Except Thrown (α × Server)}
    (h : ConfinedCommand (textKey id) (run (textKey id))) :
    Confined (textKey id) (r.ask operation (.text id) run) := by
  unfold ask
  rw [keyOf_text]
  exact (r.require_confined _ _).bind fun _ => h.command _ _

theorem delete_confined : Confined (textKey id) (r.delete (.text id)) :=
  r.ask_confined id (remove_confined _)

theorem load_confined : Confined (textKey id) (r.load (.text id)) := by
  rw [load_eq_ask]
  refine (r.ask_confined id (fetch_confined _)).bind fun found => ?_
  cases found with
  | none => exact .pure _
  | some text => exact (Confined.around _).bind fun _ => .pure _

theorem save_confined {d : Deposit} (hid : d.id = .ok (.text id)) : Confined (textKey id) (r.save d) := by
  unfold save
  rw [hid]
  change Confined (textKey id) (do
    r.require .save (.text id)
    let text ← Act.ofExcept d.text
    Remote.command .save (.text id) fun server => do pure ((), ← r.keep (textKey id) text server))
  exact (r.require_confined _ _).bind fun _ => (Confined.ofExcept _).bind fun text =>
    (r.keep_confined (textKey id) text).command _ _

end Operations

end Remote

end GovernedConfig
