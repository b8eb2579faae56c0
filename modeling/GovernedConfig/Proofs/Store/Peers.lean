import Mathlib.Logic.Function.Basic
import GovernedConfig.Proofs.Store.Outages

/-! # Hybrid stores over one server

Several processes share a server that always answers, each with a memory copy of its own. What one of them saves
the others find, but no memory copy is told of what the others delete: a load falls back to its own.
-/

namespace GovernedConfig.Hybrid

open Act InfraConfig Remote

/-- The memory copies of some processes, and the server that they share. -/
structure Peers (ι : Type) where
  memory : ι → Memory := fun _ => []
  server : Server := {}

structure Move (ι : Type) where
  peer : ι
  turn : Turn

namespace Peers

variable {ι : Type}

def storage (peers : Peers ι) (p : ι) (w : Weather) : Storage :=
  w.upon { ambient := w.ambient, memory := peers.memory p, server := peers.server }

def all (moves : List (Move ι)) : List Turn := moves.map Move.turn

theorem latest_all_append (id : String) (moves : List (Move ι)) (move : Move ι) :
    latest id (all (moves ++ [move])) = move.turn.call.outcome id (latest id (all moves)) := by
  rw [all, List.map_append]
  exact latest_append id _ _

variable [DecidableEq ι]

def own (p : ι) (moves : List (Move ι)) : List Turn := all (moves.filter (·.peer = p))

theorem latest_own_append (id : String) (p : ι) (moves : List (Move ι)) (move : Move ι) :
    latest id (own p (moves ++ [move])) =
      if p = move.peer then move.turn.call.outcome id (latest id (own p moves)) else latest id (own p moves) := by
  unfold own
  rw [List.filter_append]
  by_cases hp : p = move.peer
  · rw [List.filter_cons_of_pos (by simpa using hp.symm), List.filter_nil, latest_all_append, if_pos hp]
  · rw [List.filter_cons_of_neg (by simpa using Ne.symm hp), List.filter_nil, List.append_nil, if_neg hp]

def next (stores : ι → Hybrid) (peers : Peers ι) (move : Move ι) : Peers ι :=
  let s := (move.turn.call.act (stores move.peer)).after (peers.storage move.peer move.turn.weather)
  { memory := Function.update peers.memory move.peer s.memory, server := s.server }

theorem memory_next (stores : ι → Hybrid) (peers : Peers ι) (move : Move ι) (p : ι) :
    (peers.next stores move).memory p =
      if p = move.peer then
        ((move.turn.call.act (stores move.peer)).after (peers.storage move.peer move.turn.weather)).memory
      else peers.memory p := Function.update_apply ..

def play (stores : ι → Hybrid) (moves : List (Move ι)) (peers : Peers ι) : Peers ι :=
  moves.foldl (next stores) peers

theorem play_append (stores : ι → Hybrid) (moves : List (Move ι)) (move : Move ι) (peers : Peers ι) :
    play stores (moves ++ [move]) peers = next stores (play stores moves peers) move := by
  unfold play
  rw [List.foldl_append]
  rfl

section Runs

variable {stores : ι → Hybrid} {remotes : ι → Remote} {moves : List (Move ι)} {move : Move ι} {peers : Peers ι}

/-- Each memory copy holds the texts of what its process saved last, the server the texts of what was saved last. -/
structure Mirrors (moves : List (Move ι)) (peers : Peers ι) : Prop where
  memory : ∀ p id, Option.Rel PrintedAs ((peers.memory p).textOf? (.text id)) (latest id (own p moves))
  server : ∀ id, Option.Rel PrintedAs (peers.server.data.lookup (textKey id)) (latest id (all moves))

/-- A move makes of the server what it makes of all turns, and of its memory copy what it makes of its own. -/
theorem Mirrors.next (hm : Mirrors moves peers) {r : Remote} (hr : (stores move.peer).remote = some r)
    (httl : (Value.number 0).less? r.ttlSeconds = some false) (hc : move.turn.call.IsProper)
    (hw : ∀ c, move.turn.weather.answers r.link c = true) : Mirrors (moves ++ [move]) (peers.next stores move) where
  memory p id := by
    rw [latest_own_append, memory_next]
    by_cases hp : p = move.peer
    · subst hp
      rw [if_pos rfl, if_pos rfl]
      exact Call.printed_memory (s := peers.storage move.peer move.turn.weather) hc hr httl (hm.memory move.peer id)
    · rw [if_neg hp, if_neg hp]
      exact hm.memory p id
  server id := by
    have hserver := Call.printed_server (s := peers.storage move.peer move.turn.weather) hc hr httl (hm.server id)
    rw [show (peers.storage move.peer move.turn.weather).answers r.link _ = _ from Weather.answers_upon _ _ _ _,
      hw, if_pos rfl] at hserver
    rwa [latest_all_append]

theorem Mirrors.play (hr : ∀ p, (stores p).remote = some (remotes p))
    (httl : ∀ p, (Value.number 0).less? (remotes p).ttlSeconds = some false)
    (hc : ∀ move ∈ moves, move.turn.call.IsProper)
    (hw : ∀ move ∈ moves, ∀ c, move.turn.weather.answers (remotes move.peer).link c = true) :
    Mirrors moves (play stores moves {}) := by
  induction moves using List.reverseRecOn with
  | nil => exact ⟨fun _ _ => .none, fun _ => .none⟩
  | append_singleton moves move ih =>
    rw [play_append]
    have hlast : move ∈ moves ++ [move] := List.mem_append_right _ (List.mem_singleton_self move)
    exact (ih (fun other ho => hc other (List.mem_append_left _ ho))
      fun other ho => hw other (List.mem_append_left _ ho)).next (hr move.peer) (httl move.peer) (hc move hlast)
        (hw move hlast)

theorem Mirrors.load (hm : Mirrors moves peers) {p : ι} {r : Remote} (hr : (stores p).remote = some r) (id : String)
    {w : Weather} (ha : w.answers r.link .get = true) (hdebug : Journal.Accepts .debug w.ambient)
    (hinfo : Journal.Accepts .info w.ambient) (hd : (Calendar.stamp? w.ambient.clock).isSome = true) :
    ∃ found t, (stores p).load (.text id) (peers.storage p w) = .ok found t ∧
      Option.Rel Retells ((latest id (all moves)).or (latest id (own p moves))) found := by
  have ha : (peers.storage p w).answers r.link .get = true := (w.answers_upon _ _ _).trans ha
  have hprinted : Option.Rel PrintedAs ((peers.storage p w).served? r.link id)
      ((latest id (all moves)).or (latest id (own p moves))) := by
    rw [Storage.served?, if_pos ha]
    exact rel_or (hm.server id) (hm.memory p id)
  obtain ⟨found, t, hl, hrel, -⟩ := rebuild_of_printed (s := peers.storage p w) hprinted hdebug hinfo hd
  exact ⟨found, t, (load_eq_rebuild hr ha).trans hl, hrel⟩

/-- A load through one of the stores finds what was saved last through any of them, if it was not deleted since
through any of them; and otherwise what was saved last through this store, if it was not deleted since through
this store. -/
theorem load_finds_latest_of_all_or_own (hr : ∀ p, (stores p).remote = some (remotes p))
    (httl : ∀ p, (Value.number 0).less? (remotes p).ttlSeconds = some false)
    (hc : ∀ move ∈ moves, move.turn.call.IsProper)
    (hw : ∀ move ∈ moves, ∀ c, move.turn.weather.answers (remotes move.peer).link c = true) (p : ι) (id : String)
    {w : Weather} (ha : w.answers (remotes p).link .get = true) (hdebug : Journal.Accepts .debug w.ambient)
    (hinfo : Journal.Accepts .info w.ambient) (hd : (Calendar.stamp? w.ambient.clock).isSome = true) :
    ∃ found t, (stores p).load (.text id) ((play stores moves {}).storage p w) = .ok found t ∧
      Option.Rel Retells ((latest id (all moves)).or (latest id (own p moves))) found :=
  (Mirrors.play hr httl hc hw).load (hr p) id ha hdebug hinfo hd

end Runs

section Samples

/-- Both processes keep their texts on the same server until they are deleted. -/
def pair : Bool → Hybrid := fun _ => mirroredStore

def pairRemote : Bool → Remote := fun _ => ⟨.server, .number 0⟩

theorem pair_remote (p : Bool) : (pair p).remote = some (pairRemote p) := rfl

theorem pairRemote_keeps (p : Bool) : (Value.number 0).less? (pairRemote p).ttlSeconds = some false := by
  cases p <;> decide +kernel

variable {vs : Values}

/-- One process saves something, and another finds it. -/
theorem saved_by_peer_is_found : ∃ vs id found t, Attained vs ∧ Retells vs found ∧
    (pair false).load (.text id) ((play pair [⟨true, fair, .save vs⟩] {}).storage false fair) = .ok (some found) t := by
  obtain ⟨vs, id, hvs, hid⟩ := exists_attained
  have hproper : ∀ move ∈ [Move.mk true ⟨fair, .save vs⟩], move.turn.call.IsProper := List.forall_mem_singleton.mpr hvs
  have hfair : ∀ move ∈ [Move.mk true ⟨fair, .save vs⟩], ∀ c,
      move.turn.weather.answers (pairRemote move.peer).link c = true := List.forall_mem_singleton.mpr fun _ => rfl
  obtain ⟨found, t, hl, hrel⟩ := load_finds_latest_of_all_or_own pair_remote pairRemote_keeps hproper hfair false id
    (w := fair) rfl (Entity.stillness_accepts (by decide)) (Entity.stillness_accepts (by decide)) Entity.stillness_dated
  have hall : latest id (all [⟨true, fair, .save vs⟩] : List Turn) = some vs := if_pos hid
  rw [hall] at hrel
  cases hrel with
  | some hrel => exact ⟨vs, id, _, t, hvs, hrel, hl⟩

def deletedByPeer (vs : Values) (id : String) : List (Move Bool) := [⟨true, fair, .save vs⟩, ⟨false, fair, .delete id⟩]

theorem deletedByPeer_isProper (id : String) (h : Attained vs) :
    ∀ move ∈ deletedByPeer vs id, move.turn.call.IsProper := by
  simp only [deletedByPeer, List.forall_mem_cons]
  exact ⟨h, trivial, by simp⟩

theorem deletedByPeer_fair (vs : Values) (id : String) :
    ∀ move ∈ deletedByPeer vs id, ∀ c, move.turn.weather.answers (pairRemote move.peer).link c = true := by
  simp only [deletedByPeer, List.forall_mem_cons]
  exact ⟨fun _ => rfl, fun _ => rfl, by simp⟩

/-- The process that saved goes on to find what the other one has deleted. -/
theorem peer_deletion_is_not_seen :
    ¬ ∀ (stores : Bool → Hybrid) (remotes : Bool → Remote) (moves : List (Move Bool)) (p : Bool) (id : String)
      (w : Weather), (∀ p, (stores p).remote = some (remotes p)) →
        (∀ p, (Value.number 0).less? (remotes p).ttlSeconds = some false) →
        (∀ move ∈ moves, move.turn.call.IsProper) →
        (∀ move ∈ moves, ∀ c, move.turn.weather.answers (remotes move.peer).link c = true) →
        (∀ c, w.answers (remotes p).link c = true) → Journal.Accepts .debug w.ambient →
        Journal.Accepts .info w.ambient → (Calendar.stamp? w.ambient.clock).isSome = true →
          ∃ found t, (stores p).load (.text id) ((play stores moves {}).storage p w) = .ok found t ∧
            Option.Rel Retells (latest id (all moves)) found := by
  intro hclaim
  obtain ⟨vs, id, hvs, hid⟩ := exists_attained
  have hproper := deletedByPeer_isProper id hvs
  have hfair := deletedByPeer_fair vs id
  have hdebug : Journal.Accepts .debug fair.ambient := Entity.stillness_accepts (by decide)
  have hinfo : Journal.Accepts .info fair.ambient := Entity.stillness_accepts (by decide)
  have hm := Mirrors.play pair_remote pairRemote_keeps hproper hfair
  obtain ⟨found, t, hl, hrel⟩ := hm.load (pair_remote true) id (w := fair) rfl hdebug hinfo
    Entity.stillness_dated
  obtain ⟨found', t', hl', hrel'⟩ := hclaim pair pairRemote (deletedByPeer vs id) true id fair (fun _ => rfl)
    pairRemote_keeps hproper hfair (fun _ => rfl) hdebug hinfo Entity.stillness_dated
  have hall : latest id (all (deletedByPeer vs id)) = none := by
    change (if id = id then none else _) = none
    exact if_pos rfl
  have hown : latest id (own true (deletedByPeer vs id)) = some vs := by
    change (if vs.read "instanceId" = .text id then some vs else none) = some vs
    exact if_pos hid
  rw [hall, hown] at hrel
  rw [hall] at hrel'
  rw [hl] at hl'
  cases hl'
  cases hrel'
  cases hrel

end Samples

end Peers

end GovernedConfig.Hybrid
