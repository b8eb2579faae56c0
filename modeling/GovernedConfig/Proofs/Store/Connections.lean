import GovernedConfig.Proofs.Outcome
import GovernedConfig.Store

/-! # Connections of a service

A service opens and closes its shared connection and creates stores, each of which goes on to use the connection that it
was created with. Whether a connection is used depends on what happened to it last, so one that was closed is used again
as soon as it is reported to be ready.
-/

namespace GovernedConfig

open Act

namespace Connection

inductive Happening where
  | event (e : Event)
  /-- The service closes it. -/
  | closing

def undergo (c : Connection) : Happening → Connection
  | .event e => c.step e
  | .closing => { c with ready := false }

variable {past : List Happening} {h : Happening}

/-- The last that happened was that a connection got ready; events that mean nothing aside. -/
def LastReady (past : List Happening) : Prop :=
  ∃ before later, past = before ++ .event .ready :: later ∧ ∀ h ∈ later, h = .event .other

/-- A connection was closed, and reported to be ready later. -/
def Revived (past : List Happening) : Prop :=
  ∃ before between later, past = before ++ .closing :: (between ++ .event .ready :: later) ∧
    ∀ h ∈ later, h = .event .other

theorem not_lastReady_nil : ¬ LastReady [] := by
  rintro ⟨before, later, he, -⟩
  simp at he

theorem lastReady_concat : LastReady (past ++ [h]) ↔ h = .event .ready ∨ h = .event .other ∧ LastReady past := by
  constructor
  · rintro ⟨before, later, he, hlater⟩
    rcases List.eq_nil_or_concat later with rfl | ⟨later, last, rfl⟩
    · exact .inl (by simpa using (List.append_inj' he rfl).2)
    · rw [List.concat_eq_append, ← List.cons_append, ← List.append_assoc] at he
      obtain ⟨rfl, hlast⟩ := List.append_inj' he rfl
      obtain rfl : h = last := by simpa using hlast
      exact .inr ⟨hlater h (by simp), before, later, rfl, fun h hh => hlater h (by simp [hh])⟩
  · rintro (rfl | ⟨rfl, before, later, rfl, hlater⟩)
    · exact ⟨past, [], rfl, by simp⟩
    · refine ⟨before, later ++ [.event .other], by simp, fun h hh => ?_⟩
      rcases List.mem_append.mp hh with hh | hh
      · exact hlater h hh
      · exact List.mem_singleton.mp hh

theorem undergo_ready_iff (c : Connection) :
    (c.undergo h).ready = true ↔ h = .event .ready ∨ h = .event .other ∧ c.ready = true := by
  cases h with
  | event e => cases e <;> simp [undergo, step]
  | closing => simp [undergo]

theorem lastReady_and_closed_iff : LastReady past ∧ .closing ∈ past ↔ Revived past := by
  constructor
  · rintro ⟨⟨before, later, rfl, hlater⟩, hclosed⟩
    have hbefore : .closing ∈ before := by
      rcases List.mem_append.mp hclosed with hclosed | hclosed
      · exact hclosed
      · rcases List.mem_cons.mp hclosed with hclosed | hclosed
        · cases hclosed
        · cases hlater _ hclosed
    obtain ⟨former, between, rfl⟩ := List.append_of_mem hbefore
    exact ⟨former, between, later, by simp, hlater⟩
  · rintro ⟨before, between, later, rfl, hlater⟩
    exact ⟨⟨before ++ .closing :: between, later, by simp, hlater⟩, by simp⟩

end Connection

open Connection

namespace Pool

variable {p : Pool} {i j : Nat}

def happen (p : Pool) (i : Nat) (h : Happening) : Pool :=
  { p with connections := p.connections.modify i (·.undergo h) }

theorem isReady_happen (h : Happening) (hi : i < p.connections.length) :
    (p.happen i h).isReady j = true ↔
      if i = j then h = .event .ready ∨ h = .event .other ∧ p.isReady j = true else p.isReady j = true := by
  unfold happen isReady connection
  rw [List.getElem?_modify]
  split
  · rename_i he
    subst he
    rw [List.getElem?_eq_getElem hi]
    exact undergo_ready_iff _
  · simp

theorem isReady_add {c : Connection} (hc : c.ready = false) : (p.add c).2.isReady i = p.isReady i := by
  unfold add isReady connection
  rcases Nat.lt_trichotomy i p.connections.length with hi | rfl | hi
  · simp [List.getElem?_append_left hi]
  · simp [hc]
  · rw [List.getElem?_eq_none (by simp; omega), List.getElem?_eq_none (by omega)]

/-- What asking for a connection comes to: there is none without a URL, there is the shared one, or one is opened. -/
theorem connect_cases (p : Pool) (asked : Option String) : p.connect asked = (none, p) ∨
    (∃ i, p.shared = some i ∧ p.connect asked = (some i, p)) ∨
      p.connect asked = (some p.connections.length,
        { (p.add { opened := true }).2 with shared := some p.connections.length }) := by
  unfold connect
  cases asked with
  | none => exact .inl rfl
  | some url =>
    dsimp only
    split
    · exact .inl rfl
    · cases hs : p.shared with
      | some i => exact .inr (.inl ⟨i, rfl, rfl⟩)
      | none => exact .inr (.inr rfl)

end Pool

def Store.link? : Store → Option Link
  | memory => none
  | remote r => some r.link
  | hybrid h => h.remote.map Remote.link

namespace Store

theorem link_of_ofOptions {link : Link} {ttlSeconds : Value} {m n : Ambient} {r : Remote}
    (h : Remote.ofOptions link ttlSeconds m = .ok r n) : r.link = link := by
  unfold Remote.ofOptions at h
  split at h
  · obtain ⟨rfl, -⟩ := pure_eq_ok_iff.mp h
    rfl
  · obtain ⟨known, _, -, h⟩ := bind_eq_ok_iff.mp h
    obtain ⟨rfl, -⟩ := pure_eq_ok_iff.mp h
    rfl

theorem around_pool {α : Type} (act : Act Ambient α) (s : Storage) : ((Storage.around act).after s).pool = s.pool := by
  rw [Storage.around, after_within]

theorem forService_given (url : Option String) (s : Storage) :
    ((forService (some url)).after s).pool = (s.pool.connect url).2 ∧
      ∀ store t, forService (some url) s = .ok store t → store.link? = (s.pool.connect url).1.map .connection := by
  cases hc : s.pool.connect url with
  | mk connection pool =>
    unfold after
    cases connection with
    | none =>
      have hopened : forService (some url) s = .ok (hybrid ⟨none⟩) { s with pool } := by
        simp only [forService, pure_bind]
        rw [bind_of_ok (get_eq s), hc]
        rfl
      rw [hopened]
      refine ⟨rfl, fun store t h => ?_⟩
      cases h
      rfl
    | some i =>
      have hopened : forService (some url) s = (do
          pure (hybrid ⟨some (← Storage.around (Remote.ofOptions (.connection i) .undefined))⟩)) { s with pool } := by
        simp only [forService, pure_bind]
        rw [bind_of_ok (get_eq s), hc]
        rfl
      rw [hopened]
      constructor
      · exact (congrArg Storage.pool (after_bind_pure _ _ _)).trans (around_pool _ _)
      · intro store t h
        obtain ⟨r, _, hr, h⟩ := bind_eq_ok_iff.mp h
        obtain ⟨n, hr, -⟩ := within_eq_ok_iff.mp hr
        obtain ⟨rfl, -⟩ := pure_eq_ok_iff.mp h
        exact congrArg some (link_of_ofOptions hr)

/-- However a store is asked for, a connection is opened or looked up at most, and it is the one that the store uses. -/
theorem forService_connects (url : Option (Option String)) (s : Storage) : ∃ asked,
    ((forService url).after s).pool = (s.pool.connect asked).2 ∧
      ∀ store t, forService url s = .ok store t → store.link? = (s.pool.connect asked).1.map .connection := by
  cases url with
  | some url => exact ⟨url, forService_given url s⟩
  | none =>
    have hasked : forService none =
        Storage.around Ambient.readSettings >>= fun known => forService (some known.redisUrl) := by
      simp only [forService, pure_bind]
    unfold after
    rw [hasked]
    have hpool := around_pool Ambient.readSettings s
    cases hk : Storage.around Ambient.readSettings s with
    | ok known t =>
      rw [after_of_ok hk] at hpool
      rw [bind_of_ok hk, ← hpool]
      exact ⟨known.redisUrl, forService_given known.redisUrl t⟩
    | error thrown t =>
      rw [after_of_error hk] at hpool
      rw [bind_of_error hk]
      exact ⟨none, hpool, fun store t h => by cases h⟩

end Store

/-- A service: its storage, the stores that it created, and what happened to its connections so far. -/
structure Service where
  storage : Storage
  stores : List Store := []
  past : List (Nat × Happening) := []

namespace Service

/-- What a service is asked to do, and what happens to it otherwise. -/
inductive Step where
  | connect (url : Option String)
  /-- Creates a store for a URL, which the settings give unless it is given. -/
  | create (url : Option (Option String))
  | disconnect
  /-- A connection that was opened reports an event. -/
  | report (i : Nat) (e : Event)
  /-- Anything that has nothing to do with connections. -/
  | meanwhile (ambient : Ambient) (memory : Memory) (server : Server)

/-- What happened to a connection, latest last. -/
def pastOf (service : Service) (i : Nat) : List Happening := (service.past.filter (·.1 == i)).map Prod.snd

def opened (service : Service) : Nat := service.storage.pool.connections.length

def note (service : Service) (storage : Storage) (i : Nat) (h : Happening) : Service :=
  { service with storage, past := service.past ++ [(i, h)] }

def next (service : Service) : Step → Service
  | .connect url => { service with
      storage := { service.storage with pool := (service.storage.pool.connect url).2 } }
  | .create url =>
    match Store.forService url service.storage with
    | .ok store storage => { service with storage, stores := service.stores ++ [store] }
    | .error _ storage => { service with storage }
  | .disconnect =>
    match service.storage.pool.shared with
    | none => service
    | some i => service.note { service.storage with pool := service.storage.pool.disconnect } i .closing
  | .report i e =>
    if i < service.opened then
      service.note ((Storage.around (Connection.journal e)).after
        { service.storage with pool := service.storage.pool.step i e }) i (.event e)
    else service
  | .meanwhile ambient memory server => { service with storage := { service.storage with ambient, memory, server } }

def run (service : Service) (steps : List Step) : Service := steps.foldl next service

def fresh (s : Storage) : Service := { storage := { s with pool := {} } }

/-- Connections are ready if that is the last that happened to them, the shared one was never closed, and stores use
connections that were opened. -/
structure IsCoherent (service : Service) : Prop where
  past : ∀ happened ∈ service.past, happened.1 < service.opened
  ready : ∀ i, service.storage.pool.isReady i = true ↔ LastReady (service.pastOf i)
  shared : ∀ i, service.storage.pool.shared = some i → i < service.opened ∧ .closing ∉ service.pastOf i
  linked : ∀ store ∈ service.stores, ∀ link, store.link? = some link → ∃ i < service.opened, link = .connection i

variable {service : Service} {i j : Nat} {h : Happening} {storage : Storage}

theorem pastOf_note : (service.note storage i h).pastOf j =
    if i = j then service.pastOf j ++ [h] else service.pastOf j := by
  unfold pastOf note
  by_cases hij : i = j <;> simp [List.filter_append, hij]

theorem pastOf_eq_nil (hs : service.IsCoherent) (hi : service.opened ≤ i) : service.pastOf i = [] := by
  rw [pastOf, List.map_eq_nil_iff, List.filter_eq_nil_iff]
  intro happened hh he
  have hlt := hs.past happened hh
  rw [beq_iff_eq.mp he] at hlt
  exact absurd hlt (Nat.not_lt.mpr hi)

namespace IsCoherent

theorem fresh (s : Storage) : (fresh s).IsCoherent where
  past := by simp [Service.fresh]
  ready i := by simpa [Service.fresh, pastOf, Pool.isReady, Pool.connection] using not_lastReady_nil
  shared i hi := by cases hi
  linked := by simp [Service.fresh]

theorem happens (hs : service.IsCoherent) (hi : i < service.opened) (shared : Option Nat)
    (hp : storage.pool = { service.storage.pool.happen i h with shared })
    (hshared : ∀ j, shared = some j → service.storage.pool.shared = some j ∧ (j = i → h ≠ .closing)) :
    (service.note storage i h).IsCoherent := by
  have hopened : (service.note storage i h).opened = service.opened := by
    simp [opened, note, hp, Pool.happen]
  refine ⟨fun happened hh => ?_, fun j => ?_, fun j hj => ?_, fun store hstore link hlink => ?_⟩
  · rw [hopened]
    rcases List.mem_append.mp hh with hh | hh
    · exact hs.past happened hh
    · rw [List.mem_singleton.mp hh]
      exact hi
  · have hready : (service.note storage i h).storage.pool.isReady j = (service.storage.pool.happen i h).isReady j := by
      simp only [note, hp]
      rfl
    rw [hready, Pool.isReady_happen h hi, pastOf_note, hs.ready]
    split
    · rw [lastReady_concat]
    · rfl
  · simp only [note, hp] at hj
    obtain ⟨hold, hclosing⟩ := hshared j hj
    obtain ⟨hlt, hopen⟩ := hs.shared j hold
    refine ⟨hopened ▸ hlt, ?_⟩
    rw [pastOf_note]
    split
    · rename_i hij
      simpa [hopen] using (hclosing hij.symm).symm
    · exact hopen
  · rw [hopened]
    exact hs.linked store hstore link hlink

theorem of_pool (hs : service.IsCoherent) (storage : Storage) (hp : storage.pool = service.storage.pool) {stores : List Store}
    (hstores : ∀ store ∈ stores, ∀ link, store.link? = some link → ∃ i < service.opened, link = .connection i) :
    { service with storage, stores : Service }.IsCoherent := by
  obtain ⟨ambient, memory, server, pool⟩ := storage
  cases hp
  exact ⟨hs.past, hs.ready, hs.shared, hstores⟩

theorem connects (hs : service.IsCoherent) {asked : Option String}
    (hp : storage.pool = (service.storage.pool.connect asked).2) {stores : List Store}
    (hstores : ∀ store ∈ stores, store ∈ service.stores ∨
      store.link? = (service.storage.pool.connect asked).1.map .connection) :
    { service with storage, stores : Service }.IsCoherent := by
  rcases Pool.connect_cases service.storage.pool asked with hc | ⟨i, hi, hc⟩ | hc <;> rw [hc] at hp hstores
  · refine hs.of_pool storage hp fun store hstore link hlink => ?_
    rcases hstores store hstore with hstore | hnone
    · exact hs.linked store hstore link hlink
    · cases hnone.symm.trans hlink
  · refine hs.of_pool storage hp fun store hstore link hlink => ?_
    rcases hstores store hstore with hstore | hsome
    · exact hs.linked store hstore link hlink
    · cases hsome.symm.trans hlink
      exact ⟨i, (hs.shared i hi).1, rfl⟩
  · have hopened : ({ service with storage, stores : Service }).opened = service.opened + 1 := by
      simp [opened, hp, Pool.add]
    refine ⟨fun happened hh => ?_, fun i => ?_, fun i hi => ?_, fun store hstore link hlink => ?_⟩
    · rw [hopened]
      exact Nat.lt_succ_of_lt (hs.past happened hh)
    · have hready : storage.pool.isReady i = service.storage.pool.isReady i := by
        rw [hp]
        exact Pool.isReady_add rfl
      exact hready ▸ hs.ready i
    · rw [hp] at hi
      cases hi
      have hpast : service.pastOf service.opened = [] := pastOf_eq_nil hs (Nat.le_refl _)
      refine ⟨hopened ▸ Nat.lt_succ_self _, ?_⟩
      change .closing ∉ service.pastOf service.opened
      simp [hpast]
    · rw [hopened]
      rcases hstores store hstore with hstore | hsome
      · obtain ⟨i, hi, rfl⟩ := hs.linked store hstore link hlink
        exact ⟨i, Nat.lt_succ_of_lt hi, rfl⟩
      · cases hsome.symm.trans hlink
        exact ⟨_, Nat.lt_succ_self _, rfl⟩

theorem next (hs : service.IsCoherent) (step : Step) : (service.next step).IsCoherent := by
  cases step with
  | connect url => exact hs.connects rfl fun store h => .inl h
  | create url =>
    obtain ⟨asked, hp, hlink⟩ := Store.forService_connects url service.storage
    simp only [Service.next]
    split
    · rename_i store storage hc
      rw [after_of_ok hc] at hp
      refine hs.connects hp fun other ho => ?_
      rcases List.mem_append.mp ho with ho | ho
      · exact .inl ho
      · rw [List.mem_singleton.mp ho]
        exact .inr (hlink store storage hc)
    · rename_i thrown storage hc
      rw [after_of_error hc] at hp
      exact hs.connects hp fun store h => .inl h
  | disconnect =>
    simp only [Service.next]
    split
    · exact hs
    · rename_i i hshared
      refine hs.happens (hs.shared i hshared).1 none ?_ fun j hj => by cases hj
      simp only [Pool.disconnect, hshared]
      rfl
  | report i e =>
    simp only [Service.next]
    split
    · rename_i hi
      refine hs.happens hi service.storage.pool.shared ?_ fun j hj => ⟨hj, fun _ => by simp⟩
      rw [Store.around_pool]
      rfl
    · exact hs
  | meanwhile ambient memory server => exact hs.of_pool ⟨ambient, memory, server, _⟩ rfl hs.linked

theorem run (hs : service.IsCoherent) (steps : List Step) : (service.run steps).IsCoherent := by
  induction steps generalizing service with
  | nil => exact hs
  | cons step steps ih => exact ih (hs.next step)

end IsCoherent

/-- However a service is used, a store is handed a client only by the connection that it was created with, and just
while the last that happened to that connection is that it got ready; so it is handed one of a closed connection just if
that was reported to be ready after it was closed. Whoever asks for the shared client gets one just while the shared
connection got ready last, and never one of a closed connection. -/
theorem clients_are_of_ready_connections (s : Storage) (steps : List Step) :
    (∀ store ∈ ((fresh s).run steps).stores, ∀ link, store.link? = some link →
      ∃ i < ((fresh s).run steps).opened, link = .connection i ∧
        (((fresh s).run steps).storage.available link = true ↔ LastReady (((fresh s).run steps).pastOf i)) ∧
        (((fresh s).run steps).storage.available link = true ∧ .closing ∈ ((fresh s).run steps).pastOf i ↔
          Revived (((fresh s).run steps).pastOf i))) ∧
    (((fresh s).run steps).storage.available .shared = true ↔
      ∃ i, ((fresh s).run steps).storage.pool.shared = some i ∧ LastReady (((fresh s).run steps).pastOf i)) ∧
    ∀ i, ((fresh s).run steps).storage.pool.shared = some i →
      i < ((fresh s).run steps).opened ∧ .closing ∉ ((fresh s).run steps).pastOf i := by
  have hs := (IsCoherent.fresh s).run steps
  generalize (Service.fresh s).run steps = service at hs ⊢
  refine ⟨fun store hstore link hlink => ?_, ?_, hs.shared⟩
  · obtain ⟨i, hi, rfl⟩ := hs.linked store hstore link hlink
    have hready : service.storage.available (.connection i) = true ↔ LastReady (service.pastOf i) := hs.ready i
    exact ⟨i, hi, rfl, hready, by rw [hready, lastReady_and_closed_iff]⟩
  · unfold Storage.available Pool.sharedReady
    cases hshared : service.storage.pool.shared with
    | none => simp
    | some i => simpa using hs.ready i

def settled : Storage := { ambient := { clock := 0, settings := some ⟨.silent, none, 0, 10⟩ } }

def firstStore : Store := .hybrid ⟨some ⟨.connection 0, .number 0⟩⟩

def readied : List Step := [.create (some (some "redis://localhost")), .report 0 .ready]

theorem stores_readied : ((fresh settled).run readied).stores = [firstStore] := rfl

theorem pastOf_readied : ((fresh settled).run readied).pastOf 0 = [.event .ready] := rfl

/-- The store is handed a client, since its connection got ready last. -/
theorem store_is_handed_client : firstStore ∈ ((fresh settled).run readied).stores ∧
    ((fresh settled).run readied).storage.available (.connection 0) = true ∧
      ¬ Revived (((fresh settled).run readied).pastOf 0) := by
  have hmem : firstStore ∈ ((fresh settled).run readied).stores := by simp [stores_readied]
  obtain ⟨i, -, hi, hready, hrevived⟩ := (clients_are_of_ready_connections settled readied).1 firstStore hmem _ rfl
  cases hi
  refine ⟨hmem, hready.mpr ?_, fun hr => ?_⟩
  · rw [pastOf_readied]
    exact ⟨[], [], rfl, by simp⟩
  · have hclosed := (hrevived.mpr hr).2
    simp [pastOf_readied] at hclosed

/-- The service closes the connection of a store, and a late event reports that it got ready. -/
def reportedLate : List Step := [.create (some (some "redis://localhost")), .disconnect, .report 0 .ready]

/-- The store goes on to be handed the client of a connection that was closed. -/
theorem closed_connections_are_used_again :
    ¬ ∀ (s : Storage) (steps : List Step), ∀ store ∈ ((fresh s).run steps).stores, ∀ i,
      store.link? = some (.connection i) → ((fresh s).run steps).storage.available (.connection i) = true →
        .closing ∉ ((fresh s).run steps).pastOf i := by
  intro hall
  have hstores : ((fresh settled).run reportedLate).stores = [firstStore] := rfl
  have hpast : ((fresh settled).run reportedLate).pastOf 0 = [.closing, .event .ready] := rfl
  have havailable : ((fresh settled).run reportedLate).storage.available (.connection 0) = true := rfl
  refine hall settled reportedLate firstStore (by simp [hstores]) 0 rfl havailable ?_
  simp [hpast]

end Service

end GovernedConfig
