import GovernedConfig.Proofs.Store.Keys
import GovernedConfig.Proofs.Store.Outages
import GovernedConfig.Store

/-! # Stores as maps

A program saves infra configs that it goes on to call, and loads others that it calls as well. Its store answers
as a map from ids to what the saved ones held when they were saved, in memory as on the server.
-/

namespace GovernedConfig

open Act InfraConfig Remote

def Storage.Steady (s t : Storage) : Prop := s.ambient.Steady t.ambient

instance : Std.Refl Storage.Steady := ⟨fun s => Std.Refl.refl s.ambient⟩

instance : IsTrans Storage Storage.Steady := ⟨fun s t u => IsTrans.trans s.ambient t.ambient u.ambient⟩

theorem Remote.rebuild_steady (text : Option String) : (rebuild text).Keeps Storage.Steady := by
  cases text with
  | none => exact keeps_pure _
  | some text =>
    have haround : (Storage.around (deserialize text)).Keeps Storage.Steady :=
      (deserialize_keeps text).within fun _ _ h => h
    exact haround.bind fun _ => keeps_pure _

theorem Memory.save_steady (d : Deposit) : (Memory.save d).Keeps Storage.Steady :=
  (keeps_ofExcept _).bind fun _ => (keeps_ofExcept _).bind fun _ => keeps_modify fun s => Std.Refl.refl s.ambient

theorem Memory.load_steady (id : Value) : (Memory.load id).Keeps Storage.Steady := fun s =>
  rebuild_steady (s.memory.textOf? id) s

theorem Memory.delete_eq (id : String) (s : Storage) : Memory.delete (.text id) s =
    .ok (s.memory.textOf? (.text id)).isSome { s with memory := s.memory.erase (.text id) } := rfl

theorem Memory.delete_steady (id : Value) : (Memory.delete id).Keeps Storage.Steady := fun s =>
  Std.Refl.refl s.ambient

/-- A storage and the infra configs that a program holds beside it. -/
structure Desk where
  storage : Storage
  configs : List Entity := []

namespace Desk

variable {α : Type}

def stored (act : Act Storage α) : Act Desk α :=
  Act.within Desk.storage (fun s desk => { desk with storage := s }) act

def config (i : Nat) : Act Desk Entity := do Act.suitable (← get).configs[i]?

def scene (e : Entity) (desk : Desk) : Scene Values := { ambient := desk.storage.ambient, entity := e.state }

def left (i : Nat) (e : Entity) (s : Scene Values) (desk : Desk) : Desk where
  storage := { desk.storage with ambient := s.ambient }
  configs := desk.configs.set i { e with state := s.entity }

/-- What a program does with its store and its infra configs. -/
inductive Event where
  | save (i : Nat)
  | load (id : String)
  | delete (id : String)
  | call (i : Nat) (call : InfraConfig.Call)

inductive Answer where
  | saved
  | found (e : Option Entity)
  | deleted (there : Bool)
  | called (wrote : Bool)

namespace Event

/-- What is loaded joins the infra configs that are there. -/
def act (store : Store) (depth : Nat) : Event → Act Desk Answer
  | save i => do
    let e ← Desk.config i
    Desk.stored (store.save (.ofInfraConfig e.state.values))
    pure .saved
  | load id => do
    let found ← Desk.stored (store.load (.text id))
    modify fun desk => { desk with configs := desk.configs ++ found.toList }
    pure (.found found)
  | delete id => do pure (.deleted (← Desk.stored (store.delete (.text id))))
  | call i c => do
    let e ← Desk.config i
    pure (.called (← Act.within (Desk.scene e) (Desk.left i e) (c.act depth)))

/-- What an event asks of the store, with what the infra config holds at the time. -/
def request? (desk : Desk) : Event → Option Hybrid.Call
  | save i => desk.configs[i]?.map fun e => .save e.state.values
  | load id => some (.load id)
  | delete id => some (.delete id)
  | call _ _ => none

end Event

/-- An event at a reading of the clock in whole milliseconds. -/
structure Step where
  clock : Binary64
  event : Event
  whole : clock.isInteger = true

namespace Step

variable (store : Store) (depth : Nat)

def start (step : Step) (desk : Desk) : Desk :=
  { desk with storage := { desk.storage with ambient := { desk.storage.ambient with clock := step.clock } } }

def reply (step : Step) (desk : Desk) : Except Thrown Answer := (step.event.act store depth).outcome (step.start desk)

/-- The desk after a step, whether it is answered or throws. -/
def next (desk : Desk) (step : Step) : Desk := (step.event.act store depth).after (step.start desk)

end Step

def play (store : Store) (depth : Nat) (steps : List Step) (desk : Desk) : Desk :=
  steps.foldl (Step.next store depth) desk

def replies (store : Store) (depth : Nat) : List Step → Desk → List (Except Thrown Answer)
  | [], _ => []
  | step :: steps, desk => step.reply store depth desk :: replies store depth steps (step.next store depth desk)

def requests (store : Store) (depth : Nat) : List Step → Desk → List Hybrid.Call
  | [], _ => []
  | step :: steps, desk =>
    (step.event.request? desk).toList ++ requests store depth steps (step.next store depth desk)

/-- What was saved last under an id, unless it was deleted since. -/
def saved (id : String) (requests : List Hybrid.Call) : Option Values :=
  requests.foldl (fun held request => request.outcome id held) none

/-- An infra config is saved only if all calls on it so far took typed values. -/
def SavesTyped (events : List Event) : Prop :=
  ∀ before after i, events = before ++ .save i :: after → ∀ c, .call i c ∈ before → c.IsTyped

/-- What an event is answered with if the store is a map that holds what was saved. -/
def Event.Expects (desk : Desk) (requests : List Hybrid.Call) (reply : Except Thrown Answer) : Event → Prop
  | save i => i < desk.configs.length → reply = .ok .saved
  | load id => ∃ found, reply = .ok (.found found) ∧ Option.Rel Retells (saved id requests) found
  | delete id => reply = .ok (.deleted (saved id requests).isSome)
  | call _ _ => True

def Counts (store : Store) (s : Storage) (requests : List Hybrid.Call) : Prop :=
  ∃ ids : List String, ids.Nodup ∧ (∀ id, id ∈ ids ↔ (saved id requests).isSome = true) ∧
    (store.stats s).count = some ids.length

section Rows

variable {store : Store} {depth : Nat} {desk : Desk} {steps : List Step} {step : Step}

theorem play_append (store : Store) (depth : Nat) (steps : List Step) (step : Step) (desk : Desk) :
    play store depth (steps ++ [step]) desk = step.next store depth (play store depth steps desk) := by
  unfold play
  rw [List.foldl_append]
  rfl

theorem requests_append (store : Store) (depth : Nat) (steps : List Step) (step : Step) (desk : Desk) :
    requests store depth (steps ++ [step]) desk =
      requests store depth steps desk ++ (step.event.request? (play store depth steps desk)).toList := by
  induction steps generalizing desk with
  | nil => simp [requests, play]
  | cons first steps ih =>
    rw [List.cons_append, requests, ih, requests, List.append_assoc]
    rfl

theorem saved_append (id : String) (requests more : List Hybrid.Call) :
    saved id (requests ++ more) = more.foldl (fun held request => request.outcome id held) (saved id requests) :=
  List.foldl_append

theorem SavesTyped.before {events more : List Event} (h : SavesTyped (events ++ more)) : SavesTyped events :=
  fun before after i he => h before (after ++ more) i (by rw [he, List.append_assoc, List.cons_append])

theorem SavesTyped.last {events : List Event} {i : Nat} (h : SavesTyped (events ++ [.save i])) :
    ∀ c, .call i c ∈ events → c.IsTyped := h events [] i rfl

end Rows

section Surroundings

def Steady (desk other : Desk) : Prop := desk.storage.Steady other.storage

instance : Std.Refl Steady := ⟨fun desk => Std.Refl.refl desk.storage⟩

instance : IsTrans Desk Steady := ⟨fun desk other third => IsTrans.trans desk.storage other.storage third.storage⟩

theorem act_steady (depth : Nat) (event : Event) : (event.act .memory depth).Keeps Steady := by
  have hstored : ∀ {α : Type} {act : Act Storage α}, act.Keeps Storage.Steady → (stored act).Keeps Steady :=
    fun h => h.within fun _ _ h => h
  have hconfig : ∀ i, (config i).Keeps Steady := fun i => keeps_get.bind fun _ => keeps_suitable _
  have hjoin : ∀ found : Option Entity, (modify fun desk : Desk =>
      { desk with configs := desk.configs ++ found.toList } : Act Desk PUnit).Keeps Steady :=
    fun _ => keeps_modify fun desk => Std.Refl.refl desk.storage
  cases event with
  | save i => exact (hconfig i).bind fun e => (hstored (Memory.save_steady _)).bind fun _ => keeps_pure _
  | load id =>
    exact (hstored (Memory.load_steady _)).bind fun found => (hjoin found).bind fun _ => keeps_pure _
  | delete id => exact (hstored (Memory.delete_steady _)).bind fun _ => keeps_pure _
  | call i c =>
    refine (hconfig i).bind fun e => Act.Keeps.bind ?_ fun _ => keeps_pure _
    exact (c.act_keeps depth).within fun _ _ h => h

end Surroundings

section Answers

variable (store : Store) (depth : Nat) {desk : Desk} {i : Nat} {e : Entity}

theorem config_eq (i : Nat) (desk : Desk) : config i desk = suitable desk.configs[i]? desk := rfl

theorem config_of_some (h : desk.configs[i]? = some e) : config i desk = .ok e desk := by
  rw [config_eq, h]
  rfl

theorem config_of_none (h : desk.configs[i]? = none) : config i desk = .error (.fault .badType) desk := by
  rw [config_eq, h]
  rfl

theorem stored_of_ok {α : Type} {act : Act Storage α} {a : α} {t : Storage} (h : act desk.storage = .ok a t) :
    stored act desk = .ok a { desk with storage := t } := within_eq_ok_iff.mpr ⟨t, h, rfl⟩

theorem stored_of_error {α : Type} {act : Act Storage α} {thrown : Thrown} {t : Storage}
    (h : act desk.storage = .error thrown t) : stored act desk = .error thrown { desk with storage := t } :=
  within_eq_error_iff.mpr ⟨t, h, rfl⟩

theorem act_save (h : desk.configs[i]? = some e) {t : Storage}
    (hs : store.save (.ofInfraConfig e.state.values) desk.storage = .ok () t) :
    (Event.save i).act store depth desk = .ok .saved { desk with storage := t } :=
  (bind_of_ok (config_of_some h) _).trans (bind_of_ok (stored_of_ok hs) _)

theorem act_load {id : String} {found : Option Entity} {t : Storage}
    (hl : store.load (.text id) desk.storage = .ok found t) :
    (Event.load id).act store depth desk =
      .ok (.found found) { storage := t, configs := desk.configs ++ found.toList } :=
  bind_of_ok (stored_of_ok hl) _

theorem act_delete {id : String} {there : Bool} {t : Storage}
    (hd : store.delete (.text id) desk.storage = .ok there t) :
    (Event.delete id).act store depth desk = .ok (.deleted there) { desk with storage := t } :=
  bind_of_ok (stored_of_ok hd) _

theorem after_call (h : desk.configs[i]? = some e) (c : InfraConfig.Call) :
    ((Event.call i c).act store depth).after desk = left i e ((c.act depth).after (scene e desk)) desk := by
  unfold Event.act
  rw [after_bind_of_ok (config_of_some h), after_bind_pure, after_within]

theorem after_save_of_none (h : desk.configs[i]? = none) : ((Event.save i).act store depth).after desk = desk :=
  after_of_error (bind_of_error (config_of_none h) _)

theorem after_call_of_none (h : desk.configs[i]? = none) (c : InfraConfig.Call) :
    ((Event.call i c).act store depth).after desk = desk :=
  after_of_error (bind_of_error (config_of_none h) _)

end Answers

section Memory

variable (depth : Nat) {desk : Desk} {events : List Event} {event : Event} {requests : List Hybrid.Call}

/-- Memory holds the texts of what was saved last, each id once, and an infra config on which typed calls alone
were made is settled. -/
structure Holds (events : List Event) (requests : List Hybrid.Call) (desk : Desk) : Prop where
  texts : ∀ id, Option.Rel PrintedAs (desk.storage.memory.textOf? (.text id)) (saved id requests)
  indexed : ∃ ids, desk.storage.memory.Indexes ids
  settled : ∀ i e, desk.configs[i]? = some e → (∀ c, .call i c ∈ events → c.IsTyped) → Settled e.state.values
  debug : Journal.Accepts .debug desk.storage.ambient
  info : Journal.Accepts .info desk.storage.ambient

namespace Holds

theorem begin (hm : desk.storage.memory = []) (hc : ∀ e ∈ desk.configs, Attained e.state.values)
    (hdebug : Journal.Accepts .debug desk.storage.ambient) (hinfo : Journal.Accepts .info desk.storage.ambient) :
    Holds [] [] desk where
  texts id := by
    rw [hm]
    exact .none
  indexed := ⟨[], List.nodup_nil, by rw [hm]; rfl⟩
  settled i e he _ := (hc e (List.mem_of_getElem? he)).settled
  debug := hdebug
  info := hinfo

theorem counts (h : Holds events requests desk) : Counts .memory desk.storage requests := by
  obtain ⟨ids, hids⟩ := h.indexed
  refine ⟨ids, hids.nodup, fun id => ?_, congrArg some hids.length_eq⟩
  rw [← hids.isSome_iff, Hybrid.isSome_of_rel (h.texts id)]

theorem start (h : Holds events requests desk) (step : Step) : Holds events requests (step.start desk) where
  texts := h.texts
  indexed := h.indexed
  settled := h.settled
  debug := h.debug.clock _
  info := h.info.clock _

theorem extend (h : Holds events requests desk) {other : Desk} {more : List Hybrid.Call} (hs : desk.Steady other)
    (ht : ∀ id, Option.Rel PrintedAs (other.storage.memory.textOf? (.text id)) (saved id (requests ++ more)))
    (hi : ∃ ids, other.storage.memory.Indexes ids)
    (hc : ∀ i e, other.configs[i]? = some e → (∀ c, .call i c ∈ events ++ [event] → c.IsTyped) →
      Settled e.state.values) : Holds (events ++ [event]) (requests ++ more) other :=
  ⟨ht, hi, hc, h.debug.of_steady hs, h.info.of_steady hs⟩

theorem settled_before (h : Holds events requests desk) : ∀ i e, desk.configs[i]? = some e →
    (∀ c, .call i c ∈ events ++ [event] → c.IsTyped) → Settled e.state.values :=
  fun i e he hc => h.settled i e he fun c ho => hc c (List.mem_append_left _ ho)

theorem idle (h : Holds events requests desk) : Holds (events ++ [event]) (requests ++ []) desk :=
  h.extend (Std.Refl.refl desk) (by rw [List.append_nil]; exact h.texts) h.indexed h.settled_before

theorem save (h : Holds events requests desk) {i : Nat} (hs : SavesTyped (events ++ [.save i])) :
    Holds (events ++ [.save i]) (requests ++ ((Event.save i).request? desk).toList)
        (((Event.save i).act .memory depth).after desk) ∧
      (i < desk.configs.length → ((Event.save i).act .memory depth).outcome desk = .ok .saved) := by
  cases he : desk.configs[i]? with
  | none =>
    rw [after_save_of_none _ _ he, Event.request?, he]
    refine ⟨h.idle, fun hi => ?_⟩
    rw [List.getElem?_eq_getElem hi] at he
    cases he
  | some e =>
    obtain ⟨id, text, hid, hprinted, hdid, hdtext⟩ := (h.settled i e he hs.last).deposit
    have hact := act_save .memory depth he (Memory.save_eq hdid hdtext _)
    rw [after_of_ok hact, Act.outcome, hact]
    refine ⟨?_, fun _ => rfl⟩
    refine h.extend (Std.Refl.refl desk.storage.ambient) (fun other => ?_) ?_ h.settled_before
    · rw [Memory.textOf?_insert, Event.request?, he, saved_append]
      exact Hybrid.printed_of_save hid hprinted (h.texts other)
    · obtain ⟨ids, hids⟩ := h.indexed
      exact hids.insert id text

theorem load (h : Holds events requests desk) (id : String)
    (hd : (Calendar.stamp? desk.storage.ambient.clock).isSome = true) :
    Holds (events ++ [.load id]) (requests ++ [.load id]) (((Event.load id).act .memory depth).after desk) ∧
      ∃ found, ((Event.load id).act .memory depth).outcome desk = .ok (.found found) ∧
        Option.Rel Retells (saved id requests) found := by
  obtain ⟨found, t, hload, hrel, hsettled⟩ := Hybrid.rebuild_of_printed (h.texts id) h.debug h.info hd
  have hstill : Storage.Still desk.storage t := (Hybrid.rebuild_still _).of_ok hload
  have hact := act_load .memory depth hload
  rw [after_of_ok hact, Act.outcome, hact]
  refine ⟨h.extend ((rebuild_steady _).of_ok hload) (fun other => ?_) ?_ fun i e he hc => ?_, found, rfl, hrel⟩
  · rw [hstill.memory, saved_append]
    exact h.texts other
  · rw [hstill.memory]
    exact h.indexed
  · rw [List.getElem?_append] at he
    split at he
    · exact h.settled_before i e he hc
    · exact hsettled e (Option.mem_toList.mp (List.mem_of_getElem? he))

theorem delete (h : Holds events requests desk) (id : String) :
    Holds (events ++ [.delete id]) (requests ++ [.delete id]) (((Event.delete id).act .memory depth).after desk) ∧
      ((Event.delete id).act .memory depth).outcome desk = .ok (.deleted (saved id requests).isSome) := by
  have hact := act_delete .memory depth (Memory.delete_eq id desk.storage)
  rw [after_of_ok hact, Act.outcome, hact, ← Hybrid.isSome_of_rel (h.texts id)]
  refine ⟨h.extend (Std.Refl.refl desk.storage.ambient) (fun other => ?_) ?_ h.settled_before, rfl⟩
  · rw [Memory.textOf?_erase, saved_append]
    exact Hybrid.printed_of_delete (h.texts other)
  · obtain ⟨ids, hids⟩ := h.indexed
    exact hids.erase id

theorem call (h : Holds events requests desk) (i : Nat) (c : InfraConfig.Call)
    (hw : desk.storage.ambient.clock.isInteger = true) :
    Holds (events ++ [.call i c]) (requests ++ []) (((Event.call i c).act .memory depth).after desk) := by
  cases he : desk.configs[i]? with
  | none =>
    rw [after_call_of_none _ _ he]
    exact h.idle
  | some e =>
    have hsteady := act_steady depth (.call i c) desk
    rw [after_call _ _ he] at hsteady ⊢
    refine h.extend hsteady (by rw [List.append_nil]; exact h.texts) h.indexed fun j other ho hc => ?_
    rw [left, List.getElem?_set] at ho
    split at ho
    · rename_i hij
      subst hij
      split at ho
      · cases ho
        have hsettled : Settled (scene e desk).entity.values := h.settled_before i e he hc
        exact hsettled.next (show (Turn.mk _ c hw).call.IsTyped from hc c (by simp))
      · cases ho
    · exact h.settled_before j other ho hc

theorem next (h : Holds events requests desk) (step : Step) (hs : SavesTyped (events ++ [step.event]))
    (hd : (Calendar.stamp? step.clock).isSome = true) :
    Holds (events ++ [step.event]) (requests ++ (step.event.request? desk).toList) (step.next .memory depth desk) ∧
      step.event.Expects desk requests (step.reply .memory depth desk) := by
  have h := h.start step
  unfold Step.next Step.reply
  generalize hevent : step.event = event at hs
  cases event with
  | save i => exact h.save depth hs
  | load id => exact h.load depth id hd
  | delete id => exact h.delete depth id
  | call i c => exact ⟨h.call depth i c step.whole, trivial⟩

end Holds

theorem Holds.play (h : Holds [] [] desk) {steps : List Step} (hs : SavesTyped (steps.map Step.event))
    (hd : ∀ step ∈ steps, (Calendar.stamp? step.clock).isSome = true) :
    Holds (steps.map Step.event) (Desk.requests .memory depth steps desk) (desk.play .memory depth steps) := by
  induction steps using List.reverseRecOn with
  | nil => exact h
  | append_singleton steps step ih =>
    rw [List.map_append] at hs ⊢
    rw [requests_append, play_append]
    exact ((ih hs.before fun other ho => hd other (List.mem_append_left _ ho)).next depth step hs
      (hd step (List.mem_append_right _ (List.mem_singleton_self step)))).1

end Memory

section Twins

variable {r : Remote} (depth : Nat) {desk other : Desk} {events : List Event} {event : Event}
  {requests : List Hybrid.Call}

/-- Two desks are the same but for where texts are: in the memory of one, on the server of the other. -/
structure Twins (r : Remote) (desk other : Desk) : Prop where
  configs : other.configs = desk.configs
  ambient : other.storage.ambient = desk.storage.ambient
  texts : ∀ id, other.storage.server.data.lookup (textKey id) = desk.storage.memory.textOf? (.text id)
  answers : ∀ c, other.storage.answers r.link c = true

theorem Twins.start (h : Twins r desk other) (step : Step) : Twins r (step.start desk) (step.start other) where
  configs := h.configs
  ambient := by rw [Step.start, Step.start, h.ambient]
  texts := h.texts
  answers c := (Storage.answers_congr rfl rfl rfl).trans (h.answers c)

theorem rebuild_alike (text : Option String) {s t : Storage} (h : t.ambient = s.ambient) :
    Alike (fun s' t' => ∃ m, s' = { s with ambient := m } ∧ t' = { t with ambient := m }) (rebuild text s)
      (rebuild text t) := by
  cases text with
  | none => exact .ok ⟨s.ambient, rfl, by rw [← h]⟩
  | some text =>
    unfold rebuild
    refine Alike.bind (Alike.within (.of_eq ?_) fun m n hm => ⟨m, rfl, by rw [hm]⟩) fun _ _ _ _ _ h => .ok h
    rw [h]

theorem Twins.save (h : Twins r desk other) (httl : (Value.number 0).less? r.ttlSeconds = some false) (i : Nat)
    (hs : ∀ e, desk.configs[i]? = some e → Settled e.state.values) :
    Alike (Twins r) ((Event.save i).act .memory depth desk) ((Event.save i).act (.remote r) depth other) := by
  cases he : desk.configs[i]? with
  | none =>
    have ho : other.configs[i]? = none := by rw [h.configs, he]
    rw [show (Event.save i).act .memory depth desk = _ from bind_of_error (config_of_none he) _,
      show (Event.save i).act (.remote r) depth other = _ from bind_of_error (config_of_none ho) _]
    exact .error h
  | some e =>
    have ho : other.configs[i]? = some e := by rw [h.configs, he]
    obtain ⟨id, text, -, -, hdid, hdtext⟩ := (hs e he).deposit
    rw [act_save .memory depth he (Memory.save_eq hdid hdtext _),
      act_save (.remote r) depth ho (save_of_answers hdid hdtext httl (h.answers .set))]
    refine .ok ⟨h.configs, h.ambient, fun id' => ?_, fun c => ?_⟩
    · rw [Memory.textOf?_insert, Server.put, Record.lookup_insert, h.texts]
      simp only [textKey_inj]
    · exact (Storage.answers_congr rfl rfl rfl).trans (h.answers c)

theorem Twins.load (h : Twins r desk other) (id : String) :
    Alike (Twins r) ((Event.load id).act .memory depth desk) ((Event.load id).act (.remote r) depth other) := by
  have hstored : Alike (Twins r) (stored (Memory.load (.text id)) desk) (stored (r.load (.text id)) other) := by
    refine Alike.within (R := fun s t =>
      ∃ m, s = { desk.storage with ambient := m } ∧ t = { other.storage with ambient := m }) ?_ ?_
    · rw [load_of_answers id (h.answers .get), h.texts]
      exact rebuild_alike (desk.storage.memory.textOf? (.text id)) h.ambient
    · rintro _ _ ⟨m, rfl, rfl⟩
      exact ⟨h.configs, rfl, h.texts, fun c => (Storage.answers_congr rfl rfl rfl).trans (h.answers c)⟩
  exact hstored.bind fun found _ _ _ _ h =>
    .ok ⟨congrArg (· ++ found.toList) h.configs, h.ambient, h.texts, h.answers⟩

theorem Twins.delete (h : Twins r desk other) (id : String) :
    Alike (Twins r) ((Event.delete id).act .memory depth desk) ((Event.delete id).act (.remote r) depth other) := by
  rw [act_delete .memory depth (Memory.delete_eq id desk.storage),
    act_delete (.remote r) depth (delete_of_answers id (h.answers .del)), Record.holds_eq_isSome, h.texts]
  refine .ok ⟨h.configs, h.ambient, fun id' => ?_, fun c => ?_⟩
  · rw [Memory.textOf?_erase, Record.lookup_erase, h.texts]
    simp only [textKey_inj]
  · exact (Storage.answers_congr rfl rfl rfl).trans (h.answers c)

theorem Twins.call (h : Twins r desk other) (i : Nat) (c : Call) :
    Alike (Twins r) ((Event.call i c).act .memory depth desk) ((Event.call i c).act (.remote r) depth other) := by
  have hconfig : Alike (Twins r) (config i desk) (config i other) := by
    rw [config_eq, config_eq, h.configs]
    exact alike_suitable _ h
  refine hconfig.bind fun e desk other _ _ h => ?_
  have hcall : Alike (Twins r) (Act.within (scene e) (left i e) (c.act depth) desk)
      (Act.within (scene e) (left i e) (c.act depth) other) := by
    refine Alike.within (.of_eq ?_) ?_
    · rw [scene, scene, h.ambient]
    · rintro s _ rfl
      exact ⟨by rw [left, left, h.configs], rfl, h.texts,
        fun c => (Storage.answers_congr rfl rfl rfl).trans (h.answers c)⟩
  exact hcall.bind fun _ _ _ _ _ h => .ok h

theorem Twins.act (h : Twins r desk other) (httl : (Value.number 0).less? r.ttlSeconds = some false)
    (hs : ∀ i e, event = .save i → desk.configs[i]? = some e → Settled e.state.values) :
    Alike (Twins r) (event.act .memory depth desk) (event.act (.remote r) depth other) := by
  cases event with
  | save i => exact h.save depth httl i fun e => hs i e rfl
  | load id => exact h.load depth id
  | delete id => exact h.delete depth id
  | call i c => exact h.call depth i c

/-- What the server keeps under keys that belong to no id it goes on to keep. -/
def Spares (desk other : Desk) : Prop :=
  ∀ key, (∀ id, key ≠ textKey id) → other.storage.server.data.lookup key = desk.storage.server.data.lookup key

theorem spares_of_confined {α : Type} {id : String} {act : Act Storage α} (h : Confined (textKey id) act) :
    (stored act).Keeps Spares := h.writes.within fun _ _ h key hk => h key (hk id)

instance : Std.Refl Spares := ⟨fun _ _ _ => rfl⟩

instance : IsTrans Desk Spares := ⟨fun _ _ _ h g key hk => (g key hk).trans (h key hk)⟩

theorem spares_act (r : Remote)
    (hs : ∀ i e, event = .save i → desk.configs[i]? = some e → Settled e.state.values) :
    desk.Spares ((event.act (.remote r) depth).after desk) := by
  have hjoin : ∀ found : Option Entity, (modify fun desk : Desk =>
      { desk with configs := desk.configs ++ found.toList } : Act Desk PUnit).Keeps Spares :=
    fun _ => keeps_modify fun _ _ _ => rfl
  cases event with
  | save i =>
    cases he : desk.configs[i]? with
    | none =>
      rw [after_save_of_none _ _ he]
      exact Std.Refl.refl desk
    | some e =>
      obtain ⟨id, text, -, -, hdid, -⟩ := (hs i e rfl he).deposit
      have hsave := spares_of_confined (r.save_confined id hdid) desk
      have hafter : ((Event.save i).act (.remote r) depth).after desk =
          (stored (r.save (.ofInfraConfig e.state.values))).after desk :=
        (after_bind_of_ok (config_of_some he) _).trans (after_bind_pure _ (fun _ => Answer.saved) desk)
      rwa [hafter]
  | load id =>
    exact ((spares_of_confined (r.load_confined id)).bind fun found => (hjoin found).bind fun _ => keeps_pure _) desk
  | delete id => exact ((spares_of_confined (r.delete_confined id)).bind fun _ => keeps_pure _) desk
  | call i c =>
    have hcall : ((Event.call i c).act (.remote r) depth).Keeps Spares := by
      refine (keeps_get.bind fun _ => keeps_suitable _).bind fun e => Act.Keeps.bind ?_ fun _ => keeps_pure _
      exact Act.Keeps.within (S := fun _ _ => True) (fun _ => trivial) fun _ _ _ _ _ => rfl
    exact hcall desk

/-- Both desks answer a row of steps alike, and the server goes on to keep what belongs to no id. -/
theorem Twins.replies_eq (h : Twins r desk other) (httl : (Value.number 0).less? r.ttlSeconds = some false)
    (hholds : Holds events requests desk) {steps : List Step} (hs : SavesTyped (events ++ steps.map Step.event))
    (hd : ∀ step ∈ steps, (Calendar.stamp? step.clock).isSome = true) :
    replies (.remote r) depth steps other = replies .memory depth steps desk ∧
      Spares other (other.play (.remote r) depth steps) := by
  induction steps generalizing events requests desk other with
  | nil => exact ⟨rfl, Std.Refl.refl other⟩
  | cons step steps ih =>
    rw [List.map_cons, List.append_cons] at hs
    have hsettled : ∀ i e, step.event = .save i → desk.configs[i]? = some e → Settled e.state.values := by
      intro i e hi he
      rw [hi] at hs
      exact hholds.settled i e he hs.before.last
    have hact := (h.start step).act depth httl hsettled
    have hspares : (step.start other).Spares _ := spares_act depth r fun i e hi he =>
      hsettled i e hi (by rw [← h.configs]; exact he)
    have hnext := (hholds.next depth step hs.before (hd step (List.mem_cons_self ..))).1
    obtain ⟨hreplies, hrest⟩ := ih hact.after hnext hs fun later hl => hd later (List.mem_cons_of_mem step hl)
    refine ⟨?_, IsTrans.trans other (step.next (.remote r) depth other) _ hspares hrest⟩
    rw [replies, replies, Step.reply, Step.reply, hact.outcome_eq]
    exact congrArg _ hreplies

end Twins

/-- Whatever a program does with a store in memory and with infra configs that it saves, loads and calls: a load
finds what was saved last under its id, a deletion tells whether anything was, and the ids are counted under which
something is. A store on a server that answers replies the same, and goes by the key of the id alone. -/
theorem memory_and_remote_are_maps {r : Remote} {depth : Nat} {desk : Desk} {steps : List Step} {step : Step}
    (httl : (Value.number 0).less? r.ttlSeconds = some false) (hanswers : ∀ c, desk.storage.answers r.link c = true)
    (hmemory : desk.storage.memory = []) (hserver : ∀ id, desk.storage.server.data.lookup (textKey id) = none)
    (hdebug : Journal.Accepts .debug desk.storage.ambient) (hinfo : Journal.Accepts .info desk.storage.ambient)
    (hconfigs : ∀ e ∈ desk.configs, Attained e.state.values)
    (htyped : SavesTyped ((steps ++ [step]).map Step.event))
    (hdates : ∀ other ∈ steps ++ [step], (Calendar.stamp? other.clock).isSome = true) :
    step.event.Expects (desk.play .memory depth steps) (requests .memory depth steps desk)
        (step.reply .memory depth (desk.play .memory depth steps)) ∧
      Counts .memory (desk.play .memory depth steps).storage (requests .memory depth steps desk) ∧
      replies (.remote r) depth (steps ++ [step]) desk = replies .memory depth (steps ++ [step]) desk ∧
      desk.Spares (desk.play (.remote r) depth (steps ++ [step])) ∧
      ∀ id, Confined (textKey id) (r.load (.text id)) ∧ Confined (textKey id) (r.delete (.text id)) ∧
        ∀ d : Deposit, d.id = .ok (.text id) → Confined (textKey id) (r.save d) := by
  have hbegin : Holds [] [] desk := .begin hmemory hconfigs hdebug hinfo
  have htwins : Twins r desk desk := ⟨rfl, rfl, fun id => by rw [hserver, hmemory]; rfl, hanswers⟩
  obtain ⟨hreplies, hspares⟩ := htwins.replies_eq depth httl hbegin htyped hdates
  rw [List.map_append] at htyped
  have hholds := hbegin.play depth htyped.before fun other ho => hdates other (List.mem_append_left _ ho)
  have hstep := hdates step (List.mem_append_right _ (List.mem_singleton_self step))
  exact ⟨(hholds.next depth step htyped hstep).2, hholds.counts, hreplies, hspares,
    fun id => ⟨r.load_confined id, r.delete_confined id, fun _ hd => r.save_confined id hd⟩⟩

section Sample

/-- An infra config is saved, and then called with a value of no type. -/
def sampleSteps : List Step :=
  [⟨0, .save 0, Binary64.zero_isInteger⟩, ⟨0, .call 0 (.safeSet "tier" (.number 0)), Binary64.zero_isInteger⟩]

def loading (id : String) : Step := ⟨0, .load id, Binary64.zero_isInteger⟩

theorem sampleSteps_savesTyped (id : String) : SavesTyped ((sampleSteps ++ [loading id]).map Step.event) := by
  intro before after i he c hc
  rcases before with _ | ⟨first, _ | ⟨second, _ | ⟨third, before⟩⟩⟩ <;> simp [sampleSteps, loading] at he hc

theorem sampleSteps_dated (id : String) :
    ∀ other ∈ sampleSteps ++ [loading id], (Calendar.stamp? other.clock).isSome = true := by
  simp only [sampleSteps, loading, List.cons_append, List.nil_append, List.forall_mem_cons]
  exact ⟨Entity.stillness_dated, Entity.stillness_dated, Entity.stillness_dated, by simp⟩

theorem requests_sampleSteps {desk : Desk} {e : Entity} (h : desk.configs = [e]) :
    requests .memory 0 sampleSteps desk = [.save e.state.values] := by
  simp [requests, sampleSteps, Event.request?, h]

theorem exists_desk : ∃ desk : Desk, ∃ e id, desk.storage.server = {} ∧ desk.storage.memory = [] ∧
    Journal.Accepts .debug desk.storage.ambient ∧ Journal.Accepts .info desk.storage.ambient ∧
      desk.configs = [e] ∧ Attained e.state.values ∧ e.state.values.read "instanceId" = .text id := by
  obtain ⟨e, n, id, h, ha, hid⟩ := Hybrid.exists_sample
  obtain ⟨t, ht, he, hn⟩ := Entity.construct_of_create h
  obtain ⟨hdebug, hinfo⟩ := Entity.accepts_of_construct ht
  rw [← hn] at hdebug hinfo
  exact ⟨⟨{ ambient := n }, [e]⟩, e, id, rfl, rfl, hdebug, hinfo, rfl, ha, hid⟩

/-- What an infra config held when it was saved is found after a call on it, in memory as on the server. -/
theorem saved_before_a_call_is_found : ∃ (desk : Desk) (e : Entity) (id : String) (found : Entity),
    desk.configs = [e] ∧ Attained e.state.values ∧ Retells e.state.values found ∧
      (loading id).reply .memory 0 (desk.play .memory 0 sampleSteps) = .ok (.found (some found)) ∧
      replies (.remote ⟨.server, .number 0⟩) 0 (sampleSteps ++ [loading id]) desk =
        replies .memory 0 (sampleSteps ++ [loading id]) desk := by
  obtain ⟨desk, e, id, hserver, hmemory, hdebug, hinfo, hconfigs, ha, hid⟩ := exists_desk
  obtain ⟨⟨found, hfound, hrel⟩, -, hreplies, -⟩ := @memory_and_remote_are_maps ⟨.server, .number 0⟩ 0 desk
    sampleSteps (loading id) (by decide +kernel)
    (fun c => by rw [Storage.answers, Storage.available, hserver]; rfl) hmemory (fun id => by rw [hserver]; rfl)
    hdebug hinfo (by rw [hconfigs]; simpa using ha) (sampleSteps_savesTyped id) (sampleSteps_dated id)
  have hsaved : saved id [.save e.state.values] = some e.state.values := if_pos hid
  rw [requests_sampleSteps hconfigs, hsaved] at hrel
  cases hrel with
  | some hrel => exact ⟨desk, e, id, _, hconfigs, ha, hrel, hfound, hreplies⟩

end Sample

end Desk

end GovernedConfig
