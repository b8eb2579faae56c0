import GovernedConfig.Proofs.InfraConfig.Presence
import GovernedConfig.Proofs.Store.Maps

/-! # Overlapping calls on the hybrid store

A save or a deletion does its part in memory when it is called, and its part on the server later. In between, infra
configs are updated and other calls do their parts. A save prints its infra config for each of the two anew, so that
what reaches the server is the text of the later moment.
-/

namespace GovernedConfig

open Act InfraConfig Remote

namespace Hybrid

/-- The second step of a deletion: removes the text from the server. -/
def withdraw (h : Hybrid) (id : Value) (removed : Bool) : Act Storage Bool := do
  match h.remote with
  | none => pure removed
  | some r =>
    try
      pure ((← r.delete id) || removed)
    catch thrown =>
      degrade .delete id thrown
      pure removed

theorem delete_eq (h : Hybrid) (id : Value) : h.delete id = Memory.delete id >>= h.withdraw id := rfl

section Answering

variable {h : Hybrid} {r : Remote} {s : Storage} {id text : String}

theorem replicate_of_answers (hr : h.remote = some r) {d : Deposit} (hid : d.id = .ok (.text id))
    (htext : d.text = .ok text) (httl : ((Value.number 0).less? r.ttlSeconds).isSome = true)
    (ha : ∀ c, s.answers r.link c = true) : ∃ expiries, h.replicate d s =
      .ok () { s with server := { s.server.put (textKey id) text with expiries } } := by
  suffices hsave : ∃ expiries, r.save d s =
      .ok () { s with server := { s.server.put (textKey id) text with expiries } } by
    obtain ⟨expiries, hsave⟩ := hsave
    refine ⟨expiries, ?_⟩
    rw [replicate, hr]
    dsimp only
    rw [tryCatch_apply, hsave]
  rw [save_eq_ask hid htext]
  obtain ⟨expiring, hless⟩ := Option.isSome_iff_exists.mp httl
  cases expiring with
  | true =>
    refine ⟨Record.insert s.server.expiries (textKey id) r.ttlSeconds, ask_of_answers (ha .setex) fun haccept => ?_⟩
    rw [keep, hless, Server.writeExpiring, haccept]
    rfl
  | false =>
    refine ⟨s.server.expiries, ask_of_answers (ha .set) fun haccept => ?_⟩
    rw [keep, hless, Server.write, haccept]
    rfl

theorem withdraw_of_answers (hr : h.remote = some r) (ha : ∀ c, s.answers r.link c = true) (removed : Bool) :
    h.withdraw (.text id) removed s = .ok (s.server.data.holds (textKey id) || removed)
      { s with server := { s.server with data := s.server.data.erase (textKey id) } } := by
  rw [withdraw, hr]
  dsimp only
  rw [tryCatch_apply, bind_of_ok (delete_of_answers id (ha .del)), pure_eq]

end Answering

end Hybrid

namespace InfraConfig

theorem Turn.instanceId_next {depth : Nat} {s : Scene Values} (hs : Settled s.entity.values) (turn : Turn) :
    (turn.next depth s).entity.values.read "instanceId" = s.entity.values.read "instanceId" := by
  rcases turn.next_cases depth hs.governed.plain with ⟨field, v, -, ha, -, hu, -⟩ | ⟨he, -⟩
  · exact hu.read_of_ne (ne_base_of_allows ha) (hs.named.ne_of_allows ha).symm fun _ => by decide
  · rw [he]

/-- Infra configs that are printed alike hold the same, the signs of zeros apart. -/
theorem PrintedAs.reads_eq {text : String} {vs ws : Values} (h : PrintedAs text vs) (g : PrintedAs text ws)
    {field : String} (hf : field ∈ registry.fieldNames) :
    (vs.read field).unsignedZeros = (ws.read field).unsignedZeros := by
  have hread : ∀ {us : Values}, PrintedAs text us →
      Json.read? text = some (Value.record (contents us)).unsignedZeros := by
    intro us hu
    obtain ⟨printed, hprinted, hread⟩ := hu.1.serialize_eq
    rw [hu.2] at hprinted
    cases hprinted
    exact hread
  have hcontents := (hread h).symm.trans (hread g)
  rw [Value.unsignedZeros, Value.unsignedZeros, Value.entriesUnsigned_eq, Value.entriesUnsigned_eq] at hcontents
  injection hcontents with hcontents
  injection hcontents with hcontents
  have hlookup := congrArg (List.lookup field) hcontents
  simpa only [Record.lookup_mapValues, lookup_contents hf, Option.map_some, Option.some.injEq] using hlookup

end InfraConfig

namespace Desk

/-- What a call on the hybrid store has still to do once its first step is made. -/
inductive Task where
  | save (i : Nat)
  | delete (id : String) (removed : Bool)

def Task.act (h : Hybrid) : Task → Act Desk Answer
  | save i => do
    let e ← Desk.config i
    Desk.stored (h.replicate (.ofInfraConfig e.state.values))
    pure .saved
  | delete id removed => do pure (.deleted (← Desk.stored (h.withdraw (.text id) removed)))

/-- The first step of a save, in memory. -/
def beginSave (i : Nat) : Act Desk Task := do
  let e ← config i
  stored (Memory.save (.ofInfraConfig e.state.values))
  pure (.save i)

def beginDelete (id : String) : Act Desk Task := do pure (.delete id (← stored (Memory.delete (.text id))))

theorem stored_bind {α β : Type} (act : Act Storage α) (next : α → Act Storage β) :
    stored (act >>= next) = stored act >>= fun a => stored (next a) := by
  funext desk
  cases h : act desk.storage with
  | ok a t =>
    rw [bind_of_ok (stored_of_ok h)]
    unfold stored within
    rw [bind_of_ok h]
  | error thrown t =>
    rw [bind_of_error (stored_of_error h)]
    exact stored_of_error (bind_of_error h next)

/-- The steps of a save, one right after the other, make a save on the hybrid store. -/
theorem beginSave_bind (h : Hybrid) (depth i : Nat) (desk : Desk) :
    (beginSave i >>= Task.act h) desk = (Event.save i).act (.hybrid h) depth desk := by
  cases he : desk.configs[i]? with
  | none =>
    have hbegin : beginSave i desk = .error (.fault .badType) desk := bind_of_error (config_of_none he) _
    rw [bind_of_error hbegin, Event.act, bind_of_error (config_of_none he)]
  | some e =>
    rw [Event.act, bind_of_ok (config_of_some he), Store.save, Hybrid.save, stored_bind, bind_assoc, beginSave,
      bind_assoc, bind_of_ok (config_of_some he), bind_assoc]
    cases hm : Memory.save (.ofInfraConfig e.state.values) desk.storage with
    | ok _ t =>
      have hlater : config i { desk with storage := t } = .ok e { desk with storage := t } := config_of_some he
      rw [bind_of_ok (stored_of_ok hm), bind_of_ok (stored_of_ok hm), pure_bind, Task.act, bind_of_ok hlater]
    | error thrown t => rw [bind_of_error (stored_of_error hm), bind_of_error (stored_of_error hm)]

theorem beginDelete_bind (h : Hybrid) (depth : Nat) (id : String) :
    beginDelete id >>= Task.act h = (Event.delete id).act (.hybrid h) depth := by
  rw [Event.act, Store.delete, Hybrid.delete_eq, stored_bind, bind_assoc, beginDelete, bind_assoc]
  simp only [pure_bind]
  rfl

end Desk

/-- A desk with a hybrid store, calls on which may overlap. -/
structure Backlog extends Desk where
  /-- The second step of each call so far, as long as it has to be made. -/
  tasks : List (Option Desk.Task) := []

namespace Backlog

inductive Event where
  | update (i : Nat) (turn : Turn)
  | save (i : Nat)
  | delete (id : String)
  | resume (ticket : Nat)

def updating (i : Nat) (turn : Turn) : Desk.Step := ⟨turn.clock, .call i turn.call, turn.whole⟩

section Steps

variable (h : Hybrid) (depth : Nat) (b : Backlog)

/-- Makes the first step of a call; if it throws, nothing is left to do. -/
def begin (first : Act Desk Desk.Task) : Backlog :=
  match first b.toDesk with
  | .ok task desk => { toDesk := desk, tasks := b.tasks ++ [some task] }
  | .error _ desk => { toDesk := desk, tasks := b.tasks ++ [none] }

/-- Makes the second step of a call, if it is still to be made. -/
def resume (ticket : Nat) : Backlog :=
  match b.tasks[ticket]? with
  | some (some task) => { toDesk := (task.act h).after b.toDesk, tasks := b.tasks.set ticket none }
  | _ => b

/-- What an event leaves. An update is made at once; a call makes its first step and waits to be resumed. -/
def next : Event → Backlog
  | .update i turn => { b with toDesk := (updating i turn).next (.hybrid h) depth b.toDesk }
  | .save i => b.begin (Desk.beginSave i)
  | .delete id => b.begin (Desk.beginDelete id)
  | .resume ticket => b.resume h ticket

def play (events : List Event) : Backlog := events.foldl (next h depth) b

/-- A call that is resumed at once leaves what its steps leave one after the other. -/
theorem resume_begin (first : Act Desk Desk.Task) :
    ((b.begin first).resume h b.tasks.length).toDesk = (first >>= Desk.Task.act h).after b.toDesk := by
  cases hf : first b.toDesk with
  | ok task desk =>
    rw [after_bind_of_ok hf, begin, hf]
    simp only [resume, List.getElem?_concat_length]
  | error thrown desk =>
    rw [after_of_error (bind_of_error hf _), begin, hf]
    simp only [resume, List.getElem?_concat_length]

/-- Calls that do not overlap are those of the hybrid store. -/
theorem toDesk_resume_save (i : Nat) : ((b.next h depth (.save i)).next h depth (.resume b.tasks.length)).toDesk =
    ((Desk.Event.save i).act (.hybrid h) depth).after b.toDesk := by
  rw [next, next, resume_begin, after, after, Desk.beginSave_bind h depth]

theorem toDesk_resume_delete (id : String) :
    ((b.next h depth (.delete id)).next h depth (.resume b.tasks.length)).toDesk =
      ((Desk.Event.delete id).act (.hybrid h) depth).after b.toDesk := by
  rw [next, next, resume_begin, Desk.beginDelete_bind h depth]

end Steps

section Runs

variable {h : Hybrid} {r : Remote} {depth : Nat} {b : Backlog} {event : Event} {events : List Event} {i ticket : Nat}
  {e : Entity} {task : Desk.Task}

structure Fit (r : Remote) (b : Backlog) : Prop where
  answers : ∀ c, b.storage.answers r.link c = true
  settled : ∀ e ∈ b.configs, Settled e.state.values

def Event.IsTyped : Event → Prop
  | update _ turn => turn.call.IsTyped
  | _ => True

theorem Fit.answers_of (hf : Fit r b) {s : Storage} (hpool : s.pool = b.storage.pool)
    (hup : s.server.up = b.storage.server.up) (hfailures : s.server.failures = b.storage.server.failures)
    (c : Command) : s.answers r.link c = true := (Storage.answers_congr hpool hup hfailures).trans (hf.answers c)

theorem next_update (he : b.configs[i]? = some e) (h : Hybrid) (depth : Nat) (turn : Turn) :
    b.next h depth (.update i turn) =
      { b with toDesk := Desk.left i e (turn.next depth (Desk.scene e b.toDesk)) b.toDesk } := by
  have hstart : ((updating i turn).start b.toDesk).configs[i]? = some e := he
  exact congrArg (fun desk => { b with toDesk := desk }) (Desk.after_call (.hybrid h) depth hstart turn.call)

theorem next_update_of_none (he : b.configs[i]? = none) (h : Hybrid) (depth : Nat) (turn : Turn) :
    b.next h depth (.update i turn) =
      { b with storage := { b.storage with ambient := { b.storage.ambient with clock := turn.clock } } } := by
  have hstart : ((updating i turn).start b.toDesk).configs[i]? = none := he
  exact congrArg (fun desk => { b with toDesk := desk }) (Desk.after_call_of_none (.hybrid h) depth hstart turn.call)

theorem next_save (hf : Fit r b) (he : b.configs[i]? = some e) (h : Hybrid) (depth : Nat) :
    ∃ id text, e.state.values.read "instanceId" = .text id ∧ PrintedAs text e.state.values ∧
      b.next h depth (.save i) =
        { b with
          storage := { b.storage with memory := b.storage.memory.insert (.text id) text }
          tasks := b.tasks ++ [some (.save i)] } := by
  obtain ⟨id, text, hid, hprinted, hdid, hdtext⟩ := (hf.settled e (List.mem_of_getElem? he)).deposit
  refine ⟨id, text, hid, hprinted, ?_⟩
  have hbegin : Desk.beginSave i b.toDesk = .ok (.save i)
      { b.toDesk with storage := { b.storage with memory := b.storage.memory.insert (.text id) text } } := by
    rw [Desk.beginSave, bind_of_ok (Desk.config_of_some he),
      bind_of_ok (Desk.stored_of_ok (Memory.save_eq hdid hdtext b.storage)), pure_eq]
  rw [next, begin, hbegin]

theorem next_resume_save (hf : Fit r b) (hr : h.remote = some r)
    (httl : ((Value.number 0).less? r.ttlSeconds).isSome = true) (ht : b.tasks[ticket]? = some (some (.save i)))
    (he : b.configs[i]? = some e) (depth : Nat) :
    ∃ id text expiries, e.state.values.read "instanceId" = .text id ∧ PrintedAs text e.state.values ∧
      b.next h depth (.resume ticket) =
        { b with
          storage := { b.storage with server := { b.storage.server.put (textKey id) text with expiries } }
          tasks := b.tasks.set ticket none } := by
  obtain ⟨id, text, hid, hprinted, hdid, hdtext⟩ := (hf.settled e (List.mem_of_getElem? he)).deposit
  obtain ⟨expiries, hreplicate⟩ := Hybrid.replicate_of_answers hr hdid hdtext httl hf.answers
  refine ⟨id, text, expiries, hid, hprinted, ?_⟩
  have hact : (Desk.Task.save i).act h b.toDesk = .ok .saved
      { b.toDesk with storage :=
        { b.storage with server := { b.storage.server.put (textKey id) text with expiries } } } := by
    rw [Desk.Task.act, bind_of_ok (Desk.config_of_some he), bind_of_ok (Desk.stored_of_ok hreplicate), pure_eq]
  simp only [next, resume, ht, after_of_ok hact]

theorem next_resume_delete (hf : Fit r b) (hr : h.remote = some r) {id : String} {removed : Bool}
    (ht : b.tasks[ticket]? = some (some (.delete id removed))) (depth : Nat) :
    b.next h depth (.resume ticket) =
      { b with
        storage := { b.storage with server :=
          { b.storage.server with data := b.storage.server.data.erase (textKey id) } }
        tasks := b.tasks.set ticket none } := by
  have hwithdraw : h.withdraw (.text id) removed b.storage = _ := Hybrid.withdraw_of_answers hr hf.answers removed
  have hact : ((Desk.Task.delete id removed).act h).after b.toDesk = _ :=
    (after_bind_pure _ _ _).trans (after_of_ok (Desk.stored_of_ok hwithdraw))
  simp only [next, resume, ht, hact]

theorem next_resume_idle (ht : ∀ task, b.tasks[ticket]? ≠ some (some task)) (h : Hybrid) (depth : Nat) :
    b.next h depth (.resume ticket) = b := by
  rw [next, resume]
  split
  · rename_i task htask
    exact (ht task htask).elim
  · rfl

/-- An event changes the infra config that it updates, or nothing but texts and tasks. A call that it does not
resume goes on to wait. -/
theorem next_cases (hf : Fit r b) (hr : h.remote = some r)
    (httl : ((Value.number 0).less? r.ttlSeconds).isSome = true) (depth : Nat) (event : Event) :
    (∃ i turn e, event = .update i turn ∧ b.configs[i]? = some e ∧ b.next h depth event =
        { b with toDesk := Desk.left i e (turn.next depth (Desk.scene e b.toDesk)) b.toDesk }) ∨
      ∃ s tasks, b.next h depth event = { b with storage := s, tasks } ∧ (∀ c, s.answers r.link c = true) ∧
        ∀ ticket task, event ≠ .resume ticket → b.tasks[ticket]? = some (some task) →
          tasks[ticket]? = some (some task) := by
  have hbegun : ∀ (more : List (Option Desk.Task)) (event : Event) ticket task, event ≠ .resume ticket →
      b.tasks[ticket]? = some (some task) → (b.tasks ++ more)[ticket]? = some (some task) := by
    intro more event ticket task _ ht
    rw [List.getElem?_append_left (List.getElem?_eq_some_iff.mp ht).1, ht]
  cases event with
  | update i turn =>
    cases he : b.configs[i]? with
    | none =>
      exact .inr ⟨_, b.tasks, next_update_of_none he h depth turn, hf.answers_of rfl rfl rfl, fun _ _ _ ht => ht⟩
    | some e => exact .inl ⟨i, turn, e, rfl, he, next_update he h depth turn⟩
  | save i =>
    cases he : b.configs[i]? with
    | none =>
      have hbegin : Desk.beginSave i b.toDesk = .error (.fault .badType) b.toDesk :=
        bind_of_error (Desk.config_of_none he) _
      refine .inr ⟨b.storage, b.tasks ++ [none], ?_, hf.answers, hbegun _ _⟩
      rw [next, begin, hbegin]
    | some e =>
      obtain ⟨id, text, -, -, hnext⟩ := next_save hf he h depth
      exact .inr ⟨_, _, hnext, hf.answers_of rfl rfl rfl, hbegun _ _⟩
  | delete id => exact .inr ⟨_, _, rfl, hf.answers_of rfl rfl rfl, hbegun _ _⟩
  | resume ticket =>
    have hset : ∀ other task, Event.resume ticket ≠ .resume other → b.tasks[other]? = some (some task) →
        (b.tasks.set ticket none)[other]? = some (some task) := by
      intro other task hne ht
      rw [List.getElem?_set_ne (fun heq => hne (by rw [heq])), ht]
    by_cases hopen : ∃ task, b.tasks[ticket]? = some (some task)
    · obtain ⟨task, ht⟩ := hopen
      cases task with
      | delete id removed => exact .inr ⟨_, _, next_resume_delete hf hr ht depth, hf.answers_of rfl rfl rfl, hset⟩
      | save i =>
        cases he : b.configs[i]? with
        | none =>
          -- Nothing waits for an infra config that is not there, but it takes no invariant to deal with it.
          have hact : ((Desk.Task.save i).act h).after b.toDesk = b.toDesk :=
            after_of_error (bind_of_error (Desk.config_of_none he) _)
          refine .inr ⟨b.storage, b.tasks.set ticket none, ?_, hf.answers, hset⟩
          simp only [next, resume, ht, hact]
        | some e =>
          obtain ⟨id, text, expiries, -, -, hnext⟩ := next_resume_save hf hr httl ht he depth
          exact .inr ⟨_, _, hnext, hf.answers_of rfl rfl rfl, hset⟩
    · exact .inr ⟨b.storage, b.tasks, next_resume_idle (fun task ht => hopen ⟨task, ht⟩) h depth, hf.answers,
        fun _ _ _ ht => ht⟩

section Invariants

variable (hr : h.remote = some r) (httl : ((Value.number 0).less? r.ttlSeconds).isSome = true)

include hr httl

theorem Fit.next (hf : Fit r b) (depth : Nat) (ht : event.IsTyped) : Fit r (b.next h depth event) := by
  rcases next_cases hf hr httl depth event with ⟨i, turn, e, rfl, he, hnext⟩ | ⟨s, tasks, hnext, hs, -⟩
  · rw [hnext]
    refine ⟨hf.answers_of rfl rfl rfl, fun other ho => ?_⟩
    rcases List.mem_or_eq_of_mem_set ho with ho | rfl
    · exact hf.settled other ho
    · have hsettled : Settled (Desk.scene e b.toDesk).entity.values := hf.settled e (List.mem_of_getElem? he)
      exact hsettled.next ht
  · rw [hnext]
    exact ⟨hs, hf.settled⟩

theorem Fit.config_next (hf : Fit r b) (depth : Nat) (event : Event) (he : b.configs[i]? = some e) :
    ∃ later, (b.next h depth event).configs[i]? = some later ∧
      later.state.values.read "instanceId" = e.state.values.read "instanceId" ∧
        ((∀ turn, event ≠ .update i turn) → later = e) := by
  rcases next_cases hf hr httl depth event with ⟨j, turn, other, rfl, ho, hnext⟩ | ⟨s, tasks, hnext, -, -⟩
  · rw [hnext]
    by_cases hij : j = i
    · subst hij
      obtain rfl : e = other := Option.some.inj (he.symm.trans ho)
      have hsettled : Settled (Desk.scene e b.toDesk).entity.values := hf.settled e (List.mem_of_getElem? he)
      exact ⟨_, List.getElem?_set_self (List.getElem?_eq_some_iff.mp he).1, turn.instanceId_next hsettled,
        fun hn => (hn turn rfl).elim⟩
    · exact ⟨e, (List.getElem?_set_ne hij).trans he, rfl, fun _ => rfl⟩
  · rw [hnext]
    exact ⟨e, he, rfl, fun _ => rfl⟩

theorem Fit.waits_next (hf : Fit r b) (depth : Nat) (hn : event ≠ .resume ticket)
    (ht : b.tasks[ticket]? = some (some task)) : (b.next h depth event).tasks[ticket]? = some (some task) := by
  rcases next_cases hf hr httl depth event with ⟨i, turn, e, rfl, he, hnext⟩ | ⟨s, tasks, hnext, -, hwaits⟩
  · rw [hnext]
    exact ht
  · rw [hnext]
    exact hwaits ticket task hn ht

theorem Fit.play (hf : Fit r b) (depth : Nat) (ht : ∀ event ∈ events, event.IsTyped) :
    Fit r (b.play h depth events) := by
  induction events generalizing b with
  | nil => exact hf
  | cons event events ih =>
    simp only [List.forall_mem_cons] at ht
    exact ih (hf.next hr httl depth ht.1) ht.2

theorem Fit.config_play (hf : Fit r b) (depth : Nat) (ht : ∀ event ∈ events, event.IsTyped)
    (he : b.configs[i]? = some e) : ∃ later, (b.play h depth events).configs[i]? = some later ∧
      later.state.values.read "instanceId" = e.state.values.read "instanceId" ∧
        ((∀ turn, .update i turn ∉ events) → later = e) := by
  induction events generalizing b e with
  | nil => exact ⟨e, he, rfl, fun _ => rfl⟩
  | cons event events ih =>
    simp only [List.forall_mem_cons] at ht
    obtain ⟨next, hnext, hid, hsame⟩ := hf.config_next hr httl depth event he
    obtain ⟨later, hlater, hkept, hrest⟩ := ih (hf.next hr httl depth ht.1) ht.2 hnext
    refine ⟨later, hlater, hkept.trans hid, fun hn => ?_⟩
    simp only [List.mem_cons, not_or] at hn
    exact (hrest fun turn => (hn turn).2).trans (hsame fun turn => Ne.symm (hn turn).1)

theorem Fit.waits_play (hf : Fit r b) (depth : Nat) (ht : ∀ event ∈ events, event.IsTyped)
    (hn : .resume ticket ∉ events) (hw : b.tasks[ticket]? = some (some task)) :
    (b.play h depth events).tasks[ticket]? = some (some task) := by
  induction events generalizing b with
  | nil => exact hw
  | cons event events ih =>
    simp only [List.forall_mem_cons] at ht
    simp only [List.mem_cons, not_or] at hn
    exact ih (hf.next hr httl depth ht.1) ht.2 hn.2 (hf.waits_next hr httl depth (Ne.symm hn.1) hw)

theorem Fit.overlap (hf : Fit r b) (depth : Nat) (ht : ∀ event ∈ events, event.IsTyped)
    (hn : .resume b.tasks.length ∉ events) (he : b.configs[i]? = some e) :
    let called := b.next h depth (.save i)
    let due := called.play h depth events
    ∃ later id text other expiries, due.configs[i]? = some later ∧
      ((∀ turn, .update i turn ∉ events) → later = e) ∧ e.state.values.read "instanceId" = .text id ∧
      PrintedAs text e.state.values ∧ PrintedAs other later.state.values ∧
      called =
        { b with
          storage := { b.storage with memory := b.storage.memory.insert (.text id) text }
          tasks := b.tasks ++ [some (.save i)] } ∧
      due.next h depth (.resume b.tasks.length) =
        { due with
          storage := { due.storage with server := { due.storage.server.put (textKey id) other with expiries } }
          tasks := due.tasks.set b.tasks.length none } := by
  intro called due
  obtain ⟨id, text, hid, hprinted, hcalled⟩ := next_save hf he h depth
  have hfit : Fit r called := hf.next hr httl depth trivial
  have htask : called.tasks[b.tasks.length]? = some (some (.save i)) := by
    rw [show called = _ from hcalled]
    exact List.getElem?_concat_length
  have hconfig : called.configs[i]? = some e := by
    rw [show called = _ from hcalled]
    exact he
  have hwaiting := hfit.waits_play hr httl depth ht hn htask
  obtain ⟨later, hlater, hkept, hsame⟩ := hfit.config_play hr httl depth ht hconfig
  obtain ⟨id', other, expiries, hid', hreprinted, hdone⟩ :=
    next_resume_save (hfit.play hr httl depth ht) hr httl hwaiting hlater depth
  obtain rfl : id = id' := by
    rw [hkept, hid] at hid'
    exact Value.text.inj hid'
  exact ⟨later, id, text, other, expiries, hlater, hsame, hid, hprinted, hreprinted, hcalled, hdone⟩

end Invariants

/-- Whatever updates and other calls come between the two steps of a save: in memory it keeps the text that its
infra config has when it is called, and on the server the one that it has when the second step is made. Nothing else
is kept by either step, and the texts are one and the same only if no field holds something else by then, as none
does without an update. -/
theorem each_step_keeps_the_text_of_its_moment (hr : h.remote = some r)
    (httl : ((Value.number 0).less? r.ttlSeconds).isSome = true) (hanswers : ∀ c, b.storage.answers r.link c = true)
    (hconfigs : ∀ e ∈ b.configs, Attained e.state.values) (hi : i < b.configs.length) (depth : Nat)
    {before between : List Event} (hbefore : ∀ event ∈ before, event.IsTyped)
    (hbetween : ∀ event ∈ between, event.IsTyped)
    (hwaits : .resume (b.play h depth before).tasks.length ∉ between) :
    let asked := b.play h depth before
    let called := asked.next h depth (.save i)
    let due := called.play h depth between
    let done := due.next h depth (.resume asked.tasks.length)
    ∃ e later id text other, asked.configs[i]? = some e ∧ due.configs[i]? = some later ∧
      e.state.values.read "instanceId" = .text id ∧
      serialize e.state.values = .ok text ∧ serialize later.state.values = .ok other ∧
      called.storage = { asked.storage with memory := asked.storage.memory.insert (.text id) text } ∧
      done.storage.memory = due.storage.memory ∧
      done.storage.server.data = due.storage.server.data.insert (textKey id) other ∧
      ((∀ turn, .update i turn ∉ between) → other = text) ∧
      (other = text → ∀ field ∈ registry.fieldNames,
        (later.state.values.read field).unsignedZeros = (e.state.values.read field).unsignedZeros) := by
  intro asked called due done
  have hb : Fit r b := ⟨hanswers, fun e he => (hconfigs e he).settled⟩
  obtain ⟨e, he, -⟩ := hb.config_play hr httl depth hbefore (List.getElem?_eq_getElem hi)
  obtain ⟨later, id, text, other, expiries, hlater, hsame, hid, hprinted, hreprinted, hcalled, hdone⟩ :=
    (hb.play hr httl depth hbefore).overlap hr httl depth hbetween hwaits he
  refine ⟨e, later, id, text, other, he, hlater, hid, hprinted.2, hreprinted.2, ?_, ?_, ?_, fun hn => ?_, ?_⟩
  · rw [show called = _ from hcalled]
  · rw [show done = _ from hdone]
  · rw [show done = _ from hdone]
    rfl
  · have hprint := hreprinted.2
    rw [hsame hn, hprinted.2] at hprint
    exact (Except.ok.inj hprint).symm
  · rintro rfl field hf
    exact hreprinted.reads_eq hprinted hf

end Runs

section Sample

def sampleUpdate : Turn := ⟨0, .set "endTs" (.number 7), Binary64.zero_isInteger⟩

theorem sampleUpdate_isTyped : ∀ event ∈ [Event.update 0 sampleUpdate], event.IsTyped := by
  simp only [List.forall_mem_cons]
  constructor
  · change OfType "endTs" (.number 7)
    simp [OfType, fieldTypes, Value.IsNumber]
  · simp

def sampleBacklog (e : Entity) (n : Ambient) : Backlog := { storage := { ambient := n }, configs := [e] }

/-- The sample is saved, and updated before the second step. -/
def sampleDue (e : Entity) (n : Ambient) : Backlog :=
  ((sampleBacklog e n).next Hybrid.mirroredStore 2 (.save 0)).next Hybrid.mirroredStore 2 (.update 0 sampleUpdate)

/-- The server is told of an update that memory does not know of. -/
theorem sample_is_printed_anew :
    ∃ e later n id text other, create sampleInit Entity.stillness = .ok e n ∧
      (sampleDue e n).configs[0]? = some later ∧ serialize e.state.values = .ok text ∧
      serialize later.state.values = .ok other ∧
      ((sampleBacklog e n).next Hybrid.mirroredStore 2 (.save 0)).storage.memory = [(.text id, text)] ∧
      ((sampleDue e n).next Hybrid.mirroredStore 2 (.resume 0)).storage.server.data =
        (sampleDue e n).storage.server.data.insert (textKey id) other := by
  obtain ⟨e, n, -, h, ha, -⟩ := Hybrid.exists_sample
  have happlied := each_step_keeps_the_text_of_its_moment (h := Hybrid.mirroredStore) (r := ⟨.server, .number 0⟩)
    (b := sampleBacklog e n) (i := 0) rfl (by decide +kernel) (fun _ => rfl) (by simpa [sampleBacklog] using ha)
    Nat.zero_lt_one 2 (List.forall_mem_nil _) sampleUpdate_isTyped (by simp)
  obtain ⟨e', later, id, text, other, he, hlater, -, htext, hother, hcalled, -, hdone, -⟩ := happlied
  obtain rfl : e = e' := Option.some.inj he
  exact ⟨e, later, n, id, text, other, h, hlater, htext, hother, congrArg Storage.memory hcalled, hdone⟩

def showsUpdate : Bool :=
  match create sampleInit Entity.stillness with
  | .ok e n =>
    ((sampleUpdate.next 2 ⟨n, e.state, none⟩).entity.values.read "endTs").unsignedZeros ≠
      (e.state.values.read "endTs").unsignedZeros
  | .error _ _ => false

/-- An update during a save parts the copies that the save makes. -/
theorem updated_copies_differ :
    ¬ ∀ (h : Hybrid) (r : Remote) (b : Backlog) (i depth : Nat) (before between : List Event) (e : Entity)
      (id text : String), h.remote = some r → ((Value.number 0).less? r.ttlSeconds).isSome = true →
        (∀ c, b.storage.answers r.link c = true) → (∀ e ∈ b.configs, Attained e.state.values) →
          (∀ event ∈ before, event.IsTyped) → (∀ event ∈ between, event.IsTyped) →
            let asked := b.play h depth before
            let due := (asked.next h depth (.save i)).play h depth between
            let done := due.next h depth (.resume asked.tasks.length)
            .resume asked.tasks.length ∉ between → asked.configs[i]? = some e →
              e.state.values.read "instanceId" = .text id → serialize e.state.values = .ok text →
                done.storage.server.data.lookup (textKey id) = some text := by
  intro hall
  have h : showsUpdate = true := by decide +kernel
  unfold showsUpdate at h
  split at h
  · rename_i e n he
    have ha : Attained e.state.values :=
      ⟨_, e, n, 0, none, [], .created sampleInit_isTyped he, fun _ ht => (List.not_mem_nil ht).elim, rfl⟩
    have hfit : Fit ⟨.server, .number 0⟩ (sampleBacklog e n) :=
      ⟨fun _ => rfl, by simpa [sampleBacklog] using ha.settled⟩
    obtain ⟨later, id, text, other, expiries, hlater, -, hid, hprinted, hreprinted, hcalled, hdone⟩ :=
      hfit.overlap (h := Hybrid.mirroredStore) (i := 0) rfl (by decide +kernel) 2 sampleUpdate_isTyped (by simp) rfl
    have hkept := hall Hybrid.mirroredStore ⟨.server, .number 0⟩ (sampleBacklog e n) 0 2 [] [.update 0 sampleUpdate]
      e id text rfl (by decide +kernel) (fun _ => rfl) (by simpa [sampleBacklog] using ha) (List.forall_mem_nil _)
      sampleUpdate_isTyped (by simp) rfl hid hprinted.2
    have hwritten : ((sampleDue e n).next Hybrid.mirroredStore 2 (.resume 0)).storage.server.data.lookup
        (textKey id) = some other :=
      (congrArg (fun b : Backlog => b.storage.server.data.lookup (textKey id)) hdone).trans
        (Record.lookup_insert_self _ _ _)
    obtain rfl : other = text := Option.some.inj (hwritten.symm.trans hkept)
    have hupdated : (sampleUpdate.next 2 ⟨n, e.state, none⟩).entity = later.state := by
      have hconfig : (sampleDue e n).configs[0]? = some later := hlater
      rw [sampleDue, hcalled, next_update rfl] at hconfig
      exact congrArg Entity.state (Option.some.inj hconfig)
    rw [hupdated] at h
    exact of_decide_eq_true h (hreprinted.reads_eq hprinted (by decide))
  · cases h

end Sample

end Backlog

end GovernedConfig
