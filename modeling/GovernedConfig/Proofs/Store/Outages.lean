import Mathlib.Data.List.Induction
import GovernedConfig.Proofs.InfraConfig.RoundTrip
import GovernedConfig.Proofs.Store.Hybrid

/-! # The hybrid store through outages

Every save and every deletion reaches memory, but during an outage it does not reach the server, and nothing
makes up for that afterwards. So a load tells the latest of what reached the server, if that answers with
something, and the latest of all otherwise.
-/

namespace GovernedConfig

namespace InfraConfig

/-- What an infra config may hold: it came about from typed values or an accepted text, and typed calls were made
on it. -/
def Attained (vs : Values) : Prop :=
  ∃ m e n depth current turns, Begins m e n ∧ (∀ turn ∈ turns, turn.call.IsTyped) ∧
    vs = (play depth turns ⟨n, e.state, current⟩).entity.values

theorem Attained.settled {vs : Values} (h : Attained vs) : Settled vs := by
  obtain ⟨m, e, n, depth, current, turns, hb, ht, rfl⟩ := h
  obtain ⟨init, hi, hc⟩ := hb.exists_init
  exact (settled_of_create hc hi).play (s := ⟨n, e.state, current⟩) depth ht

def PrintedAs (text : String) (vs : Values) : Prop := Settled vs ∧ serialize vs = .ok text

/-- A ready infra config has all the fields that another one had, in which no zero has a sign. -/
def Retells (vs : Values) (e : Entity) : Prop :=
  e.state.phase = .ready ∧ ∃ r q, toRecord vs = .ok r ∧ toRecord e.state.values = .ok q ∧
    r.names = registry.fieldNames ∧ q.names = registry.fieldNames ∧
      (Value.record r).unsignedZeros.Agrees (.record q)

theorem Settled.deposit {vs : Values} (h : Settled vs) : ∃ id text, vs.read "instanceId" = .text id ∧
    PrintedAs text vs ∧ (Deposit.ofInfraConfig vs).id = .ok (.text id) ∧ (Deposit.ofInfraConfig vs).text = .ok text := by
  obtain ⟨id, hid, -⟩ := h.named
  obtain ⟨text, ht, -⟩ := h.serialize_eq
  have hread := h.read_eq (by decide : "instanceId" ∈ registry.fieldNames)
  rw [hid] at hread
  exact ⟨id, text, hid, ⟨h, ht⟩, hread, ht⟩

theorem retells_of_readAs {text : String} {vs : Values} {e : Entity} (hp : PrintedAs text vs)
    (hr : Hybrid.ReadAs text e) : Retells vs e := by
  obtain ⟨hs, ht⟩ := hp
  obtain ⟨m, n, hd⟩ := hr
  obtain ⟨hready, hsettled, hback⟩ := hs.restored ht hd
  exact ⟨hready, _, _, hs.toRecord_eq, hsettled.toRecord_eq, names_contents _, names_contents _,
    agrees_contents hback⟩

end InfraConfig

namespace Hybrid

open Act InfraConfig Remote

/-- What a store meets with when it is called: the surroundings, the state of the connections and of the server,
and the commands that the server refuses. -/
structure Weather where
  ambient : Ambient
  pool : Pool := {}
  up : Bool
  failures : List (Command × Thrown) := []

namespace Weather

def upon (w : Weather) (s : Storage) : Storage :=
  { s with ambient := w.ambient, pool := w.pool, server := { s.server with up := w.up, failures := w.failures } }

def answers (w : Weather) (link : Link) (c : Command) : Bool := (w.upon { ambient := w.ambient }).answers link c

theorem answers_upon (w : Weather) (s : Storage) (link : Link) (c : Command) :
    (w.upon s).answers link c = w.answers link c := by
  cases link <;> rfl

end Weather

inductive Call where
  | save (values : Values)
  | load (id : String)
  | delete (id : String)

namespace Call

def act (h : Hybrid) : Call → Act Storage Unit
  | save vs => h.save (.ofInfraConfig vs)
  | load id => do
    let _ ← h.load (.text id)
  | delete id => do
    let _ ← h.delete (.text id)

/-- What is saved are infra configs. -/
def IsProper : Call → Prop
  | save vs => Attained vs
  | _ => True

def touches (id : String) : Call → Bool
  | save vs => vs.read "instanceId" = .text id
  | load _ => false
  | delete other => other = id

def command : Call → Command
  | save _ => .set
  | load _ => .get
  | delete _ => .del

/-- What is there of an id after a call. -/
def outcome (id : String) (held : Option Values) : Call → Option Values
  | save vs => if vs.read "instanceId" = .text id then some vs else held
  | load _ => held
  | delete other => if other = id then none else held

end Call

structure Turn where
  weather : Weather
  call : Call

def Turn.reaches (link : Link) (turn : Turn) : Bool := turn.weather.answers link turn.call.command

/-- The storage after a turn, whether its call resolves or throws. -/
def Turn.next (h : Hybrid) (s : Storage) (turn : Turn) : Storage := (turn.call.act h).after (turn.weather.upon s)

def play (h : Hybrid) (turns : List Turn) (s : Storage) : Storage := turns.foldl (Turn.next h) s

/-- What was saved last under an id, if it was not deleted since. -/
def latest (id : String) (turns : List Turn) : Option Values :=
  turns.foldl (fun held turn => turn.call.outcome id held) none

/-- What was saved last under an id, as far as it reached the server. -/
def mirrored (link : Link) (id : String) (turns : List Turn) : Option Values :=
  latest id (turns.filter (·.reaches link))

section Histories

variable {link : Link} {id : String} {turns : List Turn} {turn : Turn}

theorem play_append (h : Hybrid) (turns : List Turn) (turn : Turn) (s : Storage) :
    play h (turns ++ [turn]) s = turn.next h (play h turns s) := by
  unfold play
  rw [List.foldl_append]
  rfl

theorem latest_append (id : String) (turns : List Turn) (turn : Turn) :
    latest id (turns ++ [turn]) = turn.call.outcome id (latest id turns) := by
  unfold latest
  rw [List.foldl_append]
  rfl

theorem mirrored_append (link : Link) (id : String) (turns : List Turn) (turn : Turn) :
    mirrored link id (turns ++ [turn]) =
      if turn.reaches link then turn.call.outcome id (mirrored link id turns) else mirrored link id turns := by
  unfold mirrored
  rw [List.filter_append]
  cases hr : turn.reaches link with
  | true => rw [List.filter_cons_of_pos hr, List.filter_nil, latest_append, if_pos rfl]
  | false => rw [List.filter_cons_of_neg (by simp [hr]), List.filter_nil, List.append_nil, if_neg (by simp)]

/-- The last call that saved or deleted something under an id reached the server. -/
def LastReached (link : Link) (id : String) (turns : List Turn) : Prop :=
  ∀ turn, (turns.filter (·.call.touches id)).getLast? = some turn → turn.reaches link = true

theorem outcome_of_touches {call : Call} (h : call.touches id = true) (held other : Option Values) :
    call.outcome id held = call.outcome id other := by
  cases call with
  | save vs => simp only [Call.outcome, if_pos (of_decide_eq_true h)]
  | load _ => cases h
  | delete _ => simp only [Call.outcome, if_pos (of_decide_eq_true h)]

theorem outcome_of_not_touches {call : Call} (h : call.touches id = false) (held : Option Values) :
    call.outcome id held = held := by
  cases call with
  | save vs => simp only [Call.outcome, if_neg (of_decide_eq_false h)]
  | load _ => rfl
  | delete _ => simp only [Call.outcome, if_neg (of_decide_eq_false h)]

theorem lastReached_append (ht : turn.call.touches id = true) (hr : turn.reaches link = true) :
    LastReached link id (turns ++ [turn]) := by
  intro last hl
  have hfilter : [turn].filter (·.call.touches id) = [turn] := by simp [ht]
  rw [List.filter_append, hfilter, List.getLast?_concat] at hl
  cases hl
  exact hr

/-- If the last of them reached the server, all that came before makes no difference. -/
theorem LastReached.mirrored_eq (h : LastReached link id turns) : mirrored link id turns = latest id turns := by
  induction turns using List.reverseRecOn with
  | nil => rfl
  | append_singleton turns turn ih =>
    rw [latest_append, mirrored_append]
    cases ht : turn.call.touches id with
    | true =>
      have hfilter : [turn].filter (·.call.touches id) = [turn] := by simp [ht]
      have hr : turn.reaches link = true := h turn (by rw [List.filter_append, hfilter, List.getLast?_concat])
      rw [if_pos hr]
      exact outcome_of_touches ht _ _
    | false =>
      have hfilter : [turn].filter (·.call.touches id) = [] := by simp [ht]
      have hrest : LastReached link id turns := fun other ho => h other (by
        rwa [List.filter_append, hfilter, List.append_nil])
      rw [outcome_of_not_touches ht, outcome_of_not_touches ht, ih hrest, ite_self]

end Histories

section Runs

variable {h : Hybrid} {r : Remote} {s : Storage} {turns : List Turn} {turn : Turn} {id : String}

/-- Memory holds the texts of what was saved last, the server the texts of what reached it last. -/
structure Mirrors (link : Link) (turns : List Turn) (s : Storage) : Prop where
  memory : ∀ id, Option.Rel PrintedAs (s.memory.textOf? (.text id)) (latest id turns)
  server : ∀ id, Option.Rel PrintedAs (s.server.data.lookup (textKey id)) (mirrored link id turns)

theorem Mirrors.start (link : Link) (hm : s.memory = []) (hd : s.server.data = []) : Mirrors link [] s where
  memory id := by
    rw [hm]
    exact .none
  server id := by
    rw [hd]
    exact .none

theorem printed_of_save {vs : Values} {own text : String} {held : Option String} {told : Option Values}
    (hid : vs.read "instanceId" = .text own) (hp : PrintedAs text vs) (hr : Option.Rel PrintedAs held told) :
    Option.Rel PrintedAs (if id = own then some text else held) ((Call.save vs).outcome id told) := by
  by_cases he : id = own
  · rw [if_pos he, Call.outcome, if_pos (by rw [hid, he])]
    exact .some hp
  · rw [if_neg he, Call.outcome, if_neg (by rw [hid]; simpa using Ne.symm he)]
    exact hr

theorem printed_of_delete {own : String} {held : Option String} {told : Option Values}
    (hr : Option.Rel PrintedAs held told) :
    Option.Rel PrintedAs (if id = own then none else held) ((Call.delete own).outcome id told) := by
  by_cases he : id = own
  · rw [if_pos he, Call.outcome, if_pos he.symm]
    exact .none
  · rw [if_neg he, Call.outcome, if_neg (Ne.symm he)]
    exact hr

theorem printed_of_reaching {own : String} {answer held : Option String} {told other : Option Values}
    (answers : Bool) (hreached : Option.Rel PrintedAs (if id = own then answer else held) told)
    (hr : Option.Rel PrintedAs held other) :
    Option.Rel PrintedAs (if answers = true ∧ id = own then answer else held)
      (if answers then told else other) := by
  cases answers with
  | true => simpa using hreached
  | false => simpa using hr

section Calls

variable {call : Call} {held : Option Values}

/-- What a call leaves of the texts that were there: the one that it saves or deletes apart, it changes none. -/
theorem Call.after_cases (hc : call.IsProper) (hr : h.remote = some r)
    (httl : (Value.number 0).less? r.ttlSeconds = some false) (s : Storage) :
    (∃ vs own text, call = .save vs ∧ vs.read "instanceId" = .text own ∧ PrintedAs text vs ∧
      Storage.Still (s.kept r.link own text) ((call.act h).after s)) ∨
    (∃ own, call = .delete own ∧ Storage.Still (s.erased r.link own) ((call.act h).after s)) ∨
    ∃ own, call = .load own ∧ Storage.Still s ((call.act h).after s) := by
  cases call with
  | save vs =>
    obtain ⟨own, text, hown, hprinted, hid, htext⟩ := hc.settled.deposit
    exact .inl ⟨vs, own, text, rfl, hown, hprinted, after_save hr hid htext httl⟩
  | load own => exact .inr (.inr ⟨own, rfl, (load_still h own).bind (fun _ => keeps_pure _) _⟩)
  | delete own =>
    refine .inr (.inl ⟨own, rfl, ?_⟩)
    rw [show ((Call.delete own).act h).after s = (h.delete (.text own)).after s from after_bind_pure _ _ _]
    exact after_delete hr

theorem Call.printed_memory (hc : call.IsProper) (hr : h.remote = some r)
    (httl : (Value.number 0).less? r.ttlSeconds = some false)
    (hp : Option.Rel PrintedAs (s.memory.textOf? (.text id)) held) :
    Option.Rel PrintedAs (((call.act h).after s).memory.textOf? (.text id)) (call.outcome id held) := by
  rcases call.after_cases hc hr httl s with ⟨vs, own, text, rfl, hown, hprinted, hs⟩ | ⟨own, rfl, hs⟩ | ⟨own, rfl, hs⟩
  · rw [hs.memory, Storage.textOf?_kept]
    exact printed_of_save hown hprinted hp
  · rw [hs.memory, Storage.textOf?_erased]
    exact printed_of_delete hp
  · rw [hs.memory]
    exact hp

theorem Call.printed_server (hc : call.IsProper) (hr : h.remote = some r)
    (httl : (Value.number 0).less? r.ttlSeconds = some false)
    (hp : Option.Rel PrintedAs (s.server.data.lookup (textKey id)) held) :
    Option.Rel PrintedAs (((call.act h).after s).server.data.lookup (textKey id))
      (if s.answers r.link call.command then call.outcome id held else held) := by
  rcases call.after_cases hc hr httl s with ⟨vs, own, text, rfl, hown, hprinted, hs⟩ | ⟨own, rfl, hs⟩ | ⟨own, rfl, hs⟩
  · rw [hs.data, Storage.lookup_kept]
    exact printed_of_reaching _ (printed_of_save hown hprinted hp) hp
  · rw [hs.data, Storage.lookup_erased]
    exact printed_of_reaching _ (printed_of_delete hp) hp
  · rw [hs.data, Call.outcome, ite_self]
    exact hp

end Calls

/-- Each turn makes of memory and server what it makes of the histories. -/
theorem Mirrors.next (hm : Mirrors r.link turns s) (hr : h.remote = some r)
    (httl : (Value.number 0).less? r.ttlSeconds = some false) (hc : turn.call.IsProper) :
    Mirrors r.link (turns ++ [turn]) (turn.next h s) where
  memory id := by
    rw [latest_append]
    exact Call.printed_memory (s := turn.weather.upon s) hc hr httl (hm.memory id)
  server id := by
    have hserver := Call.printed_server (s := turn.weather.upon s) hc hr httl (hm.server id)
    rwa [mirrored_append, Turn.reaches, ← Weather.answers_upon turn.weather s]

theorem Mirrors.play (hr : h.remote = some r) (httl : (Value.number 0).less? r.ttlSeconds = some false)
    (hm : s.memory = []) (hd : s.server.data = []) (hc : ∀ turn ∈ turns, turn.call.IsProper) :
    Mirrors r.link turns (play h turns s) := by
  induction turns using List.reverseRecOn with
  | nil => exact .start r.link hm hd
  | append_singleton turns turn ih =>
    rw [play_append]
    exact (ih fun other ho => hc other (List.mem_append_left _ ho)).next hr httl
      (hc turn (List.mem_append_right _ (List.mem_singleton_self turn)))

/-- What a load tells of an id: what reached the server last, if that answers with something, or else what was
saved last. -/
def told (link : Link) (w : Weather) (id : String) (turns : List Turn) : Option Values :=
  if w.answers link .get then (mirrored link id turns).or (latest id turns) else latest id turns

theorem LastReached.told_eq {link : Link} (hl : LastReached link id turns) (w : Weather) :
    told link w id turns = latest id turns := by
  rw [told, hl.mirrored_eq, Option.or_self, ite_self]

theorem rel_or {α β : Type} {R : α → β → Prop} {a c : Option α} {b d : Option β} (h : Option.Rel R a b)
    (g : Option.Rel R c d) : Option.Rel R (a.or c) (b.or d) := by
  cases h with
  | none => exact g
  | some h => exact .some h

theorem isSome_of_rel {α β : Type} {R : α → β → Prop} {a : Option α} {b : Option β} (h : Option.Rel R a b) :
    a.isSome = b.isSome := by
  cases h <;> rfl

theorem Mirrors.printed {link : Link} (hm : Mirrors link turns s) (w : Weather) (id : String) :
    Option.Rel PrintedAs ((w.upon s).served? link id) (told link w id turns) := by
  unfold Storage.served? told
  rw [w.answers_upon]
  cases w.answers link .get with
  | true => exact rel_or (hm.server id) (hm.memory id)
  | false => exact hm.memory id

theorem retells_of_rel {text : Option String} {vs : Option Values} {found : Option Entity}
    (hp : Option.Rel PrintedAs text vs) (hr : Option.Rel ReadAs text found) : Option.Rel Retells vs found := by
  cases hp with
  | none =>
    cases hr
    exact .none
  | some hp =>
    cases hr with
    | some hr => exact .some (retells_of_readAs hp hr)

/-- What is rebuilt from a printed text is rebuilt wherever the journal takes entries, and tells what was printed. -/
theorem rebuild_of_printed {text : Option String} {vs : Option Values} (hp : Option.Rel PrintedAs text vs)
    (hdebug : Journal.Accepts .debug s.ambient) (hinfo : Journal.Accepts .info s.ambient)
    (hd : (Calendar.stamp? s.ambient.clock).isSome = true) :
    ∃ found t, rebuild text s = .ok found t ∧ Option.Rel Retells vs found ∧
      ∀ e ∈ found, Settled e.state.values := by
  cases hp with
  | none => exact ⟨none, s, rfl, .none, by simp⟩
  | @some text vs hp =>
    obtain ⟨text', e, n, hprint, he, -, hsettled, -⟩ := hp.1.restores hdebug hinfo hd
    rw [hp.2] at hprint
    cases hprint
    refine ⟨some e, { s with ambient := n }, bind_of_ok (within_eq_ok_iff.mpr ⟨n, he, rfl⟩) _,
      .some (retells_of_readAs hp ⟨_, n, he⟩), ?_⟩
    rintro _ ⟨⟩
    exact hsettled

/-- Whatever was saved, loaded and deleted in whatever weather, a load that resolves tells the latest of what
reached the server, if that answers with something, and the latest of all otherwise; and so always the latest of
all, once the last save or deletion of its id has reached the server. -/
theorem load_tells_latest (hr : h.remote = some r) (httl : (Value.number 0).less? r.ttlSeconds = some false)
    (hm : s.memory = []) (hd : s.server.data = []) (hc : ∀ turn ∈ turns, turn.call.IsProper) (w : Weather)
    {found : Option Entity} {t : Storage} (hl : h.load (.text id) (w.upon (play h turns s)) = .ok found t) :
    Option.Rel Retells (told r.link w id turns) found ∧
      (LastReached r.link id turns → Option.Rel Retells (latest id turns) found) := by
  have hmirrors := Mirrors.play hr httl hm hd hc
  have hrel := retells_of_rel (hmirrors.printed w id) (load_eq_ok hr hl)
  refine ⟨hrel, fun hlast => ?_⟩
  rwa [hlast.told_eq] at hrel

end Runs

section Samples

/-- A store with its own client, whose texts live until they are deleted. -/
def mirroredStore : Hybrid := ⟨some ⟨.server, .number 0⟩⟩

def fair : Weather := { ambient := Entity.stillness, up := true }

def outage : Weather := { ambient := Entity.stillness, up := false }

def fresh : Storage := { ambient := Entity.stillness }

theorem exists_sample : ∃ e n id, create sampleInit Entity.stillness = .ok e n ∧ Attained e.state.values ∧
    e.state.values.read "instanceId" = .text id := by
  obtain ⟨e, n, h⟩ := exists_of_isCreated (by decide +kernel : isCreated sampleInit = true)
  have ha : Attained e.state.values :=
    ⟨_, e, n, 0, none, [], .created sampleInit_isTyped h, fun _ ht => (List.not_mem_nil ht).elim, rfl⟩
  obtain ⟨id, hid, -⟩ := ha.settled.named
  exact ⟨e, n, id, h, ha, hid⟩

theorem exists_attained : ∃ vs id, Attained vs ∧ vs.read "instanceId" = .text id := by
  obtain ⟨e, -, id, -, ha, hid⟩ := exists_sample
  exact ⟨_, id, ha, hid⟩

theorem load_of_told {turns : List Turn} {id : String} {vs : Values} (hc : ∀ turn ∈ turns, turn.call.IsProper)
    (ht : told .server fair id turns = some vs) :
    ∃ e t, mirroredStore.load (.text id) (fair.upon (play mirroredStore turns fresh)) = .ok (some e) t := by
  have hmirrors : Mirrors .server turns (play mirroredStore turns fresh) :=
    Mirrors.play (r := ⟨.server, .number 0⟩) rfl (by decide +kernel) rfl rfl hc
  obtain ⟨found, t, hl, hrel, -⟩ := rebuild_of_printed (s := fair.upon (play mirroredStore turns fresh))
    (hmirrors.printed fair id) (Entity.stillness_accepts (by decide)) (Entity.stillness_accepts (by decide)) Entity.stillness_dated
  rw [ht] at hrel
  cases hrel with
  | some _ => exact ⟨_, t, (load_eq_rebuild (r := ⟨.server, .number 0⟩) rfl rfl).trans hl⟩

def missedDeletion (vs : Values) (id : String) : List Turn := [⟨fair, .save vs⟩, ⟨outage, .delete id⟩]

section Missed

variable {vs : Values} {id : String}

theorem missedDeletion_isProper (id : String) (h : Attained vs) :
    ∀ turn ∈ missedDeletion vs id, turn.call.IsProper := by
  simp only [missedDeletion, List.forall_mem_cons]
  exact ⟨h, trivial, by simp⟩

theorem latest_missedDeletion (vs : Values) (id : String) : latest id (missedDeletion vs id) = none := by
  change (if id = id then none else _) = none
  exact if_pos rfl

theorem told_missedDeletion (hid : vs.read "instanceId" = .text id) :
    told .server fair id (missedDeletion vs id) = some vs := by
  have hmirrored : mirrored .server id (missedDeletion vs id) = some vs := by
    change (if vs.read "instanceId" = .text id then some vs else none) = some vs
    exact if_pos hid
  rw [told, hmirrored]
  rfl

end Missed

/-- A deletion that the server missed is undone once the server answers again. -/
theorem missed_deletion_is_undone :
    ¬ ∀ (h : Hybrid) (r : Remote) (s : Storage) (turns : List Turn) (w : Weather) (id : String)
      (found : Option Entity) (t : Storage), h.remote = some r → (Value.number 0).less? r.ttlSeconds = some false →
        s.memory = [] → s.server.data = [] → (∀ turn ∈ turns, turn.call.IsProper) →
          h.load (.text id) (w.upon (play h turns s)) = .ok found t →
            Option.Rel Retells (latest id turns) found := by
  intro hall
  obtain ⟨vs, id, hvs, hid⟩ := exists_attained
  have hc := missedDeletion_isProper id hvs
  obtain ⟨e, t, hl⟩ := load_of_told hc (told_missedDeletion hid)
  have hrel := hall mirroredStore ⟨.server, .number 0⟩ fresh _ fair id _ t rfl (by decide +kernel) rfl rfl hc hl
  rw [latest_missedDeletion] at hrel
  cases hrel

/-- What is saved once more after the outage is told. -/
theorem saved_again_is_told :
    ∃ vs id e t, Attained vs ∧ LastReached .server id (missedDeletion vs id ++ [⟨fair, .save vs⟩]) ∧
      mirroredStore.load (.text id)
          (fair.upon (play mirroredStore (missedDeletion vs id ++ [⟨fair, .save vs⟩]) fresh)) = .ok (some e) t ∧
        Retells vs e := by
  obtain ⟨vs, id, hvs, hid⟩ := exists_attained
  have hc : ∀ turn ∈ missedDeletion vs id ++ [⟨fair, .save vs⟩], turn.call.IsProper := by
    intro turn ht
    rcases List.mem_append.mp ht with ht | ht
    · exact missedDeletion_isProper id hvs turn ht
    · rw [List.mem_singleton.mp ht]
      exact hvs
  have hlast : LastReached .server id (missedDeletion vs id ++ [⟨fair, .save vs⟩]) :=
    lastReached_append (decide_eq_true hid) rfl
  have hlatest : latest id (missedDeletion vs id ++ [⟨fair, .save vs⟩]) = some vs := by
    rw [latest_append, Call.outcome, if_pos hid]
  obtain ⟨e, t, hl⟩ := load_of_told hc ((hlast.told_eq fair).trans hlatest)
  have hrel := (load_tells_latest (r := ⟨.server, .number 0⟩) rfl (by decide +kernel) rfl rfl hc fair hl).2 hlast
  rw [hlatest] at hrel
  cases hrel with
  | some hrel => exact ⟨vs, id, e, t, hvs, hlast, hl, hrel⟩

end Samples

end Hybrid

end GovernedConfig
