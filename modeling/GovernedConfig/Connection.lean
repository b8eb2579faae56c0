import GovernedConfig.Journal

/-! # Redis connections

A connection is usable while it is ready: from its last `ready` event to the next `error`, `close`
or closing by the service. One connection is shared; it is opened when a URL is first asked for.
-/

namespace GovernedConfig

structure Connection where
  /-- Whether it was opened for a URL, and so decides on further attempts to connect. -/
  opened : Bool := false
  ready : Bool := false
  deriving DecidableEq

/-- All connections that were ever opened, and the shared one among them. -/
structure Pool where
  connections : List Connection := []
  shared : Option Nat := none

namespace Connection

/-- What a client reports about its connection. -/
inductive Event where
  | ready
  /-- An error, with its message if it comes with anything. -/
  | error (message : Option String)
  | close
  | other

def phase : String := "config_store_redis"

/-- Events are logged after the connection has taken note of them; an error that comes with nothing
cannot be. -/
def journal : Event → Act Ambient Unit
  | .ready => Journal.write .info (.text phase) (.text "Redis ready for InfraConfig snapshots") .undefined
  | .error none => Act.fail .badType
  | .error (some message) =>
    Journal.error phase "Redis error; snapshots fall back to memory" [("error", .text message)]
  | .close => Journal.write .warn (.text phase) (.text "Redis connection closed") .undefined
  | .other => pure ()

def step (c : Connection) : Event → Connection
  | .ready => { c with ready := true }
  | .error _ => { c with ready := false }
  | .close => { c with ready := false }
  | .other => c

/-- The wait before the next attempt to connect, in milliseconds, as a function of the attempts so
far; none once three have failed. -/
def retryDelay (attempts : Value) : Except Fault (Option Binary64) :=
  match (Value.number 3).less? attempts, attempts.toOperand? with
  | some true, _ => .ok none
  | some false, some x => .ok (some ((x.mul 200).min 2000))
  | _, _ => .error .badType

/-- Decides on the next attempt to connect and logs it; only a connection that was opened for a URL
does. -/
def retry (c : Connection) (attempts : Value) : Act Ambient (Option Binary64) := do
  if !c.opened then Act.fail .badType
  else
    let delay ← Act.ofExcept (retryDelay attempts)
    let message := if delay.isNone then "Giving up on Redis" else "Retrying Redis connection"
    Journal.warn phase message [("times", attempts), ("delay", (delay.map Value.number).getD .null)]
    pure delay

end Connection

namespace Pool

def connection (p : Pool) (i : Nat) : Connection := p.connections[i]?.getD {}

def isReady (p : Pool) (i : Nat) : Bool := (p.connection i).ready

def sharedReady (p : Pool) : Bool := (p.shared.map p.isReady).getD false

def add (p : Pool) (c : Connection) : Nat × Pool :=
  (p.connections.length, { p with connections := p.connections ++ [c] })

/-- The shared connection, opened if there is none; none without a URL. -/
def connect (p : Pool) (url : Option String) : Option Nat × Pool :=
  match url with
  | none => (none, p)
  | some url =>
    if url = "" then (none, p)
    else match p.shared with
      | some i => (some i, p)
      | none =>
        let (i, p) := p.add { opened := true }
        (some i, { p with shared := some i })

def step (p : Pool) (i : Nat) (e : Connection.Event) : Pool :=
  { p with connections := p.connections.modify i (·.step e) }

def close (p : Pool) (i : Nat) : Pool :=
  { p with connections := p.connections.modify i fun c => { c with ready := false } }

/-- Closes the shared connection and forgets it. -/
def disconnect (p : Pool) : Pool :=
  match p.shared with
  | none => p
  | some i => { p.close i with shared := none }

end Pool

end GovernedConfig
