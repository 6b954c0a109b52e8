import Meshcast.Host

/-!
# Meshcast — a host in time

An agent drives a host: it has the host greet, announce and do maintenance at fixed intervals, hands
it what comes in, and puts what is to be sent on the transport. All of it is seen as events.
-/

namespace Meshcast

/-- What an agent does at intervals, in the order in which things due at one time are done. -/
inductive Task
  | hello | tc | maintenance
deriving DecidableEq

/-- Something that others get to see of an agent. -/
inductive Event
  | flooded (bytes : Bytes)
  | sent (recipient : Address) (bytes : Bytes)
  | informed (routes : List (Address × Address × Nat)) (groups : List Address)
deriving DecidableEq

/-- An event and when it took place. -/
structure TimedEvent where
  time : Nat
  event : Event
deriving DecidableEq

/-- When each task is due next. -/
structure Schedule where
  hello : Nat := 0
  tc : Nat := 0
  maintenance : Nat := 0
deriving DecidableEq

/-- A host with a clock and, until it is shut down, a schedule. -/
structure Agent where
  host : Host
  now : Nat := 0
  schedule : Option Schedule := some {}

namespace Schedule

/-- The times from `next` on, at a distance of `interval`, that are not after `limit`. -/
def timesUntil (next interval limit : Nat) : List Nat :=
  if limit < next then []
  else (List.range ((limit - next) / interval + 1)).map fun k => next + k * interval

/-- The first time after those. -/
def nextAfter (next interval limit : Nat) : Nat :=
  next + (timesUntil next interval limit).length * interval

/-- What is due up to a time, in order. Of what is due at one time, greetings go first and
maintenance last. -/
def due (s : Schedule) (config : Config) (limit : Nat) : List (Nat × Task) :=
  let hellos := (timesUntil s.hello config.helloInterval limit).map (·, Task.hello)
  let tcs := (timesUntil s.tc config.tcInterval limit).map (·, Task.tc)
  let maintenance :=
    (timesUntil s.maintenance config.maintenanceInterval limit).map (·, Task.maintenance)
  (hellos ++ tcs ++ maintenance).mergeSort fun a b => a.1 ≤ b.1

/-- The schedule once all that is due up to a time is done. -/
def after (s : Schedule) (config : Config) (limit : Nat) : Schedule where
  hello := nextAfter s.hello config.helloInterval limit
  tc := nextAfter s.tc config.tcInterval limit
  maintenance := nextAfter s.maintenance config.maintenanceInterval limit

end Schedule

namespace Agent

/-- An agent of a host that has just been switched on. -/
def start (address : Address) (config : Config) : Agent :=
  { host := .start address config }

def shutdown (agent : Agent) : Agent :=
  { agent with schedule := none }

/-- The events of sending a control packet; there are none if it has no bytes. -/
def floodEvents (packet : Packet) : List Event :=
  match packet.encode with
  | .ok bytes => [.flooded bytes]
  | .error _ => []

def copyEvents (copies : List Copy) : List Event :=
  copies.map fun copy => .sent copy.recipient copy.message.encode

/-- What a listener is told. -/
def information (node : Node) : Event :=
  let routes := node.routes.toList.filterMap fun (destination, route) => do
    let destination ← node.registry.address? destination
    let nextHop ← node.registry.address? route.nextHop
    pure (destination, nextHop, route.hops)
  .informed routes node.overlays.keys

def perform (host : Host) (now : Nat) : Task → List Event × Host
  | .hello =>
    let (packet, host) := host.onNode (·.makeHello now)
    (floodEvents packet, host)
  | .tc =>
    let (packet, host) := host.onNode Node.makeTc
    (floodEvents packet, host)
  | .maintenance =>
    let ((_, recomputed), host) := host.maintain now
    (if recomputed then [information host.node] else [], host)

/-- Let time pass and have the tasks done that fall due. -/
def advance (agent : Agent) (ms : Nat) : List TimedEvent × Agent :=
  let limit := agent.now + ms
  match agent.schedule with
  | none => ([], { agent with now := limit })
  | some schedule =>
    let config := agent.host.node.config
    let (events, host) := (schedule.due config limit).foldl
      (fun (events, host) (time, task) =>
        let (found, host) := perform host time task
        (events ++ found.map fun event => { time, event }, host))
      ([], agent.host)
    (events, { host, now := limit, schedule := some (schedule.after config limit) })

def dated (agent : Agent) (events : List Event) : List TimedEvent :=
  events.map fun event => { time := agent.now, event }

def receiveControl (agent : Agent) (bytes : Bytes) (neighbor : Address) :
    List TimedEvent × Agent :=
  let (forwarded, host) := agent.host.onNode (·.receiveControl agent.now bytes neighbor)
  (agent.dated (forwarded.toList.flatMap floodEvents), { agent with host })

def receiveData (agent : Agent) (bytes : Bytes) : List TimedEvent × Agent :=
  let (copies, host) := agent.host.receiveData bytes
  (agent.dated (copyEvents copies), { agent with host })

def send (agent : Agent) (group : Address) (payload : Bytes) : List TimedEvent × Agent :=
  let (copies, host) := agent.host.onNode (·.send group payload)
  (agent.dated (copyEvents copies), { agent with host })

end Agent

end Meshcast
