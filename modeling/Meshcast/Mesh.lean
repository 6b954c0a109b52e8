import Meshcast.Host

/-!
# Meshcast — a mesh of hosts

Hosts on one clock, some of which are linked. A control packet that a host broadcasts reaches the
hosts linked to it, by index; what they send on is broadcast in turn, in the order in which it came
up. Copies of data messages reach their recipient wherever it is.
-/

namespace Meshcast

/-- An undirected link between two hosts, given by their indexes. -/
structure MeshLink where
  low : Nat
  high : Nat
deriving DecidableEq

namespace MeshLink

instance : Ord MeshLink := ⟨compareLex (compareOn MeshLink.low) (compareOn MeshLink.high)⟩

instance : Std.TransOrd MeshLink :=
  inferInstanceAs (Std.TransCmp (compareLex (compareOn MeshLink.low) (compareOn MeshLink.high)))

instance : Std.LawfulEqOrd MeshLink where
  eq_of_compare {a b} h := by
    obtain ⟨hl, hh⟩ := Ordering.then_eq_eq.1 h
    have el : a.low = b.low := Std.LawfulEqOrd.eq_of_compare hl
    have eh : a.high = b.high := Std.LawfulEqOrd.eq_of_compare hh
    cases a; cases b; cases el; cases eh; rfl

/-- The link between two hosts; their order does not matter. -/
def between (i j : Nat) : MeshLink :=
  ⟨min i j, max i j⟩

end MeshLink

/-- Hosts, the links between them and the time. -/
structure Mesh where
  hosts : Array Host
  links : Std.ExtTreeSet MeshLink := ∅
  now : Nat := 0

/-- A copy of a data message on its way from host to host. -/
structure Hop where
  sender : Address
  copy : Copy
deriving DecidableEq

namespace Mesh

/-- Hosts at consecutive addresses, with links between some of them. -/
def start (first : Address) (size : Nat) (links : List (Nat × Nat)) (config : Config) : Mesh where
  hosts := ((List.range size).map fun i => Host.start (first.advance i) config).toArray
  links := .ofList (links.map fun (i, j) => MeshLink.between i j)

/-- Add a link; says whether it is new. -/
def link (mesh : Mesh) (i j : Nat) : Bool × Mesh :=
  let l := MeshLink.between i j
  (!mesh.links.contains l, { mesh with links := mesh.links.insert l })

/-- Cut a link; says whether it was there. -/
def unlink (mesh : Mesh) (i j : Nat) : Bool × Mesh :=
  let l := MeshLink.between i j
  (mesh.links.contains l, { mesh with links := mesh.links.erase l })

def advance (mesh : Mesh) (ms : Nat) : Mesh :=
  { mesh with now := mesh.now + ms }

def inRange (mesh : Mesh) (i : Nat) : List Nat :=
  (List.range mesh.hosts.size).filter fun j => j != i && mesh.links.contains (.between i j)

/-- Have something done by a host; nothing is done by one that is not there. -/
def onHost {α : Type} (mesh : Mesh) (i : Nat) (f : Host → α × Host) : Option α × Mesh :=
  match mesh.hosts[i]? with
  | none => (none, mesh)
  | some host =>
    let (result, host) := f host
    (some result, { mesh with hosts := mesh.hosts.setIfInBounds i host })

def onEveryHost {α : Type} (mesh : Mesh) (f : Mesh → Nat → α × Mesh) : List α × Mesh :=
  (List.range mesh.hosts.size).foldl
    (fun (results, mesh) i =>
      let (result, mesh) := f mesh i
      (results ++ [result], mesh))
    ([], mesh)

/-- The index of the host with an address. -/
def hostAt? (mesh : Mesh) (address : Address) : Option Nat :=
  mesh.hosts.findIdx? fun host => host.node.address = address

/-- Bytes that a host is about to broadcast. -/
structure Broadcast where
  sender : Nat
  bytes : Bytes

/-- One receiver handles a broadcast; answers what it broadcasts in turn. -/
def receive (mesh : Mesh) (bytes : Bytes) (sender : Address) (receiver : Nat) :
    Option Broadcast × Mesh :=
  let (forwarded, mesh) := mesh.onHost receiver fun host =>
    host.onNode fun node => node.receiveControl mesh.now bytes sender
  let broadcast := do
    let packet ← forwarded.join
    let bytes ← packet.encode.toOption
    pure { sender := receiver, bytes }
  (broadcast, mesh)

/-- All receivers in range handle a broadcast; answers what they broadcast in turn. -/
def deliver (mesh : Mesh) (broadcast : Broadcast) : List Broadcast × Mesh :=
  match mesh.hosts[broadcast.sender]? with
  | none => ([], mesh)
  | some host =>
    (mesh.inRange broadcast.sender).foldl
      (fun (found, mesh) receiver =>
        let (next, mesh) := mesh.receive broadcast.bytes host.node.address receiver
        (found ++ next.toList, mesh))
      ([], mesh)

/-- Deliver broadcasts one after the other; answers what is broadcast in turn. -/
def deliverAll (mesh : Mesh) (broadcasts : List Broadcast) : List Broadcast × Mesh :=
  broadcasts.foldl
    (fun (found, mesh) broadcast =>
      let (next, mesh) := mesh.deliver broadcast
      (found ++ next, mesh))
    ([], mesh)

/-- Deliver broadcasts and what follows from them, for at most `fuel` generations; answers how many
broadcasts there were. -/
def flood : (fuel : Nat) → Mesh → List Broadcast → Nat × Mesh
  | 0, mesh, _ => (0, mesh)
  | _ + 1, mesh, [] => (0, mesh)
  | fuel + 1, mesh, broadcasts =>
    let (next, mesh) := mesh.deliverAll broadcasts
    let (count, mesh) := flood fuel mesh next
    (broadcasts.length + count, mesh)

/-- Have a host broadcast bytes. Each generation has one hop less to travel than the one before, and
no packet travels more than 255. -/
def broadcast (mesh : Mesh) (sender : Nat) (bytes : Bytes) : Nat × Mesh :=
  flood 256 mesh [{ sender, bytes }]

/-- Have a host make a control packet and broadcast it. -/
def emit (mesh : Mesh) (make : Node → Packet × Node) (i : Nat) : Nat × Mesh :=
  let (packet, mesh) := mesh.onHost i (·.onNode make)
  match packet.map Packet.encode with
  | some (.ok bytes) => mesh.broadcast i bytes
  | _ => (0, mesh)

def total (counts : List Nat) : Nat :=
  counts.foldl (· + ·) 0

/-- Every host in turn broadcasts a greeting; answers how many broadcasts that makes. -/
def hellos (mesh : Mesh) : Nat × Mesh :=
  let (counts, mesh) := mesh.onEveryHost fun mesh i => mesh.emit (·.makeHello mesh.now) i
  (total counts, mesh)

/-- Every host in turn floods an announcement; answers how many broadcasts that makes. -/
def tcs (mesh : Mesh) : Nat × Mesh :=
  let (counts, mesh) := mesh.onEveryHost fun mesh i => mesh.emit Node.makeTc i
  (total counts, mesh)

/-- Every host does a round of maintenance. -/
def maintain (mesh : Mesh) : List (Nat × Bool) × Mesh :=
  let (outcomes, mesh) := mesh.onEveryHost fun mesh i =>
    mesh.onHost i (·.maintain mesh.now)
  (outcomes.filterMap id, mesh)

/-- What happened in a round. -/
structure Round where
  hellos : Nat
  afterHellos : List (Nat × Bool)
  tcs : Nat
  afterTcs : List (Nat × Bool)

def roundLength : Nat := 2000

/-- Time passes, then greetings, maintenance, announcements and maintenance again. -/
def round (mesh : Mesh) : Round × Mesh :=
  let mesh := mesh.advance roundLength
  let (hellos, mesh) := mesh.hellos
  let (afterHellos, mesh) := mesh.maintain
  let (tcs, mesh) := mesh.tcs
  let (afterTcs, mesh) := mesh.maintain
  ({ hellos, afterHellos, tcs, afterTcs }, mesh)

def rounds (mesh : Mesh) : Nat → List Round × Mesh
  | 0 => ([], mesh)
  | n + 1 =>
    let (first, mesh) := mesh.round
    let (rest, mesh) := mesh.rounds n
    (first :: rest, mesh)

/-- The recipient of a copy handles it; answers what is sent in turn. -/
def deliverCopy (mesh : Mesh) (copy : Copy) : List Hop × Mesh :=
  match mesh.hostAt? copy.recipient with
  | none => ([], mesh)
  | some i =>
    let (copies, mesh) := mesh.onHost i (·.receiveData copy.message.encode)
    ((copies.getD []).map fun next => { sender := copy.recipient, copy := next }, mesh)

/-- Deliver copies and what follows from them, for at most `fuel` generations; answers all copies
in order. -/
def cascade : (fuel : Nat) → Mesh → List Hop → List Hop × Mesh
  | 0, mesh, _ => ([], mesh)
  | _ + 1, mesh, [] => ([], mesh)
  | fuel + 1, mesh, hops =>
    let (next, mesh) := hops.foldl
      (fun (found, mesh) hop =>
        let (next, mesh) := mesh.deliverCopy hop.copy
        (found ++ next, mesh))
      ([], mesh)
    let (later, mesh) := cascade fuel mesh next
    (hops ++ later, mesh)

/-- Have a host send a payload to a group; answers all copies in order. A relay passes on less than
it was made responsible for, so there are no more generations than responsibilities. -/
def multicast (mesh : Mesh) (i : Nat) (group : Address) (payload : Bytes) : List Hop × Mesh :=
  let (copies, mesh) := mesh.onHost i (·.onNode (·.send group payload))
  match mesh.hosts[i]? with
  | none => ([], mesh)
  | some host =>
    let hops : List Hop := (copies.getD []).map fun copy => { sender := host.node.address, copy }
    let responsibilities := hops.map fun hop =>
      (hop.copy.message.responsibilities hop.copy.recipient).size
    cascade (total responsibilities + 2) mesh hops

end Mesh

end Meshcast
