import Meshcast.Node.Announce
import Meshcast.Node.Control
import Meshcast.Node.Maintenance
import Meshcast.Node.Multicast

/-!
# Meshcast — runs of a node

A node does nothing by itself: it is told of packets, asked for packets, told to do maintenance,
and in between time passes. A run is any finite sequence of such operations from the moment the
node was switched on. Facts about all runs are proved by `Moment.run_induction`: they hold at the
start and every operation preserves them. Facts about several moments of one run are stated over its
`visits`.
-/

namespace Meshcast

/-! ## The steps of a run -/

section Steps

variable {σ ε : Type}

/-- The steps of a run: each state with what happens to it. -/
def visits (step : σ → ε → σ) : σ → List ε → List (σ × ε)
  | _, [] => []
  | s, e :: rest => (s, e) :: visits step (step s e) rest

/-- What is visited in a run is where a run leads. -/
theorem exists_foldl_of_mem_visits {step : σ → ε → σ} {s : σ} {events : List ε} {v : σ × ε}
    (h : v ∈ visits step s events) : ∃ before : List ε, v.1 = before.foldl step s := by
  induction events generalizing s with
  | nil => nomatch h
  | cons e rest ih =>
    rcases List.mem_cons.1 h with rfl | h
    · exact ⟨[], rfl⟩
    · obtain ⟨before, hbefore⟩ := ih h
      exact ⟨e :: before, hbefore⟩

/-- An event of a history that is longer by one is this last event, or one of the history before. -/
theorem split_concat {events before rest : List ε} {last e : ε}
    (h : events ++ [last] = before ++ e :: rest) :
    (events = before ∧ last = e ∧ rest = [])
      ∨ ∃ rest', rest = rest' ++ [last] ∧ events = before ++ e :: rest' := by
  rcases rest.eq_nil_or_concat with rfl | ⟨rest', final, rfl⟩
  · obtain ⟨hevents, hlast⟩ := List.append_inj' h rfl
    exact .inl ⟨hevents, List.singleton_inj.1 hlast, rfl⟩
  · rw [List.concat_eq_append] at h ⊢
    rw [← List.cons_append, ← List.append_assoc] at h
    obtain ⟨hevents, hlast⟩ := List.append_inj' h rfl
    exact .inr ⟨rest', by rw [hlast], hevents⟩

/-- What is looked for in a history that is longer by one event is this event, or it was there
before. -/
theorem exists_split_concat {α : Type} {f : α → ε} {events : List ε} {last : ε}
    {P : List ε → α → List ε → Prop} :
    (∃ before a rest, events ++ [last] = before ++ f a :: rest ∧ P before a rest) ↔
      (∃ a, last = f a ∧ P events a [])
        ∨ ∃ before a rest, events = before ++ f a :: rest ∧ P before a (rest ++ [last]) := by
  constructor
  · rintro ⟨before, a, rest, heq, h⟩
    rcases split_concat heq with ⟨rfl, hlast, rfl⟩ | ⟨rest, rfl, hevents⟩
    · exact .inl ⟨a, hlast, h⟩
    · exact .inr ⟨before, a, rest, hevents, h⟩
  · rintro (⟨a, rfl, h⟩ | ⟨before, a, rest, rfl, h⟩)
    · exact ⟨events, a, [], rfl, h⟩
    · exact ⟨before, a, rest ++ [last], by rw [List.append_assoc, List.cons_append], h⟩

end Steps

/-! ## Operations -/

/-- What can happen to a node. The payload of a data message also goes to the layer above, which
has no way back into the node. -/
inductive Operation
  /-- The bytes of a control packet come in from a neighbor. -/
  | receiveControl (bytes : Bytes) (neighbor : Address)
  /-- A control packet comes in from a neighbor. -/
  | receivePacket (packet : Packet) (neighbor : Address)
  /-- The node is asked for a greeting. -/
  | makeHello
  /-- The node is asked for an announcement. -/
  | makeTc
  /-- Expired state is dropped. -/
  | sweep
  /-- What is derived from the tables is computed afresh if that is due. -/
  | recompute
  /-- A tick of the grace periods is counted. -/
  | tickGrace
  | join (group : Address)
  | leave (group : Address)
  /-- A payload is sent to a group. -/
  | send (group : Address) (payload : Bytes)
  /-- The bytes of a data message come in. -/
  | receiveData (bytes : Bytes)
  /-- A data message comes in. -/
  | receiveMessage (message : DataMessage)
  /-- The transport reports its membership. -/
  | registerAll (view : List Address)
  /-- The bandwidth of a participant becomes known. -/
  | setBandwidth (participant : Address) (bandwidth : Bandwidth)
  /-- Time passes. -/
  | advance (ms : Nat)

/-- What an operation at a reading of the clock makes of a node. -/
def Node.perform (node : Node) (now : Nat) : Operation → Node
  | .receiveControl bytes neighbor => (node.receiveControl now bytes neighbor).2
  | .receivePacket packet neighbor => (node.receivePacket now packet neighbor).2
  | .makeHello => (node.makeHello now).2
  | .makeTc => node.makeTc.2
  | .sweep => (node.sweep now).2
  | .recompute => (node.recompute now).2
  | .tickGrace => node.tickGrace
  | .join group => (node.join group).2
  | .leave group => (node.leave group).2
  | .send group payload => (node.send group payload).2
  | .receiveData bytes =>
    match DataMessage.decode bytes with
    | .ok message => (node.relay message).2
    | .error _ => node
  | .receiveMessage message => (node.relay message).2
  | .registerAll view => (node.registerAll view).2
  | .setBandwidth participant bandwidth => node.setBandwidth participant bandwidth
  | .advance _ => node

/-- How much time an operation takes. -/
def Operation.duration : Operation → Nat
  | .advance ms => ms
  | _ => 0

/-- A node and the time. -/
structure Moment where
  now : Nat
  node : Node

namespace Moment

/-- A node that is switched on at some time. -/
def start (address : Address) (config : Config) (now : Nat) : Moment :=
  { now, node := .start address config }

/-- The next moment. -/
def step (m : Moment) (op : Operation) : Moment :=
  { now := m.now + op.duration, node := m.node.perform m.now op }

/-- The moment after a sequence of operations. -/
def run (m : Moment) (ops : List Operation) : Moment :=
  ops.foldl step m

theorem run_append (m : Moment) (before after : List Operation) :
    m.run (before ++ after) = (m.run before).run after :=
  List.foldl_append

theorem run_concat (m : Moment) (ops : List Operation) (op : Operation) :
    m.run (ops ++ [op]) = (m.run ops).step op := by
  simp only [run, List.foldl_append, List.foldl_cons, List.foldl_nil]

/-- What holds at first and is preserved by every operation holds after every run. -/
theorem run_induction {P : Moment → Prop} {m : Moment} (start : P m)
    (preserved : ∀ m op, P m → P (m.step op)) (ops : List Operation) : P (m.run ops) := by
  induction ops generalizing m with
  | nil => exact start
  | cons op rest ih => exact ih (preserved m op start)

end Moment

end Meshcast
