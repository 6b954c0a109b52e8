import Meshcast.Proofs.Exchange

/-!
# Meshcast — no phantom links

Nodes run side by side, each by its own clock, over a network that loses, repeats, delays and
reorders packets as it likes but makes none up. If one of them takes another one for a symmetric
neighbor, then each has heard the other.

* **`Node.MarksChosen`**, **`marksChosen_run`** — the invariant that only chosen relays are marked
  as such: neither greetings nor the death and return of an entry bring back an old mark.
* **`Moments`**, **`Moments.Faithful`** — nodes side by side, and a network that makes nothing up.
* **`Moments.Heeded`**, **`Moments.exists_memory`** — whatever a node remembers was said in some
  greeting that came in.
* **`Moments.exists_greeted`** — behind every live neighbor there is a greeting that the neighbor
  made, and what the entry says was so when the neighbor made it.
* **`Moments.no_phantom_links`** — the result.
-/

namespace Meshcast

/-! ## Who is marked as a relay -/

/-- A greeting makes nobody a relay. -/
theorem HelloReport.relay_of_statusAfter {report : HelloReport} {current : NeighborType}
    (h : report.statusAfter current = .relay) : current = .relay := by
  unfold statusAfter at h
  split at h
  · nomatch h
  · split at h
    · nomatch h
    · split at h
      · split at h
        · nomatch h
        · exact h
      · nomatch h

theorem InformationBase.relay_of_applyHello {base : InformationBase} {now : Nat} {source : Address}
    {hello : Hello} {validity : ValidityTime} {id : NodeId} {entry : Neighbor}
    (h : (base.applyHello now source hello validity).2.neighbors.get? now id = some entry)
    (hrelay : entry.status = .relay) :
    ∃ old, base.neighbors.get? now id = some old ∧ old.status = .relay := by
  unfold applyHello at h
  dsimp only [intern] at h
  split at h
  · exact ⟨entry, h, hrelay⟩
  · let sender := (base.registry.intern source).1
    let listed := (base.registry.intern source).2.internAll hello.listings.unzip.2
    let report := HelloReport.ofListings base.self sender hello.listings.unzip.1 listed.1
    obtain ⟨slot, hslot, hlive, rfl⟩ := ExpiringTable.get?_eq_some_iff.1 h
    have hrecorded : ({ base with registry := listed.2 }.recordNeighbor now sender report
        validity.millis).2.neighbors.table.slots[id]? = some slot := hslot
    rw [slots_recordNeighbor, Std.ExtTreeMap.getElem?_insert] at hrecorded
    split at hrecorded
    · rename_i hsender
      cases hrecorded
      have hknown := HelloReport.relay_of_statusAfter hrelay
      obtain rfl : sender = id := Std.compare_eq_iff_eq.1 hsender
      -- a sender without a live entry starts afresh
      cases hget : base.neighbors.get? now sender with
      | none =>
        rw [show ({ base with registry := listed.2 } : InformationBase).neighbors.get? now sender
          = none from hget] at hknown
        nomatch hknown
      | some old =>
        rw [show ({ base with registry := listed.2 } : InformationBase).neighbors.get? now sender
          = some old from hget] at hknown
        exact ⟨old, rfl, hknown⟩
    · exact ⟨slot.value, ExpiringTable.get?_eq_some_iff.2 ⟨slot, hrecorded, hlive, rfl⟩, hrelay⟩

namespace Node

/-- Every live neighbor that is marked as a relay is one of the relays. -/
def MarksChosen (node : Node) (now : Nat) : Prop :=
  ∀ id entry, node.neighbors.get? now id = some entry → entry.status = .relay →
    id ∈ node.relays.members

/-- From `node` to `node'` nobody was marked as a relay, and the choice of relays is the same. -/
structure MarksNobody (now : Nat) (node node' : Node) : Prop where
  relays_eq : node'.relays = node.relays
  marked : ∀ id entry, node'.neighbors.get? now id = some entry → entry.status = .relay →
    ∃ old, node.neighbors.get? now id = some old ∧ old.status = .relay

theorem MarksNobody.of_eq {now : Nat} {node node' : Node} (hrelays : node'.relays = node.relays)
    (hneighbors : node'.neighbors = node.neighbors) : MarksNobody now node node' where
  relays_eq := hrelays
  marked _ entry h hrelay := ⟨entry, hneighbors ▸ h, hrelay⟩

theorem MarksChosen.marksNobody {now : Nat} {node node' : Node} (h : node.MarksChosen now)
    (hmarks : MarksNobody now node node') : node'.MarksChosen now := by
  intro id entry hget hrelay
  obtain ⟨old, hold, hmarked⟩ := hmarks.marked id entry hget hrelay
  rw [hmarks.relays_eq]
  exact h id old hold hmarked

theorem marksNobody_receivePacket (node : Node) (now : Nat) (packet : Packet)
    (neighbor : Address) : MarksNobody now node (node.receivePacket now packet neighbor).2 := by
  have hreceived := node.received_receivePacket now packet neighbor
  generalize (node.receivePacket now packet neighbor).2 = node' at hreceived ⊢
  cases hreceived with
  | own => exact .of_eq rfl rfl
  | repeated => exact .of_eq rfl rfl
  | greeted hello =>
    refine ⟨rfl, fun id entry h hrelay => ?_⟩
    show ∃ old, (node.acquainted packet).neighbors.get? now id = some old ∧ _
    exact InformationBase.relay_of_applyHello h hrelay
  | announced tc sent base duplicates _ _ _ h => exact .of_eq rfl h.neighbors

theorem marksNobody_sweep (node : Node) (now : Nat) : MarksNobody now node (node.sweep now).2 where
  relays_eq := rfl
  marked id entry h hrelay := by
    obtain ⟨slot, hslot, hlive, rfl⟩ := ExpiringTable.get?_eq_some_iff.1 h
    rw [slots_sweep, Std.ExtTreeMap.getElem?_filter', Option.filter_eq_some_iff] at hslot
    exact ⟨slot.value, ExpiringTable.get?_eq_some_iff.2 ⟨slot, hslot.1, hlive, rfl⟩, hrelay⟩

theorem MarksChosen.updateRelays {node : Node} {now : Nat} (h : node.MarksChosen now) :
    (node.updateRelays now).MarksChosen now := by
  unfold Node.updateRelays
  dsimp only
  split
  · intro id entry hget hrelay
    show id ∈ (node.relays.replace _).2.members
    rw [FlaggedSet.members_replace]
    have hsymmetric : entry.isSymmetric = true := by
      unfold Neighbor.isSymmetric
      rw [hrelay]
      rfl
    exact (Neighborhood.relay_iff_of_get?_markRelays hget hsymmetric).1 hrelay
  · exact h

theorem marksNobody_recompute (node : Node) (now : Nat) :
    MarksNobody now (node.updateRelays now) (node.recompute now).2 := by
  have htable := (node.recompute_neighbors now).2
  refine ⟨?_, fun id entry h hrelay => ⟨entry, ?_, hrelay⟩⟩
  · unfold recompute
    dsimp only
    split
    · rfl
    · split <;> rfl
  · show (node.updateRelays now).neighbors.table.get? now id = some entry
    rw [← htable]
    exact h

theorem MarksChosen.perform {node : Node} {now : Nat} (h : node.MarksChosen now)
    (op : Operation) : (node.perform now op).MarksChosen now := by
  cases op with
  | receiveControl bytes neighbor =>
    unfold Node.perform receiveControl
    dsimp only
    split
    · exact h.marksNobody (marksNobody_receivePacket node now _ neighbor)
    · exact h
  | receivePacket packet neighbor =>
    exact h.marksNobody (marksNobody_receivePacket node now packet neighbor)
  | sweep => exact h.marksNobody (marksNobody_sweep node now)
  | recompute => exact h.updateRelays.marksNobody (marksNobody_recompute node now)
  | receiveData bytes =>
    unfold Node.perform
    dsimp only
    split
    · exact h
    · exact h
  | _ => exact h

theorem MarksChosen.of_le {node : Node} {now later : Nat} (h : node.MarksChosen now)
    (hle : now ≤ later) : node.MarksChosen later := by
  intro id entry hget hrelay
  obtain ⟨slot, hslot, hlive, rfl⟩ := ExpiringTable.get?_eq_some_iff.1 hget
  have hlive' : slot.isLive now = true := by
    simp only [Slot.isLive, decide_eq_true_eq] at hlive ⊢
    omega
  exact h id slot.value (ExpiringTable.get?_eq_some_iff.2 ⟨slot, hslot, hlive', rfl⟩) hrelay

/-- Only chosen relays are marked as such, after every run. -/
theorem marksChosen_run (address : Address) (config : Config) (since : Nat)
    (ops : List Operation) :
    let m := (Moment.start address config since).run ops
    m.node.MarksChosen m.now :=
  Moment.run_induction (P := fun m => m.node.MarksChosen m.now)
    (fun _ _ h => by nomatch h) (fun _ op h => (h.perform op).of_le (Nat.le_add_right _ _)) ops

/-! ## What nodes transmit -/

/-- The packet that an operation has the node put on the air. -/
def transmission? (node : Node) (now : Nat) : Operation → Option Packet
  | .makeHello => some (node.makeHello now).1
  | .makeTc => some node.makeTc.1
  | op => node.response? now op

section Transmission

variable {node : Node} {now : Nat} {op : Operation} {packet : Packet}

/-- Only those who make a greeting transmit it. -/
theorem makeHello_or_tc_of_transmission? (hknown : node.NeighborsKnown)
    (h : node.transmission? now op = some packet) :
    (op = .makeHello ∧ packet = (node.makeHello now).1) ∨ ∃ tc, packet.body = .tc tc := by
  have hresponse : node.response? now op = some packet → ∃ tc, packet.body = .tc tc := by
    intro hsent
    obtain ⟨received, tc, -, -, -, hbody, -, -, -, -, -, -, -, hcopy⟩ :=
      exists_of_response? hknown hsent
    exact ⟨tc, hcopy.body.trans hbody⟩
  cases op with
  | makeHello => exact .inl ⟨rfl, (Option.some.inj h).symm⟩
  | makeTc =>
    obtain rfl := Option.some.inj h
    exact .inr ⟨_, rfl⟩
  | _ => exact .inr (hresponse h)

theorem legible_of_transmission? (hknown : node.NeighborsKnown)
    (h : node.transmission? now op = some packet) : packet.body.Legible := by
  rcases makeHello_or_tc_of_transmission? hknown h with ⟨-, rfl⟩ | ⟨tc, hbody⟩
  · exact node.legible_greeting now
  · rw [hbody]
    trivial

theorem greetingOf?_eq (node : Node) (now : Nat) (op : Operation) :
    node.greetingOf? now op = op.packet?.bind fun (packet, neighbor) =>
      (node.heardFrom? now packet neighbor).map (neighbor, ·) := by
  cases op with
  | receiveControl bytes neighbor =>
    unfold greetingOf? Operation.packet?
    dsimp only
    cases Packet.decode bytes with
    | ok packet => rfl
    | error cause => rfl
  | _ => rfl

theorem handles_of_heardFrom? {neighbor : Address} {g : Heard}
    (h : node.heardFrom? now packet neighbor = some g) :
    packet.body = .hello g.hello ∧ node.handles now packet neighbor = true := by
  unfold heardFrom? at h
  split at h
  · rename_i hello hbody
    split at h
    · nomatch h
    · rename_i hforeign
      simp only [not_or, Bool.not_eq_true] at hforeign
      cases h
      exact ⟨hbody, handles_iff.2 hforeign⟩
  · nomatch h

/-- A greeting that is taken note of came in from its sender, and was handed to its handler. -/
theorem exists_packet?_of_greetingOf? {sender : Address} {g : Heard}
    (h : node.greetingOf? now op = some (sender, g)) :
    ∃ packet, op.packet? = some (packet, sender) ∧ packet.body = .hello g.hello
      ∧ node.handled? now op = some packet := by
  rw [greetingOf?_eq, Option.bind_eq_some_iff] at h
  obtain ⟨⟨packet, neighbor⟩, hpacket, h⟩ := h
  obtain ⟨g', hheard, heq⟩ := Option.map_eq_some_iff.1 h
  obtain ⟨rfl, rfl⟩ := Prod.mk.inj heq
  obtain ⟨hbody, hhandles⟩ := handles_of_heardFrom? hheard
  refine ⟨packet, hpacket, hbody, ?_⟩
  unfold handled?
  rw [hpacket, Option.filter_some, if_pos hhandles]
  rfl

end Transmission

end Node

/-! ## Nodes side by side -/

/-- What an operation brings in satisfies a condition on packets and the neighbors they come from.
Bytes that come in are those of such a packet. -/
def Operation.Carries (op : Operation) (sent : Packet → Address → Prop) : Prop :=
  match op with
  | .receivePacket packet neighbor => sent packet neighbor
  | .receiveControl bytes neighbor =>
    ∃ packet, sent packet neighbor ∧ packet.encode = .ok bytes
  | _ => True

/-- Nodes side by side, each with its own clock. -/
abbrev Moments (n : ℕ) := Fin n → Moment

namespace Moments

variable {n : ℕ}

def start (addr : Fin n → Address) (config : Fin n → Config) (since : Fin n → ℕ) : Moments n :=
  fun i => .start (addr i) (config i) (since i)

/-- Something happens to one of the nodes. -/
def step (ms : Moments n) (event : Fin n × Operation) : Moments n :=
  Function.update ms event.1 ((ms event.1).step event.2)

def run (ms : Moments n) (events : List (Fin n × Operation)) : Moments n :=
  events.foldl step ms

/-- In the course of the events, a node made a packet or sent it on. -/
def Transmitted (ms : Moments n) (events : List (Fin n × Operation)) (i : Fin n)
    (packet : Packet) : Prop :=
  ∃ before op after, events = before ++ (i, op) :: after
    ∧ (ms.run before i).node.transmission? (ms.run before i).now op = some packet

/-- The network makes nothing up: whatever comes in from a neighbor was transmitted by it before. It
may come in any number of times or not at all, at any later time and in any order, at any node. -/
def Faithful (addr : Fin n → Address) (ms : Moments n) (events : List (Fin n × Operation)) :
    Prop :=
  ∀ before i op after, events = before ++ (i, op) :: after →
    op.Carries fun packet neighbor => ∃ j, addr j = neighbor ∧ ms.Transmitted before j packet

/-- After the events `made`, `i` makes a greeting; later on `j` gets it from `i` and hands it to its
handler. -/
def Greeted (addr : Fin n → Address) (ms : Moments n) (events : List (Fin n × Operation))
    (i j : Fin n) (made : List (Fin n × Operation)) : Prop :=
  ∃ between op after, events = made ++ (i, .makeHello) :: between ++ (j, op) :: after
    ∧ let sender := ms.run made i
      let receiver := ms.run (made ++ (i, .makeHello) :: between) j
      op.packet? = some ((sender.node.makeHello sender.now).1, addr i)
        ∧ receiver.node.handled? receiver.now op = some (sender.node.makeHello sender.now).1

variable {addr : Fin n → Address} {config : Fin n → Config} {since : Fin n → ℕ}
  {events : List (Fin n × Operation)}

theorem run_concat (ms : Moments n) (events : List (Fin n × Operation))
    (event : Fin n × Operation) : ms.run (events ++ [event]) = (ms.run events).step event :=
  List.foldl_concat ..

/-- Each of the nodes is in the course of a run of its own. -/
theorem exists_run (ms : Moments n) (events : List (Fin n × Operation)) (i : Fin n) :
    ∃ ops, (ms i).run ops = ms.run events i := by
  induction events using List.reverseRecOn with
  | nil => exact ⟨[], rfl⟩
  | append_singleton events event ih =>
    obtain ⟨ops, hops⟩ := ih
    rw [run_concat]
    unfold step
    by_cases hi : i = event.1
    · subst hi
      refine ⟨ops ++ [event.2], ?_⟩
      rw [Function.update_self, ← hops]
      exact List.foldl_concat ..
    · rw [Function.update_of_ne hi]
      exact ⟨ops, hops⟩

/-- In the course of the events, a node took note of a greeting. -/
def Heeded (ms : Moments n) (events : List (Fin n × Operation)) (i : Fin n) (sender : Address)
    (g : Heard) : Prop :=
  ∃ before op after, events = before ++ (i, op) :: after
    ∧ (ms.run before i).node.greetingOf? (ms.run before i).now op = some (sender, g)

theorem Heeded.append {ms : Moments n} {i : Fin n} {sender : Address} {g : Heard}
    (h : ms.Heeded events i sender g) (more : List (Fin n × Operation)) :
    ms.Heeded (events ++ more) i sender g := by
  obtain ⟨before, op, after, rfl, hgreeting⟩ := h
  exact ⟨before, op, after ++ more, by simp, hgreeting⟩

/-- **What a node remembers was said** in a greeting that came in. -/
theorem exists_memory (addr : Fin n → Address) (config : Fin n → Config) (since : Fin n → ℕ)
    (events : List (Fin n × Operation)) (i : Fin n) :
    let ms := start addr config since
    ∃ memory, (ms.run events i).node.Recalls memory (ms.run events i).now
      ∧ ∀ sender g, memory sender = some g → ms.Heeded events i sender g := by
  intro ms
  induction events using List.reverseRecOn with
  | nil => exact ⟨_, Node.recalls_start (addr i) (config i) (since i), nofun⟩
  | append_singleton events event ih =>
    obtain ⟨memory, hrecalls, hheeded⟩ := ih
    obtain ⟨j, op⟩ := event
    rw [run_concat]
    unfold step
    by_cases hi : i = j
    · subst hi
      rw [Function.update_self]
      refine ⟨_, (hrecalls.perform op).of_le (Nat.le_add_right _ _), ?_⟩
      intro sender g hg
      cases hgreeting : (ms.run events i).node.greetingOf? (ms.run events i).now op with
      | none =>
        rw [hgreeting] at hg
        exact (hheeded sender g hg).append _
      | some heard =>
        obtain ⟨latest, g'⟩ := heard
        rw [hgreeting] at hg
        by_cases hsender : sender = latest
        · subst hsender
          rw [Memory.noting_self, Option.some.injEq] at hg
          subst hg
          exact ⟨events, op, [], rfl, hgreeting⟩
        · rw [memory.noting_of_ne g' hsender] at hg
          exact (hheeded sender g hg).append _
    · rw [Function.update_of_ne hi]
      exact ⟨memory, hrecalls, fun sender g hg => (hheeded sender g hg).append _⟩

section Start

variable {ms : Moments n} (hms : ms = start addr config since)

include hms

theorem address_run (events : List (Fin n × Operation)) (i : Fin n) :
    (ms.run events i).node.address = addr i := by
  obtain ⟨ops, hops⟩ := exists_run ms events i
  subst hms
  exact Node.address_run (congrArg Moment.node hops)

theorem neighborsKnown_run (events : List (Fin n × Operation)) (i : Fin n) :
    (ms.run events i).node.NeighborsKnown := by
  obtain ⟨ops, hops⟩ := exists_run ms events i
  subst hms
  exact fun id hid => (Node.neighbor_run (congrArg Moment.node hops) hid).2

theorem marksChosen_run (events : List (Fin n × Operation)) (i : Fin n) :
    (ms.run events i).node.MarksChosen (ms.run events i).now := by
  obtain ⟨ops, hops⟩ := exists_run ms events i
  subst hms
  rw [← hops]
  exact Node.marksChosen_run (addr i) (config i) (since i) ops

/-- What comes in, be it in bytes, was transmitted. -/
theorem Faithful.exists_transmitted (h : ms.Faithful addr events)
    {before after : List (Fin n × Operation)} {i : Fin n} {op : Operation}
    (hevents : events = before ++ (i, op) :: after) {packet : Packet} {neighbor : Address}
    (hpacket : op.packet? = some (packet, neighbor)) :
    ∃ j, addr j = neighbor ∧ ms.Transmitted before j packet := by
  have hcarries := h before i op after hevents
  cases op with
  | receiveControl bytes sender =>
    obtain ⟨sent, ⟨j, hj, htransmitted⟩, hencode⟩ := hcarries
    obtain ⟨before', op', after', rfl, htransmission⟩ := htransmitted
    have hlegible : sent.body.Legible :=
      Node.legible_of_transmission? (neighborsKnown_run hms before' j) htransmission
    unfold Operation.packet? at hpacket
    dsimp only at hpacket
    rw [Packet.decode_of_encode hlegible hencode] at hpacket
    obtain ⟨rfl, rfl⟩ := Prod.mk.inj (Option.some.inj hpacket)
    exact ⟨j, hj, before', op', after', rfl, htransmission⟩
  | receivePacket received sender =>
    obtain ⟨rfl, rfl⟩ := Prod.mk.inj (Option.some.inj hpacket)
    exact hcarries
  | _ => nomatch hpacket

/-- **Behind every live neighbor there is a greeting** that the neighbor made and the node handled.
The entry is symmetric only if the node was a live neighbor of the sender at the time when it made
the greeting, and the sender is a selector only if it had then marked the node as a relay. -/
theorem exists_greeted (hinjective : Function.Injective addr) (hfaithful : ms.Faithful addr events)
    {i j : Fin n} {entry : Neighbor}
    (hentry : (ms.run events j).node.entryOf? (ms.run events j).now (addr i) = some entry) :
    ∃ made, ms.Greeted addr events i j made
      ∧ let sender := ms.run made i
        (entry.isSymmetric = true → (sender.node.entryOf? sender.now (addr j)).isSome = true)
          ∧ ((ms.run events j).node.HasSelector (addr i) →
            ∃ known, sender.node.entryOf? sender.now (addr j) = some known
              ∧ known.status = .relay) := by
  obtain ⟨memory, hrecalls, hheeded⟩ := hms ▸ exists_memory addr config since events j
  obtain ⟨id, hget, hid⟩ := Node.entryOf?_eq_some_iff.1 hentry
  obtain ⟨slot, hslot, hlive, rfl⟩ := ExpiringTable.get?_eq_some_iff.1 hget
  obtain ⟨a, g, ha, hg, hconveys, hselectors⟩ := hrecalls.entry id slot hslot
  obtain rfl : addr i = a := by
    rw [hid] at ha
    exact Option.some.inj ha
  rw [address_run hms] at hconveys hselectors
  -- the last greeting of the sender came in, and only the sender can have made it
  obtain ⟨before, op, after, hevents, hgreeting⟩ := hheeded _ g hg
  obtain ⟨packet, hpacket, hbody, hhandled⟩ := Node.exists_packet?_of_greetingOf? hgreeting
  obtain ⟨i', hi', made, op', between, rfl, htransmission⟩ :=
    hfaithful.exists_transmitted hms hevents hpacket
  obtain rfl := hinjective hi'
  rcases Node.makeHello_or_tc_of_transmission? (neighborsKnown_run hms made _) htransmission with
    ⟨rfl, rfl⟩ | ⟨tc, htc⟩
  · obtain ⟨time, hello, validity⟩ := g
    obtain rfl : (ms.run made _).node.greeting (ms.run made _).now = hello := Body.hello.inj hbody
    refine ⟨made, ⟨between, op, after, hevents, hpacket, hhandled⟩, ?_, ?_⟩
    · exact fun hsymmetric => Node.confirms_greeting.1 (hconveys.symmetric.1 hsymmetric)
    · intro hselector
      obtain ⟨id', hid', hmem⟩ := hselector
      rw [(Registry.lookup?_eq_some_iff _ _ _).2 hid, Option.some.injEq] at hid'
      subst hid'
      exact Node.chooses_greeting.1 ((hselectors hlive).1 hmem).2
  · rw [htc] at hbody
    nomatch hbody

end Start

theorem Faithful.of_append {ms : Moments n} {more : List (Fin n × Operation)}
    (h : ms.Faithful addr (events ++ more)) : ms.Faithful addr events :=
  fun before i op after hevents => h before i op (after ++ more) (by rw [hevents]; simp)

/-- A run in which nothing has happened. -/
theorem faithful_nil (ms : Moments n) : ms.Faithful addr [] := by
  intro before i op after h
  exact absurd h.symm (List.append_ne_nil_of_right_ne_nil before (List.cons_ne_nil _ _))

theorem Faithful.concat {ms : Moments n} (h : ms.Faithful addr events) (i : Fin n) (op : Operation)
    (hcarries : op.Carries fun packet neighbor =>
      ∃ j, addr j = neighbor ∧ ms.Transmitted events j packet) :
    ms.Faithful addr (events ++ [(i, op)]) := by
  intro before i' op' after hevents
  rcases split_concat hevents with ⟨rfl, hlast, -⟩ | ⟨after, -, hbefore⟩
  · cases hlast
    exact hcarries
  · exact h before i' op' after hbefore

/-- Whoever made a greeting may be heard. -/
theorem Faithful.hear {ms : Moments n} (h : ms.Faithful addr events)
    (made : List (Fin n × Operation)) {i : Fin n} {after : List (Fin n × Operation)}
    (hevents : events = made ++ (i, .makeHello) :: after) {bytes : Bytes}
    (hbytes : ((ms.run made i).node.makeHello (ms.run made i).now).1.encode = .ok bytes)
    (j : Fin n) : ms.Faithful addr (events ++ [(j, .receiveControl bytes (addr i))]) :=
  h.concat j _ ⟨_, ⟨i, rfl, made, _, after, hevents, rfl⟩, hbytes⟩

/-- **No phantom links.** Let any number of nodes with different addresses run side by side, and let
whatever comes in from a neighbor have been transmitted by it before. If then a node `a` takes `b`
for a symmetric neighbor, it has handled a greeting that `b` made when `a` was a live neighbor of
`b`, and before it made the greeting, `b` had handled one that `a` made. If `b` is a selector of `a`
besides, then at that time `b` had marked `a` as a relay, and `a` was one of its relays. -/
theorem no_phantom_links (addr : Fin n → Address) (config : Fin n → Config) (since : Fin n → ℕ)
    (events : List (Fin n × Operation)) (hinjective : Function.Injective addr)
    (hfaithful : (start addr config since).Faithful addr events) (a b : Fin n) :
    let ms := start addr config since
    let m := ms.run events a
    m.node.isSymmetricNeighbor m.now (addr b) = true →
      ∃ made, ms.Greeted addr events b a made
        ∧ let sender := ms.run made b
          ∃ entry, sender.node.entryOf? sender.now (addr a) = some entry
            ∧ (∃ earlier, ms.Greeted addr made a b earlier)
            ∧ (m.node.HasSelector (addr b) →
              entry.status = .relay ∧ sender.node.HasRelay (addr a)) := by
  intro ms m hsymmetric
  obtain ⟨entry, hentry, hsymmetric⟩ := Node.isSymmetricNeighbor_iff_entryOf?.1 hsymmetric
  obtain ⟨made, hgreeted, hconfirmed, hchosen⟩ :=
    exists_greeted rfl hinjective hfaithful hentry
  obtain ⟨known, hknown⟩ := Option.isSome_iff_exists.1 (hconfirmed hsymmetric)
  refine ⟨made, hgreeted, known, hknown, ?_, ?_⟩
  · obtain ⟨between, op, after, rfl, -⟩ := hgreeted
    rw [List.append_assoc] at hfaithful
    obtain ⟨earlier, hearlier, -⟩ := exists_greeted rfl hinjective hfaithful.of_append hknown
    exact ⟨earlier, hearlier⟩
  · intro hselector
    obtain ⟨entry', hentry', hrelay⟩ := hchosen hselector
    obtain rfl : known = entry' := Option.some.inj (hknown.symm.trans hentry')
    obtain ⟨id, hget, hid⟩ := Node.entryOf?_eq_some_iff.1 hknown
    exact ⟨hrelay, id, (Registry.lookup?_eq_some_iff _ _ _).2 hid,
      marksChosen_run rfl made b id known hget hrelay⟩

/-- Three nodes in a row. The outer ones hear the one in the middle, and it hears them; its next
greeting gets lost on the way to one of them, the other one chooses it as a relay and says so. -/
theorem no_phantom_links_row :
    let addr : Fin 3 → Address := fun i => ⟨UInt32.ofNat (0x0a000001 + i.val)⟩
    let ms := start addr (fun _ => {}) (fun _ => 0)
    let said (host seq : UInt8) (groups : Bytes) : Bytes :=
      [1, 134, 10, 0, 0, host, 1, 0, 0, seq] ++ groups
    let events : List (Fin 3 × Operation) :=
      [(1, .makeHello), (0, .receiveControl (said 2 0 [0]) (addr 1)),
        (2, .receiveControl (said 2 0 [0]) (addr 1)), (0, .makeHello),
        (1, .receiveControl (said 1 0 [1, 1, 1, 10, 0, 0, 2]) (addr 0)), (2, .makeHello),
        (1, .receiveControl (said 3 0 [1, 1, 1, 10, 0, 0, 2]) (addr 2)), (1, .makeHello),
        (0, .receiveControl (said 2 1 [1, 6, 2, 10, 0, 0, 1, 10, 0, 0, 3]) (addr 1)),
        (0, .recompute), (0, .makeHello),
        (1, .receiveControl (said 1 1 [1, 10, 1, 10, 0, 0, 2]) (addr 0))]
    let m := ms.run events 1
    Function.Injective addr ∧ ms.Faithful addr events
      ∧ m.node.isSymmetricNeighbor m.now (addr 0) = true ∧ m.node.HasSelector (addr 0)
      ∧ ∃ made, ms.Greeted addr events 0 1 made
        ∧ (ms.run made 0).node.HasRelay (addr 1)
        ∧ ∃ earlier, ms.Greeted addr made 1 0 earlier := by
  intro addr ms said events m
  have hinjective : Function.Injective addr := by
    unfold Function.Injective
    decide
  have hfaithful : ms.Faithful addr events :=
    (faithful_nil ms).concat 1 .makeHello trivial
      |>.hear [] rfl (by decide +kernel) 0
      |>.hear [] rfl (by decide +kernel) 2
      |>.concat 0 .makeHello trivial
      |>.hear (events.take 3) rfl (by decide +kernel) 1
      |>.concat 2 .makeHello trivial
      |>.hear (events.take 5) rfl (by decide +kernel) 1
      |>.concat 1 .makeHello trivial
      |>.hear (events.take 7) rfl (by decide +kernel) 0
      |>.concat 0 .recompute trivial
      |>.concat 0 .makeHello trivial
      |>.hear (events.take 10) rfl (by decide +kernel) 1
  have hsymmetric : m.node.isSymmetricNeighbor m.now (addr 0) = true := by decide +kernel
  have hselector : m.node.HasSelector (addr 0) := ⟨⟨1⟩, by decide +kernel, by decide +kernel⟩
  obtain ⟨made, hgreeted, entry, -, ⟨earlier, hearlier⟩, hchosen⟩ :=
    no_phantom_links addr _ _ events hinjective hfaithful 1 0 hsymmetric
  exact ⟨hinjective, hfaithful, hsymmetric, hselector, made, hgreeted, (hchosen hselector).2,
    earlier, hearlier⟩

end Moments

end Meshcast
