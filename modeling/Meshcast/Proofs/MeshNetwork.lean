import Meshcast.Mesh
import Meshcast.Proofs.Flooding
import Meshcast.Proofs.Wire

/-!
# Meshcast — a mesh is a network

A mesh floods bytes, generation by generation; a network delivers packets, in any order. A mesh
that takes what is in flight from the front is one of the ways in which a network delivers.

* **`Mesh.Shows`** — a mesh consists of the nodes of a network, with the same links and time.
* **`Network.Emits`** — a node makes a packet, which is delivered until nothing is in flight.
* **`Mesh.Shows.emit`** — what a mesh does to have a host make and broadcast a packet comes to that.
* **`Mesh.Shows.hellos`**, **`Mesh.Shows.tcs`**, **`Mesh.Shows.maintain`** — the phases of a round.
-/

namespace Meshcast

/-! ## Floods in any order -/

namespace Network

variable {n : ℕ} (net : Network n)

/-- The same hosts and links, with the nodes in another state. -/
def withNodes (nodes : Fin n → Node) : Network n :=
  { net with nodes }

/-- Some deliveries lead from one state of a flood to another one. -/
def Floods (state state' : Flood n) : Prop :=
  ∃ schedule : List ℕ, schedule.foldlM net.deliverAt? state = some state'

variable {net}

theorem Floods.refl (state : Flood n) : net.Floods state state :=
  ⟨[], rfl⟩

theorem Floods.trans {state₁ state₂ state₃ : Flood n} (h₁ : net.Floods state₁ state₂)
    (h₂ : net.Floods state₂ state₃) : net.Floods state₁ state₃ := by
  obtain ⟨first, hfirst⟩ := h₁
  obtain ⟨second, hsecond⟩ := h₂
  refine ⟨first ++ second, ?_⟩
  rw [List.foldlM_append, hfirst]
  exact hsecond

theorem nodes_deliver (net : Network n) (state : Flood n) (others : List (Delivery n))
    (d : Delivery n) :
    (net.deliver state others d).nodes = Function.update state.nodes d.receiver
      ((state.nodes d.receiver).receivePacket net.now d.packet (state.nodes d.sender).address).2 :=
  rfl

theorem inFlight_deliver (net : Network n) (state : Flood n) (others : List (Delivery n))
    (d : Delivery n) :
    (net.deliver state others d).inFlight = others ++ ((state.nodes d.receiver).receivePacket
      net.now d.packet (state.nodes d.sender).address).1.toList.flatMap (net.transmit d.receiver) :=
  rfl

theorem floods_deliver {state : Flood n} {d : Delivery n} {others : List (Delivery n)}
    (h : state.inFlight = d :: others) : net.Floods state (net.deliver state others d) := by
  refine ⟨[0], ?_⟩
  rw [List.foldlM_cons]
  unfold deliverAt?
  rw [h]
  rfl

/-- What every delivery preserves holds in the end. -/
theorem Floods.induction {P : Flood n → Prop} {state state' : Flood n}
    (h : net.Floods state state') (start : P state)
    (step : ∀ state d others, P state → (d :: others).Perm state.inFlight →
      P (net.deliver state others d)) : P state' := by
  obtain ⟨schedule, hschedule⟩ := h
  induction schedule generalizing state with
  | nil =>
    cases hschedule
    exact start
  | cons k rest ih =>
    rw [List.foldlM_cons] at hschedule
    obtain ⟨next, hnext, hrest⟩ := Option.bind_eq_some_iff.1 hschedule
    obtain ⟨d, hd, rfl⟩ := Option.map_eq_some_iff.1 hnext
    obtain ⟨hk, rfl⟩ := List.getElem?_eq_some_iff.1 hd
    exact ih (step state _ _ start (List.getElem_cons_eraseIdx_perm hk)) hrest

/-- The node `i` makes a packet, and it is delivered to everybody it reaches. -/
def Emits (net : Network n) (make : Node → Packet × Node) (i : Fin n) (net' : Network n) : Prop :=
  let made := net.withNodes (Function.update net.nodes i (make (net.nodes i)).2)
  ∃ state, made.Floods (made.emit i (make (net.nodes i)).1) state ∧ state.inFlight = []
    ∧ net' = net.withNodes state.nodes

end Network

/-! ## Hosts and nodes -/

namespace Mesh

variable {n : ℕ}

/-- The hosts of a mesh are the nodes of a network. -/
structure Shows (mesh : Mesh) (net : Network n) : Prop where
  size_eq : mesh.hosts.size = n
  host : ∀ i : Fin n, ∃ host, mesh.hosts[i.val]? = some host ∧ host.node = net.nodes i
  now_eq : mesh.now = net.now
  adj_iff : ∀ i j : Fin n,
    net.graph.Adj i j ↔ j ≠ i ∧ mesh.links.contains (.between i j) = true

variable {mesh : Mesh} {net : Network n}

theorem Shows.onHost (h : mesh.Shows net) (i : Fin n) {α : Type} (f : Node → α × Node) :
    (mesh.onHost i (·.onNode f)).1 = some (f (net.nodes i)).1
      ∧ (mesh.onHost i (·.onNode f)).2.Shows
        (net.withNodes (Function.update net.nodes i (f (net.nodes i)).2)) := by
  obtain ⟨host, hhost, hnode⟩ := h.host i
  have hsize : i.val < mesh.hosts.size := h.size_eq ▸ i.isLt
  unfold Mesh.onHost
  rw [hhost]
  dsimp only [Host.onNode]
  rw [hnode]
  refine ⟨rfl, ?_, ?_, h.now_eq, h.adj_iff⟩
  · rw [Array.size_setIfInBounds]
    exact h.size_eq
  · intro j
    rw [Array.getElem?_setIfInBounds]
    show ∃ host : Host, _ ∧ host.node = Function.update net.nodes i (f (net.nodes i)).2 j
    by_cases heq : j = i
    · subst heq
      rw [if_pos rfl, if_pos hsize, Function.update_self]
      exact ⟨_, rfl, rfl⟩
    · rw [if_neg fun hij => heq (Fin.ext hij.symm), Function.update_of_ne heq]
      exact h.host j

theorem Shows.inRange (h : mesh.Shows net) (i : Fin n) :
    mesh.inRange i = ((List.finRange n).filter fun j => net.graph.Adj i j).map Fin.val := by
  unfold Mesh.inRange
  rw [h.size_eq, ← List.map_coe_finRange_eq_range, List.filter_map]
  congr 1
  apply List.filter_congr
  intro j _
  rw [Bool.eq_iff_iff, decide_eq_true_eq, h.adj_iff]
  simp [Fin.ext_iff]

end Mesh

/-! ## Floods of bytes -/

namespace Packet

/-- A packet of a flood that has still a way to go, of at most so many hops. -/
structure OfFlood (packet : Packet) (body : Body) (hops : ℕ) : Prop where
  body_eq : packet.body = body
  pos : 0 < packet.header.ttl.toNat
  ttl_le : packet.header.ttl.toNat ≤ hops

theorem OfFlood.forwarded? {packet next : Packet} {body : Body} {hops : ℕ}
    (h : packet.OfFlood body (hops + 1)) (hnext : packet.forwarded? = some next) :
    next.OfFlood body hops := by
  have hle := h.ttl_le
  by_cases httl : 1 < packet.header.ttl.toNat
  · have hself : packet.IsCopyOf packet := ⟨rfl, rfl, rfl⟩
    obtain ⟨found, hfound, hcopy, hhops⟩ := hself.forwarded? httl
    rw [hnext, Option.some.injEq] at hfound
    subst hfound
    exact ⟨hcopy.body.trans h.body_eq, by omega, by omega⟩
  · have hlast : packet.header.ttl ≤ 1 := UInt8.le_iff_toNat_le.2 (Nat.le_of_not_lt httl)
    unfold Packet.forwarded? at hnext
    rw [if_pos hlast] at hnext
    nomatch hnext

end Packet

namespace Mesh

variable {n : ℕ} {mesh : Mesh} {net : Network n}

/-- The bytes of a broadcast are a packet that a node transmits. -/
structure Broadcast.Carries (b : Broadcast) (t : Fin n × Packet) : Prop where
  sender_eq : b.sender = t.1
  decode_eq : Packet.decode b.bytes = .ok t.2

/-- What is broadcast in a generation of a flood, and the packets that these bytes are. -/
structure Generation (body : Body) (hops : ℕ) (broadcasts : List Broadcast)
    (sent : List (Fin n × Packet)) : Prop where
  carries : List.Forall₂ Broadcast.Carries broadcasts sent
  ofFlood : ∀ t ∈ sent, t.2.OfFlood body hops

theorem Generation.append {body : Body} {hops : ℕ} {broadcasts more : List Broadcast}
    {sent others : List (Fin n × Packet)} (h : Generation body hops broadcasts sent)
    (hmore : Generation body hops more others) :
    Generation body hops (broadcasts ++ more) (sent ++ others) where
  carries := List.rel_append h.carries hmore.carries
  ofFlood t ht := (List.mem_append.1 ht).elim (h.ofFlood t) (hmore.ofFlood t)

theorem Shows.receive (h : mesh.Shows net) (i : Fin n) {body : Body} (htravels : body.Travels)
    {hops : ℕ} {bytes : Bytes} {packet : Packet} (hdecode : Packet.decode bytes = .ok packet)
    (hpacket : packet.OfFlood body (hops + 1)) (sender : Address) :
    let answer := (net.nodes i).receivePacket net.now packet sender
    Generation body hops (mesh.receive bytes sender i).1.toList (answer.1.toList.map (i, ·))
      ∧ (mesh.receive bytes sender i).2.Shows
        (net.withNodes (Function.update net.nodes i answer.2)) := by
  intro answer
  obtain ⟨hresult, hshows⟩ := h.onHost i fun node => node.receiveControl mesh.now bytes sender
  have hcontrol : (net.nodes i).receiveControl mesh.now bytes sender = answer := by
    rw [Node.receiveControl_of_decode hdecode, h.now_eq]
  rw [hcontrol] at hresult hshows
  unfold Mesh.receive
  generalize mesh.onHost i.val _ = outcome at hresult hshows
  obtain ⟨forwarded, mesh'⟩ := outcome
  obtain rfl : forwarded = some answer.1 := hresult
  refine ⟨?_, hshows⟩
  cases hanswer : answer.1 with
  | none => exact ⟨.nil, nofun⟩
  | some next =>
    have hnext := hpacket.forwarded? (Node.forwarded?_of_receivePacket hanswer)
    obtain ⟨written, hencode, hread⟩ := Packet.exists_bytes (hnext.body_eq ▸ htravels)
    show Generation body hops
      (next.encode.toOption.bind fun bytes => some { sender := i, bytes }).toList [(i, next)]
    rw [hencode]
    refine ⟨.cons ⟨rfl, hread⟩ .nil, ?_⟩
    intro t ht
    rw [List.mem_singleton] at ht
    exact ht ▸ hnext

/-- The deliveries that transmissions put in flight. -/
def deliveries (net : Network n) (sent : List (Fin n × Packet)) : List (Delivery n) :=
  sent.flatMap fun t => net.transmit t.1 t.2

/-- The nodes of a flood are those of the hosts. -/
structure Tracks (mesh : Mesh) (net : Network n) (state : Flood n) : Prop where
  shows : mesh.Shows (net.withNodes state.nodes)
  address : ∀ v, (state.nodes v).address = net.address v

section Floods

variable {body : Body} (htravels : body.Travels) {hops : ℕ} {state : Flood n}

include htravels

theorem Tracks.deliver (h : mesh.Tracks net state) (d : Delivery n) (others : List (Delivery n))
    {bytes : Bytes} (hdecode : Packet.decode bytes = .ok d.packet)
    (hpacket : d.packet.OfFlood body (hops + 1)) :
    let result := mesh.receive bytes (net.address d.sender) d.receiver
    result.2.Tracks net (net.deliver state others d)
      ∧ ∃ sent, Generation body hops result.1.toList sent
        ∧ (net.deliver state others d).inFlight = others ++ deliveries net sent := by
  obtain ⟨hnext, hshows⟩ := h.shows.receive d.receiver htravels hdecode hpacket
    (net.address d.sender)
  have hnodes := Network.nodes_deliver net state others d
  have hinFlight := Network.inFlight_deliver net state others d
  rw [h.address d.sender] at hnodes hinFlight
  refine ⟨⟨?_, ?_⟩, _, hnext, ?_⟩
  · rw [hnodes]
    exact hshows
  · intro v
    rw [hnodes]
    by_cases heq : v = d.receiver
    · subst heq
      rw [Function.update_self, (Node.grows_receivePacket _ _ _ _).address_eq]
      exact h.address _
    · rw [Function.update_of_ne heq]
      exact h.address v
  · rw [hinFlight]
    unfold deliveries
    rw [List.flatMap_map]
    rfl

/-- A broadcast is delivered to one receiver after the other. -/
theorem Tracks.receivers {v : Fin n} {bytes : Bytes} {packet : Packet}
    (hdecode : Packet.decode bytes = .ok packet) (hpacket : packet.OfFlood body (hops + 1))
    (receivers : List (Fin n)) (found : List Broadcast) (rest : List (Delivery n))
    (h : mesh.Tracks net state)
    (hflight : state.inFlight = receivers.map (⟨v, ·, packet⟩) ++ rest) :
    let result := (receivers.map Fin.val).foldl
      (fun (found, mesh) receiver =>
        let (next, mesh) := mesh.receive bytes (net.address v) receiver
        (found ++ next.toList, mesh))
      (found, mesh)
    ∃ state' next sent, net.Floods state state' ∧ result.2.Tracks net state'
      ∧ result.1 = found ++ next ∧ Generation body hops next sent
      ∧ state'.inFlight = rest ++ deliveries net sent := by
  induction receivers generalizing mesh state found rest with
  | nil =>
    refine ⟨state, [], [], .refl _, h, (List.append_nil _).symm, ⟨.nil, nofun⟩, ?_⟩
    rw [hflight]
    exact (List.append_nil _).symm
  | cons receiver others ih =>
    rw [List.map_cons, List.cons_append] at hflight
    let d : Delivery n := ⟨v, receiver, packet⟩
    obtain ⟨htracks, sent, hsent, hinFlight⟩ := h.deliver htravels d
      (others.map (⟨v, ·, packet⟩) ++ rest) hdecode hpacket
    rw [List.append_assoc] at hinFlight
    obtain ⟨state', next, more, hfloods, htracks', hnext, hmore, hinFlight'⟩ :=
      ih (found ++ (mesh.receive bytes (net.address v) receiver).1.toList) _ htracks hinFlight
    refine ⟨state', _, _, (Network.floods_deliver hflight).trans hfloods, htracks', ?_,
      hsent.append hmore, ?_⟩
    · rw [← List.append_assoc]
      exact hnext
    · rw [hinFlight', List.append_assoc]
      unfold deliveries
      rw [List.flatMap_append]

/-- So are the broadcasts of a generation. -/
theorem Tracks.deliverAll {broadcasts : List Broadcast} {sent : List (Fin n × Packet)}
    (hsent : Generation body (hops + 1) broadcasts sent) (found : List Broadcast)
    (foundSent : List (Fin n × Packet)) (hfound : Generation body hops found foundSent)
    (h : mesh.Tracks net state)
    (hflight : state.inFlight = deliveries net sent ++ deliveries net foundSent) :
    let result := broadcasts.foldl
      (fun (found, mesh) broadcast =>
        let (next, mesh) := mesh.deliver broadcast
        (found ++ next, mesh))
      (found, mesh)
    ∃ state' next, net.Floods state state' ∧ result.2.Tracks net state'
      ∧ Generation body hops result.1 next ∧ state'.inFlight = deliveries net next := by
  obtain ⟨hcarries, hofFlood⟩ := hsent
  induction hcarries generalizing mesh state found foundSent with
  | nil => exact ⟨state, foundSent, .refl _, h, hfound, hflight⟩
  | @cons b t broadcasts sent hb _ ih =>
    obtain ⟨host, hhost, hnode⟩ := h.shows.host t.1
    have haddress : host.node.address = net.address t.1 := by
      rw [hnode]
      exact h.address t.1
    have hflight' : state.inFlight = ((List.finRange n).filter fun w => net.graph.Adj t.1 w).map
        (⟨t.1, ·, t.2⟩) ++ (deliveries net sent ++ deliveries net foundSent) := by
      rw [hflight, ← List.append_assoc]
      rfl
    obtain ⟨state₁, next, more, hfloods, htracks, hnext, hmore, hinFlight⟩ :=
      h.receivers htravels hb.decode_eq (hofFlood t List.mem_cons_self) _ [] _ hflight'
    have hdeliver : mesh.deliver b =
        (((List.finRange n).filter fun w => net.graph.Adj t.1 w).map Fin.val).foldl
          (fun (found, mesh) receiver =>
            let (next, mesh) := mesh.receive b.bytes (net.address t.1) receiver
            (found ++ next.toList, mesh))
          ([], mesh) := by
      unfold Mesh.deliver
      rw [hb.sender_eq, hhost]
      dsimp only
      rw [haddress, h.shows.inRange]
      rfl
    rw [← hdeliver, List.nil_append] at hnext
    rw [← hdeliver] at htracks
    subst hnext
    rw [List.append_assoc] at hinFlight
    unfold deliveries at hinFlight
    rw [← List.flatMap_append] at hinFlight
    obtain ⟨state', last, hfloods', hrest⟩ := ih (found ++ (mesh.deliver b).1) _
      (hfound.append hmore) htracks hinFlight fun t ht => hofFlood t (List.mem_cons_of_mem _ ht)
    exact ⟨state', last, hfloods.trans hfloods', hrest⟩

/-- With enough fuel, a flood goes on until nothing is in flight. -/
theorem Tracks.flood {fuel : ℕ} (hfuel : hops < fuel) {broadcasts : List Broadcast}
    {sent : List (Fin n × Packet)} (hsent : Generation body hops broadcasts sent)
    (h : mesh.Tracks net state) (hflight : state.inFlight = deliveries net sent) :
    ∃ state', net.Floods state state' ∧ state'.inFlight = []
      ∧ (flood fuel mesh broadcasts).2.Tracks net state' := by
  induction fuel generalizing mesh state hops broadcasts sent with
  | zero => omega
  | succ fuel ih =>
    match broadcasts, sent, hsent with
    | [], [], _ => exact ⟨state, .refl _, hflight, h⟩
    | [], _ :: _, hsent => nomatch hsent.carries
    | b :: others, sent, hsent =>
      -- somebody transmits, so there is a hop to go
      obtain ⟨before, rfl⟩ : ∃ before, hops = before + 1 := by
        match sent, hsent with
        | [], hsent => nomatch hsent.carries
        | t :: _, hsent =>
          have ht := hsent.ofFlood t List.mem_cons_self
          exact ⟨hops - 1, by have := ht.pos; have := ht.ttl_le; omega⟩
      have hall : state.inFlight = deliveries net sent ++ deliveries net [] := by
        rw [hflight]
        exact (List.append_nil _).symm
      obtain ⟨state₁, next, hfloods, htracks, hnext, hinFlight⟩ :=
        h.deliverAll htravels hsent [] [] ⟨.nil, nofun⟩ hall
      obtain ⟨state', hfloods', hquiet, htracks'⟩ := ih (by omega) hnext htracks hinFlight
      exact ⟨state', hfloods.trans hfloods', hquiet, htracks'⟩

end Floods

/-! ## A host makes a packet -/

/-- **What a mesh floods, a network delivers**, until nothing is in flight. -/
theorem Shows.emit (h : mesh.Shows net) (make : Node → Packet × Node) (i : Fin n)
    (htravels : (make (net.nodes i)).1.body.Travels)
    (httl : 0 < (make (net.nodes i)).1.header.ttl.toNat) :
    ∃ net', net.Emits make i net' ∧ (mesh.emit make i).2.Shows net' := by
  obtain ⟨hresult, hshows⟩ := h.onHost i make
  obtain ⟨bytes, hencode, hdecode⟩ := Packet.exists_bytes htravels
  generalize hmade : make (net.nodes i) = made at htravels httl hresult hshows hencode hdecode
  obtain ⟨packet, node⟩ := made
  dsimp only at htravels httl hresult hshows hencode hdecode
  let net₁ := net.withNodes (Function.update net.nodes i node)
  have hbound : packet.header.ttl.toNat ≤ 255 := by
    have := packet.header.ttl.toNat_lt
    omega
  have hgeneration : Generation packet.body 255 [{ sender := i.val, bytes }] [(i, packet)] :=
    ⟨.cons ⟨rfl, hdecode⟩ .nil, fun t ht => by
      rw [List.mem_singleton] at ht
      exact ht ▸ ⟨rfl, httl, hbound⟩⟩
  generalize hoperation : mesh.onHost i.val (·.onNode make) = outcome at hresult hshows
  obtain ⟨result, mesh₁⟩ := outcome
  obtain rfl : result = some packet := hresult
  have htracks : mesh₁.Tracks net₁ (net₁.emit i packet) := ⟨hshows, fun _ => rfl⟩
  obtain ⟨state, hfloods, hquiet, htracks'⟩ :=
    htracks.flood htravels (show 255 < 256 by omega) hgeneration (List.append_nil _).symm
  have hemit : mesh.emit make i = mesh₁.broadcast i.val bytes := by
    unfold Mesh.emit
    rw [hoperation]
    dsimp only
    rw [Option.map_some, hencode]
  refine ⟨net.withNodes state.nodes, ⟨state, ?_, hquiet, rfl⟩, ?_⟩
  · rw [hmade]
    exact hfloods
  · rw [hemit]
    exact htracks'.shows

/-! ## The phases of a round -/

end Mesh

/-- A round of maintenance, as seen by the node. -/
def Node.upkeep (node : Node) (now : Nat) : Node :=
  ((node.sweep now).2.recompute now).2.tickGrace

namespace Mesh

variable {n : ℕ} {mesh : Mesh} {net : Network n}

/-- What holds before the first host has its turn, and is preserved by every turn, holds after the
last one. -/
theorem onEveryHost_induction {α : Type} (mesh : Mesh) {f : Mesh → Nat → α × Mesh}
    {P : ℕ → Mesh → Prop} (start : P 0 mesh)
    (step : ∀ i < mesh.hosts.size, ∀ mesh', P i mesh' → P (i + 1) (f mesh' i).2) :
    P mesh.hosts.size (mesh.onEveryHost f).2 := by
  unfold onEveryHost
  generalize mesh.hosts.size = size at step
  induction size with
  | zero => exact start
  | succ size ih =>
    rw [List.range_succ, List.foldl_append]
    exact step size (Nat.lt_succ_self size) _ (ih fun i hi => step i (Nat.lt_succ_of_lt hi))

/-- A phase in which every host makes a packet and broadcasts it. -/
theorem Shows.turns {Q : ℕ → Network n → Prop} {f : Mesh → Nat → ℕ × Mesh} (h : mesh.Shows net)
    (make : Network n → Node → Packet × Node) (start : Q 0 net)
    (hf : ∀ mesh (net : Network n) i, mesh.Shows net → f mesh i = mesh.emit (make net) i)
    (travels : ∀ (i : Fin n) net, Q i net → (make net (net.nodes i)).1.body.Travels
      ∧ 0 < (make net (net.nodes i)).1.header.ttl.toNat)
    (step : ∀ (i : Fin n) net net', Q i net → net.Emits (make net) i net' → Q (i + 1) net') :
    ∃ net', (mesh.onEveryHost f).2.Shows net' ∧ Q n net' := by
  have hturns := onEveryHost_induction mesh (f := f)
    (P := fun i mesh => ∃ net, mesh.Shows net ∧ Q i net) ⟨net, h, start⟩ ?_
  · rwa [h.size_eq] at hturns
  · rintro i hi mesh' ⟨net', hshows, hq⟩
    rw [h.size_eq] at hi
    obtain ⟨htravels, httl⟩ := travels ⟨i, hi⟩ net' hq
    obtain ⟨net'', hemits, hshows'⟩ := hshows.emit (make net') ⟨i, hi⟩ htravels httl
    rw [hf mesh' net' i hshows]
    exact ⟨net'', hshows', step ⟨i, hi⟩ net' net'' hq hemits⟩

theorem Shows.hellos {Q : ℕ → Network n → Prop} (h : mesh.Shows net) (start : Q 0 net)
    (travels : ∀ (i : Fin n) net, Q i net →
      ((net.nodes i).makeHello net.now).1.body.Travels)
    (step : ∀ (i : Fin n) net net', Q i net → net.Emits (·.makeHello net.now) i net' →
      Q (i + 1) net') :
    ∃ net', mesh.hellos.2.Shows net' ∧ Q n net' := by
  refine h.turns (f := fun mesh i => mesh.emit (·.makeHello mesh.now) i)
    (fun net node => node.makeHello net.now) start ?_ ?_ step
  · intro mesh' net' i hshows
    rw [hshows.now_eq]
  · intro i net' hq
    exact ⟨travels i net' hq, Nat.one_pos⟩

theorem Shows.tcs {Q : ℕ → Network n → Prop} (h : mesh.Shows net) (start : Q 0 net)
    (travels : ∀ (i : Fin n) net, Q i net → (net.nodes i).makeTc.1.body.Travels
      ∧ 0 < (net.nodes i).config.maxTtl.toNat)
    (step : ∀ (i : Fin n) net net', Q i net → net.Emits Node.makeTc i net' → Q (i + 1) net') :
    ∃ net', mesh.tcs.2.Shows net' ∧ Q n net' :=
  h.turns (fun _ => Node.makeTc) start (fun _ _ _ _ => rfl) travels step

theorem Shows.maintain (h : mesh.Shows net) :
    mesh.maintain.2.Shows (net.withNodes fun i => (net.nodes i).upkeep net.now) := by
  have hturns := onEveryHost_induction mesh
    (f := fun mesh i => mesh.onHost i (·.maintain mesh.now))
    (P := fun k mesh => mesh.Shows (net.withNodes fun i =>
      if i.val < k then (net.nodes i).upkeep net.now else net.nodes i)) ?_ ?_
  · rw [h.size_eq] at hturns
    simp only [Fin.is_lt, if_true] at hturns
    exact hturns
  · simp only [Nat.not_lt_zero, if_false]
    exact h
  · intro k hk mesh' hshows
    rw [h.size_eq] at hk
    have hnodes : (fun i : Fin n =>
        if i.val < k + 1 then (net.nodes i).upkeep net.now else net.nodes i) =
          Function.update (fun i : Fin n =>
            if i.val < k then (net.nodes i).upkeep net.now else net.nodes i) ⟨k, hk⟩
            ((net.nodes ⟨k, hk⟩).upkeep net.now) := by
      funext i
      by_cases heq : i = ⟨k, hk⟩
      · subst heq
        rw [Function.update_self, if_pos (Nat.lt_succ_self k)]
      · have hne : i.val ≠ k := fun hval => heq (Fin.ext hval)
        rw [Function.update_of_ne heq]
        simp only [show i.val < k + 1 ↔ i.val < k by omega]
    have hmaintained := (hshows.onHost ⟨k, hk⟩ fun node =>
      (((node.sweep net.now).1, ((node.sweep net.now).2.recompute net.now).1),
        node.upkeep net.now)).2
    have hbefore : (if k < k then (net.nodes ⟨k, hk⟩).upkeep net.now else net.nodes ⟨k, hk⟩) =
        net.nodes ⟨k, hk⟩ := if_neg (Nat.lt_irrefl k)
    have hnow : mesh'.now = net.now := hshows.now_eq
    rw [hnodes, hnow, ← hbefore]
    exact hmaintained

end Mesh

end Meshcast
