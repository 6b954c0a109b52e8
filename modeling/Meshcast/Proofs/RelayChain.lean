import Meshcast.Proofs.HoldTime
import Meshcast.Proofs.OwnPackets

/-!
# Meshcast — announcements that are relayed

An announcement that was read may list addresses twice or out of order; whoever relays it writes it
anew. Its lists only get shorter that way, so the counts in front of them are large enough, and the
next one reads the same announcement, a hop further on its way.

* **`relayedAlong?`** — what becomes of some bytes if node after node reads them, and writes what it
  answers.
* **`Packet.travels_of_decode`** — an announcement that was read can be written.
* **`Stop.sentOnAs_of_relayed?`** — a node hands on what it read; **`announcement_carried`** — so
  does a chain of nodes.
-/

namespace Meshcast

/-! ## Lists that were read -/

namespace Decoder

theorem length_addressesOf_le (bytes : Bytes) : (addressesOf bytes).length * 4 ≤ bytes.length := by
  fun_induction addressesOf bytes with
  | case1 _ _ _ _ rest ih =>
    simp only [List.length_cons]
    omega
  | case2 => simp

/-- Whatever list of addresses is read was counted in one octet. -/
theorem length_le_of_addresses {input rest : Bytes} {list : List Address}
    (h : addresses input = .ok (list, rest)) : list.length ≤ 255 := by
  obtain ⟨count, middle, -, h⟩ := exists_of_bind h
  obtain ⟨bytes, hbytes, rfl⟩ := exists_of_map h
  have hlength : bytes.length ≤ count.toNat * 4 := by
    unfold take takeOr at hbytes
    dsimp only at hbytes
    split at hbytes
    · nomatch hbytes
    · cases hbytes
      exact List.length_take_le _ _
  have hlist := length_addressesOf_le bytes
  have hcount := count.toNat_lt
  omega

end Decoder

/-- In an announcement that was read, an address may have been listed twice, but counts once. -/
theorem Tc.travels_of_decode {input rest : Bytes} {tc : Tc}
    (h : Tc.decode input = .ok (tc, rest)) : (Body.tc tc).Travels := by
  obtain ⟨ansn, middle, -, h⟩ := Decoder.exists_of_bind h
  obtain ⟨advertised, middle', hadvertised, h⟩ := Decoder.exists_of_bind h
  obtain ⟨groups, middle'', hgroups, h⟩ := Decoder.exists_of_bind h
  cases h
  have hadvertised := Decoder.length_le_of_addresses hadvertised
  have hgroups := Decoder.length_le_of_addresses hgroups
  have hsize (list : List Address) : (Std.ExtTreeSet.ofList list).size ≤ list.length :=
    Std.ExtTreeSet.size_ofList_le
  exact Tc.travels (Nat.lt_succ_of_le (Nat.le_trans (hsize advertised) hadvertised))
    (Nat.lt_succ_of_le (Nat.le_trans (hsize groups) hgroups))

namespace Packet

variable {input : Bytes} {packet : Packet} {tc : Tc}

/-- An announcement that was read can be written, and is read back. -/
theorem travels_of_decode (h : Packet.decode input = .ok packet) (hbody : packet.body = .tc tc) :
    packet.body.Travels := by
  obtain ⟨type, middle, rest, hmessage⟩ := exists_of_decode h
  cases type with
  | hello =>
    obtain ⟨hello, -, heq⟩ := Decoder.exists_of_map hmessage
    rw [hbody] at heq
    nomatch heq
  | tc =>
    obtain ⟨tc', htc, heq⟩ := Decoder.exists_of_map hmessage
    rw [← heq]
    exact Tc.travels_of_decode htc

/-! ## Chains of relays -/

/-- The packet has travelled on for some hops as the other one: it is the same but for these, and
unless it is still where it was, it may travel on to somebody. -/
structure CarriedAs (packet : Packet) (hops : ℕ) (copy : Packet) : Prop where
  body : copy.body = packet.body
  validity : copy.header.validity = packet.header.validity
  originator : copy.header.originator = packet.header.originator
  seq : copy.header.seq = packet.header.seq
  ttl : copy.header.ttl.toNat + hops = packet.header.ttl.toNat
  hopCount : copy.header.hopCount.toNat = min (packet.header.hopCount.toNat + hops) 255
  pos : 0 < hops → 0 < copy.header.ttl.toNat

theorem carriedAs_self (packet : Packet) : packet.CarriedAs 0 packet where
  body := rfl
  validity := rfl
  originator := rfl
  seq := rfl
  ttl := rfl
  hopCount := by
    have := packet.header.hopCount.toNat_lt
    omega
  pos h := absurd h (Nat.lt_irrefl 0)

/-- The hop that comes first counts like the others. -/
theorem SentOnAs.carriedAs {next copy : Packet} {hops : ℕ} (httl : 1 < packet.header.ttl.toNat)
    (hfirst : packet.SentOnAs next) (h : next.CarriedAs hops copy) :
    packet.CarriedAs (hops + 1) copy where
  body := h.body.trans hfirst.body
  validity := h.validity.trans hfirst.validity
  originator := h.originator.trans hfirst.originator
  seq := h.seq.trans hfirst.seq
  ttl := by
    have := h.ttl
    have := hfirst.ttl
    omega
  hopCount := by
    have := h.hopCount
    have := hfirst.hopCount
    omega
  pos _ := by
    have := h.ttl
    have := h.pos
    have := hfirst.ttl
    omega

end Packet

/-- A node at some moment, and the neighbor from which bytes come in. -/
structure Stop where
  moment : Moment
  neighbor : Address

/-- What a node writes when it is to send on what comes in. -/
def Stop.relayed? (stop : Stop) (bytes : Bytes) : Option (Except EncodeError Bytes) :=
  (stop.moment.node.receiveControl stop.moment.now bytes stop.neighbor).1.map Packet.encode

/-- What the last node of a chain writes, if each one is to send on what comes in. A node that is to
send on what it cannot write breaks the chain, with the error. -/
def relayedAlong? : List Stop → Bytes → Option (Except EncodeError Bytes)
  | [], bytes => some (.ok bytes)
  | stop :: rest, bytes =>
    match stop.relayed? bytes with
    | some (.ok next) => relayedAlong? rest next
    | broken => broken

/-- A node that is to send an announcement on writes it, a hop further on its way. -/
theorem Stop.sentOnAs_of_relayed? {stop : Stop} {bytes : Bytes} {packet : Packet}
    {result : Except EncodeError Bytes} (h : Packet.decode bytes = .ok packet)
    (htravels : packet.body.Travels) (hresult : stop.relayed? bytes = some result) :
    ∃ out next, result = .ok out ∧ Packet.decode out = .ok next
      ∧ 1 < packet.header.ttl.toNat ∧ packet.SentOnAs next := by
  unfold relayed? at hresult
  rw [Node.receiveControl_of_decode h] at hresult
  obtain ⟨next, hnext, rfl⟩ := Option.map_eq_some_iff.1 hresult
  obtain ⟨httl, hsent⟩ :=
    Packet.sentOnAs_of_forwarded? (Node.forwarded?_of_receivePacket hnext)
  obtain ⟨out, hencode, hdecode⟩ := Packet.exists_bytes (hsent.body ▸ htravels)
  exact ⟨out, next, hencode, hdecode, httl, hsent⟩

/-- Along a chain the message stays what it was, and so it can be written at every stop. -/
theorem carried_of_relayedAlong? {stops : List Stop} {bytes : Bytes} {packet : Packet}
    {result : Except EncodeError Bytes} (h : Packet.decode bytes = .ok packet)
    (htravels : packet.body.Travels) (hresult : relayedAlong? stops bytes = some result) :
    ∃ out copy, result = .ok out ∧ Packet.decode out = .ok copy
      ∧ packet.CarriedAs stops.length copy := by
  induction stops generalizing bytes packet with
  | nil =>
    cases hresult
    exact ⟨bytes, packet, rfl, h, packet.carriedAs_self⟩
  | cons stop rest ih =>
    cases hfirst : stop.relayed? bytes with
    | none =>
      simp only [relayedAlong?, hfirst] at hresult
      nomatch hresult
    | some first =>
      -- the bytes may change from node to node, but not the message, so the next one can write it
      obtain ⟨next, nextPacket, rfl, hnext, httl, hsent⟩ :=
        stop.sentOnAs_of_relayed? h htravels hfirst
      simp only [relayedAlong?, hfirst] at hresult
      obtain ⟨out, copy, hout, hcopy, hcarried⟩ := ih hnext (hsent.body ▸ htravels) hresult
      exact ⟨out, copy, hout, hcopy, hsent.carriedAs httl hcarried⟩

/-- **Relays carry an announcement unaltered, over any number of hops.** Let some bytes be read as
an announcement, and let a chain of nodes, in whatever states, each be to send on what the one
before it wrote. Then all of them can write it, and what the last one wrote is read as the
announcement, of the same originator, sequence number and validity, with as many hops less to go as
there are nodes in the chain, at least one, and as many more behind it, up to 255. -/
theorem announcement_carried {bytes : Bytes} {packet : Packet} {tc : Tc} {stops : List Stop}
    {result : Except EncodeError Bytes} (h : Packet.decode bytes = .ok packet)
    (hbody : packet.body = .tc tc) (hstops : stops ≠ [])
    (hresult : relayedAlong? stops bytes = some result) :
    ∃ out copy, result = .ok out ∧ Packet.decode out = .ok copy ∧ copy.body = .tc tc
      ∧ packet.CarriedAs stops.length copy ∧ stops.length < packet.header.ttl.toNat := by
  have htravels := Packet.travels_of_decode h hbody
  obtain ⟨out, copy, hout, hcopy, hcarried⟩ := carried_of_relayedAlong? h htravels hresult
  have hpos := hcarried.pos (List.length_pos_of_ne_nil hstops)
  have httl := hcarried.ttl
  exact ⟨out, copy, hout, hcopy, hcarried.body.trans hbody, hcarried, by omega⟩

/-- Two hosts, each of which the one before it chose as a relay, hand on an announcement that lists
an address twice. Two hops are as many as it may take, and one more than can be counted. -/
theorem announcement_carried_twice :
    let greeting (sender relay : Address) : Packet :=
      { header := { validity := ⟨0xe8⟩, originator := sender, ttl := 1, hopCount := 0, seq := ⟨0⟩ }
        body := .hello (.list {} ⟨.symmetric, .relay⟩ [relay]) }
    let stop (host neighbor : Address) : Stop :=
      { moment := (Moment.start host {} 0).run [.receivePacket (greeting neighbor host) neighbor]
        neighbor }
    let stops := [stop ⟨0x0a000002⟩ ⟨0x0a000001⟩, stop ⟨0x0a000003⟩ ⟨0x0a000002⟩]
    let bytes : Bytes :=
      [2, 0xe8, 10, 0, 0, 9, 3, 254, 0, 7, 0, 5, 3, 10, 0, 0, 5, 10, 0, 0, 4, 10, 0, 0, 5, 0]
    let listed : List Address := [⟨0x0a000005⟩, ⟨0x0a000004⟩, ⟨0x0a000005⟩]
    let tc : Tc := { ansn := ⟨5⟩, advertised := .ofList listed }
    ∃ packet, Packet.decode bytes = .ok packet ∧ packet.body = .tc tc
      ∧ ∃ out copy, relayedAlong? stops bytes = some (.ok out) ∧ Packet.decode out = .ok copy
        ∧ copy.body = .tc tc ∧ packet.CarriedAs 2 copy := by
  intro greeting stop stops bytes listed tc
  let packet : Packet :=
    { header := ⟨⟨0xe8⟩, ⟨0x0a000009⟩, 3, 254, ⟨7⟩⟩, body := .tc tc }
  have hdecode : Packet.decode bytes = .ok packet := by rfl
  have hrelayed : (relayedAlong? stops bytes).isSome = true := by decide +kernel
  obtain ⟨result, hresult⟩ := Option.isSome_iff_exists.1 hrelayed
  obtain ⟨out, copy, rfl, hcopy, hbody, hcarried, -⟩ :=
    announcement_carried hdecode rfl (by simp [stops]) hresult
  exact ⟨packet, hdecode, rfl, out, copy, hresult, hcopy, hbody, hcarried⟩

end Meshcast
