import Meshcast.Proofs.Forwarding

/-!
# Meshcast — cascades of relays

A recipient of a copy relays the message in turn, and so do the recipients of its copies, until
nothing is in flight. Each of them relays along a tree of its own: trees of different participants
need not agree, nor do those of one participant at different times. Copies are delivered one by one,
in any order.

* **`Relays`** — what a participant may answer to a message.
* **`Cascade.Step`**, **`Cascade.Steps`** — one delivery, and any number of them.
* **`Cascade.Accounts`** — the invariant: those who were sent a copy and those whom some copy in
  flight still owes one are the targets, each of them once.
* **`Cascade.served_once`** — every target is sent one copy, and nobody else is sent any.
-/

namespace Meshcast

/-- What a participant with the address `a` may answer to a message. It may know anybody, and it
may use any tree that is ever built. -/
def Relays (a : Address) (message : DataMessage) (copies : List Copy) : Prop :=
  ∃ (registry : Registry) (self : NodeId) (tree : SpanningTree),
    registry.address? self = some a ∧ tree.Built ∧
      copies = (Forwarding.relay registry self tree message).1

theorem Relays.settles {a : Address} {message : DataMessage} {copies : List Copy}
    (h : Relays a message copies) :
    (copies.flatMap Copy.settles).Perm (message.owed a).toList := by
  obtain ⟨registry, self, tree, ha, built, rfl⟩ := h
  exact Forwarding.settles_relay built.grown ha

theorem Relays.sameContent {a : Address} {message : DataMessage} {copies : List Copy}
    (h : Relays a message copies) {c : Copy} (hc : c ∈ copies) :
    c.message.SameContent message := by
  obtain ⟨registry, self, tree, ha, -, rfl⟩ := h
  exact Forwarding.sameContent_relay ha hc

theorem exists_relays (a : Address) (message : DataMessage) :
    ∃ copies, Relays a message copies := by
  -- whoever has an address may know itself alone
  let registry := (Registry.empty.intern a).2
  let self := (Registry.empty.intern a).1
  refine ⟨_, registry, self, .singleton self, ?_, .singleton self, rfl⟩
  rw [← Registry.lookup?_eq_some_iff, Registry.lookup?_intern, if_pos rfl]

/-- Copies on their way, and all that were ever sent. -/
structure Cascade where
  inFlight : List Copy
  sent : List Copy

namespace Cascade

/-- Copies that have just been sent. -/
def start (copies : List Copy) : Cascade :=
  { inFlight := copies, sent := copies }

/-- How many copies were sent to an address. -/
def copiesTo (state : Cascade) (b : Address) : ℕ :=
  (state.sent.map Copy.recipient).count b

/-- Any one of the copies in flight is delivered, and its recipient relays the message. -/
inductive Step (state : Cascade) : Cascade → Prop
  | deliver {k : ℕ} {c : Copy} {copies : List Copy} (next : state.inFlight[k]? = some c)
      (relays : Relays c.recipient c.message copies) :
      Step state
        { inFlight := state.inFlight.eraseIdx k ++ copies, sent := state.sent ++ copies }

/-- Deliveries one after the other. -/
inductive Steps (first : Cascade) : ℕ → Cascade → Prop
  | none : Steps first 0 first
  | more {n : ℕ} {state next : Cascade} (before : Steps first n state) (step : Step state next) :
      Steps first (n + 1) next

/-! ## The invariant -/

/-- Those who have still to be sent a copy by those that one is on its way to. -/
def owed (copies : List Copy) : List Address :=
  copies.flatMap fun c => (c.message.owed c.recipient).toList

theorem settles_perm (copies : List Copy) :
    (copies.flatMap Copy.settles).Perm (copies.map Copy.recipient ++ owed copies) := by
  have hsingle : copies.map Copy.recipient = copies.flatMap fun c => [c.recipient] := by
    rw [← List.flatMap_pure_eq_map]
    rfl
  rw [hsingle]
  exact (List.flatMap_append_perm copies (fun c => [c.recipient])
    fun c => (c.message.owed c.recipient).toList).symm

/-- After `n` deliveries everything is accounted for: those who were sent a copy and those who have
still to be sent one are the targets, and each copy sent was delivered or is in flight. -/
structure Accounts (message : DataMessage) (targets : List Address) (n : ℕ) (state : Cascade) :
    Prop where
  perm : (state.sent.map Copy.recipient ++ owed state.inFlight).Perm targets
  delivered : n + state.inFlight.length = state.sent.length
  content : ∀ c ∈ state.sent, c.message.SameContent message
  sent_of_inFlight : ∀ c ∈ state.inFlight, c ∈ state.sent

variable {message : DataMessage} {targets : List Address} {n : ℕ} {state next : Cascade}

theorem accounts_start {copies : List Copy}
    (hsettles : (copies.flatMap Copy.settles).Perm targets)
    (hcontent : ∀ c ∈ copies, c.message.SameContent message) :
    (start copies).Accounts message targets 0 where
  perm := (settles_perm copies).symm.trans hsettles
  delivered := Nat.zero_add _
  content := hcontent
  sent_of_inFlight := fun _ hc => hc

/-- A recipient passes on what it owes, no more and no less. -/
theorem Accounts.step (h : state.Accounts message targets n) (step : Step state next) :
    next.Accounts message targets (n + 1) := by
  obtain @⟨k, c, copies, hk, relays⟩ := step
  obtain ⟨hlt, hget⟩ := List.getElem?_eq_some_iff.1 hk
  have hflight : (c :: state.inFlight.eraseIdx k).Perm state.inFlight := by
    rw [← hget]
    exact List.getElem_cons_eraseIdx_perm hlt
  have hc : c ∈ state.inFlight := List.mem_of_getElem? hk
  constructor
  · -- what the recipient owed is now with the recipients of its copies
    have howed : (owed (c :: state.inFlight.eraseIdx k)).Perm (owed state.inFlight) :=
      hflight.flatMap_right _
    have hcopies : (copies.map Copy.recipient ++ owed copies).Perm
        (c.message.owed c.recipient).toList :=
      (settles_perm copies).symm.trans relays.settles
    refine List.Perm.trans (List.perm_iff_count.2 fun b => ?_) h.perm
    have hrest := howed.count_eq b
    have hpassed := hcopies.count_eq b
    unfold owed at hrest hpassed ⊢
    simp only [List.flatMap_cons, List.flatMap_append, List.map_append, List.count_append]
      at hrest hpassed ⊢
    omega
  · have hlength := hflight.length_eq
    have hdelivered := h.delivered
    rw [List.length_cons] at hlength
    simp only [List.length_append]
    omega
  · intro d hd
    rcases List.mem_append.1 hd with hd | hd
    · exact h.content d hd
    · exact (relays.sameContent hd).trans (h.content c (h.sent_of_inFlight c hc))
  · intro d hd
    rcases List.mem_append.1 hd with hd | hd
    · exact List.mem_append_left _ (h.sent_of_inFlight d (List.mem_of_mem_eraseIdx hd))
    · exact List.mem_append_right _ hd

theorem Accounts.steps {first : Cascade} (h : first.Accounts message targets 0)
    (steps : Steps first n state) : state.Accounts message targets n := by
  induction steps with
  | none => exact h
  | more before step ih => exact ih.step step

/-! ## Every target once -/

/-- What is the case after `n` deliveries of a message to a set of targets. -/
structure Serves (message : DataMessage) (targets : AddressSet) (n : ℕ) (state : Cascade) :
    Prop where
  /-- Deliveries come to an end, and only when nothing is in flight. -/
  bounded : n ≤ targets.size
  progress : state.inFlight ≠ [] → ∃ next, Step state next
  atMostOnce : ∀ b, state.copiesTo b ≤ if b ∈ targets then 1 else 0
  exactlyOnce : state.inFlight = [] → ∀ b, state.copiesTo b = if b ∈ targets then 1 else 0
  content : ∀ c ∈ state.sent, c.message.SameContent message

theorem exists_step (h : state.inFlight ≠ []) : ∃ next, Step state next := by
  obtain ⟨c, rest, hflight⟩ := List.exists_cons_of_ne_nil h
  obtain ⟨copies, relays⟩ := exists_relays c.recipient c.message
  refine ⟨_, .deliver (k := 0) (c := c) ?_ relays⟩
  rw [hflight]
  rfl

theorem Accounts.serves {targets : AddressSet} (h : state.Accounts message targets.toList n) :
    state.Serves message targets n := by
  have hcount : ∀ b, state.copiesTo b + (owed state.inFlight).count b =
      if b ∈ targets then 1 else 0 := by
    intro b
    have hperm := h.perm.count_eq b
    rw [List.count_append, (nodup_toList targets).count] at hperm
    simp only [Std.ExtTreeSet.mem_toList] at hperm
    exact hperm
  constructor
  · have hlength := h.perm.length_eq
    have hdelivered := h.delivered
    rw [List.length_append, List.length_map, Std.ExtTreeSet.length_toList] at hlength
    omega
  · exact exists_step
  · intro b
    exact (hcount b) ▸ Nat.le_add_right _ _
  · intro hquiet b
    rw [← hcount b, hquiet]
    rfl
  · exact h.content

/-- **Every target is sent one copy.** A participant that gets a message starts a cascade that
serves those that it owes the message to. A source starts one that serves its tree and the members
in their grace period. It has all of them in its registry, which is where identifiers come from. -/
theorem served_once :
    (∀ (a : Address) (message : DataMessage) (copies : List Copy) (n : ℕ) (state : Cascade),
      Relays a message copies → Steps (start copies) n state →
        state.Serves message (message.owed a) n)
    ∧ ∀ (registry : Registry) (self : NodeId) (tree : SpanningTree) (grace : NodeSet)
        (message : DataMessage) (n : ℕ) (state : Cascade),
      tree.Built → self ∈ tree.nodes →
      (∀ node ∈ tree.nodes ∪ grace, registry.knows node = true) →
      Steps (start (Forwarding.outbound registry self tree grace message)) n state →
        state.Serves message (Forwarding.audience registry tree grace) n := by
  constructor
  · intro a message copies n state relays steps
    have hstart := accounts_start relays.settles fun c hc => relays.sameContent hc
    exact (hstart.steps steps).serves
  · intro registry self tree grace message n state built hself hknown steps
    have hstart : (start (Forwarding.outbound registry self tree grace message)).Accounts message
        (Forwarding.audience registry tree grace).toList 0 :=
      accounts_start (Forwarding.settles_outbound built.grown hself hknown)
        fun c hc => Forwarding.sameContent_outbound hc
    exact (hstart.steps steps).serves

/-! ### Four hosts -/

/-- All of them know all others. -/
def hosts : Registry :=
  (Registry.empty.internAll [⟨0x0a000001⟩, ⟨0x0a000002⟩, ⟨0x0a000003⟩, ⟨0x0a000004⟩]).2

def hostsMessage : DataMessage where
  group := ⟨0xe0000001⟩
  source := ⟨0x0a000001⟩
  seq := 7
  payload := [1, 2, 3]

/-- The tree of the first host: a star with the second one in the middle. -/
def hostsTree : SpanningTree :=
  .star ⟨1⟩ (.ofList [(⟨0⟩ : NodeId), ⟨2⟩])

/-- What the first host sends. The fourth one is in its grace period. -/
def hostsCopies : List Copy :=
  Forwarding.outbound hosts ⟨0⟩ hostsTree (.ofList [(⟨3⟩ : NodeId)]) hostsMessage

/-- The message as the second host gets it. -/
def hostsReceived : DataMessage :=
  { hostsMessage with
    header := (∅ : ForwardingHeader).insert ⟨0x0a000002⟩ (.ofList [(⟨0x0a000003⟩ : Address)]) }

/-- What the second host sends on: it knows of no tree but the one of itself alone. -/
def hostsRelayed : List Copy :=
  (Forwarding.relay hosts ⟨1⟩ (.singleton ⟨1⟩) hostsReceived).1

theorem relays_hosts_nil {c : Copy} (id : NodeId) (ha : hosts.address? id = some c.recipient)
    (hnil : (Forwarding.relay hosts id (.singleton id) c.message).1 = []) :
    Relays c.recipient c.message [] :=
  ⟨hosts, id, .singleton id, ha, .singleton id, hnil.symm⟩

/-- The third host gets one copy, by way of the second one, and a host that nobody sends to gets
none. -/
theorem hosts_served_once :
    (∃ state, Steps (start hostsRelayed) 1 state ∧ state.copiesTo ⟨0x0a000003⟩ = 1)
    ∧ ∃ state, Steps (start hostsCopies) 4 state ∧ state.copiesTo ⟨0x0a000003⟩ = 1
        ∧ state.copiesTo ⟨0x0a000005⟩ = 0 := by
  have hsecond : Relays ⟨0x0a000002⟩ hostsReceived hostsRelayed :=
    ⟨hosts, ⟨1⟩, .singleton ⟨1⟩, by decide +kernel, .singleton _, rfl⟩
  constructor
  · have hsteps := (Steps.none : Steps (start hostsRelayed) 0 _)
      |>.more (.deliver (k := 0) (c := ⟨⟨0x0a000003⟩, hostsMessage⟩) (by decide +kernel)
        (relays_hosts_nil ⟨2⟩ (by decide +kernel) (by decide +kernel)))
    refine ⟨_, hsteps, ?_⟩
    rw [(served_once.1 _ _ _ _ _ hsecond hsteps).exactlyOnce (by decide +kernel)]
    decide +kernel
  · -- the second host is served first, then the fourth, the first itself, and the third
    have hsteps := (Steps.none : Steps (start hostsCopies) 0 _)
      |>.more (.deliver (k := 0) (c := ⟨⟨0x0a000002⟩, hostsReceived⟩) (by decide +kernel) hsecond)
      |>.more (.deliver (k := 0) (c := ⟨⟨0x0a000004⟩, hostsMessage⟩) (by decide +kernel)
        (relays_hosts_nil ⟨3⟩ (by decide +kernel) (by decide +kernel)))
      |>.more (.deliver (k := 0) (c := ⟨⟨0x0a000001⟩, hostsMessage⟩) (by decide +kernel)
        (relays_hosts_nil ⟨0⟩ (by decide +kernel) (by decide +kernel)))
      |>.more (.deliver (k := 0) (c := ⟨⟨0x0a000003⟩, hostsMessage⟩) (by decide +kernel)
        (relays_hosts_nil ⟨2⟩ (by decide +kernel) (by decide +kernel)))
    have hlisted : ∀ node ∈ (hostsTree.nodes ∪ .ofList [(⟨3⟩ : NodeId)]).toList,
        hosts.knows node = true := by
      decide +kernel
    have hknown : ∀ node ∈ hostsTree.nodes ∪ .ofList [(⟨3⟩ : NodeId)], hosts.knows node = true :=
      fun node hnode => hlisted node (Std.ExtTreeSet.mem_toList.2 hnode)
    have hserves := served_once.2 hosts ⟨0⟩ hostsTree _ hostsMessage _ _ (.star _ _)
      (by decide +kernel) hknown hsteps
    have hquiet := hserves.exactlyOnce (by decide +kernel)
    refine ⟨_, hsteps, ?_, ?_⟩
    · rw [hquiet]
      decide +kernel
    · rw [hquiet]
      decide +kernel

end Cascade

end Meshcast
