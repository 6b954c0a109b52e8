import Meshcast.Proofs.ControlPackets

/-!
# Meshcast — several copies of one announcement

Flooding brings copies of an announcement from several neighbors, and only those of symmetric
neighbors are to be learned from. Yet a copy that is discarded is marked as handled all the same,
so the ones after it count as duplicates: the first copy that is heard decides.

* **`announced_receiveCopies`** — what a node knows after a sequence of copies, if it remembers
  what it handled; **`announced_receiveCopies_of_forgetful`** — and if it does not.
* **`copies_like_one_iff`** — when the copies come to the same as one copy of a symmetric neighbor.
* **`discarded_copy_suppresses`** — a run in which they do not.
-/

namespace Meshcast

namespace Node

/-- Links and memberships, which are what announcements tell. -/
def announced (node : Node) : Topology × Groups :=
  (node.topology, node.groups)

/-- Copies of a packet come in from several neighbors, one after the other at one reading of the
clock. -/
def receiveCopies (node : Node) (now : Nat) (packet : Packet) (senders : List Address) : Node :=
  senders.foldl (fun node sender => (node.receivePacket now packet sender).2) node

section Copies

variable {node : Node} {now : Nat} {packet : Packet} {tc : Tc}

theorem receiveCopies_own_cons {sender : Address} (rest : List Address)
    (hsender : sender = node.address) :
    node.receiveCopies now packet (sender :: rest) = node.receiveCopies now packet rest := by
  unfold receiveCopies
  rw [List.foldl_cons, receivePacket_own now (.inr hsender)]

theorem TcHandled.announced_eq {node' : Node} {sender : Address} {sent : Option Packet}
    (h : TcHandled node now packet tc sender sent node') (hknown : node.NeighborsKnown)
    (hseen : node.hasSeen now packet = false) :
    node'.announced =
      if node.isSymmetricNeighbor now sender then
        node.learn now packet.header.originator tc packet.header.validity
      else node.announced := by
  have hlearned := h.learned
  rw [hseen, Bool.not_false, Bool.true_and, isSymmetricNeighbor_acquainted hknown] at hlearned
  exact hlearned

theorem announced_receiveCopies_of_seen (hbody : packet.body = .tc tc)
    (horiginator : packet.header.originator ≠ node.address)
    (hremembers : node.duplicates.holdTime ≠ 0) (hseen : node.hasSeen now packet = true)
    (senders : List Address) :
    (node.receiveCopies now packet senders).announced = node.announced := by
  induction senders generalizing node with
  | nil => rfl
  | cons sender rest ih =>
    by_cases hsender : sender = node.address
    · rw [receiveCopies_own_cons rest hsender]
      exact ih horiginator hremembers hseen
    · have h := tcHandled_receivePacket now hbody horiginator hsender
      have hsame := h.learned
      rw [hseen, Bool.not_true, Bool.false_and, if_neg Bool.false_ne_true] at hsame
      refine (ih (h.address ▸ horiginator) (h.holdTime ▸ hremembers) ?_).trans hsame
      rw [h.hasSeen_eq, decide_eq_true hremembers, Bool.or_true]

/-- The first copy that is heard decides. -/
theorem announced_receiveCopies (hbody : packet.body = .tc tc)
    (horiginator : packet.header.originator ≠ node.address) (hknown : node.NeighborsKnown)
    (hremembers : node.duplicates.holdTime ≠ 0) (hseen : node.hasSeen now packet = false)
    (senders : List Address) :
    (node.receiveCopies now packet senders).announced =
      if (senders.find? (· ≠ node.address)).any (node.isSymmetricNeighbor now) then
        node.learn now packet.header.originator tc packet.header.validity
      else node.announced := by
  induction senders with
  | nil => rfl
  | cons sender rest ih =>
    by_cases hsender : sender = node.address
    · rw [receiveCopies_own_cons rest hsender, ih, List.find?_cons_of_neg (by simp [hsender])]
    · have h := tcHandled_receivePacket now hbody horiginator hsender
      rw [List.find?_cons_of_pos (by simp [hsender])]
      -- whether it was learned from or not, it is marked, and so the rest has been seen
      refine (announced_receiveCopies_of_seen hbody (h.address ▸ horiginator)
        (h.holdTime ▸ hremembers) ?_ rest).trans (h.announced_eq hknown hseen)
      rw [h.hasSeen_eq, decide_eq_true hremembers, Bool.or_true]

theorem TcHandled.hasSeen_of_forgetful {node' : Node} {sender : Address} {sent : Option Packet}
    (h : TcHandled node now packet tc sender sent node')
    (hforgetful : node.duplicates.holdTime = 0) (hseen : node.hasSeen now packet = false) :
    node'.hasSeen now packet = false := by
  rw [h.hasSeen_eq, hasSentOn_of_not_hasSeen hseen, hforgetful]
  rfl

/-- Once a node that remembers nothing has learned from a copy, the next ones tell nothing new. -/
theorem announced_receiveCopies_of_learned (node : Node) {node' : Node}
    (hbody : packet.body = .tc tc) (horiginator : packet.header.originator ≠ node'.address)
    (hknown : node'.NeighborsKnown) (hforgetful : node'.duplicates.holdTime = 0)
    (hseen : node'.hasSeen now packet = false)
    (hregistry : ((node.registry.intern packet.header.originator).2.internAll
      tc.advertised.toList).2.Extends node'.registry)
    (hlearned : node'.announced =
      node.learn now packet.header.originator tc packet.header.validity)
    (senders : List Address) :
    (node'.receiveCopies now packet senders).announced = node'.announced := by
  induction senders generalizing node' with
  | nil => rfl
  | cons sender rest ih =>
    by_cases hsender : sender = node'.address
    · rw [receiveCopies_own_cons rest hsender]
      exact ih horiginator hknown hforgetful hseen hregistry hlearned
    · have h := tcHandled_receivePacket now hbody horiginator hsender
      -- learning is idempotent, and a stranger's copy teaches nothing
      have hsame : (node'.receivePacket now packet sender).2.announced = node'.announced := by
        refine h.learned.trans ?_
        split
        · rw [hlearned]
          exact InformationBase.learn_learn hregistry hlearned
        · rfl
      refine (ih (h.address ▸ horiginator) (h.neighborsKnown hknown)
        (h.holdTime.trans hforgetful) (h.hasSeen_of_forgetful hforgetful hseen) ?_
        (hsame.trans hlearned)).trans hsame
      exact hregistry.trans ((Registry.extends_intern _ _).trans h.extends_acquainted)

theorem announced_receiveCopies_of_forgetful (hbody : packet.body = .tc tc)
    (horiginator : packet.header.originator ≠ node.address) (hknown : node.NeighborsKnown)
    (hforgetful : node.duplicates.holdTime = 0) (hseen : node.hasSeen now packet = false)
    (senders : List Address) :
    (node.receiveCopies now packet senders).announced =
      if senders.any fun s => s ≠ node.address && node.isSymmetricNeighbor now s then
        node.learn now packet.header.originator tc packet.header.validity
      else node.announced := by
  induction senders generalizing node with
  | nil => rfl
  | cons sender rest ih =>
    rw [List.any_cons]
    by_cases hsender : sender = node.address
    · rw [receiveCopies_own_cons rest hsender, ih horiginator hknown hforgetful hseen]
      simp [hsender]
    · have h := tcHandled_receivePacket now hbody horiginator hsender
      have hfirst := h.announced_eq hknown hseen
      have hregistry := h.registry
      have horiginator' := h.address ▸ horiginator
      have hknown' := h.neighborsKnown hknown
      have hforgetful' := h.holdTime.trans hforgetful
      have hseen' := h.hasSeen_of_forgetful hforgetful hseen
      rw [hseen, Bool.not_false, Bool.true_and, isSymmetricNeighbor_acquainted hknown] at hregistry
      cases hsymmetric : node.isSymmetricNeighbor now sender with
      | true =>
        rw [hsymmetric, if_pos rfl] at hfirst hregistry
        rw [decide_eq_true hsender, Bool.true_and, Bool.true_or, if_pos rfl]
        exact (announced_receiveCopies_of_learned node hbody horiginator' hknown'
          hforgetful' hseen' (hregistry ▸ .refl _) hfirst rest).trans hfirst
      | false =>
        rw [hsymmetric, if_neg Bool.false_ne_true] at hfirst hregistry
        rw [Bool.and_false, Bool.false_or]
        -- only the originator became known
        have hlearn : (node.receivePacket now packet sender).2.learn now packet.header.originator
            tc packet.header.validity
              = node.learn now packet.header.originator tc packet.header.validity := by
          unfold announced at hfirst
          rw [Prod.mk.injEq] at hfirst
          unfold InformationBase.learn InformationBase.listed
          rw [hregistry, Registry.intern_intern (.refl _), hfirst.1, hfirst.2]
        refine (ih horiginator' hknown' hforgetful' hseen').trans ?_
        rw [hlearn, h.address]
        simp only [h.isSymmetricNeighbor_eq hknown]
        split
        · rfl
        · exact hfirst

/-- A copy leaves a mark, whoever it comes from, unless nothing is ever remembered. -/
theorem marks_receivePacket_iff (hbody : packet.body = .tc tc)
    (horiginator : packet.header.originator ≠ node.address)
    (hseen : node.hasSeen now packet = false) {sender : Address} (hsender : sender ≠ node.address) :
    (∀ id, (node.receivePacket now packet sender).2.duplicates.marks.get? now id
        = node.duplicates.marks.get? now id) ↔ node.duplicates.holdTime = 0 := by
  have h := tcHandled_receivePacket now hbody horiginator hsender
  have hunmarked : node.duplicates.marks.get? now (node.messageId packet) = none :=
    Option.isNone_iff_eq_none.1 (Option.isSome_eq_false_iff.1 hseen)
  rw [h.duplicates, hasSentOn_of_not_hasSeen hseen, if_neg Bool.false_ne_true]
  simp only [Duplicates.get?_mark]
  constructor
  · intro hsame
    have hmark := hsame (node.messageId packet)
    rw [if_pos rfl, hunmarked] at hmark
    split at hmark
    · assumption
    · cases hmark
  · intro hforgetful id
    split
    · rename_i hid
      rw [← hid, hunmarked]
    · rfl

end Copies

/-! ## Copies after a run -/

/-- **The first copy that is heard decides.** A node after any run gets copies of an announcement
that it has not seen. They come to the same as one copy of the symmetric neighbor `u` exactly if the
first copy that the node did not send itself comes from a symmetric neighbor, or the announcement
tells nothing new, or the node remembers nothing. A copy that does not come from a symmetric
neighbor is discarded, but unless the node remembers nothing it leaves a mark. -/
theorem copies_like_one_iff (address : Address) (config : Config) (since : Nat)
    (ops : List Operation) {packet : Packet} {tc : Tc} (hbody : packet.body = .tc tc)
    (horiginator : packet.header.originator ≠ address) :
    let m := (Moment.start address config since).run ops
    m.node.hasSeen m.now packet = false →
      (∀ (senders : List Address) (u : Address), u ∈ senders →
        m.node.isSymmetricNeighbor m.now u = true →
          ((m.node.receiveCopies m.now packet senders).announced
              = (m.node.receivePacket m.now packet u).2.announced ↔
            config.duplicateHoldTime = 0
              ∨ (∃ s, senders.find? (· ≠ address) = some s
                  ∧ m.node.isSymmetricNeighbor m.now s = true)
              ∨ (m.node.receivePacket m.now packet u).2.announced = m.node.announced))
      ∧ ∀ s, s ≠ address → m.node.isSymmetricNeighbor m.now s = false →
          (m.node.receivePacket m.now packet s).2.announced = m.node.announced
            ∧ ((∀ id, (m.node.receivePacket m.now packet s).2.duplicates.marks.get? m.now id
                  = m.node.duplicates.marks.get? m.now id) ↔ config.duplicateHoldTime = 0) := by
  intro m hseen
  have haddress : m.node.address = address := address_run rfl
  have hholdTime : m.node.duplicates.holdTime = config.duplicateHoldTime := holdTime_run rfl
  have hknown : m.node.NeighborsKnown := fun id hid => (neighbor_run rfl hid).2
  rw [← haddress, ← hholdTime]
  rw [← haddress] at horiginator
  -- one copy of somebody else
  have hone : ∀ s, s ≠ m.node.address → (m.node.receivePacket m.now packet s).2.announced
      = if m.node.isSymmetricNeighbor m.now s then
          m.node.learn m.now packet.header.originator tc packet.header.validity
        else m.node.announced := by
    intro s hs
    exact (tcHandled_receivePacket m.now hbody horiginator hs).announced_eq hknown hseen
  constructor
  · intro senders u hmem hu
    have hne : u ≠ m.node.address := by
      rintro rfl
      have hnot : m.node.isSymmetricNeighbor m.now address = false :=
        isSymmetricNeighbor_address_run rfl m.now
      rw [haddress, hnot] at hu
      nomatch hu
    rw [hone u hne, if_pos hu]
    -- a node that remembers nothing hears every copy for the first time
    by_cases hforgetful : m.node.duplicates.holdTime = 0
    · have hany : (senders.any fun s =>
          s ≠ m.node.address && m.node.isSymmetricNeighbor m.now s) = true := by
        rw [List.any_eq_true]
        exact ⟨u, hmem, by rw [decide_eq_true hne, hu]; rfl⟩
      rw [announced_receiveCopies_of_forgetful hbody horiginator hknown hforgetful hseen senders,
        hany, if_pos rfl]
      exact ⟨fun _ => .inl hforgetful, fun _ => rfl⟩
    · rw [announced_receiveCopies hbody horiginator hknown hforgetful hseen senders]
      obtain ⟨s, hs⟩ : ∃ s, senders.find? (· ≠ m.node.address) = some s := by
        rw [← Option.isSome_iff_exists, List.find?_isSome]
        exact ⟨u, hmem, decide_eq_true hne⟩
      rw [hs, Option.any_some]
      cases hsymmetric : m.node.isSymmetricNeighbor m.now s with
      | true =>
        rw [if_pos rfl]
        exact ⟨fun _ => .inr (.inl ⟨s, rfl, hsymmetric⟩), fun _ => rfl⟩
      | false =>
        rw [if_neg Bool.false_ne_true]
        constructor
        · intro h
          exact .inr (.inr h.symm)
        · rintro (h | ⟨other, hother, hsame⟩ | h)
          · exact absurd h hforgetful
          · cases hother
            rw [hsymmetric] at hsame
            nomatch hsame
          · exact h.symm
  · intro s hs hsymmetric
    rw [hone s hs, hsymmetric, if_neg Bool.false_ne_true]
    exact ⟨rfl, marks_receivePacket_iff hbody horiginator hseen hs⟩

/-! ## A run in which a discarded copy suppresses a good one -/

/-- The `n`-th address of a small network. -/
def hostAddress (n : UInt32) : Address :=
  ⟨0x0a000000 + n⟩

/-- A greeting of the second host that lists the first one as its symmetric neighbor. -/
def greetingOfSecond : Packet where
  header :=
    { validity := ⟨0xe8⟩, originator := hostAddress 2, ttl := 1, hopCount := 0, seq := ⟨0⟩ }
  body := .hello (.list {} ⟨.symmetric, .symmetric⟩ [hostAddress 1])

/-- What the ninth host announces: a link to the eighth one, and a group. -/
def announcementOfNinth : Tc where
  ansn := ⟨1⟩
  advertised := .ofList [hostAddress 8]
  groups := .ofList [(⟨0xe0000001⟩ : Address)]

/-- An announcement of the ninth host. -/
def packetOfNinth : Packet where
  header :=
    { validity := ⟨0xe8⟩, originator := hostAddress 9, ttl := 1, hopCount := 0, seq := ⟨0⟩ }
  body := .tc announcementOfNinth

/-- If the symmetric neighbor comes first, whatever comes from strangers afterwards does no harm. -/
theorem copies_like_one_of_first :
    let m := (Moment.start (hostAddress 1) {} 0).run
      [.receivePacket greetingOfSecond (hostAddress 2)]
    m.node.hasSeen m.now packetOfNinth = false
      ∧ m.node.isSymmetricNeighbor m.now (hostAddress 2) = true
      ∧ m.node.isSymmetricNeighbor m.now (hostAddress 3) = false
      ∧ (m.node.receiveCopies m.now packetOfNinth [hostAddress 2, hostAddress 3]).announced
          = (m.node.receivePacket m.now packetOfNinth (hostAddress 2)).2.announced := by
  intro m
  have hseen : m.node.hasSeen m.now packetOfNinth = false := by decide +kernel
  have hsecond : m.node.isSymmetricNeighbor m.now (hostAddress 2) = true := by decide +kernel
  have hthird : m.node.isSymmetricNeighbor m.now (hostAddress 3) = false := by decide +kernel
  refine ⟨hseen, hsecond, hthird, ?_⟩
  refine ((copies_like_one_iff (hostAddress 1) {} 0
    [.receivePacket greetingOfSecond (hostAddress 2)] rfl (by decide) hseen).1
    [hostAddress 2, hostAddress 3] (hostAddress 2) List.mem_cons_self hsecond).2 ?_
  exact .inr (.inl ⟨hostAddress 2, rfl, hsecond⟩)

/-- A stranger comes first: its copy is discarded, and the one of the symmetric neighbor is then
taken for a duplicate. The announced link and membership are lost. -/
theorem discarded_copy_suppresses :
    let m := (Moment.start (hostAddress 1) {} 0).run
      [.receivePacket greetingOfSecond (hostAddress 2)]
    m.node.hasSeen m.now packetOfNinth = false
      ∧ m.node.isSymmetricNeighbor m.now (hostAddress 2) = true
      ∧ (m.node.receiveCopies m.now packetOfNinth [hostAddress 3, hostAddress 2]).announced
          ≠ (m.node.receivePacket m.now packetOfNinth (hostAddress 2)).2.announced
      ∧ (m.node.receivePacket m.now packetOfNinth (hostAddress 3)).2.hasSeen m.now packetOfNinth
          = true := by
  refine ⟨by decide +kernel, by decide +kernel, ?_, by decide +kernel⟩
  intro h
  have harcs := congrArg (fun tables => (tables.1.arcs 0).length) h
  revert harcs
  decide +kernel

end Node

end Meshcast
