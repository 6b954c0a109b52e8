import Meshcast.Proofs.Announcements
import Meshcast.Proofs.Greetings

/-!
# Meshcast — a greeting that comes again

A greeting that comes again at once has nothing new to tell. It counts as a change all the same if
it contradicts itself: a node that it lists as a neighbor of the sender and as none is taken out of
the entry and put back.

* **`Hello.Contradicts`** — some third party is listed both ways.
* **`recordNeighbor_eq`** — what a greeting leaves of the neighbors, and when it counts as a change.
* **`recordNeighbor_again`**, **`recordSelector_again`** — the second time nothing is left to do,
  but for a contradiction.
* **`applyHello_again`** — the result.
-/

namespace Meshcast

/-! ## Entries -/

/-- A greeting lists somebody, neither the receiver nor the sender, as a neighbor of the sender and
as none at once. -/
def Hello.Contradicts (hello : Hello) (own source : Address) : Prop :=
  ∃ a, hello.Reports a ∧ hello.Withdraws a ∧ a ≠ own ∧ a ≠ source

namespace HelloReport

/-- What the sender's entry is to be, given what it was. -/
def entryAfter (report : HelloReport) (known : Option Neighbor) : Neighbor where
  status := report.statusAfter (known.getD { status := .notNeighbor }).status
  twoHop := report.reported

theorem statusAfter_statusAfter (report : HelloReport) (current : NeighborType) :
    report.statusAfter (report.statusAfter current) = report.statusAfter current := by
  unfold statusAfter
  cases report.ownCode with
  | none => rfl
  | some code =>
    dsimp only
    cases current <;> grind

theorem entryAfter_entryAfter (report : HelloReport) (known : Option Neighbor) :
    report.entryAfter (some (report.entryAfter known)) = report.entryAfter known := by
  unfold entryAfter
  rw [Option.getD_some, statusAfter_statusAfter]

/-- A report changes nothing if it says what is known of a live sender, and says it once. -/
theorem unchanged_iff (report : HelloReport) (known : Option Neighbor) {isNew : Bool}
    (hnew : isNew = true ↔ known = none) :
    let old := known.getD { status := .notNeighbor }
    (report.changesTwoHop old.twoHop || decide (report.statusAfter old.status ≠ old.status)
        || isNew) = false ↔
      known = some (report.entryAfter known) ∧ report.contradicts = false := by
  intro old
  rw [Bool.or_eq_false_iff, Bool.or_eq_false_iff, ← Bool.not_eq_true isNew, hnew]
  unfold changesTwoHop contradicts entryAfter
  cases known with
  | none => simp
  | some entry =>
    obtain ⟨status, twoHop⟩ := entry
    simp only [old, Option.getD_some, Bool.or_eq_false_iff, decide_eq_false_iff_not,
      Decidable.not_not, Option.some.injEq, Neighbor.mk.injEq, reduceCtorEq, not_false_eq_true,
      and_true, eq_comm (a := status)]
    tauto

theorem Tells.contradicts_iff {report : HelloReport} {hello : Hello} {r : Registry}
    {own source : Address} (h : report.Tells hello r own source)
    (hknown : ∀ code, ∀ a ∈ hello.listedUnder code, ∃ t, r.lookup? a = some t) :
    report.contradicts = true ↔ hello.Contradicts own source := by
  unfold contradicts Hello.Contradicts
  simp only [any_eq_true, Std.ExtTreeSet.contains_iff_mem, h.reported, h.withdrawn]
  constructor
  · rintro ⟨t, ⟨a, ha, hreports, hnotOwn, hnotSource⟩, b, hb, hwithdraws, -⟩
    obtain rfl := Registry.lookup?_injective ha hb
    exact ⟨a, hreports, hwithdraws, hnotOwn, hnotSource⟩
  · rintro ⟨a, ⟨code, ha, hkind⟩, hwithdraws, hnotOwn, hnotSource⟩
    obtain ⟨t, ht⟩ := hknown code a ha
    exact ⟨t, ⟨a, ht, ⟨code, ha, hkind⟩, hnotOwn, hnotSource⟩, a, ht, hwithdraws, hnotOwn,
      hnotSource⟩

end HelloReport

/-! ## Putting an entry -/

theorem Transaction.insert_eq {κ ν : Type} [Ord κ] [Std.TransOrd κ] (tx : Transaction κ ν) (key : κ)
    (value : ν) (lifetime : Nat) :
    tx.insert key value lifetime =
      (if tx.contains key then .refreshed else .inserted,
        { tx with
          table := ⟨tx.table.slots.insert key ⟨value, deadline tx.now lifetime⟩⟩
          changed := tx.changed || !tx.contains key }) := by
  unfold insert
  cases tx.contains key <;> simp

namespace Neighborhood

/-- The same neighbors, under other flags. -/
def withFlags (n : Neighborhood) (changed relaysDirty : Bool) : Neighborhood :=
  { n with changed, relaysDirty }

/-- The neighborhood with an entry put into it, unnoticed. -/
def withEntry (n : Neighborhood) (now : Nat) (id : NodeId) (entry : Neighbor) (lifetime : Nat) :
    Neighborhood :=
  { n with table := ⟨n.table.slots.insert id ⟨entry, deadline now lifetime⟩⟩ }

theorem commit_insert (n : Neighborhood) (now : Nat) (id : NodeId) (entry : Neighbor)
    (lifetime : Nat) {changed : Bool} (h : changed = false → n.get? now id ≠ none) :
    n.commit
        (if changed then ((n.table.transaction now).insert id entry lifetime).2.markChanged
        else ((n.table.transaction now).insert id entry lifetime).2) =
      if changed then (n.withEntry now id entry lifetime).publish now
      else n.withEntry now id entry lifetime := by
  rw [Transaction.insert_eq]
  cases changed with
  | true => rfl
  | false =>
    -- a live entry is refreshed, and that raises no note
    have hlive : (n.table.transaction now).contains id = true :=
      Option.isSome_iff_ne_none.2 (h rfl)
    rw [hlive]
    rfl

/-- Where the arcs are those of the live neighbors already, publication raises the flags. -/
theorem publish_of_arcs {n : Neighborhood} {now : Nat}
    (h : n.twoHopArcs = arcsOfAll n.self (n.table.live now)) :
    n.publish now = n.withFlags true true := by
  unfold withFlags
  show { n with twoHopArcs := arcsOfAll n.self (n.table.live now)
                changed := true
                relaysDirty := true } = _
  rw [← h]

end Neighborhood

namespace InformationBase

variable {base base' : InformationBase} {now : Nat} {sender : NodeId} {report : HelloReport}
  {lifetime : Nat}

/-- A greeting counts as a change if the sender's entry was not live, or was another one, or if the
greeting contradicts itself. -/
theorem recordNeighbor_eq (base : InformationBase) (now : Nat) (sender : NodeId)
    (report : HelloReport) (lifetime : Nat) :
    let known := base.neighbors.get? now sender
    let entered := base.neighbors.withEntry now sender (report.entryAfter known) lifetime
    base.recordNeighbor now sender report lifetime =
      if known = some (report.entryAfter known) ∧ report.contradicts = false then
        (false, { base with neighbors := entered })
      else (true, { base with neighbors := entered.publish now }) := by
  intro known entered
  let old := known.getD { status := .notNeighbor }
  let tx := base.neighbors.table.transaction now
  let put := (tx.insert sender (report.entryAfter known) lifetime).1
  let changed : Bool := report.changesTwoHop old.twoHop
    || report.statusAfter old.status ≠ old.status || put = .inserted
  have hput : put = .inserted ↔ known = none := by
    have hcontains : tx.contains sender = known.isSome := rfl
    simp only [put, Transaction.insert_eq, hcontains]
    cases known <;> simp
  have hchanged : changed = false ↔
      known = some (report.entryAfter known) ∧ report.contradicts = false :=
    report.unchanged_iff known (by rw [decide_eq_true_iff, hput])
  have hrecord : base.recordNeighbor now sender report lifetime =
      (changed,
        { base with
          neighbors := base.neighbors.commit
            (if changed then (tx.insert sender (report.entryAfter known) lifetime).2.markChanged
            else (tx.insert sender (report.entryAfter known) lifetime).2) }) :=
    base.recordNeighbor_passes now sender report lifetime
  have hlive : changed = false → known ≠ none := by
    intro hquiet hnone
    have hsame := (hchanged.1 hquiet).1
    rw [hnone] at hsame
    cases hsame
  rw [hrecord, base.neighbors.commit_insert now sender _ lifetime hlive]
  by_cases hsame : known = some (report.entryAfter known) ∧ report.contradicts = false
  · rw [if_pos hsame, hchanged.2 hsame]
    rfl
  · rw [if_neg hsame, Bool.eq_true_of_not_eq_false (mt hchanged.1 hsame)]
    rfl

/-- Afterwards the entry is there. -/
theorem get?_recordNeighbor (hlifetime : 0 < lifetime) :
    (base.recordNeighbor now sender report lifetime).2.neighbors.get? now sender =
      some (report.entryAfter (base.neighbors.get? now sender)) := by
  have hlive : now < Meshcast.deadline now lifetime := by
    unfold Meshcast.deadline maxLifetime
    omega
  let entry := report.entryAfter (base.neighbors.get? now sender)
  refine ExpiringTable.get?_eq_some_iff.2
    ⟨⟨entry, Meshcast.deadline now lifetime⟩, ?_, decide_eq_true hlive, rfl⟩
  rw [slots_recordNeighbor, Std.ExtTreeMap.getElem?_insert_self]
  rfl

/-- A greeting counts as a change exactly if the entry is not as before or the greeting contradicts
itself. -/
theorem recordNeighbor_counts (base : InformationBase) (hlifetime : 0 < lifetime) :
    (base.recordNeighbor now sender report lifetime).1 = true ↔
      base.neighbors.get? now sender
          ≠ (base.recordNeighbor now sender report lifetime).2.neighbors.get? now sender
        ∨ report.contradicts = true := by
  rw [get?_recordNeighbor hlifetime, recordNeighbor_eq]
  split
  · rename_i hsame
    simp [← hsame.1, hsame.2]
  · rename_i hother
    exact iff_of_true rfl (Decidable.not_or_of_imp (by simpa using hother))

/-- The second time the same entry is put. It counts as a change only for a contradiction, and then
the arcs, which were published the first time, are published again. -/
theorem recordNeighbor_again (base : InformationBase) (hlifetime : 0 < lifetime)
    {changed relaysDirty : Bool}
    (h : base'.neighbors = (base.recordNeighbor now sender report lifetime).2.neighbors.withFlags
      changed relaysDirty) :
    base'.recordNeighbor now sender report lifetime =
      if report.contradicts = true then
        (true, { base' with neighbors := base'.neighbors.withFlags true true })
      else (false, base') := by
  have hget : base'.neighbors.get? now sender =
      some (report.entryAfter (base.neighbors.get? now sender)) := by
    rw [h]
    exact get?_recordNeighbor hlifetime
  have hentered : base'.neighbors.withEntry now sender
      (report.entryAfter (base.neighbors.get? now sender)) lifetime = base'.neighbors := by
    have hslots : base'.neighbors.table.slots = base.neighbors.table.slots.insert sender
        ⟨report.entryAfter (base.neighbors.get? now sender), Meshcast.deadline now lifetime⟩ := by
      rw [h]
      exact slots_recordNeighbor base now sender report lifetime
    have hsame : base'.neighbors.table.slots.insert sender
        ⟨report.entryAfter (base.neighbors.get? now sender), Meshcast.deadline now lifetime⟩
          = base'.neighbors.table.slots := by
      rw [hslots]
      refine Std.ExtTreeMap.ext_getElem? fun id => ?_
      simp only [Std.ExtTreeMap.getElem?_insert]
      split <;> rfl
    unfold Neighborhood.withEntry
    rw [hsame]
  rw [recordNeighbor_eq, hget, HelloReport.entryAfter_entryAfter, hentered]
  cases hcontradicts : report.contradicts with
  | false => rw [if_pos ⟨rfl, rfl⟩, if_neg Bool.false_ne_true]
  | true =>
    -- the first time it counted as a change too, so the arcs were published
    have harcs : base'.neighbors.twoHopArcs
        = Neighborhood.arcsOfAll base'.neighbors.self (base'.neighbors.table.live now) := by
      rw [h, recordNeighbor_eq, if_neg (by simp [hcontradicts])]
      rfl
    rw [if_neg (by simp), if_pos rfl, Neighborhood.publish_of_arcs harcs]

/-! ## Selectors -/

theorem recordSelector_again (base : InformationBase) {chosen : Bool}
    (hselectors : base'.selectors = (base.recordSelector now sender chosen).selectors)
    (hsymmetric : base'.neighbors.symmetric now = base.neighbors.symmetric now) :
    base'.recordSelector now sender chosen = base' := by
  let f (members : NodeSet) : NodeSet :=
    prune (if chosen then members.insert sender else members.erase sender)
      (base.neighbors.symmetric now)
  have hf (members : NodeSet) : f (f members) = f members := by
    refine Std.ExtTreeSet.ext_mem fun id => ?_
    simp only [f]
    cases chosen with
    | true => simp only [if_true, mem_prune, mem_insert]; tauto
    | false => simp only [Bool.false_eq_true, if_false, mem_prune, mem_erase]; tauto
  have hmembers : base'.selectors.members = f base.selectors.members := by
    rw [hselectors]
    exact Selectors.members_update base.selectors f
  have hstable : base'.selectors.set.members = f base'.selectors.set.members := by
    show base'.selectors.members = f base'.selectors.members
    rw [hmembers, hf]
  unfold recordSelector Selectors.update FlaggedSet.update FlaggedSet.replace
  rw [hsymmetric, if_pos hstable]

/-! ## The result -/

/-- The same, but for the two flags of the neighbors. -/
def withFlags (base : InformationBase) (changed relaysDirty : Bool) : InformationBase :=
  { base with neighbors := base.neighbors.withFlags changed relaysDirty }

/-- Whoever knows all that a greeting made known reads the same in it. -/
theorem reportOf_again {source : Address} {hello : Hello}
    (hregistry : base'.registry = (base.greeted source hello).2) (hself : base'.self = base.self) :
    base'.registry.intern source = ((base.registry.intern source).1, base'.registry)
      ∧ (base'.greeted source hello).2 = base'.registry
      ∧ base'.reportOf source hello = base.reportOf source hello := by
  have hextends : (base.greeted source hello).2.Extends base'.registry := by
    rw [hregistry]
    exact .refl _
  have hintern : base'.registry.intern source
      = ((base.registry.intern source).1, base'.registry) :=
    Registry.intern_intern ((Registry.extends_internAll _ _).trans hextends)
  have hgreeted : base'.greeted source hello
      = ((base.greeted source hello).1, base'.registry) := by
    unfold greeted
    rw [hintern]
    exact Registry.internAll_internAll hextends
  refine ⟨hintern, by rw [hgreeted], ?_⟩
  unfold reportOf
  rw [hself, hintern, hgreeted]

/-- **A greeting that comes again.** Take any state of a node that knows itself by its own address,
any greeting of another one, and any validity. The greeting counts as a change exactly if the entry
of its sender is not as it was before, since it was not live or another one, or if the greeting
contradicts itself. When it comes again at the same moment, with the flags lowered or not, then, if
it does not contradict itself, it counts as no change, and nothing at all changes. If it contradicts
itself, it counts as a change once more and raises both flags, and nothing else changes. -/
theorem applyHello_again {own source : Address} (hown : base.registry.lookup? own = some base.self)
    (hsource : source ≠ own) (now : Nat) (hello : Hello) (validity : ValidityTime) :
    let first := base.applyHello now source hello validity
    (∃ id, first.2.registry.lookup? source = some id ∧
        (first.1 = true ↔ base.neighbors.get? now id ≠ first.2.neighbors.get? now id
          ∨ hello.Contradicts own source))
      ∧ ∀ changed relaysDirty,
        let between := first.2.withFlags changed relaysDirty
        (¬hello.Contradicts own source →
            between.applyHello now source hello validity = (false, between))
          ∧ (hello.Contradicts own source →
            between.applyHello now source hello validity =
              (true, between.withFlags true true)) := by
  intro first
  obtain ⟨hne, hsender, htells⟩ := reportOf_tells hello hown hsource
  let sender := (base.registry.intern source).1
  let report := base.reportOf source hello
  let informed := { base with registry := (base.greeted source hello).2 }
  let recorded := informed.recordNeighbor now sender report validity.millis
  have hfirst : first
      = (recorded.1, recorded.2.recordSelector now sender report.choosesReceiver) :=
    applyHello_eq now hello validity rfl hne rfl
  have hcontradicts : report.contradicts = true ↔ hello.Contradicts own source :=
    htells.contradicts_iff fun _ _ ha => base.exists_lookup?_greeted source ha
  rw [hfirst]
  refine ⟨⟨sender, hsender, ?_⟩, fun changed relaysDirty => ?_⟩
  · rw [← hcontradicts]
    exact recordNeighbor_counts informed validity.millis_pos
  · intro between
    have hself : between.self = base.self := (noted_recordNeighbor informed now sender report _).1
    have hregistry : between.registry = (base.greeted source hello).2 := rfl
    -- whom the greeting lists is known by now, under the same identifiers
    obtain ⟨hintern, hgreeted, hreport⟩ := reportOf_again hregistry hself
    have hsecond : between.applyHello now source hello validity =
        let again := between.recordNeighbor now sender report validity.millis
        (again.1, again.2.recordSelector now sender report.choosesReceiver) := by
      rw [applyHello_eq now hello validity (congrArg Prod.fst hintern) (hself ▸ hne) hgreeted,
        hreport]
    have hagain : between.recordNeighbor now sender report validity.millis =
        if report.contradicts = true then
          (true, { between with neighbors := between.neighbors.withFlags true true })
        else (false, between) :=
      recordNeighbor_again informed validity.millis_pos rfl
    rw [hsecond, ← hcontradicts]
    dsimp only
    rw [hagain]
    constructor
    · intro hconsistent
      rw [if_neg hconsistent]
      exact congrArg (Prod.mk false) (recordSelector_again recorded.2 rfl rfl)
    · intro hboth
      rw [if_pos hboth]
      exact congrArg (Prod.mk true) (recordSelector_again recorded.2 rfl rfl)

/-- A greeting that lists node 3 as a neighbor and node 4 as none has nothing to tell the second
time. -/
theorem applyHello_again_consistent :
    let hello := (({} : Hello).list ⟨.symmetric, .symmetric⟩ [⟨0x0a000001⟩, ⟨0x0a000003⟩]).list
      ⟨.lost, .notNeighbor⟩ [⟨0x0a000004⟩]
    let base := start ⟨0x0a000001⟩
    let first := base.applyHello 0 ⟨0x0a000002⟩ hello ⟨0xe8⟩
    base.registry.lookup? ⟨0x0a000001⟩ = some base.self
      ∧ first.1 = true ∧ first.2.neighbors.twoHopArcs = .ofList [(⟨⟨1⟩, ⟨2⟩⟩ : Arc)]
      ∧ ¬hello.Contradicts ⟨0x0a000001⟩ ⟨0x0a000002⟩
      ∧ (first.2.withFlags false false).applyHello 0 ⟨0x0a000002⟩ hello ⟨0xe8⟩
        = (false, first.2.withFlags false false) := by
  intro hello base first
  have hown : base.registry.lookup? ⟨0x0a000001⟩ = some base.self := by decide +kernel
  have hlistings : hello.listings =
      [(⟨.symmetric, .symmetric⟩, ⟨0x0a000001⟩), (⟨.symmetric, .symmetric⟩, ⟨0x0a000003⟩),
        (⟨.lost, .notNeighbor⟩, ⟨0x0a000004⟩)] := by
    decide +kernel
  have hconsistent : ¬hello.Contradicts ⟨0x0a000001⟩ ⟨0x0a000002⟩ := by
    rintro ⟨a, ⟨code, ha, hkind⟩, ⟨other, hother, hnone⟩, -⟩
    rw [← Hello.mem_listings, hlistings] at ha hother
    simp at ha hother
    grind
  exact ⟨hown, by decide +kernel, by decide +kernel, hconsistent,
    ((applyHello_again hown (by decide) 0 hello ⟨0xe8⟩).2 false false).1 hconsistent⟩

/-- A greeting that lists node 3 as a neighbor and as none raises the flags every time, and nothing
changes. -/
theorem contradiction_counts_again :
    let hello := (({} : Hello).list ⟨.symmetric, .symmetric⟩ [⟨0x0a000001⟩, ⟨0x0a000003⟩]).list
      ⟨.lost, .notNeighbor⟩ [⟨0x0a000003⟩]
    let first := ((start ⟨0x0a000001⟩).applyHello 0 ⟨0x0a000002⟩ hello ⟨0xe8⟩).2.lowerFlags
    let second := first.applyHello 0 ⟨0x0a000002⟩ hello ⟨0xe8⟩
    first.flags = ⟨false, false, false, false⟩
      ∧ second.1 = true ∧ second.2.flags = ⟨true, true, false, false⟩
      ∧ second.2.neighbors.table.slots = first.neighbors.table.slots
      ∧ second.2.neighbors.twoHopArcs = first.neighbors.twoHopArcs
      ∧ second.2.selectors = first.selectors := by
  decide +kernel

end InformationBase

end Meshcast
