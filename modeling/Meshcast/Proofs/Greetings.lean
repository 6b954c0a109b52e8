import Mathlib.Data.List.Induction
import Meshcast.Proofs.ChangeFlags
import Meshcast.Proofs.Neighborhood
import Meshcast.Proofs.NodeSets
import Meshcast.Proofs.Registry

/-!
# Meshcast — what a greeting says

A greeting is taken apart listing by listing, under identifiers that the receiver may have handed
out just then. This module says what comes out in terms of the greeting and of addresses alone.

* **`HelloReport.read`** — the listings, read one after the other; **`ownCode_read`** and
  **`mem_read`** — what they amount to.
* **`HelloReport.Tells`**, **`InformationBase.reportOf_tells`** — the report of a greeting, in terms
  of addresses.
* **`Heard.Conveys`** — an entry of the neighborhood says what a greeting said.
* **`InformationBase.HelloTaken`**, **`helloTaken_applyHello`** — what learning from a greeting
  makes of the neighbors and the selectors.
-/

namespace Meshcast

/-! ## Greetings -/

namespace Hello

/-- A greeting lists an address as a symmetric neighbor of the sender. -/
def Reports (hello : Hello) (a : Address) : Prop :=
  ∃ code, a ∈ hello.listedUnder code ∧ code.neighbor ≠ .notNeighbor

/-- A greeting lists an address as no neighbor of the sender, or no longer. -/
def Withdraws (hello : Hello) (a : Address) : Prop :=
  ∃ code, a ∈ hello.listedUnder code ∧ code.neighbor = .notNeighbor

/-- Of the codes under which a greeting lists an address, the greatest. -/
def GreatestCode (hello : Hello) (a : Address) (code : LinkCode) : Prop :=
  a ∈ hello.listedUnder code ∧ ∀ other, a ∈ hello.listedUnder other → other.rank ≤ code.rank

/-- There is only one. -/
theorem GreatestCode.unique {hello : Hello} {a : Address} {code other : LinkCode}
    (h : hello.GreatestCode a code) (hother : hello.GreatestCode a other) : code = other :=
  LinkCode.rank_injective (Nat.le_antisymm (hother.2 code h.1) (h.2 other hother.1))

theorem mem_listings {hello : Hello} {code : LinkCode} {a : Address} :
    (code, a) ∈ hello.listings ↔ a ∈ hello.listedUnder code := by
  unfold listings listedUnder
  rw [List.mem_flatMap]
  constructor
  · rintro ⟨⟨other, addresses⟩, hgroup, ha⟩
    obtain ⟨b, hb, heq⟩ := List.mem_map.1 ha
    cases heq
    rw [Std.ExtTreeMap.mem_toList_iff_getElem?_eq_some.1 hgroup]
    simpa using hb
  · intro ha
    cases hgroup : hello.groups[code]? with
    | none => simp [hgroup] at ha
    | some addresses =>
      rw [hgroup, Option.getD_some] at ha
      exact ⟨(code, addresses), Std.ExtTreeMap.mem_toList_iff_getElem?_eq_some.2 hgroup,
        List.mem_map.2 ⟨a, Std.ExtTreeSet.mem_toList.2 ha, rfl⟩⟩

/-- Listings come in the order of their codes. -/
theorem pairwise_listings (hello : Hello) :
    hello.listings.Pairwise fun p q => p.1.rank ≤ q.1.rank := by
  unfold listings
  rw [List.pairwise_flatMap]
  constructor
  · rintro ⟨code, addresses⟩ -
    rw [List.pairwise_map]
    exact List.pairwise_of_forall fun _ _ => Nat.le_refl _
  · refine (Std.ExtTreeMap.ordered_keys_toList (t := hello.groups)).imp ?_
    rintro ⟨code, _⟩ ⟨other, _⟩ hlt p hp q hq
    obtain ⟨_, -, rfl⟩ := List.mem_map.1 hp
    obtain ⟨_, -, rfl⟩ := List.mem_map.1 hq
    have : code.rank < other.rank := Nat.compare_eq_lt.1 hlt
    show code.rank ≤ other.rank
    omega

end Hello

/-! ## Reading a greeting -/

namespace HelloReport

section Reading

variable {self sender : NodeId}

/-- The listings of nodes, one after the other. -/
def read (self sender : NodeId) (listings : List (LinkCode × NodeId)) : HelloReport :=
  listings.foldl (fun report listing => report.add self sender listing.1 listing.2) {}

theorem read_concat (listings : List (LinkCode × NodeId)) (code : LinkCode) (node : NodeId) :
    read self sender (listings ++ [(code, node)]) =
      (read self sender listings).add self sender code node := by
  unfold read
  rw [List.foldl_append, List.foldl_cons, List.foldl_nil]

theorem mem_reported_add {report : HelloReport} {code : LinkCode} {node t : NodeId} :
    t ∈ (report.add self sender code node).reported ↔
      t ∈ report.reported ∨ t = node ∧ code.neighbor ≠ .notNeighbor ∧ t ≠ self ∧ t ≠ sender := by
  unfold add
  split
  · simp_all
  split
  · simp_all
  split
  · simp_all
  · rename_i hself hsender hkind
    rw [mem_insert]
    constructor
    · rintro (rfl | hmem)
      · exact .inr ⟨rfl, hkind, hself, hsender⟩
      · exact .inl hmem
    · rintro (hmem | ⟨rfl, -⟩)
      · exact .inr hmem
      · exact .inl rfl

theorem mem_withdrawn_add {report : HelloReport} {code : LinkCode} {node t : NodeId} :
    t ∈ (report.add self sender code node).withdrawn ↔
      t ∈ report.withdrawn ∨ t = node ∧ code.neighbor = .notNeighbor ∧ t ≠ self ∧ t ≠ sender := by
  unfold add
  split
  · simp_all
  split
  · simp_all
  split
  · rename_i hself hsender hkind
    rw [mem_insert]
    constructor
    · rintro (rfl | hmem)
      · exact .inr ⟨rfl, hkind, hself, hsender⟩
      · exact .inl hmem
    · rintro (hmem | ⟨rfl, -⟩)
      · exact .inr hmem
      · exact .inl rfl
  · simp_all

/-- A part of the report that listings of one kind add to has all the nodes listed so. -/
theorem mem_read (part : HelloReport → NodeSet) (kind : LinkCode → Prop) (hempty : part {} = ∅)
    (hadd : ∀ report code node t, t ∈ part (add self sender report code node) ↔
      t ∈ part report ∨ t = node ∧ kind code ∧ t ≠ self ∧ t ≠ sender)
    {listings : List (LinkCode × NodeId)} {t : NodeId} :
    t ∈ part (read self sender listings) ↔
      ∃ code, (code, t) ∈ listings ∧ kind code ∧ t ≠ self ∧ t ≠ sender := by
  induction listings using List.reverseRecOn with
  | nil => simp [read, hempty]
  | append_singleton listings last ih =>
    obtain ⟨code, node⟩ := last
    rw [read_concat, hadd, ih]
    constructor
    · rintro (⟨other, hmem, hrest⟩ | ⟨rfl, hrest⟩)
      · exact ⟨other, List.mem_append_left _ hmem, hrest⟩
      · exact ⟨code, List.mem_append_right _ List.mem_cons_self, hrest⟩
    · rintro ⟨other, hmem, hrest⟩
      rcases List.mem_append.1 hmem with hmem | hmem
      · exact .inl ⟨other, hmem, hrest⟩
      · cases List.mem_singleton.1 hmem
        exact .inr ⟨rfl, hrest⟩

/-- If listings come in the order of their codes, the last code of the receiver is the greatest. -/
theorem ownCode_read {listings : List (LinkCode × NodeId)}
    (hsorted : listings.Pairwise fun p q => p.1.rank ≤ q.1.rank) {code : LinkCode} :
    (read self sender listings).ownCode = some code ↔
      (code, self) ∈ listings ∧ ∀ other, (other, self) ∈ listings → other.rank ≤ code.rank := by
  induction listings using List.reverseRecOn with
  | nil => simp [read]
  | append_singleton listings last ih =>
    obtain ⟨latest, node⟩ := last
    rw [List.pairwise_append] at hsorted
    obtain ⟨hsorted, -, hlast⟩ := hsorted
    have hbelow : ∀ other, (other, self) ∈ listings → other.rank ≤ latest.rank := by
      intro other hmem
      exact hlast _ hmem _ List.mem_cons_self
    rw [read_concat]
    unfold add
    by_cases hself : node = self
    · subst hself
      rw [if_pos rfl, Option.some.injEq]
      constructor
      · rintro rfl
        refine ⟨List.mem_append_right _ List.mem_cons_self, ?_⟩
        intro other hmem
        rcases List.mem_append.1 hmem with hmem | hmem
        · exact hbelow other hmem
        · cases List.mem_singleton.1 hmem
          exact Nat.le_refl _
      · rintro ⟨hmem, hgreatest⟩
        have hle : latest.rank ≤ code.rank :=
          hgreatest latest (List.mem_append_right _ List.mem_cons_self)
        rcases List.mem_append.1 hmem with hmem | hmem
        · exact LinkCode.rank_injective (Nat.le_antisymm hle (hbelow code hmem))
        · cases List.mem_singleton.1 hmem
          rfl
    · have hsame : ∀ other, (other, self) ∈ listings ++ [(latest, node)] ↔
          (other, self) ∈ listings := by
        intro other
        simp [Ne.symm hself]
      rw [if_neg hself]
      simp only [hsame]
      rw [← ih hsorted]
      split
      · rfl
      · split <;> rfl

end Reading

/-- What becomes of the listings of a greeting when its addresses are registered. -/
theorem ofListings_eq_read (self sender : NodeId) (r : Registry) (hello : Hello) :
    let known := r.internAll hello.listings.unzip.2
    ∃ listings, ofListings self sender hello.listings.unzip.1 known.1 = read self sender listings
      ∧ listings.Pairwise (fun p q => p.1.rank ≤ q.1.rank)
      ∧ ∀ code id, (code, id) ∈ listings ↔
          ∃ a, a ∈ hello.listedUnder code ∧ known.2.lookup? a = some id := by
  intro known
  have hzip : hello.listings.unzip.1.zip known.1 =
      hello.listings.map fun p => (p.1, (known.2.lookup? p.2).getD ⟨0⟩) := by
    rw [show known.1 = _ from r.internAll_eq_map hello.listings.unzip.2]
    simp only [known, List.unzip_eq_map, List.map_map, List.zip_map', Function.comp_apply]
  have hknown : ∀ p ∈ hello.listings, ∃ id, known.2.lookup? p.2 = some id := by
    intro p hp
    refine r.exists_lookup?_internAll ?_
    rw [List.unzip_eq_map]
    exact List.mem_map_of_mem hp
  refine ⟨_, rfl, ?_, ?_⟩
  · rw [hzip, List.pairwise_map]
    exact hello.pairwise_listings
  · intro code id
    rw [hzip, List.mem_map]
    constructor
    · rintro ⟨⟨other, a⟩, hmem, heq⟩
      obtain ⟨found, hfound⟩ := hknown _ hmem
      rw [hfound, Option.getD_some, Prod.mk.injEq] at heq
      obtain ⟨rfl, rfl⟩ := heq
      exact ⟨a, Hello.mem_listings.1 hmem, hfound⟩
    · rintro ⟨a, ha, hfound⟩
      exact ⟨(code, a), Hello.mem_listings.2 ha, by rw [hfound, Option.getD_some]⟩

/-- A report tells what a greeting says, under the identifiers of a registry. -/
structure Tells (report : HelloReport) (hello : Hello) (r : Registry) (own source : Address) :
    Prop where
  ownCode : ∀ code, report.ownCode = some code ↔ hello.GreatestCode own code
  reported : ∀ t, t ∈ report.reported ↔
    ∃ a, r.lookup? a = some t ∧ hello.Reports a ∧ a ≠ own ∧ a ≠ source
  withdrawn : ∀ t, t ∈ report.withdrawn ↔
    ∃ a, r.lookup? a = some t ∧ hello.Withdraws a ∧ a ≠ own ∧ a ≠ source

section Registered

variable {self sender : NodeId} {own source : Address} {r : Registry} {hello : Hello}
  {listings : List (LinkCode × NodeId)}
  (hmem : ∀ code id, (code, id) ∈ listings ↔
    ∃ a, a ∈ hello.listedUnder code ∧ r.lookup? a = some id)
  (hself : r.lookup? own = some self) (hsource : r.lookup? source = some sender)

include hmem hself hsource

theorem exists_listing_iff (kind : LinkCode → Prop) (t : NodeId) :
    (∃ code, (code, t) ∈ listings ∧ kind code ∧ t ≠ self ∧ t ≠ sender) ↔
      ∃ a, r.lookup? a = some t ∧ (∃ code, a ∈ hello.listedUnder code ∧ kind code)
        ∧ a ≠ own ∧ a ≠ source := by
  constructor
  · rintro ⟨code, hlisted, hkind, hnotSelf, hnotSender⟩
    obtain ⟨a, ha, hlookup⟩ := (hmem code t).1 hlisted
    refine ⟨a, hlookup, ⟨code, ha, hkind⟩, ?_, ?_⟩
    · rintro rfl
      exact hnotSelf (Option.some.inj (hlookup.symm.trans hself))
    · rintro rfl
      exact hnotSender (Option.some.inj (hlookup.symm.trans hsource))
  · rintro ⟨a, hlookup, ⟨code, ha, hkind⟩, hnotOwn, hnotSource⟩
    refine ⟨code, (hmem code t).2 ⟨a, ha, hlookup⟩, hkind, ?_, ?_⟩
    · rintro rfl
      exact hnotOwn (Registry.lookup?_injective hlookup hself)
    · rintro rfl
      exact hnotSource (Registry.lookup?_injective hlookup hsource)

theorem tells_read (hsorted : listings.Pairwise fun p q => p.1.rank ≤ q.1.rank) :
    (read self sender listings).Tells hello r own source where
  ownCode code := by
    have howned : ∀ code, (code, self) ∈ listings ↔ own ∈ hello.listedUnder code := by
      intro code
      rw [hmem]
      constructor
      · rintro ⟨a, ha, hlookup⟩
        rwa [Registry.lookup?_injective hlookup hself] at ha
      · intro ha
        exact ⟨own, ha, hself⟩
    rw [ownCode_read hsorted]
    simp only [howned]
    rfl
  reported t := by
    rw [mem_read reported (·.neighbor ≠ .notNeighbor) rfl fun _ _ _ _ => mem_reported_add]
    exact exists_listing_iff hmem hself hsource _ t
  withdrawn t := by
    rw [mem_read withdrawn (·.neighbor = .notNeighbor) rfl fun _ _ _ _ => mem_withdrawn_add]
    exact exists_listing_iff hmem hself hsource _ t

end Registered

end HelloReport

/-! ## What is remembered of a greeting -/

/-- A greeting that a node took note of, and when. -/
structure Heard where
  time : Nat
  hello : Hello
  validity : ValidityTime

namespace Heard

def deadline (g : Heard) : Nat :=
  g.time + g.validity.millis

/-- The sender hears the receiver, and does not take the link to it for lost. -/
def Confirms (g : Heard) (own : Address) : Prop :=
  ∃ code, g.hello.GreatestCode own code ∧ code.link ≠ .lost ∧ code.confirmsLink = true

/-- The sender has the receiver relay its floods. -/
def Chooses (g : Heard) (own : Address) : Prop :=
  ∃ code, g.hello.GreatestCode own code ∧ code.neighbor = .relay

/-- The entry of `sender` at the node with the address `own` says what the greeting said. -/
structure Conveys (g : Heard) (registry : Registry) (own sender : Address) (slot : Slot Neighbor) :
    Prop where
  expiresAt : slot.expiresAt = g.deadline
  symmetric : slot.value.isSymmetric = true ↔ g.Confirms own
  reported : ∀ a, g.hello.Reports a → ∃ t, registry.lookup? a = some t
  twoHop : ∀ t, t ∈ slot.value.twoHop ↔
    ∃ a, registry.lookup? a = some t ∧ g.hello.Reports a ∧ a ≠ own ∧ a ≠ sender

variable {g : Heard} {r r' : Registry} {own sender : Address} {slot slot' : Slot Neighbor}

/-- The entry lives as long as the greeting is valid. -/
theorem Conveys.isLive_iff (h : g.Conveys r own sender slot) {now : Nat} :
    slot.isLive now = true ↔ now < g.deadline := by
  unfold Slot.isLive
  rw [h.expiresAt, decide_eq_true_iff]

/-- Coming to know more participants and relabelling an entry leave what it says. -/
theorem Conveys.retained (h : g.Conveys r own sender slot) (hr : r.Extends r')
    (hexpiresAt : slot'.expiresAt = slot.expiresAt)
    (hsymmetric : slot'.value.isSymmetric = slot.value.isSymmetric)
    (htwoHop : slot'.value.twoHop = slot.value.twoHop) : g.Conveys r' own sender slot' where
  expiresAt := hexpiresAt.trans h.expiresAt
  symmetric := by rw [hsymmetric]; exact h.symmetric
  reported a ha := by
    obtain ⟨t, ht⟩ := h.reported a ha
    exact ⟨t, hr a t ht⟩
  twoHop t := by
    rw [htwoHop, h.twoHop]
    constructor
    · rintro ⟨a, ha, hrest⟩
      exact ⟨a, hr a t ha, hrest⟩
    · rintro ⟨a, ha, hreports, hrest⟩
      -- a reported address was known before, under the same identifier
      obtain ⟨t', ht'⟩ := h.reported a hreports
      rw [hr a t' ht', Option.some.injEq] at ha
      subst ha
      exact ⟨a, ht', hreports, hrest⟩

end Heard

theorem ValidityTime.min_millis (v : ValidityTime) : min v.millis maxLifetime = v.millis := by
  have hmantissa : v.mantissa ≤ 15 := by
    have := v.octet.toNat_lt
    unfold mantissa
    omega
  have hexponent : v.exponent ≤ 15 := by
    unfold exponent
    omega
  have hle : (16 + v.mantissa) * 2 ^ v.exponent ≤ 31 * 2 ^ 15 :=
    Nat.mul_le_mul (by omega) (Nat.pow_le_pow_right (by decide) hexponent)
  unfold millis maxLifetime
  rw [Nat.shiftLeft_eq]
  omega

theorem mem_prune {members keep : NodeSet} {id : NodeId} :
    id ∈ prune members keep ↔ id ∈ members ∧ id ∈ keep := by
  unfold prune
  rw [mem_filter, Std.ExtTreeSet.contains_iff_mem]

theorem Selectors.members_update (s : Selectors) (f : NodeSet → NodeSet) :
    (s.update f).2.members = f s.members := by
  unfold update FlaggedSet.update FlaggedSet.replace members
  dsimp only
  split
  · rename_i heq
    exact heq
  · rfl

namespace HelloReport

theorem isSymmetric_statusAfter (report : HelloReport) (current : NeighborType) :
    (report.statusAfter current).isSymmetric = true ↔
      ∃ code, report.ownCode = some code ∧ code.link ≠ .lost ∧ code.confirmsLink = true := by
  unfold statusAfter
  cases report.ownCode with
  | none => simp [NeighborType.isSymmetric]
  | some code =>
    simp only [Option.some.injEq, exists_eq_left']
    by_cases hlost : code.link = .lost
    · simp [hlost, NeighborType.isSymmetric]
    · cases hconfirms : code.confirmsLink with
      | false => simp [hlost, NeighborType.isSymmetric]
      | true =>
        simp only [hlost, if_false, if_true, ne_eq, not_false_eq_true, and_self, iff_true]
        cases current <;> rfl

theorem choosesReceiver_iff (report : HelloReport) :
    report.choosesReceiver = true ↔
      ∃ code, report.ownCode = some code ∧ code.neighbor = .relay := by
  unfold choosesReceiver
  rw [Option.any_eq_true]
  simp

end HelloReport

namespace InformationBase

/-- What a greeting of another node makes of the neighbors and the selectors. -/
structure HelloTaken (base : InformationBase) (g : Heard) (own source : Address) (id : NodeId)
    (slot : Slot Neighbor) (base' : InformationBase) : Prop where
  lookup?_source : base'.registry.lookup? source = some id
  slots_eq : base'.neighbors.table.slots = base.neighbors.table.slots.insert id slot
  conveys : g.Conveys base'.registry own source slot
  mem_selectors : ∀ other, other ∈ base'.selectors.members ↔
    (if other = id then g.Chooses own else other ∈ base.selectors.members)
      ∧ other ∈ base'.neighbors.symmetric g.time

theorem HelloTaken.getElem?_slots {base base' : InformationBase} {g : Heard} {own source : Address}
    {id : NodeId} {slot : Slot Neighbor} (h : HelloTaken base g own source id slot base')
    (other : NodeId) : base'.neighbors.table.slots[other]? =
      if id = other then some slot else base.neighbors.table.slots[other]? := by
  rw [h.slots_eq, Std.ExtTreeMap.getElem?_insert]
  simp only [Std.compare_eq_iff_eq]

theorem mem_selectors_recordSelector (base : InformationBase) (now : Nat) (sender : NodeId)
    (chosen : Bool) (other : NodeId) :
    other ∈ (base.recordSelector now sender chosen).selectors.members ↔
      (if other = sender then chosen = true else other ∈ base.selectors.members)
        ∧ other ∈ base.neighbors.symmetric now := by
  unfold recordSelector
  dsimp only
  rw [Selectors.members_update, mem_prune]
  refine and_congr_left fun _ => ?_
  cases chosen with
  | true =>
    simp only [if_true, mem_insert]
    by_cases h : other = sender <;> simp [h]
  | false =>
    simp only [Bool.false_eq_true, if_false, mem_erase, ne_eq]
    by_cases h : other = sender <;> simp [h]

/-- Those a greeting lists, and the registry that knows them and the sender. -/
def greeted (base : InformationBase) (source : Address) (hello : Hello) : List NodeId × Registry :=
  (base.registry.intern source).2.internAll hello.listings.unzip.2

def reportOf (base : InformationBase) (source : Address) (hello : Hello) : HelloReport :=
  .ofListings base.self (base.registry.intern source).1 hello.listings.unzip.1
    (base.greeted source hello).1

/-- Whoever is listed is known afterwards. -/
theorem exists_lookup?_greeted (base : InformationBase) (source : Address) {hello : Hello}
    {a : Address} {code : LinkCode} (ha : a ∈ hello.listedUnder code) :
    ∃ t, (base.greeted source hello).2.lookup? a = some t := by
  refine Registry.exists_lookup?_internAll _ ?_
  rw [List.unzip_eq_map]
  exact List.mem_map_of_mem (Hello.mem_listings.2 ha)

theorem applyHello_eq {base : InformationBase} {source : Address} {id : NodeId} {r : Registry}
    (now : Nat) (hello : Hello) (validity : ValidityTime)
    (hid : (base.registry.intern source).1 = id) (hne : id ≠ base.self)
    (hr : (base.greeted source hello).2 = r) :
    base.applyHello now source hello validity =
      let report := base.reportOf source hello
      let recorded := { base with registry := r }.recordNeighbor now id report validity.millis
      (recorded.1, recorded.2.recordSelector now id report.choosesReceiver) := by
  subst hid hr
  exact if_neg hne

/-- The sender of a greeting is not the receiver, both are known afterwards, and the report tells
what the greeting says. -/
theorem reportOf_tells {base : InformationBase} {own source : Address} (hello : Hello)
    (hown : base.registry.lookup? own = some base.self) (hsource : source ≠ own) :
    let r := (base.greeted source hello).2
    (base.registry.intern source).1 ≠ base.self
      ∧ r.lookup? source = some (base.registry.intern source).1
      ∧ (base.reportOf source hello).Tells hello r own source := by
  intro r
  have hextends := base.registry.extends_intern source
  have hsender : (base.registry.intern source).2.lookup? source
      = some (base.registry.intern source).1 := by
    rw [Registry.lookup?_intern, if_pos rfl]
  have hextends' : (base.registry.intern source).2.Extends r := Registry.extends_internAll _ _
  obtain ⟨listings, hlistings, hsorted, hmem⟩ := HelloReport.ofListings_eq_read base.self
    (base.registry.intern source).1 (base.registry.intern source).2 hello
  refine ⟨fun heq => ?_, hextends' source _ hsender, ?_⟩
  · rw [heq] at hsender
    exact hsource (Registry.lookup?_injective hsender (hextends own _ hown))
  · rw [show base.reportOf source hello = _ from hlistings]
    exact HelloReport.tells_read hmem (hextends' own _ (hextends own _ hown))
      (hextends' source _ hsender) hsorted

theorem helloTaken_applyHello {base : InformationBase} {own source : Address} (now : Nat)
    (hello : Hello) (validity : ValidityTime) (hown : base.registry.lookup? own = some base.self)
    (hsource : source ≠ own) :
    ∃ id slot, HelloTaken base ⟨now, hello, validity⟩ own source id slot
      (base.applyHello now source hello validity).2 := by
  obtain ⟨hne, hsender, htells⟩ := reportOf_tells hello hown hsource
  have hlisted : ∀ a, hello.Reports a → ∃ t, (base.greeted source hello).2.lookup? a = some t :=
    fun _ ⟨_, ha, _⟩ => base.exists_lookup?_greeted source ha
  rw [applyHello_eq now hello validity rfl hne rfl]
  generalize base.reportOf source hello = report at htells ⊢
  generalize (base.greeted source hello).2 = r at hsender hlisted htells ⊢
  generalize (base.registry.intern source).1 = sender at hsender ⊢
  refine ⟨sender, _, hsender, slots_recordNeighbor _ now sender report _, ?_, ?_⟩
  · refine ⟨?_, ?_, hlisted, htells.reported⟩
    · show now + min validity.millis maxLifetime = now + validity.millis
      rw [validity.min_millis]
    · show NeighborType.isSymmetric (HelloReport.statusAfter _ _) = true ↔ _
      rw [HelloReport.isSymmetric_statusAfter]
      simp only [htells.ownCode]
      rfl
  · intro other
    rw [mem_selectors_recordSelector, HelloReport.choosesReceiver_iff]
    simp only [htells.ownCode]
    rfl

end InformationBase

end Meshcast
