import Meshcast.Proofs.ChangeFlags
import Meshcast.Proofs.Neighborhood
import Meshcast.Proofs.TableRuns

/-!
# Meshcast — which expiries a table reports

The owner of a table relies on what the callback was last shown. An entry that dies stays where it
is, and the sweep that takes it away has the callback run: so the sweep makes up for what time did
in silence. A removal that comes before the sweep takes the dead entry away as well, and no sweep
finds it any more.

* **`Quiet`** — a change of a table that calls for no report, but for the dead entries it buries.
* **`Tracks`** — what was derived from a table when it was last reported: right for the keys that
  are alive, and otherwise about keys whose entries are dead or buried.
* **`settled_reports_iff`** — after a sweep a table's last report, and the arcs that a neighborhood
  has published, are up to date exactly if they are not about buried keys.
-/

namespace Meshcast

/-- What is derived from a table: each item belongs to a key, and the value of the key says whether
the item holds. -/
structure Derivation (α κ ν : Type) where
  keyOf : α → κ
  Supports : ν → α → Prop

namespace Derivation

/-- The keys themselves, whatever their values. -/
def keys (κ ν : Type) : Derivation κ κ ν where
  keyOf := id
  Supports _ _ := True

/-- The arcs that the symmetric neighbors of a node contribute. -/
def arcs (self : NodeId) : Derivation Arc NodeId Neighbor where
  keyOf := Arc.source
  Supports neighbor arc := arc ∈ Neighborhood.arcsOf self arc.source neighbor

end Derivation

section Tracking

variable {α κ ν : Type} [Ord κ] [Std.TransOrd κ]

/-- A change of a table which calls for no report: the live entries afterwards were alive before and
say the same, and entries go only if they are dead. The keys of those that go are `buried`. -/
structure Quiet (d : Derivation α κ ν) (now : Nat) (before after : ExpiringTable κ ν)
    (buried : List κ) : Prop where
  agrees : ∀ key value, after.get? now key = some value → ∃ old, before.get? now key = some old
    ∧ ∀ item, d.keyOf item = key → (d.Supports value item ↔ d.Supports old item)
  stays : ∀ key ∈ before.slots, key ∈ after.slots ∨ key ∈ buried
  old : ∀ key ∈ after.slots, key ∈ before.slots
  gone : ∀ key ∈ buried, key ∉ after.slots

/-- What was last derived from a table holds of the live entries; and what it says beyond them is
about entries that are dead, or buried. -/
structure Tracks (d : Derivation α κ ν) (now : Nat) (table : ExpiringTable κ ν)
    (derived : α → Prop) (buried : List κ) : Prop where
  live : ∀ item value, table.get? now (d.keyOf item) = some value →
    (derived item ↔ d.Supports value item)
  stays : ∀ item, derived item → d.keyOf item ∈ table.slots ∨ d.keyOf item ∈ buried
  gone : ∀ key ∈ buried, key ∉ table.slots

/-- What is to be derived from a table. -/
def Derivation.Holds (d : Derivation α κ ν) (now : Nat) (table : ExpiringTable κ ν) (item : α) :
    Prop :=
  ∃ value, table.get? now (d.keyOf item) = some value ∧ d.Supports value item

variable {d : Derivation α κ ν} {now later : Nat} {before between after : ExpiringTable κ ν}
  {table : ExpiringTable κ ν} {derived : α → Prop} {buried buried' : List κ}

theorem ExpiringTable.mem_of_get? {key : κ} {value : ν} (h : table.get? now key = some value) :
    key ∈ table.slots := by
  obtain ⟨slot, hslot, -⟩ := ExpiringTable.get?_eq_some_iff.1 h
  exact Std.ExtTreeMap.isSome_getElem?_iff_mem.1 (by rw [hslot]; rfl)

theorem ExpiringTable.get?_of_le {key : κ} {value : ν} (hle : now ≤ later)
    (h : table.get? later key = some value) : table.get? now key = some value := by
  obtain ⟨slot, hslot, hlive, hvalue⟩ := ExpiringTable.get?_eq_some_iff.1 h
  refine ExpiringTable.get?_eq_some_iff.2 ⟨slot, hslot, ?_, hvalue⟩
  simp only [Slot.isLive, decide_eq_true_eq] at hlive ⊢
  omega

theorem Quiet.refl (d : Derivation α κ ν) (now : Nat) (table : ExpiringTable κ ν) :
    Quiet d now table table [] where
  agrees _ value h := ⟨value, h, fun _ _ => Iff.rfl⟩
  stays _ h := .inl h
  old _ h := h
  gone := nofun

theorem Quiet.trans (h : Quiet d now before between buried)
    (h' : Quiet d now between after buried') : Quiet d now before after (buried ++ buried') where
  agrees key value hvalue := by
    obtain ⟨mid, hmid, hsupports'⟩ := h'.agrees key value hvalue
    obtain ⟨old, hold, hsupports⟩ := h.agrees key mid hmid
    exact ⟨old, hold, fun item hitem => (hsupports' item hitem).trans (hsupports item hitem)⟩
  stays key hkey := by
    rw [List.mem_append]
    rcases h.stays key hkey with hmid | hburied
    · exact (h'.stays key hmid).imp_right .inr
    · exact .inr (.inl hburied)
  old key hkey := h.old key (h'.old key hkey)
  gone key hkey := by
    rcases List.mem_append.1 hkey with hburied | hburied
    · exact fun hmem => h.gone key hburied (h'.old key hmem)
    · exact h'.gone key hburied

theorem Tracks.quiet (h : Tracks d now before derived buried)
    (hquiet : Quiet d now before after buried') :
    Tracks d now after derived (buried ++ buried') where
  live item value hvalue := by
    obtain ⟨old, hold, hsupports⟩ := hquiet.agrees _ value hvalue
    exact (h.live item old hold).trans (hsupports item rfl).symm
  stays item hitem := by
    rw [List.mem_append]
    rcases h.stays item hitem with hmem | hburied
    · exact (hquiet.stays _ hmem).imp_right .inr
    · exact .inr (.inl hburied)
  gone key hkey := by
    rcases List.mem_append.1 hkey with hburied | hburied
    · exact fun hmem => h.gone key hburied (hquiet.old key hmem)
    · exact hquiet.gone key hburied

/-- Entries die in time, but none comes to life. -/
theorem Tracks.of_le (h : Tracks d now table derived buried) (hle : now ≤ later) :
    Tracks d later table derived buried where
  live item value hvalue := h.live item value (ExpiringTable.get?_of_le hle hvalue)
  stays := h.stays
  gone := h.gone

/-- A fresh derivation tracks its table. -/
theorem tracks_holds (d : Derivation α κ ν) (now : Nat) (table : ExpiringTable κ ν) :
    Tracks d now table (d.Holds now table) [] where
  live item value hvalue := by
    constructor
    · rintro ⟨value', hvalue', hsupports⟩
      rw [hvalue] at hvalue'
      cases hvalue'
      exact hsupports
    · exact fun hsupports => ⟨value, hvalue, hsupports⟩
  stays := by
    rintro item ⟨value, hvalue, -⟩
    exact .inl (ExpiringTable.mem_of_get? hvalue)
  gone := nofun

/-- In a settled table nothing is dead, so what is out of date is about buried keys. -/
theorem Tracks.holds_iff (h : Tracks d now table derived buried) (hsettled : table.Settled now) :
    (∀ item, derived item ↔ d.Holds now table item) ↔
      ∀ item, derived item → d.keyOf item ∉ buried := by
  constructor
  · -- what is buried is not even in the table
    intro hall item hitem hburied
    obtain ⟨value, hvalue, -⟩ := (hall item).1 hitem
    exact h.gone _ hburied (ExpiringTable.mem_of_get? hvalue)
  · intro hnone item
    constructor
    · intro hitem
      have hmem := (h.stays item hitem).resolve_right (hnone item hitem)
      obtain ⟨slot, hslot⟩ :=
        Option.isSome_iff_exists.1 (Std.ExtTreeMap.isSome_getElem?_iff_mem.2 hmem)
      have hvalue : table.get? now (d.keyOf item) = some slot.value :=
        ExpiringTable.get?_eq_some_iff.2 ⟨slot, hslot, hsettled _ slot hslot, rfl⟩
      exact ⟨slot.value, hvalue, (h.live item slot.value hvalue).1 hitem⟩
    · rintro ⟨value, hvalue, hsupports⟩
      exact (h.live item value hvalue).2 hsupports

end Tracking

/-! ## The quiet operations of a transaction -/

namespace Transaction

section Shape

variable {α κ ν : Type} [Ord κ] [Std.TransOrd κ] {d : Derivation α κ ν}

/-- Giving an entry a fresh lifetime is putting its value anew. -/
theorem refresh_eq_insert {tx : Transaction κ ν} {key : κ} {value : ν} {lifetime : Nat}
    (h : tx.get? key = some value) :
    (tx.refresh key lifetime).2 = (tx.insert key value lifetime).2 := by
  have hcontains : tx.contains key = true := by
    show (tx.get? key).isSome = true
    rw [h]
    rfl
  simp only [refresh, h, insert, hcontains, if_true]

theorem quiet_restrict (tx : Transaction κ ν) (keep : κ → Slot ν → Bool)
    (h : (tx.restrict keep).2.changed = false) :
    Quiet d tx.now tx.table (tx.restrict keep).2.table [] := by
  rw [restrict_eq_self h]
  exact Quiet.refl d tx.now tx.table

end Shape

variable {α κ ν : Type} [Ord κ] [Std.TransOrd κ] [Std.LawfulEqOrd κ] {d : Derivation α κ ν}

theorem quiet_insert (tx : Transaction κ ν) (key : κ) (value : ν) (lifetime : Nat)
    (hsupports : ∀ old, tx.get? key = some old →
      ∀ item, d.keyOf item = key → (d.Supports value item ↔ d.Supports old item))
    (h : (tx.insert key value lifetime).2.changed = false) :
    Quiet d tx.now tx.table (tx.insert key value lifetime).2.table [] := by
  classical
  -- without a report the key was alive
  have hcontains : tx.contains key = true := by
    unfold insert at h
    split at h
    · assumption
    · exact absurd h (by simp)
  obtain ⟨old, hold⟩ := Option.isSome_iff_exists.1 hcontains
  have hslots := tx.slots_insert key value lifetime
  have hkey : key ∈ tx.table.slots := ExpiringTable.mem_of_get? hold
  refine ⟨?_, ?_, ?_, fun _ h => absurd h List.not_mem_nil⟩
  · intro other value' hvalue'
    have hlookup := tx.get?_insert key other value lifetime
    rw [get?, show (tx.insert key value lifetime).2.now = tx.now from
      tx.now_act (.insert key value lifetime), hvalue'] at hlookup
    split at hlookup
    · rename_i hother
      subst hother
      split at hlookup
      · exact absurd hlookup (by simp)
      · cases hlookup
        exact ⟨old, hold, hsupports old hold⟩
    · exact ⟨value', hlookup.symm, fun _ _ => Iff.rfl⟩
  · intro other hother
    rw [hslots, Std.ExtTreeMap.mem_insert]
    exact .inl (.inr hother)
  · intro other hother
    rw [hslots, Std.ExtTreeMap.mem_insert, Std.compare_eq_iff_eq] at hother
    rcases hother with rfl | hother
    · exact hkey
    · exact hother

theorem quiet_refresh (tx : Transaction κ ν) (key : κ) (lifetime : Nat)
    (h : (tx.refresh key lifetime).2.changed = false) :
    Quiet d tx.now tx.table (tx.refresh key lifetime).2.table [] := by
  cases hget : tx.get? key with
  | none =>
    simp only [refresh, hget]
    exact Quiet.refl d tx.now tx.table
  | some value =>
    rw [refresh_eq_insert hget] at h ⊢
    refine tx.quiet_insert key value lifetime ?_ h
    intro old hold item _
    rw [hget] at hold
    cases hold
    exact Iff.rfl

theorem quiet_modify (tx : Transaction κ ν) (key : κ) (f : ν → ν)
    (hsupports : ∀ value item, d.Supports (f value) item ↔ d.Supports value item) :
    Quiet d tx.now tx.table (tx.modify key f).table [] := by
  refine ⟨?_, ?_, ?_, nofun⟩
  · intro other value hvalue
    obtain ⟨slot, hslot, hlive, hvalue⟩ := ExpiringTable.get?_eq_some_iff.1 hvalue
    simp only [modify, ExpiringTable.modify, Std.ExtTreeMap.getElem?_modify] at hslot
    split at hslot
    · rename_i hother
      rw [Std.compare_eq_iff_eq] at hother
      subst hother
      obtain ⟨before, hbefore, rfl⟩ := Option.map_eq_some_iff.1 hslot
      split at hlive
      · rename_i halive
        refine ⟨before.value, ExpiringTable.get?_eq_some_iff.2 ⟨before, hbefore, halive, rfl⟩, ?_⟩
        rw [if_pos halive] at hvalue
        intro item _
        rw [← hvalue]
        exact hsupports before.value item
      · -- a dead entry stays as it is
        rename_i hdead
        exact absurd hlive hdead
    · exact ⟨value, ExpiringTable.get?_eq_some_iff.2 ⟨slot, hslot, hlive, hvalue⟩,
        fun _ _ => Iff.rfl⟩
  · exact fun other hother => .inl (Std.ExtTreeMap.mem_modify.2 hother)
  · exact fun other hother => Std.ExtTreeMap.mem_modify.1 hother

/-- A removal that is not noted found no live entry: it buried a dead one, or there was none. -/
theorem quiet_remove (tx : Transaction κ ν) (key : κ) (h : (tx.remove key).2.changed = false) :
    Quiet d tx.now tx.table (tx.remove key).2.table (tx.buriedBy (.remove key)) := by
  classical
  have hget : tx.get? key = none := by
    simp only [remove, Bool.or_eq_false_iff, Option.isSome_eq_false_iff, Option.isNone_iff_eq_none]
      at h
    exact h.2
  have hcontains : tx.contains key = false := by
    show (tx.get? key).isSome = false
    rw [hget]
    rfl
  have hburied (other : κ) :
      other ∈ tx.buriedBy (.remove key) ↔ other = key ∧ key ∈ tx.table.slots := by
    simp only [buriedBy, isDead, hcontains, Bool.not_false, Bool.and_true,
      ← Std.ExtTreeMap.contains_iff_mem]
    cases tx.table.slots.contains key <;> simp
  have hmem (other : κ) :
      other ∈ (tx.remove key).2.table.slots ↔ key ≠ other ∧ other ∈ tx.table.slots := by
    show other ∈ tx.table.slots.erase key ↔ _
    rw [Std.ExtTreeMap.mem_erase, ne_eq, Std.compare_eq_iff_eq]
  refine ⟨?_, ?_, ?_, ?_⟩
  · intro other value hvalue
    have hlookup := tx.get?_remove key other
    rw [get?, show (tx.remove key).2.now = tx.now from rfl, hvalue] at hlookup
    split at hlookup
    · exact absurd hlookup (by simp)
    · exact ⟨value, hlookup.symm, fun _ _ => Iff.rfl⟩
  · intro other hother
    rw [hmem, hburied]
    by_cases e : key = other
    · exact .inr ⟨e.symm, e ▸ hother⟩
    · exact .inl ⟨e, hother⟩
  · exact fun other hother => ((hmem other).1 hother).2
  · intro other hother hthere
    exact ((hmem other).1 hthere).1 ((hburied other).1 hother).1.symm

/-- An action that raises no note is quiet about the keys, and none was raised before. -/
theorem quiet_act (tx : Transaction κ ν) (action : TableAction κ ν)
    (h : (tx.act action).2.changed = false) :
    tx.changed = false
      ∧ Quiet (.keys κ ν) tx.now tx.table (tx.act action).2.table (tx.buriedBy action) := by
  have same : Quiet (.keys κ ν) tx.now tx.table tx.table [] := Quiet.refl _ tx.now tx.table
  cases action with
  | get key => exact ⟨h, same⟩
  | contains key => exact ⟨h, same⟩
  | keys => exact ⟨h, same⟩
  | entries => exact ⟨h, same⟩
  | size => exact ⟨h, same⟩
  | modify key f => exact ⟨h, tx.quiet_modify key f fun _ _ => Iff.rfl⟩
  | insert key value lifetime =>
    refine ⟨?_, tx.quiet_insert key value lifetime (fun _ _ _ _ => Iff.rfl) h⟩
    simp only [act, Prod.map_snd, id, insert] at h
    split at h
    · exact h
    · exact absurd h (by simp)
  | refresh key lifetime =>
    refine ⟨?_, tx.quiet_refresh key lifetime h⟩
    simp only [act, Prod.map_snd, id, refresh] at h
    split at h <;> exact h
  | remove key => exact ⟨(Bool.or_eq_false_iff.1 h).1, tx.quiet_remove key h⟩
  | retain keep => exact ⟨(Bool.or_eq_false_iff.1 h).1, tx.quiet_restrict _ h⟩
  | markChanged => exact absurd h (by simp [act, markChanged])

theorem quiet_actAll (tx : Transaction κ ν) (actions : List (TableAction κ ν))
    (h : (tx.actAll actions).2.changed = false) :
    tx.changed = false
      ∧ Quiet (.keys κ ν) tx.now tx.table (tx.actAll actions).2.table (tx.buriedByAll actions) := by
  induction actions generalizing tx with
  | nil => exact ⟨h, Quiet.refl _ tx.now tx.table⟩
  | cons action rest ih =>
    obtain ⟨hnext, hrest⟩ := ih (tx.act action).2 h
    obtain ⟨hchanged, hfirst⟩ := tx.quiet_act action hnext
    rw [tx.now_act action] at hrest
    exact ⟨hchanged, hfirst.trans hrest⟩

end Transaction

/-! ## Tables -/

namespace WatchedTable

section Shape

variable {κ ν : Type} [Ord κ] [Std.TransOrd κ]

/-- An event that raises the note has the callback run, and leaves nothing buried. -/
theorem step_of_changed {w : WatchedTable κ ν} {event : TableEvent κ ν}
    (h : (w.perform event).2.changed = true) :
    (w.step event).2 =
      { now := w.now + event.duration
        table := (w.perform event).2.table
        shown := (w.perform event).2.live } := by
  simp only [step, Transaction.report, h, if_true, Option.getD_some]

theorem step_of_quiet {w : WatchedTable κ ν} {event : TableEvent κ ν}
    (h : (w.perform event).2.changed = false) :
    (w.step event).2 =
      { w with
        now := w.now + event.duration
        table := (w.perform event).2.table
        buried := w.buried ++ w.buriedBy event } := by
  simp only [step, Transaction.report, h, Bool.false_eq_true, if_false, Option.getD_none]

theorem run_append (w : WatchedTable κ ν) (events : List (TableEvent κ ν))
    (event : TableEvent κ ν) : w.run (events ++ [event]) = ((w.run events).step event).2 := by
  simp only [run, List.foldl_append, List.foldl_cons, List.foldl_nil]

end Shape

variable {κ ν : Type} [Ord κ] [Std.TransOrd κ] [Std.LawfulEqOrd κ]

/-- What the callback was shown last is what the keys of the table were then. -/
def Tracked (w : WatchedTable κ ν) : Prop :=
  Tracks (.keys κ ν) w.now w.table (· ∈ w.shown) w.buried

theorem holds_keys_iff {table : ExpiringTable κ ν} {now : Nat} {key : κ} :
    (Derivation.keys κ ν).Holds now table key ↔ key ∈ table.live now := by
  rw [← Std.ExtTreeMap.isSome_getElem?_iff_mem, ExpiringTable.getElem?_live,
    Option.isSome_iff_exists]
  exact ⟨fun ⟨value, hvalue, _⟩ => ⟨value, hvalue⟩, fun ⟨value, hvalue⟩ => ⟨value, hvalue, trivial⟩⟩

theorem quiet_perform (w : WatchedTable κ ν) (event : TableEvent κ ν)
    (h : (w.perform event).2.changed = false) :
    Quiet (.keys κ ν) w.now w.table (w.perform event).2.table (w.buriedBy event) := by
  cases event with
  | transaction actions => exact (Transaction.quiet_actAll _ actions h).2
  | sweep => exact Transaction.quiet_restrict (w.table.transaction w.now) _ h
  | advance duration => exact Quiet.refl _ w.now w.table

theorem tracked_step {w : WatchedTable κ ν} (h : w.Tracked) (event : TableEvent κ ν) :
    (w.step event).2.Tracked := by
  have hle : w.now ≤ w.now + event.duration := Nat.le_add_right _ _
  cases hchanged : (w.perform event).2.changed with
  | false =>
    rw [step_of_quiet hchanged]
    exact (h.quiet (w.quiet_perform event hchanged)).of_le hle
  | true =>
    -- the callback is shown what is alive at the time of the transaction
    have hshown : (Derivation.keys κ ν).Holds w.now (w.perform event).2.table =
        (· ∈ (w.perform event).2.live) := by
      funext key
      rw [eq_iff_iff, holds_keys_iff, ← w.now_perform event]
      rfl
    have hholds := tracks_holds (.keys κ ν) w.now (w.perform event).2.table
    rw [hshown] at hholds
    rw [step_of_changed hchanged]
    exact hholds.of_le hle

theorem tracked_run (events : List (TableEvent κ ν)) :
    (run ({} : WatchedTable κ ν) events).Tracked := by
  have hempty : ({} : WatchedTable κ ν).Tracked :=
    ⟨fun key value h => absurd (ExpiringTable.mem_of_get? h) Std.ExtTreeMap.not_mem_empty,
      fun key h => absurd h Std.ExtTreeMap.not_mem_empty, nofun⟩
  exact List.foldlRecOn events _ hempty fun _ h event _ => tracked_step h event

/-- A sweep leaves nothing dead, and takes no time. -/
theorem settled_step_sweep (w : WatchedTable κ ν) :
    (w.step .sweep).2.table.Settled (w.step .sweep).2.now :=
  Transaction.settled_sweep (w.table.transaction w.now)

end WatchedTable

/-! ## Neighborhoods -/

/-- What may happen to a neighborhood. -/
inductive NeighborhoodEvent
  | put (id : NodeId) (neighbor : Neighbor) (lifetime : Nat)
  /-- A greeting is recorded. -/
  | greet (sender : NodeId) (report : HelloReport) (lifetime : Nat)
  | remove (id : NodeId)
  | markRelays (relays : NodeSet)
  | publish
  | takeChanged
  | takeRelaysDirty
  | sweep
  | advance (duration : Nat)

namespace NeighborhoodEvent

/-- What an event makes of a neighborhood. Whatever else is known has no part in how a greeting is
recorded. -/
def perform (n : Neighborhood) (now : Nat) : NeighborhoodEvent → Neighborhood
  | .put id neighbor lifetime => (n.put now id neighbor lifetime).2
  | .greet sender report lifetime =>
    (InformationBase.recordNeighbor { registry := .empty, neighbors := n } now sender report
      lifetime).2.neighbors
  | .remove id => (n.remove now id).2
  | .markRelays relays => (n.markRelays now relays).2
  | .publish => n.publish now
  | .takeChanged => n.takeChanged.2
  | .takeRelaysDirty => n.takeRelaysDirty.2
  | .sweep => (n.sweep now).2
  | .advance _ => n

def duration : NeighborhoodEvent → Nat
  | .advance duration => duration
  | _ => 0

/-- The arcs are published afresh: the flag about the relays goes up with that, and only with
that. -/
def publishes (n : Neighborhood) (now : Nat) (event : NeighborhoodEvent) : Bool :=
  (event.perform { n with relaysDirty := false } now).relaysDirty

/-- The neighbors whose dead entries an event takes away. -/
def buriedBy (n : Neighborhood) (now : Nat) : NeighborhoodEvent → List NodeId
  | .remove id => (n.table.transaction now).buriedBy (.remove id)
  | _ => []

end NeighborhoodEvent

/-- A neighborhood with its clock. -/
structure WatchedNeighborhood where
  now : Nat := 0
  neighborhood : Neighborhood
  /-- The neighbors whose dead entries were removed since the arcs were last published. -/
  buried : List NodeId := []

namespace WatchedNeighborhood

def step (w : WatchedNeighborhood) (event : NeighborhoodEvent) : WatchedNeighborhood where
  now := w.now + event.duration
  neighborhood := event.perform w.neighborhood w.now
  buried :=
    if event.publishes w.neighborhood w.now then []
    else w.buried ++ event.buriedBy w.neighborhood w.now

def run (self : NodeId) (events : List NeighborhoodEvent) : WatchedNeighborhood :=
  events.foldl step { neighborhood := { self } }

end WatchedNeighborhood

namespace Neighborhood

/-- The arcs were published afresh; or they are as they were, and the change of the table calls for
no publication. -/
structure Accounted (now : Nat) (n n' : Neighborhood) (published : Bool) (buried : List NodeId) :
    Prop where
  self_eq : n'.self = n.self
  fresh : published = true → n'.twoHopArcs = arcsOfAll n.self (n'.table.live now)
  arcs_eq : published = false → n'.twoHopArcs = n.twoHopArcs
  quiet : published = false → Quiet (.arcs n.self) now n.table n'.table buried

theorem holds_arcs_iff {self : NodeId} {table : ExpiringTable NodeId Neighbor} {now : Nat}
    {arc : Arc} :
    (Derivation.arcs self).Holds now table arc ↔ arc ∈ arcsOfAll self (table.live now) := by
  rw [mem_arcsOfAll, ExpiringTable.getElem?_live]
  simp only [Derivation.Holds, Derivation.arcs, mem_arcsOf, true_and]

theorem accounted_commit {now : Nat} {n : Neighborhood} {tx : Transaction NodeId Neighbor}
    {buried : List NodeId} (hnow : tx.now = now)
    (hquiet : tx.changed = false → Quiet (.arcs n.self) now n.table tx.table buried) :
    Accounted now n (n.commit tx) (commit { n with relaysDirty := false } tx).relaysDirty
      buried := by
  subst hnow
  unfold commit Transaction.report
  cases hchanged : tx.changed with
  | true => exact ⟨rfl, fun _ => rfl, nofun, nofun⟩
  | false => exact ⟨rfl, nofun, fun _ => rfl, fun _ => hquiet hchanged⟩

/-- Putting an entry is accounted for if whoever puts it calls for publication whenever the entry
differs from a live one. -/
theorem accounted_commit_insert (n : Neighborhood) (now : Nat) (id : NodeId) (entry : Neighbor)
    (lifetime : Nat) (changed : Bool)
    (h : changed = false → ∀ old, n.get? now id = some old → old = entry) :
    let put := (n.table.transaction now).insert id entry lifetime
    let tx := if changed then put.2.markChanged else put.2
    Accounted now n (n.commit tx) (commit { n with relaysDirty := false } tx).relaysDirty [] := by
  intro put tx
  have hnow : put.2.now = now := (n.table.transaction now).now_act (.insert id entry lifetime)
  cases changed with
  | true => exact accounted_commit hnow nofun
  | false =>
    refine accounted_commit hnow (Transaction.quiet_insert _ id entry lifetime ?_)
    intro old hold item _
    rw [h rfl old hold]

theorem quiet_markRelays (n : Neighborhood) (now : Nat) (relays : NodeSet) :
    Quiet (.arcs n.self) now n.table (n.markRelays now relays).2.table [] := by
  refine ⟨?_, ?_, ?_, nofun⟩
  · intro id entry hentry
    rw [show (n.markRelays now relays).2.table.get? now id = _ from get?_markRelays n now relays id]
      at hentry
    obtain ⟨old, hold, rfl⟩ := Option.map_eq_some_iff.1 hentry
    refine ⟨old, hold, fun arc _ => ?_⟩
    simp only [Derivation.arcs, mem_arcsOf, Neighbor.isSymmetric]
    rw [isSymmetric_statusUnder]
    rfl
  · exact fun id hid => .inl (Std.ExtTreeMap.mem_map.2 hid)
  · exact fun id hid => Std.ExtTreeMap.mem_map.1 hid

/-- A greeting writes its sender's entry, however it finds out what is new in it. -/
theorem accounted_greet (n : Neighborhood) (now : Nat) (sender : NodeId) (report : HelloReport)
    (lifetime : Nat) :
    let event := NeighborhoodEvent.greet sender report lifetime
    Accounted now n (event.perform n now) (event.publishes n now) (event.buriedBy n now) := by
  intro event
  simp only [event, NeighborhoodEvent.publishes, NeighborhoodEvent.perform,
    InformationBase.recordNeighbor_passes]
  refine accounted_commit_insert n now sender _ lifetime _ ?_
  intro hquiet old hold
  -- the sender was live, so what is known of it is its entry
  rw [hold] at hquiet ⊢
  exact HelloReport.entry_eq_of_unchanged hquiet

theorem accounted_perform (n : Neighborhood) (now : Nat) (event : NeighborhoodEvent) :
    Accounted now n (event.perform n now) (event.publishes n now) (event.buriedBy n now) := by
  have same : Quiet (.arcs n.self) now n.table n.table [] := Quiet.refl _ now n.table
  cases event with
  | put id neighbor lifetime =>
    refine accounted_commit_insert n now id neighbor lifetime
      ((n.get? now id).any (· ≠ neighbor)) ?_
    intro hsame old hold
    rw [hold] at hsame
    simpa using hsame
  | greet sender report lifetime => exact n.accounted_greet now sender report lifetime
  | remove id => exact accounted_commit rfl ((n.table.transaction now).quiet_remove id)
  | markRelays relays => exact ⟨rfl, nofun, fun _ => rfl, fun _ => n.quiet_markRelays now relays⟩
  | publish =>
    have noted : (n.table.transaction now).markChanged.changed ≠ false := nofun
    exact accounted_commit rfl fun h => absurd h noted
  | takeChanged => exact ⟨rfl, nofun, fun _ => rfl, fun _ => same⟩
  | takeRelaysDirty => exact ⟨rfl, nofun, fun _ => rfl, fun _ => same⟩
  | sweep => exact accounted_commit rfl ((n.table.transaction now).quiet_restrict _)
  | advance duration => exact ⟨rfl, nofun, fun _ => rfl, fun _ => same⟩

end Neighborhood

namespace WatchedNeighborhood

/-- The published arcs are what the entries contributed when they were last published. -/
def Tracked (w : WatchedNeighborhood) : Prop :=
  Tracks (.arcs w.neighborhood.self) w.now w.neighborhood.table (· ∈ w.neighborhood.twoHopArcs)
    w.buried

theorem tracked_step {w : WatchedNeighborhood} (h : w.Tracked) (event : NeighborhoodEvent) :
    (w.step event).Tracked := by
  have hle : w.now ≤ w.now + event.duration := Nat.le_add_right _ _
  have haccounted := w.neighborhood.accounted_perform w.now event
  unfold Tracked step
  dsimp only
  rw [haccounted.self_eq]
  cases hpublishes : event.publishes w.neighborhood w.now with
  | false =>
    rw [if_neg Bool.false_ne_true, haccounted.arcs_eq hpublishes]
    exact (h.quiet (haccounted.quiet hpublishes)).of_le hle
  | true =>
    rw [if_pos rfl, haccounted.fresh hpublishes]
    have hholds := tracks_holds (.arcs w.neighborhood.self) w.now
      (event.perform w.neighborhood w.now).table
    have harcs : (Derivation.arcs w.neighborhood.self).Holds w.now
        (event.perform w.neighborhood w.now).table =
          (· ∈ Neighborhood.arcsOfAll w.neighborhood.self
            ((event.perform w.neighborhood w.now).table.live w.now)) := by
      funext arc
      exact propext Neighborhood.holds_arcs_iff
    rw [harcs] at hholds
    exact hholds.of_le hle

theorem run_append (self : NodeId) (events : List NeighborhoodEvent) (event : NeighborhoodEvent) :
    run self (events ++ [event]) = (run self events).step event := by
  simp only [run, List.foldl_append, List.foldl_cons, List.foldl_nil]

theorem settled_step_sweep (w : WatchedNeighborhood) :
    (w.step .sweep).neighborhood.table.Settled (w.step .sweep).now :=
  Neighborhood.settled_sweep w.neighborhood w.now

theorem tracked_run (self : NodeId) (events : List NeighborhoodEvent) :
    (run self events).Tracked := by
  have hempty : Tracked { neighborhood := { self } } :=
    ⟨fun arc value h => absurd (ExpiringTable.mem_of_get? h) Std.ExtTreeMap.not_mem_empty,
      fun arc h => absurd h Std.ExtTreeSet.not_mem_empty, nofun⟩
  exact List.foldlRecOn events _ hempty fun _ h event _ => tracked_step h event

end WatchedNeighborhood

/-! ## After a sweep -/

/-- The callback was last shown exactly the keys that are alive. -/
def WatchedTable.UpToDate {κ ν : Type} [Ord κ] [Std.TransOrd κ] (w : WatchedTable κ ν) : Prop :=
  ∀ key, key ∈ w.shown ↔ key ∈ w.table.live w.now

theorem WatchedTable.Tracked.upToDate_iff {κ ν : Type} [Ord κ] [Std.TransOrd κ]
    [Std.LawfulEqOrd κ] {w : WatchedTable κ ν} (h : w.Tracked) (hsettled : w.table.Settled w.now) :
    w.UpToDate ↔ ∀ key ∈ w.shown, key ∉ w.buried := by
  have hiff := h.holds_iff hsettled
  simp only [WatchedTable.holds_keys_iff] at hiff
  exact hiff

/-- The published arcs are those of the live symmetric neighbors. -/
def WatchedNeighborhood.UpToDate (w : WatchedNeighborhood) : Prop :=
  w.neighborhood.twoHopArcs =
    Neighborhood.arcsOfAll w.neighborhood.self (w.neighborhood.table.live w.now)

theorem WatchedNeighborhood.Tracked.upToDate_iff {w : WatchedNeighborhood} (h : w.Tracked)
    (hsettled : w.neighborhood.table.Settled w.now) :
    w.UpToDate ↔ ∀ arc ∈ w.neighborhood.twoHopArcs, arc.source ∉ w.buried := by
  have hiff := h.holds_iff hsettled
  simp only [Neighborhood.holds_arcs_iff] at hiff
  exact Std.ExtTreeSet.ext_mem_iff.trans hiff

/-- After a sweep a table is up to date, unless the callback was last shown a key whose dead entry
was removed before a sweep could find it. A neighborhood is so too, unless an arc was published from
such a neighbor. -/
theorem settled_reports_iff {κ ν : Type} [Ord κ] [Std.TransOrd κ] [Std.LawfulEqOrd κ]
    (events : List (TableEvent κ ν)) (self : NodeId) (happenings : List NeighborhoodEvent) :
    (let w := WatchedTable.run {} (events ++ [.sweep])
     w.UpToDate ↔ ∀ key ∈ w.shown, key ∉ w.buried)
    ∧ (let w := WatchedNeighborhood.run self (happenings ++ [.sweep])
       w.UpToDate ↔ ∀ arc ∈ w.neighborhood.twoHopArcs, arc.source ∉ w.buried) := by
  constructor
  · have htracked := WatchedTable.tracked_run (events ++ [.sweep])
    rw [WatchedTable.run_append] at htracked ⊢
    exact htracked.upToDate_iff (WatchedTable.settled_step_sweep _)
  · have htracked := WatchedNeighborhood.tracked_run self (happenings ++ [.sweep])
    rw [WatchedNeighborhood.run_append] at htracked ⊢
    exact htracked.upToDate_iff (WatchedNeighborhood.settled_step_sweep _)

/-- An entry is put and dies. -/
def TableEvent.death : List (TableEvent Nat String) :=
  [.transaction [.insert 1 "a" 10], .advance 10]

/-- A symmetric neighbor with a neighbor of its own is put and dies. -/
def NeighborhoodEvent.death : List NeighborhoodEvent :=
  [.put ⟨1⟩ { status := .symmetric, twoHop := (∅ : NodeSet).insert ⟨2⟩ } 10, .advance 10]

/-- What has died is reported when it is swept. -/
theorem swept_entry_reported :
    (WatchedTable.run {} (TableEvent.death ++ [.sweep])).UpToDate
      ∧ (WatchedNeighborhood.run ⟨0⟩ (NeighborhoodEvent.death ++ [.sweep])).UpToDate := by
  have reports := settled_reports_iff TableEvent.death ⟨0⟩ NeighborhoodEvent.death
  refine ⟨reports.1.2 ?_, reports.2.2 ?_⟩
  · have hburied : (WatchedTable.run {} (TableEvent.death ++ [.sweep])).buried = [] := by
      decide +kernel
    intro key _
    rw [hburied]
    exact List.not_mem_nil
  · have hburied :
        (WatchedNeighborhood.run ⟨0⟩ (NeighborhoodEvent.death ++ [.sweep])).buried = [] := by
      decide +kernel
    intro arc _
    rw [hburied]
    exact List.not_mem_nil

/-- What has died is not reported when it is removed before the sweep: the callback was last shown a
key that is alive no more, and the arc of a neighbor that is none any more stays published. -/
theorem removed_dead_entry_unreported :
    (let w := WatchedTable.run {} (TableEvent.death ++ [.transaction [.remove 1], .sweep])
     w.shown.keys = [1] ∧ w.table.keys w.now = [])
    ∧ (let w := WatchedNeighborhood.run ⟨0⟩ (NeighborhoodEvent.death ++ [.remove ⟨1⟩, .sweep])
       w.neighborhood.twoHopArcs.toList = [⟨⟨1⟩, ⟨2⟩⟩] ∧ w.neighborhood.entries w.now = []) := by
  decide +kernel

end Meshcast
