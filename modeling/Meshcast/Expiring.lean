import Std.Data.ExtTreeMap

/-!
# Meshcast — tables whose entries expire

Every entry of an expiring table has a deadline. An entry past its deadline is dead: no lookup sees
it, although it stays in the table until a sweep takes it away. What a table says at a moment is
therefore its live entries: `getElem?_live` says that a lookup is a lookup in `ExpiringTable.live`.

Changes are made in a transaction, at one reading of the clock. The transaction notes whether the
set of live keys may have changed since its owner last looked; the owner looks at the note when the
transaction is over.
-/

namespace Meshcast

/-- A value with its deadline, in milliseconds of the clock. -/
structure Slot (ν : Type) where
  value : ν
  expiresAt : Nat
deriving DecidableEq

/-- An entry lives until its deadline, the deadline not included. -/
def Slot.isLive {ν : Type} (slot : Slot ν) (now : Nat) : Bool :=
  now < slot.expiresAt

/-- Whether an entry was there before it was put. -/
inductive Put
  | inserted
  | refreshed
deriving DecidableEq

/-- The longest lifetime of an entry; longer ones are cut to it. -/
def maxLifetime : Nat := 4294967295

/-- The deadline of an entry that is given a lifetime now. -/
def deadline (now lifetime : Nat) : Nat :=
  now + min lifetime maxLifetime

/-- A map whose entries expire. -/
structure ExpiringTable (κ ν : Type) [Ord κ] where
  slots : Std.ExtTreeMap κ (Slot ν) := ∅

namespace ExpiringTable

variable {κ ν : Type} [Ord κ] [Std.TransOrd κ]

def get? (table : ExpiringTable κ ν) (now : Nat) (key : κ) : Option ν :=
  (table.slots[key]?.filter (·.isLive now)).map Slot.value

def contains (table : ExpiringTable κ ν) (now : Nat) (key : κ) : Bool :=
  (table.get? now key).isSome

def live (table : ExpiringTable κ ν) (now : Nat) : Std.ExtTreeMap κ ν :=
  table.slots.filterMap fun _ slot => if slot.isLive now then some slot.value else none

def keys (table : ExpiringTable κ ν) (now : Nat) : List κ :=
  (table.live now).keys

def size (table : ExpiringTable κ ν) (now : Nat) : Nat :=
  (table.live now).size

/-- Replace the value of a live entry and leave its deadline. -/
def modify (table : ExpiringTable κ ν) (now : Nat) (key : κ) (f : ν → ν) : ExpiringTable κ ν :=
  ⟨table.slots.modify key fun slot =>
    if slot.isLive now then { slot with value := f slot.value } else slot⟩

theorem getElem?_live [Std.LawfulEqOrd κ] (table : ExpiringTable κ ν) (now : Nat) (key : κ) :
    (table.live now)[key]? = table.get? now key := by
  simp only [live, get?, Std.ExtTreeMap.getElem?_filterMap]
  cases table.slots[key]? with
  | none => rfl
  | some slot => by_cases h : slot.isLive now <;> simp [h, Option.filter]

end ExpiringTable

/-- Changes to a table at one reading of the clock. -/
structure Transaction (κ ν : Type) [Ord κ] where
  table : ExpiringTable κ ν
  now : Nat
  /-- Whether the owner is to look at the live entries afresh. -/
  changed : Bool := false

def ExpiringTable.transaction {κ ν : Type} [Ord κ] (table : ExpiringTable κ ν) (now : Nat) :
    Transaction κ ν :=
  { table, now }

namespace Transaction

variable {κ ν : Type} [Ord κ] [Std.TransOrd κ]

def get? (tx : Transaction κ ν) (key : κ) : Option ν :=
  tx.table.get? tx.now key

def contains (tx : Transaction κ ν) (key : κ) : Bool :=
  tx.table.contains tx.now key

def live (tx : Transaction κ ν) : Std.ExtTreeMap κ ν :=
  tx.table.live tx.now

def markChanged (tx : Transaction κ ν) : Transaction κ ν :=
  { tx with changed := true }

def insert (tx : Transaction κ ν) (key : κ) (value : ν) (lifetime : Nat) :
    Put × Transaction κ ν :=
  let slot := { value, expiresAt := deadline tx.now lifetime }
  let table := ⟨tx.table.slots.insert key slot⟩
  if tx.contains key then (.refreshed, { tx with table })
  else (.inserted, { tx with table, changed := true })

/-- Give a live entry a fresh lifetime; says whether there was one. -/
def refresh (tx : Transaction κ ν) (key : κ) (lifetime : Nat) : Bool × Transaction κ ν :=
  match tx.get? key with
  | none => (false, tx)
  | some value =>
    let slot := { value, expiresAt := deadline tx.now lifetime }
    (true, { tx with table := ⟨tx.table.slots.insert key slot⟩ })

/-- Replace the value of a live entry and leave its deadline. -/
def modify (tx : Transaction κ ν) (key : κ) (f : ν → ν) : Transaction κ ν :=
  { tx with table := tx.table.modify tx.now key f }

/-- Take an entry away and answer its value if it was live. A dead entry goes as well, unnoticed. -/
def remove (tx : Transaction κ ν) (key : κ) : Option ν × Transaction κ ν :=
  let value := tx.get? key
  let table := ⟨tx.table.slots.erase key⟩
  (value, { tx with table, changed := tx.changed || value.isSome })

/-- Keep the slots that satisfy a condition, and count the others. -/
def restrict (tx : Transaction κ ν) (keep : κ → Slot ν → Bool) : Nat × Transaction κ ν :=
  let slots := tx.table.slots.filter keep
  let dropped := tx.table.slots.size - slots.size
  (dropped, { tx with table := ⟨slots⟩, changed := tx.changed || 0 < dropped })

/-- Drop the live entries that fail a condition, and count them. -/
def retain (tx : Transaction κ ν) (keep : κ → ν → Bool) : Nat × Transaction κ ν :=
  tx.restrict fun key slot => !slot.isLive tx.now || keep key slot.value

def sweep (tx : Transaction κ ν) : Nat × Transaction κ ν :=
  tx.restrict fun _ slot => slot.isLive tx.now

/-- What the owner gets to see when the transaction is over: the live entries, if it is to look. -/
def report (tx : Transaction κ ν) : Option (Std.ExtTreeMap κ ν) :=
  if tx.changed then some tx.live else none

/-- What is put with no lifetime is dead at once. -/
theorem get?_insert [Std.LawfulEqOrd κ] [DecidableEq κ] (tx : Transaction κ ν) (key other : κ)
    (value : ν) (lifetime : Nat) :
    (tx.insert key value lifetime).2.get? other =
      if key = other then if lifetime = 0 then none else some value else tx.get? other := by
  have slots : (tx.insert key value lifetime).2.table.slots
      = tx.table.slots.insert key ⟨value, deadline tx.now lifetime⟩ := by
    unfold insert
    split <;> rfl
  have now : (tx.insert key value lifetime).2.now = tx.now := by
    unfold insert
    split <;> rfl
  simp only [get?, ExpiringTable.get?, slots, now, Std.ExtTreeMap.getElem?_insert]
  by_cases e : key = other
  · subst e
    by_cases l : lifetime = 0
    · simp [l, Slot.isLive, deadline]
    · have live : tx.now < deadline tx.now lifetime := by
        unfold deadline maxLifetime
        omega
      simp [l, Slot.isLive, live, Option.filter]
  · have : compare key other ≠ .eq := fun h => e (Std.LawfulEqOrd.eq_of_compare h)
    simp [e, this]

theorem get?_remove [Std.LawfulEqOrd κ] [DecidableEq κ] (tx : Transaction κ ν) (key other : κ) :
    (tx.remove key).2.get? other = if key = other then none else tx.get? other := by
  simp only [get?, remove, ExpiringTable.get?, Std.ExtTreeMap.getElem?_erase]
  by_cases e : key = other
  · subst e
    simp
  · have : compare key other ≠ .eq := fun h => e (Std.LawfulEqOrd.eq_of_compare h)
    simp [e, this]

end Transaction

end Meshcast
