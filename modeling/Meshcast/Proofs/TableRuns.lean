import Meshcast.Proofs.Expiring

/-!
# Meshcast — what may happen to an expiring table

A table is used in transactions, it is swept, and in between time passes. A run is a list of such
events from the empty table on. Reading, putting or removing a single entry is a transaction of one
action, and so is asking for the callback to run.

* **`Transaction.act`** — one action and its answer.
* **`WatchedTable`** — a table, its clock and what its callback was last shown. It remembers as well
  which keys a removal took away dead since then, because no callback has heard of these.
* **`answers`** — what the events of a run answer, sweeps left out.
-/

namespace Meshcast

/-- What may be done to a table inside a transaction. -/
inductive TableAction (κ ν : Type)
  | get (key : κ)
  | contains (key : κ)
  /-- Replace the value of a live entry in place, and answer the one it had. -/
  | modify (key : κ) (f : ν → ν)
  | insert (key : κ) (value : ν) (lifetime : Nat)
  | refresh (key : κ) (lifetime : Nat)
  | remove (key : κ)
  | retain (keep : κ → ν → Bool)
  | keys
  | entries
  | size
  | markChanged

inductive TableAnswer (κ ν : Type)
  | done
  | value (value : Option ν)
  | truth (truth : Bool)
  | put (put : Put)
  | count (count : Nat)
  | keys (keys : List κ)
  | entries (entries : List (κ × ν))
deriving DecidableEq

/-- What may happen to a table: its owner does something to it, it is swept, or time passes. -/
inductive TableEvent (κ ν : Type)
  | transaction (actions : List (TableAction κ ν))
  | sweep
  | advance (duration : Nat)

namespace TableEvent

variable {κ ν : Type}

def isSweep : TableEvent κ ν → Bool
  | .sweep => true
  | _ => false

/-- How far an event moves the clock. -/
def duration : TableEvent κ ν → Nat
  | .advance duration => duration
  | _ => 0

end TableEvent

/-- The answers of a run from a state on, those of the sweeps left out. -/
def answers {σ κ ν : Type} (step : σ → TableEvent κ ν → List (TableAnswer κ ν) × σ) :
    σ → List (TableEvent κ ν) → List (List (TableAnswer κ ν))
  | _, [] => []
  | state, event :: rest =>
    let (answer, next) := step state event
    if event.isSweep then answers step next rest else answer :: answers step next rest

namespace Transaction

variable {κ ν : Type} [Ord κ] [Std.TransOrd κ]

def act (tx : Transaction κ ν) : TableAction κ ν → TableAnswer κ ν × Transaction κ ν
  | .get key => (.value (tx.get? key), tx)
  | .contains key => (.truth (tx.contains key), tx)
  | .modify key f => (.value (tx.get? key), tx.modify key f)
  | .insert key value lifetime => (tx.insert key value lifetime).map .put id
  | .refresh key lifetime => (tx.refresh key lifetime).map .truth id
  | .remove key => (tx.remove key).map .value id
  | .retain keep => (tx.retain keep).map .count id
  | .keys => (.keys (tx.table.keys tx.now), tx)
  | .entries => (.entries tx.live.toList, tx)
  | .size => (.count (tx.table.size tx.now), tx)
  | .markChanged => (.done, tx.markChanged)

def actAll (tx : Transaction κ ν) :
    List (TableAction κ ν) → List (TableAnswer κ ν) × Transaction κ ν
  | [] => ([], tx)
  | action :: rest =>
    let (answer, next) := tx.act action
    let (answers, last) := next.actAll rest
    (answer :: answers, last)

/-- There still is an entry of the key, but it is dead. -/
def isDead (tx : Transaction κ ν) (key : κ) : Bool :=
  tx.table.slots.contains key && !tx.contains key

/-- The keys whose dead entries an action takes away. -/
def buriedBy (tx : Transaction κ ν) : TableAction κ ν → List κ
  | .remove key => if tx.isDead key then [key] else []
  | _ => []

/-- The keys whose dead entries a list of actions takes away. -/
def buriedByAll (tx : Transaction κ ν) : List (TableAction κ ν) → List κ
  | [] => []
  | action :: rest => tx.buriedBy action ++ (tx.act action).2.buriedByAll rest

theorem now_act (tx : Transaction κ ν) (action : TableAction κ ν) :
    (tx.act action).2.now = tx.now := by
  cases action with
  | insert key value lifetime =>
    simp only [act, Prod.map_snd, id, insert]
    split <;> rfl
  | refresh key lifetime =>
    simp only [act, Prod.map_snd, id, refresh]
    split <;> rfl
  | _ => rfl

theorem now_actAll (tx : Transaction κ ν) (actions : List (TableAction κ ν)) :
    (tx.actAll actions).2.now = tx.now := by
  induction actions generalizing tx with
  | nil => rfl
  | cons action rest ih => exact (ih (tx.act action).2).trans (tx.now_act action)

end Transaction

/-- A table with its clock and its callback. -/
structure WatchedTable (κ ν : Type) [Ord κ] where
  now : Nat := 0
  table : ExpiringTable κ ν := {}
  /-- The live entries as the callback was shown them when it last ran. -/
  shown : Std.ExtTreeMap κ ν := ∅
  /-- The keys whose dead entries were removed since the callback last ran. -/
  buried : List κ := []

namespace WatchedTable

variable {κ ν : Type} [Ord κ] [Std.TransOrd κ]

/-- The transaction that an event amounts to. Time passes after it. -/
def perform (w : WatchedTable κ ν) : TableEvent κ ν → List (TableAnswer κ ν) × Transaction κ ν
  | .transaction actions => (w.table.transaction w.now).actAll actions
  | .sweep => (w.table.transaction w.now).sweep.map (fun dropped => [.count dropped]) id
  | .advance _ => ([], w.table.transaction w.now)

def buriedBy (w : WatchedTable κ ν) : TableEvent κ ν → List κ
  | .transaction actions => (w.table.transaction w.now).buriedByAll actions
  | _ => []

def step (w : WatchedTable κ ν) (event : TableEvent κ ν) :
    List (TableAnswer κ ν) × WatchedTable κ ν :=
  let (answer, tx) := w.perform event
  (answer,
    { now := w.now + event.duration
      table := tx.table
      shown := tx.report.getD w.shown
      buried := if tx.changed then [] else w.buried ++ w.buriedBy event })

def run (w : WatchedTable κ ν) (events : List (TableEvent κ ν)) : WatchedTable κ ν :=
  events.foldl (fun w event => (w.step event).2) w

theorem now_perform (w : WatchedTable κ ν) (event : TableEvent κ ν) :
    (w.perform event).2.now = w.now := by
  cases event with
  | transaction actions => exact Transaction.now_actAll _ actions
  | sweep => rfl
  | advance duration => rfl

end WatchedTable

end Meshcast
