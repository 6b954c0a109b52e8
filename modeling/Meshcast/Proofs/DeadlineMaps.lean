import Meshcast.Proofs.TableRuns

/-!
# Meshcast — an expiring table is a map with deadlines

A table keeps dead entries until they are swept, and each of its operations has to see past them. A
map with deadlines has no such trouble: before anything is done to it, it loses what is past its
deadline, and from there on it is a map like any other. Nobody who only sees the answers can tell
the two apart, and so nobody can tell when a table is swept.

* **`DeadlineMap`** — the map. Sweeping it does nothing.
* **`DeadlineMap.Represents`** — what the map has not lost is what is alive in the table.
* **`answer_act`**, **`alive_act`** — an action answers the same and has the same effect on both.
* **`sweeps_invisible`** — runs of both answer the same, and so do runs of a table that differ only
  in their sweeps.
-/

namespace Meshcast

/-! ## Maps with deadlines -/

/-- A map whose entries have deadlines, and the time. -/
structure DeadlineMap (κ ν : Type) [Ord κ] where
  now : Nat := 0
  entries : Std.ExtTreeMap κ (Slot ν) := ∅

namespace DeadlineMap

variable {κ ν : Type} [Ord κ] [Std.TransOrd κ]

/-- The entries whose deadline is still ahead. -/
def current (m : DeadlineMap κ ν) : Std.ExtTreeMap κ (Slot ν) :=
  m.entries.filter fun _ slot => m.now < slot.expiresAt

/-- The deadline of what is put now. Lifetimes are cut at 32 bits. -/
def deadline (now lifetime : Nat) : Nat :=
  now + min lifetime 4294967295

/-- An action on a map that has nothing but current entries. -/
def apply (now : Nat) (entries : Std.ExtTreeMap κ (Slot ν)) :
    TableAction κ ν → TableAnswer κ ν × Std.ExtTreeMap κ (Slot ν)
  | .get key => (.value (entries[key]?.map Slot.value), entries)
  | .contains key => (.truth (entries.contains key), entries)
  | .modify key f =>
    (.value (entries[key]?.map Slot.value),
      entries.modify key fun slot => { slot with value := f slot.value })
  | .insert key value lifetime =>
    (.put (if entries.contains key then .refreshed else .inserted),
      entries.insert key { value, expiresAt := deadline now lifetime })
  | .refresh key lifetime =>
    (.truth (entries.contains key),
      entries.modify key fun slot => { slot with expiresAt := deadline now lifetime })
  | .remove key => (.value (entries[key]?.map Slot.value), entries.erase key)
  | .retain keep =>
    (.count (entries.filter fun key slot => !keep key slot.value).size,
      entries.filter fun key slot => keep key slot.value)
  | .keys => (.keys entries.keys, entries)
  | .entries => (.entries (entries.map fun _ slot => slot.value).toList, entries)
  | .size => (.count entries.size, entries)
  | .markChanged => (.done, entries)

/-- The map loses what is past its deadline, and then the action takes place. -/
def act (m : DeadlineMap κ ν) (action : TableAction κ ν) : TableAnswer κ ν × DeadlineMap κ ν :=
  let (answer, entries) := apply m.now m.current action
  (answer, { m with entries })

def actAll (m : DeadlineMap κ ν) :
    List (TableAction κ ν) → List (TableAnswer κ ν) × DeadlineMap κ ν
  | [] => ([], m)
  | action :: rest =>
    let (answer, next) := m.act action
    let (answers, last) := next.actAll rest
    (answer :: answers, last)

def step (m : DeadlineMap κ ν) : TableEvent κ ν → List (TableAnswer κ ν) × DeadlineMap κ ν
  | .transaction actions => m.actAll actions
  | .sweep => ([], m)
  | .advance duration => ([], { m with now := m.now + duration })

end DeadlineMap

/-! ## What is alive in a table -/

namespace ExpiringTable

variable {κ ν : Type} [Ord κ] [Std.TransOrd κ]

/-- The live entries of a table with their deadlines. -/
def alive (table : ExpiringTable κ ν) (now : Nat) : Std.ExtTreeMap κ (Slot ν) :=
  table.slots.filter fun _ slot => slot.isLive now

variable [Std.LawfulEqOrd κ]

theorem getElem?_alive (table : ExpiringTable κ ν) (now : Nat) (key : κ) :
    (table.alive now)[key]? = table.slots[key]?.filter (·.isLive now) :=
  Std.ExtTreeMap.getElem?_filter'

theorem get?_eq_alive (table : ExpiringTable κ ν) (now : Nat) (key : κ) :
    table.get? now key = (table.alive now)[key]?.map Slot.value := by
  rw [getElem?_alive]
  rfl

theorem contains_alive (table : ExpiringTable κ ν) (now : Nat) (key : κ) :
    (table.alive now).contains key = table.contains now key := by
  rw [contains, get?_eq_alive, Option.isSome_map, Std.ExtTreeMap.contains_eq_isSome_getElem?]

theorem live_eq_alive (table : ExpiringTable κ ν) (now : Nat) :
    table.live now = (table.alive now).map fun _ slot => slot.value := by
  apply Std.ExtTreeMap.ext_getElem?
  intro key
  rw [getElem?_live, get?_eq_alive, Std.ExtTreeMap.getElem?_map]

/-- Losing what is dead first makes no difference later. -/
theorem alive_alive (table : ExpiringTable κ ν) {now later : Nat} (h : now ≤ later) :
    (mk (table.alive now)).alive later = table.alive later := by
  apply Std.ExtTreeMap.ext_getElem?
  intro key
  simp only [getElem?_alive, Option.filter_filter]
  congr 1
  funext slot
  simp only [Slot.isLive]
  grind

/-! ### Changes of a table and of its live entries -/

theorem alive_insert (table : ExpiringTable κ ν) (now : Nat) (key : κ) (slot : Slot ν) :
    (mk (table.slots.insert key slot)).alive now =
      (mk ((table.alive now).insert key slot)).alive now := by
  apply Std.ExtTreeMap.ext_getElem?
  intro other
  simp only [getElem?_alive, Std.ExtTreeMap.getElem?_insert]
  split
  · rfl
  · rw [Option.filter_filter]
    simp only [Bool.and_self]

theorem alive_erase (table : ExpiringTable κ ν) (now : Nat) (key : κ) :
    (mk (table.slots.erase key)).alive now = (mk ((table.alive now).erase key)).alive now := by
  apply Std.ExtTreeMap.ext_getElem?
  intro other
  simp only [getElem?_alive, Std.ExtTreeMap.getElem?_erase]
  split
  · rfl
  · rw [Option.filter_filter]
    simp only [Bool.and_self]

theorem alive_modify (table : ExpiringTable κ ν) (now : Nat) (key : κ) (f : ν → ν) :
    (table.modify now key f).alive now =
      (mk ((table.alive now).modify key fun slot => { slot with value := f slot.value })).alive
        now := by
  apply Std.ExtTreeMap.ext_getElem?
  intro other
  simp only [modify, getElem?_alive, Std.ExtTreeMap.getElem?_modify]
  split
  · cases table.slots[key]? with
    | none => rfl
    | some slot => cases hlive : slot.isLive now <;> simp [hlive, Option.filter]
  · rw [Option.filter_filter]
    simp only [Bool.and_self]

theorem alive_retain (table : ExpiringTable κ ν) (now : Nat) (keep : κ → ν → Bool) :
    (mk (table.slots.filter fun key slot => !slot.isLive now || keep key slot.value)).alive now =
      (mk ((table.alive now).filter fun key slot => keep key slot.value)).alive now := by
  apply Std.ExtTreeMap.ext_getElem?
  intro other
  simp only [getElem?_alive, Std.ExtTreeMap.getElem?_filter', Option.filter_filter]
  congr 1
  funext slot
  cases slot.isLive now <;> simp

end ExpiringTable

section Modify

variable {κ α : Type} [Ord κ] [Std.TransOrd κ] [Std.LawfulEqOrd κ] {map : Std.ExtTreeMap κ α}
  {key : κ}

theorem modify_of_none (h : map[key]? = none) (f : α → α) : map.modify key f = map := by
  apply Std.ExtTreeMap.ext_getElem?
  intro other
  rw [Std.ExtTreeMap.getElem?_modify]
  split
  · rename_i heq
    cases Std.LawfulEqOrd.eq_of_compare heq
    rw [h]
    rfl
  · rfl

theorem modify_of_some {value : α} (h : map[key]? = some value) (f : α → α) :
    map.modify key f = map.insert key (f value) := by
  apply Std.ExtTreeMap.ext_getElem?
  intro other
  rw [Std.ExtTreeMap.getElem?_modify, Std.ExtTreeMap.getElem?_insert, h]
  rfl

end Modify

theorem size_filter_add {κ ν : Type} [Ord κ] [Std.TransOrd κ] (slots : Std.ExtTreeMap κ (Slot ν))
    (p : κ → Slot ν → Bool) :
    (slots.filter p).size + (slots.filter fun key slot => !p key slot).size = slots.size := by
  simp only [← Std.ExtTreeMap.length_toList, Std.ExtTreeMap.toList_filter,
    ← List.countP_eq_length_filter]
  have hcount := List.length_eq_countP_add_countP (fun entry : κ × Slot ν => p entry.1 entry.2)
    (l := slots.toList)
  simpa using hcount.symm

/-! ## One action -/

namespace Transaction

variable {κ ν : Type} [Ord κ] [Std.TransOrd κ] [Std.LawfulEqOrd κ]

theorem answer_act (tx : Transaction κ ν) (action : TableAction κ ν) :
    (tx.act action).1 = (DeadlineMap.apply tx.now (tx.table.alive tx.now) action).1 := by
  cases action with
  | get key => exact congrArg TableAnswer.value (tx.table.get?_eq_alive tx.now key)
  | contains key => exact congrArg TableAnswer.truth (tx.table.contains_alive tx.now key).symm
  | modify key f => exact congrArg TableAnswer.value (tx.table.get?_eq_alive tx.now key)
  | insert key value lifetime =>
    simp only [act, Prod.map_fst, DeadlineMap.apply, ExpiringTable.contains_alive, insert]
    show _ = TableAnswer.put (if tx.contains key then _ else _)
    split <;> rfl
  | refresh key lifetime =>
    simp only [act, Prod.map_fst, DeadlineMap.apply, ExpiringTable.contains_alive, refresh]
    show _ = TableAnswer.truth (tx.get? key).isSome
    cases tx.get? key <;> rfl
  | remove key => exact congrArg TableAnswer.value (tx.table.get?_eq_alive tx.now key)
  | retain keep =>
    simp only [act, Prod.map_fst, DeadlineMap.apply, retain, restrict]
    congr 1
    -- a table counts by sizes, and its dead entries count on both sides
    have hsize := size_filter_add tx.table.slots
      fun key slot => !slot.isLive tx.now || keep key slot.value
    have hdropped : (tx.table.slots.filter fun key slot =>
          !(!slot.isLive tx.now || keep key slot.value)) =
        (tx.table.alive tx.now).filter fun key slot => !keep key slot.value := by
      apply Std.ExtTreeMap.ext_getElem?
      intro key
      simp only [Std.ExtTreeMap.getElem?_filter', ExpiringTable.getElem?_alive,
        Option.filter_filter, Bool.not_or, Bool.not_not]
    rw [← hdropped]
    omega
  | keys =>
    simp only [act, DeadlineMap.apply, ExpiringTable.keys, ExpiringTable.live_eq_alive,
      Std.ExtTreeMap.keys_map]
  | entries => simp only [act, DeadlineMap.apply, live, ExpiringTable.live_eq_alive]
  | size =>
    simp only [act, DeadlineMap.apply, ExpiringTable.size, ExpiringTable.live_eq_alive,
      Std.ExtTreeMap.size_map]
  | markChanged => rfl

theorem alive_refresh (tx : Transaction κ ν) (key : κ) (lifetime : Nat) :
    (tx.refresh key lifetime).2.table.alive tx.now =
      (ExpiringTable.mk ((tx.table.alive tx.now).modify key fun slot =>
        { slot with expiresAt := DeadlineMap.deadline tx.now lifetime })).alive tx.now := by
  have hget : tx.get? key = _ := tx.table.get?_eq_alive tx.now key
  unfold refresh
  cases hslot : (tx.table.alive tx.now)[key]? with
  | none =>
    rw [hslot, Option.map_none] at hget
    rw [hget, modify_of_none hslot]
    exact (tx.table.alive_alive (Nat.le_refl _)).symm
  | some slot =>
    rw [hslot, Option.map_some] at hget
    rw [hget, modify_of_some hslot]
    exact tx.table.alive_insert tx.now key _

/-- An action has the same effect on a table and on the map of its live entries. -/
theorem alive_act (tx : Transaction κ ν) (action : TableAction κ ν) :
    (tx.act action).2.table.alive tx.now =
      (ExpiringTable.mk (DeadlineMap.apply tx.now (tx.table.alive tx.now) action).2).alive
        tx.now := by
  have same : tx.table.alive tx.now = (ExpiringTable.mk (tx.table.alive tx.now)).alive tx.now :=
    (tx.table.alive_alive (Nat.le_refl _)).symm
  cases action with
  | get key => exact same
  | contains key => exact same
  | keys => exact same
  | entries => exact same
  | size => exact same
  | markChanged => exact same
  | modify key f => exact tx.table.alive_modify tx.now key f
  | insert key value lifetime =>
    show (ExpiringTable.mk (tx.insert key value lifetime).2.table.slots).alive tx.now = _
    rw [slots_insert]
    exact tx.table.alive_insert tx.now key _
  | refresh key lifetime => exact tx.alive_refresh key lifetime
  | remove key => exact tx.table.alive_erase tx.now key
  | retain keep => exact tx.table.alive_retain tx.now keep

end Transaction

/-! ## Runs -/

namespace DeadlineMap

variable {κ ν : Type} [Ord κ] [Std.TransOrd κ]

/-- The map and the table agree about the time and about what is alive. -/
structure Represents (m : DeadlineMap κ ν) (table : ExpiringTable κ ν) (now : Nat) : Prop where
  now_eq : m.now = now
  current_eq : m.current = table.alive now

omit [Std.TransOrd κ] in
theorem current_eq_alive (m : DeadlineMap κ ν) :
    m.current = (ExpiringTable.mk m.entries).alive m.now :=
  rfl

/-- The map takes no notice of sweeps. -/
theorem answers_filter (m : DeadlineMap κ ν) (events : List (TableEvent κ ν)) :
    answers DeadlineMap.step m (events.filter (!·.isSweep)) =
      answers DeadlineMap.step m events := by
  induction events generalizing m with
  | nil => rfl
  | cons event rest ih =>
    cases event with
    | sweep => exact ih m
    | transaction actions => exact congrArg (_ :: ·) (ih _)
    | advance duration => exact congrArg (_ :: ·) (ih _)

variable [Std.LawfulEqOrd κ] {m : DeadlineMap κ ν} {table : ExpiringTable κ ν} {now : Nat}

theorem Represents.later (h : m.Represents table now) (duration : Nat) :
    Represents { m with now := m.now + duration } table (now + duration) := by
  obtain ⟨rfl, hcurrent⟩ := h
  refine ⟨rfl, ?_⟩
  -- what has been lost by now would be lost by then
  have hle : m.now ≤ m.now + duration := Nat.le_add_right _ _
  rw [current_eq_alive, ← table.alive_alive hle, ← hcurrent, current_eq_alive,
    ExpiringTable.alive_alive _ hle]

theorem Represents.act {tx : Transaction κ ν} (h : m.Represents tx.table tx.now)
    (action : TableAction κ ν) :
    (m.act action).1 = (tx.act action).1
      ∧ (m.act action).2.Represents (tx.act action).2.table tx.now := by
  obtain ⟨hnow, hcurrent⟩ := h
  simp only [DeadlineMap.act, hnow, hcurrent]
  refine ⟨(tx.answer_act action).symm, rfl, ?_⟩
  rw [tx.alive_act action]
  rfl

theorem Represents.actAll {tx : Transaction κ ν} (h : m.Represents tx.table tx.now)
    (actions : List (TableAction κ ν)) :
    (m.actAll actions).1 = (tx.actAll actions).1
      ∧ (m.actAll actions).2.Represents (tx.actAll actions).2.table tx.now := by
  induction actions generalizing m tx with
  | nil => exact ⟨rfl, h⟩
  | cons action rest ih =>
    obtain ⟨hanswer, hnext⟩ := h.act action
    rw [← tx.now_act action] at hnext
    obtain ⟨hanswers, hlast⟩ := ih hnext
    rw [tx.now_act action] at hlast
    refine ⟨?_, hlast⟩
    simp only [DeadlineMap.actAll, Transaction.actAll, hanswer, hanswers]

theorem Represents.step {w : WatchedTable κ ν} (h : m.Represents w.table w.now)
    (event : TableEvent κ ν) :
    (event.isSweep = false → (m.step event).1 = (w.step event).1)
      ∧ (m.step event).2.Represents (w.step event).2.table (w.step event).2.now := by
  cases event with
  | transaction actions =>
    have hstart : m.Represents (w.table.transaction w.now).table (w.table.transaction w.now).now := h
    have hall := hstart.actAll actions
    exact ⟨fun _ => hall.1, hall.2⟩
  | sweep =>
    -- what is swept is what the map has lost by then anyway
    refine ⟨nofun, h.now_eq, h.current_eq.trans ?_⟩
    exact (w.table.alive_alive (Nat.le_refl w.now)).symm
  | advance duration => exact ⟨fun _ => rfl, h.later duration⟩

theorem Represents.answers_eq {w : WatchedTable κ ν} (h : m.Represents w.table w.now)
    (events : List (TableEvent κ ν)) :
    answers WatchedTable.step w events = answers DeadlineMap.step m events := by
  induction events generalizing m w with
  | nil => rfl
  | cons event rest ih =>
    obtain ⟨hanswer, hnext⟩ := h.step event
    simp only [answers, ih hnext]
    split
    · rfl
    · rename_i hsweep
      rw [hanswer (by simpa using hsweep)]

end DeadlineMap

/-- A table answers like a map with deadlines, whatever is done to it; and when it is swept makes no
difference to any answer. -/
theorem sweeps_invisible {κ ν : Type} [Ord κ] [Std.TransOrd κ] [Std.LawfulEqOrd κ]
    (events : List (TableEvent κ ν)) :
    answers WatchedTable.step {} events = answers DeadlineMap.step {} events
      ∧ ∀ others : List (TableEvent κ ν),
        others.filter (!·.isSweep) = events.filter (!·.isSweep) →
        answers WatchedTable.step {} others = answers WatchedTable.step {} events := by
  have hempty : ({} : DeadlineMap κ ν).Represents ({} : WatchedTable κ ν).table
      ({} : WatchedTable κ ν).now := ⟨rfl, rfl⟩
  have hanswers (events : List (TableEvent κ ν)) := hempty.answers_eq events
  refine ⟨hanswers events, fun others hothers => ?_⟩
  calc answers WatchedTable.step {} others
      = answers DeadlineMap.step {} others := hanswers others
    _ = answers DeadlineMap.step {} (others.filter (!·.isSweep)) :=
        (DeadlineMap.answers_filter {} others).symm
    _ = answers DeadlineMap.step {} (events.filter (!·.isSweep)) := by rw [hothers]
    _ = answers DeadlineMap.step {} events := DeadlineMap.answers_filter {} events
    _ = answers WatchedTable.step {} events := (hanswers events).symm

/-- A table with and without a sweep: an entry is put, lives for a while and is put anew when it is
dead. -/
theorem sweeps_invisible_to_put :
    answers WatchedTable.step {}
        ([.transaction [.insert 1 "a" 10], .advance 10, .sweep,
          .transaction [.insert 1 "b" 0, .get 1, .retain fun _ _ => false, .size]] :
          List (TableEvent Nat String)) =
      answers WatchedTable.step {}
        [.transaction [.insert 1 "a" 10], .advance 10,
          .transaction [.insert 1 "b" 0, .get 1, .retain fun _ _ => false, .size]]
    ∧ answers WatchedTable.step {}
        ([.transaction [.insert 1 "a" 10], .advance 10,
          .transaction [.insert 1 "b" 0, .get 1, .retain fun _ _ => false, .size]] :
          List (TableEvent Nat String)) =
      [[.put .inserted], [], [.put .inserted, .value none, .count 0, .count 0]] :=
  ⟨(sweeps_invisible _).2 _ rfl, by decide +kernel⟩

end Meshcast
