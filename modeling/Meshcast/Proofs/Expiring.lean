import Meshcast.Expiring

/-!
# Meshcast — what a transaction leaves unnoted

A table announces that its live entries may have changed, it does not compare them. Whoever
derives something from a table therefore relies on two facts. A change of the live entries raises
the note of its transaction. And an entry that died by the mere passage of time is still there,
and taking it away raises the note too.

* **`ExpiringTable.Settled`** — no dead entry is left in the table.
* **`Transaction.Noted`** — what happened between two states of a transaction is noted: unless the
  note is raised at the end, a settled table was settled before and has the same live entries.
* **`noted_insert`**, **`noted_refresh`**, **`noted_restrict`** — the operations are noted.
-/

namespace Meshcast

/-! ## Settled tables -/

namespace ExpiringTable

variable {κ ν : Type} [Ord κ] [Std.TransOrd κ]

/-- No entry of the table is dead. -/
def Settled (table : ExpiringTable κ ν) (now : Nat) : Prop :=
  ∀ (key : κ) (slot : Slot ν), table.slots[key]? = some slot → slot.isLive now

theorem get?_eq_some_iff {table : ExpiringTable κ ν} {now : Nat} {key : κ} {value : ν} :
    table.get? now key = some value ↔
      ∃ slot, table.slots[key]? = some slot ∧ slot.isLive now ∧ slot.value = value := by
  unfold get?
  cases table.slots[key]? with
  | none => simp
  | some slot => by_cases h : slot.isLive now <;> simp [h, Option.filter]

theorem Settled.of_le {table : ExpiringTable κ ν} {now later : Nat} (h : table.Settled later)
    (hle : now ≤ later) : table.Settled now := by
  intro key slot hslot
  have hlater := h key slot hslot
  simp only [Slot.isLive, decide_eq_true_eq] at hlater ⊢
  omega

/-- As long as a table is settled, time does not change what it says. -/
theorem Settled.live_eq [Std.LawfulEqOrd κ] {table : ExpiringTable κ ν} {now later : Nat}
    (h : table.Settled later) (hle : now ≤ later) : table.live later = table.live now := by
  apply Std.ExtTreeMap.ext_getElem?
  intro key
  rw [getElem?_live, getElem?_live]
  ext value
  rw [get?_eq_some_iff, get?_eq_some_iff]
  constructor
  · rintro ⟨slot, hslot, -, hvalue⟩
    exact ⟨slot, hslot, h.of_le hle key slot hslot, hvalue⟩
  · rintro ⟨slot, hslot, -, hvalue⟩
    exact ⟨slot, hslot, h key slot hslot, hvalue⟩

/-- Tables with the same slots but for live entries of equal value say the same. -/
theorem live_congr [Std.LawfulEqOrd κ] {table other : ExpiringTable κ ν} {now : Nat}
    (h : ∀ key, table.get? now key = other.get? now key) : table.live now = other.live now := by
  apply Std.ExtTreeMap.ext_getElem?
  intro key
  rw [getElem?_live, getElem?_live]
  exact h key

end ExpiringTable

/-! ## Noted changes -/

namespace Transaction

section Composition

variable {κ ν : Type} [Ord κ] [Std.TransOrd κ]

/-- What happened from `tx` to `tx'` is noted: unless the note is raised in the end, it was not
raised before, and if no dead entry is left then none has gone and the live entries are the same. -/
structure Noted (tx tx' : Transaction κ ν) : Prop where
  now_eq : tx'.now = tx.now
  quiet : tx'.changed = false → tx.changed = false
  settled : tx'.changed = false → tx'.table.Settled tx.now → tx.table.Settled tx.now
  live_eq : tx'.changed = false → tx'.table.Settled tx.now → tx'.live = tx.live

theorem Noted.refl (tx : Transaction κ ν) : tx.Noted tx :=
  ⟨rfl, id, fun _ h => h, fun _ _ => rfl⟩

theorem Noted.trans {tx₁ tx₂ tx₃ : Transaction κ ν} (h₁ : tx₁.Noted tx₂) (h₂ : tx₂.Noted tx₃) :
    tx₁.Noted tx₃ where
  now_eq := h₂.now_eq.trans h₁.now_eq
  quiet q := h₁.quiet (h₂.quiet q)
  settled q s := h₁.settled (h₂.quiet q) (h₁.now_eq ▸ h₂.settled q (h₁.now_eq ▸ s))
  live_eq q s :=
    (h₂.live_eq q (h₁.now_eq ▸ s)).trans
      (h₁.live_eq (h₂.quiet q) (h₁.now_eq ▸ h₂.settled q (h₁.now_eq ▸ s)))

theorem noted_of_changed {tx tx' : Transaction κ ν} (hnow : tx'.now = tx.now)
    (hchanged : tx'.changed = true) : tx.Noted tx' := by
  have absurd_quiet : tx'.changed ≠ false := by rw [hchanged]; nofun
  exact ⟨hnow, fun q => absurd q absurd_quiet, fun q => absurd q absurd_quiet,
    fun q => absurd q absurd_quiet⟩

theorem slots_insert (tx : Transaction κ ν) (key : κ) (value : ν) (lifetime : Nat) :
    (tx.insert key value lifetime).2.table.slots =
      tx.table.slots.insert key ⟨value, deadline tx.now lifetime⟩ := by
  unfold insert
  split <;> rfl

theorem restrict_eq_self {tx : Transaction κ ν} {keep : κ → Slot ν → Bool}
    (h : (tx.restrict keep).2.changed = false) : (tx.restrict keep).2 = tx := by
  simp only [restrict, Bool.or_eq_false_iff, decide_eq_false_iff_not] at h
  obtain ⟨hchanged, hsize⟩ := h
  have hle := Std.ExtTreeMap.size_filter_le_size (t := tx.table.slots) (f := keep)
  -- the note is raised exactly if the table shrank
  have hfilter : tx.table.slots.filter keep = tx.table.slots := by
    rw [Std.ExtTreeMap.filter_eq_self_iff, ← Std.ExtTreeMap.size_filter_eq_size_iff]
    omega
  simp only [restrict, hfilter, Nat.sub_self, Nat.lt_irrefl, decide_false, Bool.or_false]

theorem noted_restrict (tx : Transaction κ ν) (keep : κ → Slot ν → Bool) :
    tx.Noted (tx.restrict keep).2 := by
  cases h : (tx.restrict keep).2.changed with
  | false =>
    rw [restrict_eq_self h]
    exact Noted.refl tx
  | true => exact noted_of_changed rfl h

end Composition

variable {κ ν : Type} [Ord κ] [Std.TransOrd κ] [Std.LawfulEqOrd κ]

theorem noted_replace [DecidableEq κ] (tx : Transaction κ ν) (key : κ) (value : ν) (expiresAt : Nat)
    (h : tx.get? key = some value) :
    tx.Noted { tx with table := ⟨tx.table.slots.insert key ⟨value, expiresAt⟩⟩ } := by
  obtain ⟨old, hold, hlive, hvalue⟩ := ExpiringTable.get?_eq_some_iff.1 h
  have lookup : ∀ other, (tx.table.slots.insert key ⟨value, expiresAt⟩)[other]? =
      if key = other then some ⟨value, expiresAt⟩ else tx.table.slots[other]? := by
    intro other
    rw [Std.ExtTreeMap.getElem?_insert]
    simp only [Std.compare_eq_iff_eq]
  refine ⟨rfl, id, ?_, ?_⟩
  · -- the entry in place was alive, and no other one was touched
    intro _ hs other slot hslot
    by_cases e : key = other
    · subst e
      rw [hold] at hslot
      cases hslot
      exact hlive
    · exact hs other slot (by simp only [lookup, if_neg e]; exact hslot)
  · intro _ hs
    apply ExpiringTable.live_congr
    intro other
    by_cases e : key = other
    · subst e
      -- the new deadline is ahead, as nothing is dead in the end
      have hnew := hs key ⟨value, expiresAt⟩ (by simp only [lookup, if_true])
      rw [show tx.table.get? tx.now key = some value from h, ExpiringTable.get?_eq_some_iff]
      exact ⟨⟨value, expiresAt⟩, by simp only [lookup, if_true], hnew, rfl⟩
    · simp only [ExpiringTable.get?, lookup, if_neg e]

/-- An insertion is noted, unless it replaces the value of a live entry by another one. -/
theorem noted_insert [DecidableEq κ] (tx : Transaction κ ν) (key : κ) (value : ν) (lifetime : Nat)
    (h : ∀ old, tx.get? key = some old → old = value) :
    tx.Noted (tx.insert key value lifetime).2 := by
  unfold insert
  cases hget : tx.get? key with
  | none =>
    -- nothing alive is replaced, and that raises the note
    have hdead : tx.contains key = false := by
      show (tx.get? key).isSome = false
      rw [hget]; rfl
    simp only [hdead, Bool.false_eq_true, if_false]
    exact noted_of_changed rfl rfl
  | some old =>
    have hlive : tx.contains key = true := by
      show (tx.get? key).isSome = true
      rw [hget]; rfl
    simp only [hlive, if_true]
    exact noted_replace tx key value _ (h old hget ▸ hget)

theorem noted_refresh [DecidableEq κ] (tx : Transaction κ ν) (key : κ) (lifetime : Nat) :
    tx.Noted (tx.refresh key lifetime).2 := by
  unfold refresh
  cases hget : tx.get? key with
  | none => exact Noted.refl tx
  | some value => exact noted_replace tx key value _ hget

theorem settled_sweep (tx : Transaction κ ν) : tx.sweep.2.table.Settled tx.now := by
  intro key slot hslot
  have hfilter : (tx.table.slots.filter fun _ slot => slot.isLive tx.now)[key]? = some slot := hslot
  rw [Std.ExtTreeMap.getElem?_filter', Option.filter_eq_some_iff] at hfilter
  exact hfilter.2

end Transaction

end Meshcast
