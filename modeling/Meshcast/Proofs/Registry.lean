import Meshcast.Registry

/-!
# Meshcast — the registry only grows

Identifiers are handed out once and for all, so whatever was known before an operation is known
after it under the same identifier.

* **`Registry.Extends`** — one registry knows all that another one knows.
* **`extends_intern`**, **`extends_internAll`**, **`extends_setBandwidth`** — registries only grow.
* **`lookup?_intern`**, **`address?_internAll`** — what is registered is known afterwards, and
  nothing else comes to be known.
-/

namespace Meshcast

namespace Registry

/-- An identifier stands for one address only, and the other way round. -/
theorem address?_injective {r : Registry} {i j : NodeId} {a : Address}
    (hi : r.address? i = some a) (hj : r.address? j = some a) : i = j := by
  rw [← lookup?_eq_some_iff] at hi hj
  rw [hi] at hj
  exact Option.some.inj hj

theorem lookup?_injective {r : Registry} {a b : Address} {id : NodeId}
    (ha : r.lookup? a = some id) (hb : r.lookup? b = some id) : a = b := by
  rw [lookup?_eq_some_iff] at ha hb
  rw [ha] at hb
  exact Option.some.inj hb

/-- Whatever the one registry knows, the other one knows under the same identifier. -/
def Extends (r r' : Registry) : Prop :=
  ∀ (a : Address) (id : NodeId), r.lookup? a = some id → r'.lookup? a = some id

theorem Extends.refl (r : Registry) : r.Extends r :=
  fun _ _ h => h

theorem Extends.trans {r₁ r₂ r₃ : Registry} (h₁ : r₁.Extends r₂) (h₂ : r₂.Extends r₃) :
    r₁.Extends r₃ :=
  fun a id h => h₂ a id (h₁ a id h)

theorem Extends.address? {r r' : Registry} (h : r.Extends r') {id : NodeId} {a : Address}
    (ha : r.address? id = some a) : r'.address? id = some a := by
  rw [← lookup?_eq_some_iff] at ha ⊢
  exact h a id ha

theorem intern_of_lookup? {r : Registry} {a : Address} {id : NodeId} (h : r.lookup? a = some id) :
    r.intern a = (id, r) := by
  unfold intern
  split
  · rename_i other hother
    rw [show r.index[a]? = some id from h] at hother
    cases hother
    rfl
  · rename_i hnone
    rw [show r.index[a]? = some id from h] at hnone
    nomatch hnone

/-- Registering an address makes it known and has no part in who the others are. -/
theorem lookup?_intern (r : Registry) (a b : Address) :
    (r.intern a).2.lookup? b = if a = b then some (r.intern a).1 else r.lookup? b := by
  unfold intern
  split
  · rename_i id hid
    split
    · subst a
      exact hid
    · rfl
  · rename_i hnone
    show (r.index.insert a ⟨r.participants.size⟩)[b]? = _
    rw [Std.ExtTreeMap.getElem?_insert]
    simp only [Std.compare_eq_iff_eq]
    rfl

theorem extends_intern (r : Registry) (a : Address) : r.Extends (r.intern a).2 := by
  intro b id hb
  rw [lookup?_intern]
  split
  · subst a
    rw [intern_of_lookup? hb]
  · exact hb

theorem intern_intern {r r' : Registry} {a : Address} (h : (r.intern a).2.Extends r') :
    r'.intern a = ((r.intern a).1, r') := by
  refine intern_of_lookup? (h a _ ?_)
  rw [lookup?_intern, if_pos rfl]

theorem extends_internAll (r : Registry) (addresses : List Address) :
    r.Extends (r.internAll addresses).2 := by
  induction addresses generalizing r with
  | nil => exact .refl r
  | cons a rest ih => exact (r.extends_intern a).trans (ih (r.intern a).2)

/-- Registering addresses twice is registering them once. -/
theorem internAll_internAll {r r' : Registry} {addresses : List Address}
    (h : (r.internAll addresses).2.Extends r') :
    r'.internAll addresses = ((r.internAll addresses).1, r') := by
  induction addresses generalizing r with
  | nil => rfl
  | cons a rest ih =>
    have hfirst : r'.intern a = ((r.intern a).1, r') :=
      intern_intern ((extends_internAll _ rest).trans h)
    have hrest := ih (r := (r.intern a).2) h
    unfold internAll
    rw [hfirst]
    dsimp only
    rw [hrest]

theorem address?_internAll (r : Registry) (addresses : List Address) :
    (r.internAll addresses).1.map (r.internAll addresses).2.address? = addresses.map some := by
  induction addresses generalizing r with
  | nil => rfl
  | cons a rest ih =>
    have hfirst : (r.intern a).2.address? (r.intern a).1 = some a := by
      rw [← lookup?_eq_some_iff, lookup?_intern, if_pos rfl]
    have hkept := ((r.intern a).2.extends_internAll rest).address? hfirst
    show ((r.intern a).2.internAll rest).2.address? (r.intern a).1
        :: ((r.intern a).2.internAll rest).1.map ((r.intern a).2.internAll rest).2.address?
      = some a :: rest.map some
    rw [hkept, ih (r.intern a).2]

/-- Identifiers that stand for addresses are found by looking the addresses up. -/
theorem internAll_eq_map (r : Registry) (addresses : List Address) :
    (r.internAll addresses).1 =
      addresses.map fun a => ((r.internAll addresses).2.lookup? a).getD ⟨0⟩ := by
  have hfound : ∀ (ids : List NodeId) (addresses : List Address) (r : Registry),
      ids.map r.address? = addresses.map some →
        ids = addresses.map fun a => (r.lookup? a).getD ⟨0⟩ := by
    intro ids
    induction ids with
    | nil =>
      intro addresses r h
      cases addresses with
      | nil => rfl
      | cons a rest => nomatch h
    | cons id rest ih =>
      intro addresses r h
      cases addresses with
      | nil => nomatch h
      | cons a others =>
        rw [List.map_cons, List.map_cons, List.cons.injEq] at h
        rw [List.map_cons, ← ih others r h.2, (r.lookup?_eq_some_iff a id).2 h.1, Option.getD_some]
  exact hfound _ _ _ (r.address?_internAll addresses)

theorem exists_lookup?_internAll (r : Registry) {addresses : List Address} {a : Address}
    (ha : a ∈ addresses) : ∃ id, (r.internAll addresses).2.lookup? a = some id := by
  have hmem : some a ∈ (r.internAll addresses).1.map (r.internAll addresses).2.address? := by
    rw [address?_internAll]
    exact List.mem_map_of_mem ha
  obtain ⟨id, -, hid⟩ := List.mem_map.1 hmem
  exact ⟨id, (lookup?_eq_some_iff _ _ _).2 hid⟩

/-- The identifiers that a list of addresses gets. -/
theorem mem_internAll (r : Registry) {addresses : List Address} {id : NodeId} :
    id ∈ (r.internAll addresses).1 ↔
      ∃ a ∈ addresses, (r.internAll addresses).2.lookup? a = some id := by
  rw [internAll_eq_map, List.mem_map]
  refine exists_congr fun a => and_congr_right fun ha => ?_
  obtain ⟨known, hknown⟩ := r.exists_lookup?_internAll ha
  rw [hknown, Option.getD_some, Option.some.injEq]

theorem extends_setBandwidth (r : Registry) (id : NodeId) (bandwidth : Bandwidth) :
    r.Extends (r.setBandwidth id bandwidth) :=
  fun _ _ h => h

end Registry

end Meshcast
