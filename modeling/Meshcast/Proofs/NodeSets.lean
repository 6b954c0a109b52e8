import Mathlib.Data.Set.Card
import Std.Data.ExtTreeMap
import Std.Data.ExtTreeSet

/-!
# Meshcast — facts about sets and maps

Membership and enumeration in the form in which proofs about nodes need them: elements are compared
by equality.
-/

namespace Meshcast

section Sets

variable {α : Type} [Ord α] [Std.TransOrd α] [Std.LawfulEqOrd α]

theorem nodup_toList (s : Std.ExtTreeSet α) : s.toList.Nodup :=
  Std.ExtTreeSet.distinct_toList.imp fun h heq => h (Std.compare_eq_iff_eq.2 heq)

theorem mem_ofList [DecidableEq α] {l : List α} {x : α} : x ∈ Std.ExtTreeSet.ofList l ↔ x ∈ l := by
  rw [Std.ExtTreeSet.mem_ofList, List.contains_iff_mem]

theorem ofList_toList [DecidableEq α] (s : Std.ExtTreeSet α) :
    Std.ExtTreeSet.ofList s.toList = s := by
  refine Std.ExtTreeSet.ext_mem fun x => ?_
  rw [mem_ofList, Std.ExtTreeSet.mem_toList]

omit [Std.LawfulEqOrd α] in
theorem contains_eq_false {s : Std.ExtTreeSet α} {x : α} : s.contains x = false ↔ x ∉ s := by
  rw [← Bool.not_eq_true, Std.ExtTreeSet.contains_iff_mem]

theorem mem_filter {s : Std.ExtTreeSet α} {p : α → Bool} {x : α} :
    x ∈ s.filter p ↔ x ∈ s ∧ p x = true := by
  rw [Std.ExtTreeSet.mem_filter]
  constructor
  · rintro ⟨hx, hp⟩
    rw [Std.ExtTreeSet.get_eq] at hp
    exact ⟨hx, hp⟩
  · rintro ⟨hx, hp⟩
    refine ⟨hx, ?_⟩
    rw [Std.ExtTreeSet.get_eq]
    exact hp

theorem mem_insert {s : Std.ExtTreeSet α} {x y : α} : x ∈ s.insert y ↔ x = y ∨ x ∈ s := by
  rw [Std.ExtTreeSet.mem_insert, Std.compare_eq_iff_eq, eq_comm]

theorem mem_erase {s : Std.ExtTreeSet α} {x y : α} : x ∈ s.erase y ↔ x ≠ y ∧ x ∈ s := by
  rw [Std.ExtTreeSet.mem_erase, ne_eq, Std.compare_eq_iff_eq, eq_comm]

theorem insert_of_mem {s : Std.ExtTreeSet α} {x : α} (h : x ∈ s) : s.insert x = s := by
  refine Std.ExtTreeSet.ext_mem fun y => ?_
  rw [mem_insert]
  refine or_iff_right_of_imp ?_
  rintro rfl
  exact h

theorem eq_insert_iff {s : Std.ExtTreeSet α} {x : α} : s = s.insert x ↔ x ∈ s := by
  refine ⟨fun heq => ?_, fun h => (insert_of_mem h).symm⟩
  rw [heq]
  exact mem_insert.2 (.inl rfl)

theorem isEmpty_insert {s : Std.ExtTreeSet α} {x : α} : (s.insert x).isEmpty = false := by
  rw [← Bool.not_eq_true, Std.ExtTreeSet.isEmpty_iff]
  intro hempty
  have hmem : x ∈ s.insert x := mem_insert.2 (.inl rfl)
  rw [hempty] at hmem
  exact Std.ExtTreeSet.not_mem_empty hmem

theorem erase_of_not_mem {s : Std.ExtTreeSet α} {x : α} (h : x ∉ s) : s.erase x = s := by
  refine Std.ExtTreeSet.ext_mem fun y => ?_
  rw [mem_erase]
  refine and_iff_right_of_imp ?_
  rintro hy rfl
  exact h hy

theorem eq_erase_iff {s : Std.ExtTreeSet α} {x : α} : s = s.erase x ↔ x ∉ s := by
  refine ⟨fun heq => ?_, fun h => (erase_of_not_mem h).symm⟩
  rw [heq]
  exact fun hmem => (mem_erase.1 hmem).1 rfl

theorem erase_erase {s : Std.ExtTreeSet α} {x : α} : (s.erase x).erase x = s.erase x :=
  erase_of_not_mem fun h => (mem_erase.1 h).1 rfl

theorem ncard_setOf_mem (s : Std.ExtTreeSet α) : {x | x ∈ s}.ncard = s.size := by
  classical
  have hset : {x | x ∈ s} = (s.toList.toFinset : Set α) := by
    ext x
    rw [Finset.mem_coe, List.mem_toFinset, Std.ExtTreeSet.mem_toList]
    rfl
  rw [hset, Set.ncard_coe_finset, List.toFinset_card_of_nodup (nodup_toList s),
    Std.ExtTreeSet.length_toList]

/-- A part is as large as the whole only if it is all of it. -/
theorem size_eq_iff_of_subset {s t : Std.ExtTreeSet α} (h : ∀ x ∈ s, x ∈ t) :
    s.size = t.size ↔ ∀ x ∈ t, x ∈ s := by
  have hfinite : {x | x ∈ t}.Finite :=
    t.toList.finite_toSet.subset fun x => Std.ExtTreeSet.mem_toList.2
  rw [← ncard_setOf_mem, ← ncard_setOf_mem]
  constructor
  · intro hsize x hx
    have hall : {x | x ∈ s} = {x | x ∈ t} := Set.eq_of_subset_of_ncard_le h hsize.ge hfinite
    have hmem : x ∈ {x | x ∈ t} := hx
    rw [← hall] at hmem
    exact hmem
  · intro hback
    exact congrArg Set.ncard (Set.Subset.antisymm h hback)

end Sets

section Maps

variable {α β : Type} [Ord α] [Std.TransOrd α]

theorem values_eq_map_toList (m : Std.ExtTreeMap α β) : m.values = m.toList.map Prod.snd := by
  obtain ⟨inner⟩ := m
  induction inner using Std.ExtDTreeMap.inductionOn with
  | mk t =>
    show t.inner.values = (Std.DTreeMap.Internal.Impl.Const.toList t.inner).map Prod.snd
    rw [Std.DTreeMap.Internal.Impl.values_eq_map_snd,
      Std.DTreeMap.Internal.Impl.Const.toList_eq_toListModel_map, List.map_map]
    rfl

theorem mem_values [Std.LawfulEqOrd α] {m : Std.ExtTreeMap α β} {b : β} :
    b ∈ m.values ↔ ∃ a : α, m[a]? = some b := by
  rw [values_eq_map_toList, List.mem_map]
  constructor
  · rintro ⟨⟨a, _⟩, hmem, rfl⟩
    exact ⟨a, Std.ExtTreeMap.mem_toList_iff_getElem?_eq_some.1 hmem⟩
  · rintro ⟨a, ha⟩
    exact ⟨(a, b), Std.ExtTreeMap.mem_toList_iff_getElem?_eq_some.2 ha, rfl⟩

theorem mem_of_getElem?_foldl_insert [Std.LawfulEqOrd α] {l : List (α × β)}
    {m : Std.ExtTreeMap α β} {a : α} {b : β}
    (h : (l.foldl (fun m entry => m.insert entry.1 entry.2) m)[a]? = some b) :
    (a, b) ∈ l ∨ m[a]? = some b := by
  induction l generalizing m with
  | nil => exact .inr h
  | cons entry rest ih =>
    rcases ih h with hmem | hlast
    · exact .inl (List.mem_cons_of_mem entry hmem)
    · rw [Std.ExtTreeMap.getElem?_insert] at hlast
      split at hlast
      · obtain rfl := Std.LawfulEqOrd.eq_of_compare ‹_›
        cases hlast
        exact .inl List.mem_cons_self
      · exact .inr hlast

/-- The entries of a map that is made from a list stand in the list. -/
theorem mem_of_getElem?_ofList [Std.LawfulEqOrd α] {l : List (α × β)} {a : α} {b : β}
    (h : (Std.ExtTreeMap.ofList l)[a]? = some b) : (a, b) ∈ l := by
  rw [Std.ExtTreeMap.ofList_eq_foldl] at h
  rcases mem_of_getElem?_foldl_insert h with hmem | hempty
  · exact hmem
  · simp at hempty

theorem ofList_toList_map [Std.LawfulEqOrd α] (m : Std.ExtTreeMap α β) :
    Std.ExtTreeMap.ofList m.toList = m := by
  refine Std.ExtTreeMap.ext_getElem? fun a => Option.ext fun b => ?_
  constructor
  · intro h
    exact Std.ExtTreeMap.mem_toList_iff_getElem?_eq_some.1 (mem_of_getElem?_ofList h)
  · intro h
    exact Std.ExtTreeMap.getElem?_ofList_of_mem Std.ReflCmp.compare_self
      Std.ExtTreeMap.distinct_keys_toList (Std.ExtTreeMap.mem_toList_iff_getElem?_eq_some.2 h)

theorem any_eq_any_toList (m : Std.ExtTreeMap α β) (p : α → β → Bool) :
    m.any p = m.toList.any fun entry => p entry.1 entry.2 := by
  obtain ⟨inner⟩ := m
  induction inner using Std.ExtDTreeMap.inductionOn with
  | mk t =>
    -- the search is a loop that the first hit ends
    have hloop {δ : Type} (init : δ) (f : (_ : α) × β → δ → Id (ForInStep δ)) :
        forIn t.inner init f = forIn t.inner.toListModel init f :=
      Std.DTreeMap.Internal.Impl.forIn_eq_forIn_toListModel
    show t.inner.any p = (Std.DTreeMap.Internal.Impl.Const.toList t.inner).any _
    rw [Std.DTreeMap.Internal.Impl.Const.toList_eq_toListModel_map]
    unfold Std.DTreeMap.Internal.Impl.any
    rw [hloop]
    induction t.inner.toListModel with
    | nil => rfl
    | cons e rest ih =>
      rw [List.forIn_cons, List.map_cons, List.any_cons, ← ih]
      by_cases h : p e.1 e.2 = true
      · simp [h]
      · simp [h]

theorem mem_iff_exists_getElem? {m : Std.ExtTreeMap α β} {a : α} :
    a ∈ m ↔ ∃ b, m[a]? = some b := by
  rw [Std.ExtTreeMap.mem_iff_isSome_getElem?, Option.isSome_iff_exists]

theorem insert_eq_self [Std.LawfulEqOrd α] [DecidableEq α] {m : Std.ExtTreeMap α β} {a : α} {b : β}
    (h : m[a]? = some b) : m.insert a b = m := by
  apply Std.ExtTreeMap.ext_getElem?
  intro other
  rw [Std.ExtTreeMap.getElem?_insert]
  split
  · rename_i heq
    rw [Std.compare_eq_iff_eq] at heq
    rw [← heq, h]
  · rfl

theorem erase_of_getElem?_eq_none [Std.LawfulEqOrd α] {m : Std.ExtTreeMap α β} {a : α}
    (h : m[a]? = none) : m.erase a = m := by
  refine Std.ExtTreeMap.ext_getElem? fun b => ?_
  rw [Std.ExtTreeMap.getElem?_erase]
  split
  · obtain rfl := Std.LawfulEqOrd.eq_of_compare ‹_›
    exact h.symm
  · rfl

theorem erase_erase_map [Std.LawfulEqOrd α] {m : Std.ExtTreeMap α β} {a : α} :
    (m.erase a).erase a = m.erase a :=
  erase_of_getElem?_eq_none Std.ExtTreeMap.getElem?_erase_self

/-- Changes that do no more when they are made again, made to the values of some keys. -/
theorem getElem?_foldl_modify [Std.LawfulEqOrd α] [DecidableEq α] {f : α → β → β}
    (hf : ∀ a b, f a (f a b) = f a b) (keys : List α) (m : Std.ExtTreeMap α β) (a : α) :
    (keys.foldl (fun m key => m.modify key (f key)) m)[a]? =
      if a ∈ keys then m[a]?.map (f a) else m[a]? := by
  induction keys generalizing m with
  | nil => rw [List.foldl_nil, if_neg List.not_mem_nil]
  | cons key rest ih =>
    rw [List.foldl_cons, ih, Std.ExtTreeMap.getElem?_modify]
    by_cases hkey : key = a
    · subst hkey
      rw [if_pos Std.ReflCmp.compare_self, if_pos List.mem_cons_self, Option.map_map]
      have hff : f key ∘ f key = f key := funext (hf key)
      rw [hff, ite_self]
    · rw [if_neg (mt Std.LawfulEqOrd.eq_of_compare hkey)]
      simp [Ne.symm hkey]

theorem getElem?_foldl_insert [Std.LawfulEqOrd α] [DecidableEq α] (keys : List α) (b : β)
    (m : Std.ExtTreeMap α β) (a : α) :
    (keys.foldl (fun m key => m.insert key b) m)[a]? = if a ∈ keys then some b else m[a]? := by
  induction keys generalizing m with
  | nil => rw [List.foldl_nil, if_neg List.not_mem_nil]
  | cons key rest ih =>
    rw [List.foldl_cons, ih, Std.ExtTreeMap.getElem?_insert]
    by_cases hkey : key = a
    · subst hkey
      rw [if_pos Std.ReflCmp.compare_self, if_pos List.mem_cons_self, ite_self]
    · rw [if_neg (mt Std.LawfulEqOrd.eq_of_compare hkey)]
      simp [Ne.symm hkey]

theorem mem_foldl_insert [Std.LawfulEqOrd α] [DecidableEq α] {keys : List α} {b : β}
    {m : Std.ExtTreeMap α β} {a : α} :
    a ∈ keys.foldl (fun m key => m.insert key b) m ↔ a ∈ keys ∨ a ∈ m := by
  rw [Std.ExtTreeMap.mem_iff_isSome_getElem?, getElem?_foldl_insert,
    Std.ExtTreeMap.mem_iff_isSome_getElem?]
  split <;> simp [*]

/-- Maps with the same keys are equal if they agree where a missing value is taken for some other
one. -/
theorem eq_of_getD [Std.LawfulEqOrd α] {m m' : Std.ExtTreeMap α β} (fallback : β)
    (hmem : ∀ a, a ∈ m' ↔ a ∈ m) (h : ∀ a : α, m[a]?.getD fallback = m'[a]?.getD fallback) :
    m = m' := by
  refine Std.ExtTreeMap.ext_getElem? fun a => ?_
  have hkey := hmem a
  have hvalue := h a
  rw [Std.ExtTreeMap.mem_iff_isSome_getElem?, Std.ExtTreeMap.mem_iff_isSome_getElem?] at hkey
  cases ha : m[a]? <;> cases ha' : m'[a]? <;> simp_all

theorem toList_insert_perm [Std.LawfulEqOrd α] {m : Std.ExtTreeMap α β} {a : α} {b : β}
    (h : a ∉ m) : (m.insert a b).toList.Perm ((a, b) :: m.toList) := by
  have hnodup : ∀ m : Std.ExtTreeMap α β, m.toList.Nodup := fun m =>
    Std.ExtTreeMap.distinct_keys_toList.imp fun hne heq =>
      hne (Std.compare_eq_iff_eq.2 (congrArg Prod.fst heq))
  have hnew : (a, b) ∉ m.toList := fun hmem =>
    h (mem_iff_exists_getElem?.2 ⟨b, Std.ExtTreeMap.mem_toList_iff_getElem?_eq_some.1 hmem⟩)
  refine (List.perm_ext_iff_of_nodup (hnodup _) (List.nodup_cons.2 ⟨hnew, hnodup m⟩)).2 ?_
  rintro ⟨key, value⟩
  rw [List.mem_cons, Std.ExtTreeMap.mem_toList_iff_getElem?_eq_some,
    Std.ExtTreeMap.mem_toList_iff_getElem?_eq_some, Std.ExtTreeMap.getElem?_insert]
  by_cases hkey : a = key
  · subst hkey
    rw [if_pos Std.ReflCmp.compare_self, Std.ExtTreeMap.getElem?_eq_none h]
    simp [eq_comm]
  · rw [if_neg (mt Std.LawfulEqOrd.eq_of_compare hkey)]
    simp [Ne.symm hkey]

theorem size_pos_of_mem [Std.LawfulEqOrd α] {m : Std.ExtTreeMap α β} {a : α} (h : a ∈ m) :
    0 < m.size := by
  rw [← Std.ExtTreeMap.length_keys]
  exact List.length_pos_of_mem (Std.ExtTreeMap.mem_keys.2 h)

end Maps

theorem any_eq_true {α : Type} [Ord α] [Std.TransOrd α] [Std.LawfulEqOrd α]
    {s : Std.ExtTreeSet α} {p : α → Bool} : s.any p = true ↔ ∃ x ∈ s, p x = true := by
  show s.inner.any (fun a _ => p a) = true ↔ _
  rw [any_eq_any_toList, List.any_eq_true]
  constructor
  · rintro ⟨⟨x, u⟩, hmem, hp⟩
    have hx : s.inner[x]? = some u := Std.ExtTreeMap.mem_toList_iff_getElem?_eq_some.1 hmem
    refine ⟨x, ?_, hp⟩
    show x ∈ s.inner
    exact mem_iff_exists_getElem?.2 ⟨u, hx⟩
  · rintro ⟨x, hx, hp⟩
    obtain ⟨u, hu⟩ : ∃ u, s.inner[x]? = some u := mem_iff_exists_getElem?.1 hx
    exact ⟨(x, u), Std.ExtTreeMap.mem_toList_iff_getElem?_eq_some.2 hu, hp⟩

/-- Fewer elements pass a stricter test, if one fails it that passes the other one. -/
theorem length_filter_lt {α : Type} {p q : α → Bool} {l : List α}
    (hstricter : ∀ x ∈ l, q x = true → p x = true) {x : α} (hx : x ∈ l) (hp : p x = true)
    (hq : q x = false) : (l.filter q).length < (l.filter p).length := by
  have htwice : l.filter q = (l.filter p).filter q := by
    rw [List.filter_filter]
    refine List.filter_congr fun y hy => ?_
    cases hqy : q y with
    | false => rfl
    | true => rw [hstricter y hy hqy, Bool.and_self]
  rw [htwice, List.length_filter_lt_length_iff_exists]
  exact ⟨x, List.mem_filter.2 ⟨hx, hp⟩, by simp [hq]⟩

end Meshcast
