import Mathlib.Data.List.Forall2
import Meshcast.Packet.Basic
import Meshcast.Proofs.NodeSets

/-!
# Meshcast — what is written is read back

A decoder reads a string of bytes as a value if it takes these bytes, and no others, off the front
of any input. The bytes spell the value if besides any input that breaks off before their end is
refused as too short. Decoders that run one after the other read strings that stand one after the
other.

* **`Decoder.Reads`**, **`Decoder.Spells`** — bytes as what a decoder makes of them, with
  **`spells_bind`** and its like.
* **`Decoder.whole_of_spells`** — a whole input that is such bytes, falls short of them or exceeds
  them.
* **`Hello.Legible`** — a greeting that has nothing in it that does not survive being written.
* **`Packet.spells_encode`**, **`Packet.decode_encode`** — a packet that can be written at all is
  read back.
-/

namespace Meshcast

/-- The input ended before the end of the message. -/
def DecodeError.IsTruncated (e : DecodeError) : Prop :=
  ∃ needed remaining, e = .truncated needed remaining

/-! ## Decoders -/

namespace Decoder

/-- The bytes come off the front of any input, as the value. -/
def Reads {α : Type} (d : Decoder α) (bytes : Bytes) (a : α) : Prop :=
  ∀ rest, d (bytes ++ rest) = .ok (a, rest)

/-- The bytes spell the value: the decoder reads them so, and where they break off it fails with an
error that says so. -/
structure Spells {α : Type} (short : DecodeError → Prop) (d : Decoder α) (bytes : Bytes) (a : α) :
    Prop where
  reads : d.Reads bytes a
  breaksOff : ∀ front rest, front ++ rest = bytes → rest ≠ [] → ∃ e, short e ∧ d front = .error e

section Combinators

variable {α β : Type} {short : DecodeError → Prop} {d : Decoder α} {f : α → Decoder β}
  {input rest bytes more : Bytes} {a : α} {b : β} {e : DecodeError}

theorem bind_of_ok (h : d input = .ok (a, rest)) (f : α → Decoder β) :
    (d >>= f) input = f a rest := by
  show (d input >>= fun result => f result.1 result.2) = _
  rw [h]
  rfl

theorem bind_of_error (h : d input = .error e) (f : α → Decoder β) :
    (d >>= f) input = .error e := by
  show (d input >>= fun result => f result.1 result.2) = _
  rw [h]
  rfl

theorem exists_of_bind (h : (d >>= f) input = .ok (b, rest)) :
    ∃ a middle, d input = .ok (a, middle) ∧ f a middle = .ok (b, rest) := by
  cases hd : d input with
  | ok result => exact ⟨result.1, result.2, rfl, (bind_of_ok hd f).symm.trans h⟩
  | error e =>
    rw [bind_of_error hd] at h
    nomatch h

theorem exists_of_map {g : α → β} (h : (g <$> d) input = .ok (b, rest)) :
    ∃ a, d input = .ok (a, rest) ∧ g a = b := by
  obtain ⟨a, middle, ha, h⟩ := exists_of_bind (f := fun a => pure (g a)) h
  cases h
  exact ⟨a, ha, rfl⟩

theorem spells_pure (a : α) : (pure a : Decoder α).Spells short [] a where
  reads _ := rfl
  breaksOff _ _ h hrest := absurd (List.append_eq_nil_iff.1 h).2 hrest

theorem spells_bind (hd : d.Spells short bytes a) (hf : (f a).Spells short more b) :
    (d >>= f).Spells short (bytes ++ more) b where
  reads rest := by
    rw [List.append_assoc, bind_of_ok (hd.reads _)]
    exact hf.reads rest
  breaksOff front rest h hrest := by
    by_cases hlength : front.length < bytes.length
    · -- the input breaks off within the bytes of the first value
      obtain ⟨left, hleft⟩ : front <+: bytes :=
        List.prefix_of_prefix_length_le ⟨rest, h⟩ (List.prefix_append bytes more) (by omega)
      have hne : left ≠ [] := by
        rintro rfl
        rw [List.append_nil] at hleft
        exact Nat.ne_of_lt hlength (congrArg List.length hleft)
      obtain ⟨e, hshort, he⟩ := hd.breaksOff front left hleft hne
      exact ⟨e, hshort, bind_of_error he f⟩
    · obtain ⟨front', rfl⟩ : bytes <+: front :=
        List.prefix_of_prefix_length_le (List.prefix_append bytes more) ⟨rest, h⟩ (by omega)
      rw [List.append_assoc, List.append_cancel_left_eq] at h
      obtain ⟨e, hshort, he⟩ := hf.breaksOff front' rest h hrest
      exact ⟨e, hshort, (bind_of_ok (hd.reads front') f).trans he⟩

theorem spells_bind_pure (g : α → β) (hd : d.Spells short bytes a) :
    (d >>= fun a => pure (g a)).Spells short bytes (g a) := by
  have h := spells_bind (f := fun a => pure (g a)) hd (spells_pure (g a))
  rwa [List.append_nil] at h

theorem spells_map (g : α → β) (hd : d.Spells short bytes a) :
    (g <$> d).Spells short bytes (g a) :=
  spells_bind_pure g hd

theorem eq_ok_of_whole (h : d.whole input = .ok a) : d input = .ok (a, []) := by
  unfold whole at h
  cases hd : d input with
  | ok result =>
    obtain ⟨b, rest⟩ := result
    rw [hd] at h
    cases rest with
    | nil =>
      cases h
      rfl
    | cons _ _ => nomatch h
  | error e =>
    rw [hd] at h
    nomatch h

/-- An input that is a whole message reads as the message. If it breaks off, or if there is more of
it, it is refused. -/
theorem whole_of_spells (hd : d.Spells short bytes a) :
    d.whole bytes = .ok a
      ∧ (∀ front, front <+: bytes → front ≠ bytes → ∃ e, short e ∧ d.whole front = .error e)
      ∧ ∀ more, more ≠ [] → d.whole (bytes ++ more) = .error (.trailingBytes more.length) := by
  refine ⟨?_, ?_, ?_⟩
  · have hread : d bytes = .ok (a, []) := by simpa using hd.reads []
    unfold whole
    rw [hread]
    rfl
  · rintro front ⟨rest, hrest⟩ hne
    obtain ⟨e, hshort, he⟩ := hd.breaksOff front rest hrest (by rintro rfl; simp_all)
    refine ⟨e, hshort, ?_⟩
    unfold whole
    rw [he]
    rfl
  · intro more hmore
    have hread : d (bytes ++ more) = .ok (a, more) := hd.reads more
    unfold whole
    rw [hread]
    show (if more.isEmpty then _ else _) = _
    rw [if_neg (by simpa using hmore)]
    rfl

theorem spells_takeOr {shortage : ℕ → ℕ → DecodeError} {needed : ℕ}
    (hshort : ∀ remaining < needed, short (shortage needed remaining))
    (h : bytes.length = needed) : (takeOr shortage needed).Spells short bytes bytes := by
  subst h
  unfold takeOr
  refine ⟨?_, ?_⟩
  · intro rest
    simp only [List.take_left, List.drop_left, Nat.lt_irrefl, if_false]
  · rintro front rest hbytes hrest
    have hlength : front.length < bytes.length := by
      have := List.length_pos_iff.2 hrest
      rw [← hbytes, List.length_append]
      omega
    refine ⟨_, hshort front.length hlength, ?_⟩
    rw [List.take_of_length_le (Nat.le_of_lt hlength)]
    exact if_pos hlength

theorem spells_take {needed : ℕ} (h : bytes.length = needed) :
    (take needed).Spells DecodeError.IsTruncated bytes bytes :=
  spells_takeOr (fun remaining _ => ⟨needed, remaining, rfl⟩) h

/-- To insist on bytes that are read next does no harm. -/
theorem spells_need {needed : ℕ} {g : Unit → Decoder α} (h : needed ≤ bytes.length)
    (hg : (g ()).Spells DecodeError.IsTruncated bytes a) :
    (need needed >>= g).Spells DecodeError.IsTruncated bytes a := by
  have hneed : ∀ front : Bytes, needed ≤ front.length → need needed front = .ok ((), front) := by
    intro front hlength
    unfold need
    simp only [List.length_take, Nat.min_eq_left hlength, Nat.lt_irrefl, if_false]
  refine ⟨?_, ?_⟩
  · intro rest
    rw [bind_of_ok (hneed _ (by rw [List.length_append]; omega))]
    exact hg.reads rest
  · intro front rest hbytes hrest
    by_cases hlength : needed ≤ front.length
    · rw [bind_of_ok (hneed front hlength)]
      exact hg.breaksOff front rest hbytes hrest
    · refine ⟨.truncated needed (front.take needed).length, ⟨_, _, rfl⟩, bind_of_error ?_ g⟩
      unfold need
      exact if_pos (by rw [List.length_take]; omega)

/-- A decoder that is repeated reads its strings one after the other. -/
theorem spells_repeated {values : List α} {strings : List Bytes}
    (h : List.Forall₂ (fun a bytes => d.Spells short bytes a) values strings) :
    (repeated d values.length).Spells short strings.flatten values := by
  induction h with
  | nil => exact spells_pure []
  | cons hfirst _ ih => exact spells_bind hfirst (spells_bind_pure _ ih)

end Combinators

theorem spells_octet (b : UInt8) : octet.Spells DecodeError.IsTruncated [b] b where
  reads _ := rfl
  breaksOff front rest h hrest := by
    cases front with
    | nil => exact ⟨_, ⟨1, 0, rfl⟩, rfl⟩
    | cons _ _ => simp_all

theorem spells_word16 (w : UInt16) :
    word16.Spells DecodeError.IsTruncated (bigEndian 2 w.toNat) w := by
  have hbound : w.toNat < wordBound 2 := w.toNat_lt
  have h := spells_map (fun bytes => UInt16.ofNat (ofBigEndian bytes))
    (spells_take (length_bigEndian 2 w.toNat))
  rwa [ofBigEndian_bigEndian hbound, UInt16.ofNat_toNat] at h

theorem spells_address (a : Address) : address.Spells DecodeError.IsTruncated a.octets a := by
  have h := spells_map Address.ofOctets (spells_take a.length_octets)
  rwa [a.ofOctets_octets] at h

theorem addressesOf_flatMap (addresses : List Address) :
    addressesOf (addresses.flatMap Address.octets) = addresses := by
  induction addresses with
  | nil => rfl
  | cons a rest ih =>
    obtain ⟨w, x, y, z, hoctets⟩ : ∃ w x y z, a.octets = [w, x, y, z] := by
      match h : a.octets, a.length_octets with
      | [w, x, y, z], _ => exact ⟨w, x, y, z, rfl⟩
    have ha : Address.ofOctets [w, x, y, z] = a := by rw [← hoctets, a.ofOctets_octets]
    rw [List.flatMap_cons, hoctets]
    show Address.ofOctets [w, x, y, z] :: addressesOf (rest.flatMap Address.octets) = a :: rest
    rw [ha, ih]

theorem spells_addresses {addresses : List Address} (h : addresses.length < 256) :
    Decoder.addresses.Spells DecodeError.IsTruncated
      ([UInt8.ofNat addresses.length] ++ addresses.flatMap Address.octets) addresses := by
  have hcount : (UInt8.ofNat addresses.length).toNat = addresses.length :=
    UInt8.toNat_ofNat_of_lt h
  have hlength : (addresses.flatMap Address.octets).length
      = (UInt8.ofNat addresses.length).toNat * 4 := by
    rw [hcount, List.length_flatMap]
    simp
  have hlist := spells_map addressesOf (spells_take hlength)
  rw [addressesOf_flatMap] at hlist
  exact spells_bind (spells_octet _) hlist

end Decoder

/-! ## Counted lists -/

theorem exists_of_bind_eq_ok {ε α β : Type} {x : Except ε α} {f : α → Except ε β} {b : β}
    (h : x >>= f = .ok b) : ∃ a, x = .ok a ∧ f a = .ok b := by
  cases x with
  | error _ => nomatch h
  | ok a => exact ⟨a, rfl, h⟩

theorem encodeCount_eq_ok {list : CountedList} {length : Nat} {bytes : Bytes}
    (h : encodeCount list length = .ok bytes) : length < 256 ∧ bytes = [UInt8.ofNat length] := by
  unfold encodeCount at h
  split at h
  · rename_i hlength
    exact ⟨hlength, (Except.ok.inj h).symm⟩
  · nomatch h

theorem encodeAddresses_of_lt {addresses : AddressSet} (h : addresses.size < 256)
    (list : CountedList) :
    encodeAddresses list addresses =
      .ok ([UInt8.ofNat addresses.size] ++ addresses.toList.flatMap Address.octets) := by
  unfold encodeAddresses encodeCount
  rw [if_pos h]
  rfl

theorem encodeAddresses_eq_ok {list : CountedList} {addresses : AddressSet} {bytes : Bytes}
    (h : encodeAddresses list addresses = .ok bytes) :
    addresses.size < 256
      ∧ bytes = [UInt8.ofNat addresses.size] ++ addresses.toList.flatMap Address.octets := by
  obtain ⟨count, hcount, h⟩ := exists_of_bind_eq_ok h
  obtain ⟨hsize, rfl⟩ := encodeCount_eq_ok hcount
  exact ⟨hsize, (Except.ok.inj h).symm⟩

theorem spells_encodeAddresses {list : CountedList} {addresses : AddressSet} {bytes : Bytes}
    (h : encodeAddresses list addresses = .ok bytes) :
    Decoder.addresses.Spells DecodeError.IsTruncated bytes addresses.toList := by
  obtain ⟨hsize, rfl⟩ := encodeAddresses_eq_ok h
  rw [← Std.ExtTreeSet.length_toList] at hsize ⊢
  exact Decoder.spells_addresses hsize

/-! ## Greetings -/

namespace Hello

/-- Every group lists somebody, and its code is one that an octet may hold. -/
def Legible (hello : Hello) : Prop :=
  ∀ (code : LinkCode) (addresses : AddressSet), hello.groups[code]? = some addresses →
    addresses.isEmpty = false ∧ LinkCode.ofOctet code.toOctet = .ok code

theorem writtenGroups_of_legible {hello : Hello} (h : hello.Legible) :
    hello.writtenGroups = hello.groups.toList := by
  unfold writtenGroups
  rw [List.filter_eq_self]
  rintro ⟨code, addresses⟩ hmem
  rw [Std.ExtTreeMap.mem_toList_iff_getElem?_eq_some] at hmem
  show (!addresses.isEmpty) = true
  rw [(h code addresses hmem).1]
  rfl

theorem spells_group {group : LinkCode × AddressSet} {bytes : Bytes}
    (hcode : LinkCode.ofOctet group.1.toOctet = .ok group.1)
    (h : encodeGroup group = .ok bytes) :
    decodeGroup.Spells DecodeError.IsTruncated bytes (group.1, group.2.toList) := by
  obtain ⟨written, hwritten, hbytes⟩ := exists_of_bind_eq_ok h
  obtain rfl := Except.ok.inj hbytes
  have hread : (liftM (LinkCode.ofOctet group.1.toOctet) : Decoder LinkCode).Spells
      DecodeError.IsTruncated [] group.1 := by
    rw [hcode]
    exact Decoder.spells_pure _
  have haddresses := Decoder.spells_bind_pure (fun addresses => (group.1, addresses))
    (spells_encodeAddresses hwritten)
  exact Decoder.spells_bind (Decoder.spells_octet _) (Decoder.spells_bind hread haddresses)

theorem spells_groups {groups : List (LinkCode × AddressSet)} {strings : List Bytes}
    (hcodes : ∀ group ∈ groups, LinkCode.ofOctet group.1.toOctet = .ok group.1)
    (h : groups.mapM encodeGroup = .ok strings) :
    List.Forall₂ (fun group bytes => decodeGroup.Spells DecodeError.IsTruncated bytes group)
      (groups.map fun group => (group.1, group.2.toList)) strings := by
  induction groups generalizing strings with
  | nil =>
    cases h
    exact .nil
  | cons group rest ih =>
    rw [List.mapM_cons] at h
    obtain ⟨first, hfirst, h⟩ := exists_of_bind_eq_ok h
    obtain ⟨others, hothers, h⟩ := exists_of_bind_eq_ok h
    obtain rfl := Except.ok.inj h
    exact .cons (spells_group (hcodes group List.mem_cons_self) hfirst)
      (ih (fun other hother => hcodes other (List.mem_cons_of_mem _ hother)) hothers)

theorem getElem?_groups_list (hello : Hello) (code other : LinkCode) (addresses : List Address) :
    (hello.list code addresses).groups[other]? =
      if code = other then some ((hello.listedUnder code).insertMany addresses)
      else hello.groups[other]? := by
  show (hello.groups.insert code _)[other]? = _
  rw [Std.ExtTreeMap.getElem?_insert]
  simp only [Std.compare_eq_iff_eq]

/-- Groups of different codes that are listed one after the other are all there in the end. -/
theorem getElem?_groups_foldl {groups : List (LinkCode × AddressSet)}
    (hdistinct : groups.Pairwise fun a b => a.1 ≠ b.1) {hello : Hello}
    (hfresh : ∀ group ∈ groups, hello.groups[group.1]? = none) (code : LinkCode) :
    ((groups.map fun group => (group.1, group.2.toList)).foldl
        (fun hello group => hello.list group.1 group.2) hello).groups[code]? =
      ((groups.find? (·.1 = code)).map Prod.snd).or hello.groups[code]? := by
  induction groups generalizing hello with
  | nil => rfl
  | cons group rest ih =>
    obtain ⟨hfirst, hrest⟩ := List.pairwise_cons.1 hdistinct
    have hempty : hello.listedUnder group.1 = ∅ := by
      unfold listedUnder
      rw [hfresh group List.mem_cons_self]
      rfl
    have hlisted : (hello.listedUnder group.1).insertMany group.2.toList = group.2 := by
      rw [hempty]
      apply Std.ExtTreeSet.ext_mem
      intro a
      rw [Std.ExtTreeSet.mem_insertMany_list, List.contains_iff_mem, Std.ExtTreeSet.mem_toList]
      simp
    rw [List.map_cons, List.foldl_cons, ih hrest, getElem?_groups_list, hlisted]
    · by_cases hcode : group.1 = code
      · have hnone : rest.find? (fun other => other.1 = code) = none := by
          rw [List.find?_eq_none]
          intro other hother heq
          exact hfirst other hother (hcode.trans (of_decide_eq_true heq).symm)
        rw [hnone, if_pos hcode, List.find?_cons_of_pos (by simpa using hcode)]
        rfl
      · rw [if_neg hcode, List.find?_cons_of_neg (by simpa using hcode)]
    · intro other hother
      rw [getElem?_groups_list, if_neg (hfirst other hother)]
      exact hfresh other (List.mem_cons_of_mem _ hother)

theorem foldl_groups (hello : Hello) :
    (hello.groups.toList.map fun group => (group.1, group.2.toList)).foldl
      (fun (hello : Hello) group => hello.list group.1 group.2) {} = hello := by
  have hdistinct : hello.groups.toList.Pairwise fun a b => a.1 ≠ b.1 :=
    Std.ExtTreeMap.distinct_keys_toList.imp fun h heq => h (Std.compare_eq_iff_eq.2 heq)
  suffices hgroups : (_ : Hello).groups = hello.groups from congrArg Hello.mk hgroups
  apply Std.ExtTreeMap.ext_getElem?
  intro code
  rw [getElem?_groups_foldl hdistinct fun _ _ => Std.ExtTreeMap.getElem?_empty]
  cases hgroup : hello.groups[code]? with
  | none =>
    have hnone : hello.groups.toList.find? (fun group => group.1 = code) = none := by
      rw [List.find?_eq_none]
      rintro ⟨other, addresses⟩ hmem heq
      obtain rfl : other = code := of_decide_eq_true heq
      rw [Std.ExtTreeMap.mem_toList_iff_getElem?_eq_some, hgroup] at hmem
      nomatch hmem
    rw [hnone]
    rfl
  | some addresses =>
    have hmem : (code, addresses) ∈ hello.groups.toList :=
      Std.ExtTreeMap.mem_toList_iff_getElem?_eq_some.2 hgroup
    cases hfind : hello.groups.toList.find? (fun group => group.1 = code) with
    | none =>
      rw [List.find?_eq_none] at hfind
      exact absurd (decide_eq_true rfl) (hfind _ hmem)
    | some found =>
      obtain ⟨other, others⟩ := found
      have hcode : other = code := by simpa using List.find?_some hfind
      have hfound := List.mem_of_find?_eq_some hfind
      rw [Std.ExtTreeMap.mem_toList_iff_getElem?_eq_some, hcode, hgroup] at hfound
      exact hfound.symm

theorem spells_encode {hello : Hello} (hlegible : hello.Legible) {bytes : Bytes}
    (h : hello.encode = .ok bytes) : Hello.decode.Spells DecodeError.IsTruncated bytes hello := by
  unfold encode at h
  rw [writtenGroups_of_legible hlegible] at h
  obtain ⟨count, hcount, h⟩ := exists_of_bind_eq_ok h
  obtain ⟨strings, hstrings, h⟩ := exists_of_bind_eq_ok h
  obtain rfl := Except.ok.inj h
  obtain ⟨hlength, rfl⟩ := encodeCount_eq_ok hcount
  have hcodes : ∀ group ∈ hello.groups.toList,
      LinkCode.ofOctet group.1.toOctet = .ok group.1 := by
    rintro ⟨code, addresses⟩ hmem
    rw [Std.ExtTreeMap.mem_toList_iff_getElem?_eq_some] at hmem
    exact (hlegible code addresses hmem).2
  have hread := Decoder.spells_repeated (spells_groups hcodes hstrings)
  rw [List.length_map, ← UInt8.toNat_ofNat_of_lt hlength] at hread
  have hgroups := Decoder.spells_bind_pure
    (fun groups => groups.foldl (fun (hello : Hello) group => hello.list group.1 group.2) {}) hread
  rw [foldl_groups] at hgroups
  unfold Hello.decode
  exact Decoder.spells_bind (Decoder.spells_octet _) hgroups

end Hello

/-! ## Announcements -/

namespace Tc

theorem spells_encode {tc : Tc} {bytes : Bytes} (h : tc.encode = .ok bytes) :
    Tc.decode.Spells DecodeError.IsTruncated bytes tc := by
  obtain ⟨advertised, hadvertised, h⟩ := exists_of_bind_eq_ok h
  obtain ⟨groups, hgroups, h⟩ := exists_of_bind_eq_ok h
  obtain rfl := Except.ok.inj h
  have hread := Decoder.spells_bind_pure
    (fun groups => ({
      ansn := ⟨tc.ansn.value⟩
      advertised := .ofList tc.advertised.toList
      groups := .ofList groups } : Tc))
    (spells_encodeAddresses hgroups)
  rw [ofList_toList, ofList_toList] at hread
  rw [List.append_assoc]
  unfold Tc.decode
  refine Decoder.spells_bind (Decoder.spells_word16 tc.ansn.value)
    (Decoder.spells_bind (spells_encodeAddresses hadvertised) ?_)
  rw [ofList_toList]
  exact hread

end Tc

/-! ## Packets -/

namespace Header

/-- What stands in a header behind the type of the message. -/
def fields (header : Header) : Bytes :=
  [header.validity.octet] ++ (header.originator.octets
    ++ ([header.ttl] ++ ([header.hopCount] ++ bigEndian 2 header.seq.value.toNat)))

theorem encode_eq (header : Header) (type : MessageType) :
    header.encode type = [type.toOctet] ++ header.fields :=
  rfl

theorem spells_fields (header : Header) :
    Header.decode.Spells DecodeError.IsTruncated header.fields header := by
  have hlength : 9 ≤ header.fields.length := by
    unfold fields
    simp
  have hseq := Decoder.spells_bind_pure
    (fun value : UInt16 => ({ header with seq := ⟨value⟩ } : Header))
    (Decoder.spells_word16 header.seq.value)
  unfold Header.decode
  exact Decoder.spells_need hlength
    (Decoder.spells_bind (Decoder.spells_octet _)
      (Decoder.spells_bind (Decoder.spells_address _)
        (Decoder.spells_bind (Decoder.spells_octet _)
          (Decoder.spells_bind (Decoder.spells_octet _) hseq))))

end Header

namespace Body

/-- A greeting has to be legible, an announcement always is. -/
def Legible : Body → Prop
  | .hello message => message.Legible
  | .tc _ => True

/-- There are bytes for a body, and they are read back. -/
structure Travels (body : Body) : Prop where
  legible : body.Legible
  encodes : ∃ bytes, body.encode = .ok bytes

theorem spells_encode {body : Body} (hlegible : body.Legible) {bytes : Bytes}
    (h : body.encode = .ok bytes) :
    (Body.decode body.type).Spells DecodeError.IsTruncated bytes body := by
  cases body with
  | hello message => exact Decoder.spells_map Body.hello (Hello.spells_encode hlegible h)
  | tc message => exact Decoder.spells_map Body.tc (Tc.spells_encode h)

end Body

namespace Packet

theorem encode_of_body {body : Body} {bytes : Bytes} (h : body.encode = .ok bytes)
    (header : Header) :
    Packet.encode ⟨header, body⟩ = .ok (header.encode body.type ++ bytes) := by
  unfold encode
  dsimp only
  rw [h]
  rfl

theorem exists_of_encode_eq_ok {packet : Packet} {bytes : Bytes} (h : packet.encode = .ok bytes) :
    ∃ body, packet.body.encode = .ok body
      ∧ bytes = packet.header.encode packet.body.type ++ body := by
  obtain ⟨body, hbody, h⟩ := exists_of_bind_eq_ok h
  exact ⟨body, hbody, (Except.ok.inj h).symm⟩

theorem spells_encode {body : Body} (hlegible : body.Legible) {bytes : Bytes}
    (h : body.encode = .ok bytes) (header : Header) :
    decoder.Spells DecodeError.IsTruncated (header.encode body.type ++ bytes) ⟨header, body⟩ := by
  have htype : (liftM (MessageType.ofOctet body.type.toOctet) : Decoder MessageType).Spells
      DecodeError.IsTruncated [] body.type := by
    cases body with
    | hello _ => exact Decoder.spells_pure _
    | tc _ => exact Decoder.spells_pure _
  have hbody := Decoder.spells_bind_pure (fun body => ({ header, body } : Packet))
    (Body.spells_encode hlegible h)
  have hpacket : decoder.Spells DecodeError.IsTruncated
      ([body.type.toOctet] ++ ([] ++ (header.fields ++ bytes))) ⟨header, body⟩ := by
    unfold decoder
    exact Decoder.spells_bind (Decoder.spells_octet _)
      (Decoder.spells_bind htype (Decoder.spells_bind header.spells_fields hbody))
  rw [header.encode_eq, List.append_assoc]
  exact hpacket

/-- **What is written is read back**, whatever the header says. -/
theorem decode_encode {body : Body} (hlegible : body.Legible) {bytes : Bytes}
    (h : body.encode = .ok bytes) (header : Header) :
    Packet.decode (header.encode body.type ++ bytes) = .ok ⟨header, body⟩ :=
  (Decoder.whole_of_spells (spells_encode hlegible h header)).1

theorem decode_of_encode {packet : Packet} (hlegible : packet.body.Legible) {bytes : Bytes}
    (h : packet.encode = .ok bytes) : Packet.decode bytes = .ok packet := by
  obtain ⟨body, hbody, rfl⟩ := exists_of_encode_eq_ok h
  exact decode_encode hlegible hbody packet.header

theorem exists_bytes {packet : Packet} (h : packet.body.Travels) :
    ∃ bytes, packet.encode = .ok bytes ∧ Packet.decode bytes = .ok packet := by
  obtain ⟨bytes, hbytes⟩ := h.encodes
  exact ⟨_, encode_of_body hbytes packet.header, decode_encode h.legible hbytes packet.header⟩

/-- The message of a packet that was read was read itself. -/
theorem exists_of_decode {input : Bytes} {packet : Packet} (h : Packet.decode input = .ok packet) :
    ∃ type middle rest, Body.decode type middle = .ok (packet.body, rest) := by
  obtain ⟨octet, middle, -, h⟩ := Decoder.exists_of_bind (Decoder.eq_ok_of_whole h)
  obtain ⟨type, middle', -, h⟩ := Decoder.exists_of_bind h
  obtain ⟨header, middle'', -, h⟩ := Decoder.exists_of_bind h
  obtain ⟨body, rest, hbody, h⟩ := Decoder.exists_of_bind h
  cases h
  exact ⟨type, middle'', _, hbody⟩

end Packet

end Meshcast
