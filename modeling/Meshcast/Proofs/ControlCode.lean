import Meshcast.Proofs.OwnPackets

/-!
# Meshcast — control packets as a code

A control packet has bytes unless one of its lists is too long to be counted in one octet. The bytes
determine the packet but for the empty groups of a greeting, which are not written, and no part of
them is the bytes of another packet.

* **`Body.Counts`** — the lists of a message, with their lengths.
* **`Packet.exists_of_encode_eq_error`**, **`Packet.le_of_encode_eq_ok`** — a packet has no bytes
  exactly if one of these is too long.
* **`Body.Readable`** — a greeting that lists nobody under a code that no octet may hold;
  **`Packet.readable_of_decode`** — whatever was read is such a message.
* **`Packet.faithful_code`** — the result.
-/

namespace Meshcast

/-! ## Lists that are too long -/

section Steps

variable {ε α β : Type} {f : α → Except ε β} {l : List α}

theorem bind_eq_error {x : Except ε α} {e : ε} (h : x >>= f = .error e) :
    x = .error e ∨ ∃ a, x = .ok a ∧ f a = .error e := by
  cases x with
  | error _ =>
    cases h
    exact .inl rfl
  | ok a => exact .inr ⟨a, rfl, h⟩

theorem exists_of_mapM_eq_error {e : ε} (h : l.mapM f = .error e) : ∃ a ∈ l, f a = .error e := by
  induction l with
  | nil => nomatch h
  | cons a rest ih =>
    rw [List.mapM_cons] at h
    rcases bind_eq_error h with h | ⟨b, -, h⟩
    · exact ⟨a, List.mem_cons_self, h⟩
    · rcases bind_eq_error h with h | ⟨bs, -, h⟩
      · obtain ⟨a', hmem, ha'⟩ := ih h
        exact ⟨a', List.mem_cons_of_mem a hmem, ha'⟩
      · nomatch h

theorem exists_of_mapM_eq_ok {bs : List β} (h : l.mapM f = .ok bs) {a : α} (ha : a ∈ l) :
    ∃ b, f a = .ok b := by
  induction l generalizing bs with
  | nil => nomatch ha
  | cons first rest ih =>
    rw [List.mapM_cons] at h
    obtain ⟨b, hb, h⟩ := exists_of_bind_eq_ok h
    obtain ⟨others, hothers, -⟩ := exists_of_bind_eq_ok h
    rcases List.mem_cons.1 ha with rfl | ha
    · exact ⟨b, hb⟩
    · exact ih hothers ha

end Steps

theorem encodeCount_eq_error {list : CountedList} {length : Nat} {e : EncodeError}
    (h : encodeCount list length = .error e) : 255 < length ∧ e = .tooManyEntries list length := by
  unfold encodeCount at h
  split at h
  · nomatch h
  · cases h
    exact ⟨by omega, rfl⟩

theorem encodeAddresses_eq_error {list : CountedList} {addresses : AddressSet} {e : EncodeError}
    (h : encodeAddresses list addresses = .error e) :
    255 < addresses.size ∧ e = .tooManyEntries list addresses.size := by
  rcases bind_eq_error h with h | ⟨count, -, h⟩
  · exact encodeCount_eq_error h
  · nomatch h

/-- A message has a list of so many addresses, whose length is written in one octet. -/
inductive Body.Counts : Body → CountedList → Nat → Prop
  | neighbors {hello : Hello} {code : LinkCode} {addresses : AddressSet}
    (group : hello.groups[code]? = some addresses) :
    Counts (.hello hello) .helloNeighbors addresses.size
  | advertised (tc : Tc) : Counts (.tc tc) .advertisedNeighbors tc.advertised.size
  | groups (tc : Tc) : Counts (.tc tc) .multicastGroups tc.groups.size

namespace Hello

theorem mem_writtenGroups {hello : Hello} {group : LinkCode × AddressSet} :
    group ∈ hello.writtenGroups ↔
      hello.groups[group.1]? = some group.2 ∧ group.2.isEmpty = false := by
  unfold writtenGroups
  rw [List.mem_filter, Std.ExtTreeMap.mem_toList_iff_getElem?_eq_some, Bool.not_eq_true']

/-- There are so few codes that the groups can always be counted. -/
theorem length_writtenGroups_lt (hello : Hello) : hello.writtenGroups.length < 256 :=
  Nat.lt_of_le_of_lt (List.length_filter_le _ _) hello.length_toList_groups_lt

theorem counts_of_encode_eq_error {hello : Hello} {e : EncodeError} (h : hello.encode = .error e) :
    ∃ list length, (Body.hello hello).Counts list length ∧ 255 < length
      ∧ e = .tooManyEntries list length := by
  rcases bind_eq_error h with h | ⟨count, -, h⟩
  · have hlength := hello.length_writtenGroups_lt
    have hmany := (encodeCount_eq_error h).1
    omega
  · rcases bind_eq_error h with h | ⟨groups, -, h⟩
    · obtain ⟨group, hmem, hgroup⟩ := exists_of_mapM_eq_error h
      have hgroup : encodeAddresses .helloNeighbors group.2 = .error e := by
        rcases bind_eq_error hgroup with h | ⟨bytes, -, h⟩
        · exact h
        · nomatch h
      obtain ⟨hmany, rfl⟩ := encodeAddresses_eq_error hgroup
      exact ⟨_, _, .neighbors (mem_writtenGroups.1 hmem).1, hmany, rfl⟩
    · nomatch h

theorem le_of_encode_eq_ok {hello : Hello} {bytes : Bytes} (h : hello.encode = .ok bytes)
    {code : LinkCode} {addresses : AddressSet} (hgroup : hello.groups[code]? = some addresses) :
    addresses.size ≤ 255 := by
  cases hempty : addresses.isEmpty with
  | true =>
    rw [Std.ExtTreeSet.isEmpty_eq_size_beq_zero, beq_iff_eq] at hempty
    omega
  | false =>
    obtain ⟨count, -, h⟩ := exists_of_bind_eq_ok h
    obtain ⟨strings, hstrings, -⟩ := exists_of_bind_eq_ok h
    have hwritten : (code, addresses) ∈ hello.writtenGroups :=
      mem_writtenGroups.2 ⟨hgroup, hempty⟩
    obtain ⟨string, hstring⟩ := exists_of_mapM_eq_ok hstrings hwritten
    obtain ⟨written, hlist, -⟩ := exists_of_bind_eq_ok hstring
    have hsize : addresses.size < 256 := (encodeAddresses_eq_ok hlist).1
    omega

end Hello

namespace Tc

theorem counts_of_encode_eq_error {tc : Tc} {e : EncodeError} (h : tc.encode = .error e) :
    ∃ list length, (Body.tc tc).Counts list length ∧ 255 < length
      ∧ e = .tooManyEntries list length := by
  rcases bind_eq_error h with h | ⟨advertised, -, h⟩
  · exact ⟨_, _, .advertised tc, encodeAddresses_eq_error h⟩
  · rcases bind_eq_error h with h | ⟨groups, -, h⟩
    · exact ⟨_, _, .groups tc, encodeAddresses_eq_error h⟩
    · nomatch h

theorem le_of_encode_eq_ok {tc : Tc} {bytes : Bytes} (h : tc.encode = .ok bytes) :
    tc.advertised.size ≤ 255 ∧ tc.groups.size ≤ 255 := by
  obtain ⟨advertised, hadvertised, h⟩ := exists_of_bind_eq_ok h
  obtain ⟨groups, hgroups, -⟩ := exists_of_bind_eq_ok h
  have := (encodeAddresses_eq_ok hadvertised).1
  have := (encodeAddresses_eq_ok hgroups).1
  omega

end Tc

namespace Packet

/-- The error names a list that is too long. -/
theorem exists_of_encode_eq_error {packet : Packet} {e : EncodeError}
    (h : packet.encode = .error e) :
    ∃ list length, packet.body.Counts list length ∧ 255 < length
      ∧ e = .tooManyEntries list length := by
  obtain ⟨header, body⟩ := packet
  rcases bind_eq_error h with h | ⟨bytes, -, h⟩
  · cases body with
    | hello message => exact Hello.counts_of_encode_eq_error h
    | tc message => exact Tc.counts_of_encode_eq_error h
  · nomatch h

theorem le_of_encode_eq_ok {packet : Packet} {bytes : Bytes} (h : packet.encode = .ok bytes)
    {list : CountedList} {length : Nat} (hcounts : packet.body.Counts list length) :
    length ≤ 255 := by
  obtain ⟨header, body⟩ := packet
  obtain ⟨bytes, hbody, -⟩ := exists_of_encode_eq_ok h
  cases hcounts with
  | neighbors hgroup => exact Hello.le_of_encode_eq_ok hbody hgroup
  | advertised => exact (Tc.le_of_encode_eq_ok hbody).1
  | groups => exact (Tc.le_of_encode_eq_ok hbody).2

end Packet

/-! ## Groups that are not written -/

namespace Hello

/-- The groups that list somebody. -/
def withoutEmptyGroups (hello : Hello) : Hello :=
  ⟨hello.groups.filter fun _ addresses => !addresses.isEmpty⟩

theorem toList_withoutEmptyGroups (hello : Hello) :
    hello.withoutEmptyGroups.groups.toList = hello.writtenGroups :=
  Std.ExtTreeMap.toList_filter

theorem encode_withoutEmptyGroups (hello : Hello) :
    hello.withoutEmptyGroups.encode = hello.encode := by
  have hwritten : hello.withoutEmptyGroups.writtenGroups = hello.writtenGroups := by
    show hello.withoutEmptyGroups.groups.toList.filter _ = _
    rw [toList_withoutEmptyGroups]
    unfold writtenGroups
    rw [List.filter_filter]
    simp only [Bool.and_self]
  unfold encode
  rw [hwritten]

/-- Nobody is listed as a symmetric neighbor over an asymmetric link. -/
def Readable (hello : Hello) : Prop :=
  ∀ (code : LinkCode) (addresses : AddressSet), hello.groups[code]? = some addresses →
    addresses.isEmpty = false → ¬(code.link = .asymmetric ∧ code.neighbor.isSymmetric = true)

theorem legible_withoutEmptyGroups {hello : Hello} (h : hello.Readable) :
    hello.withoutEmptyGroups.Legible := by
  intro code addresses hgroup
  rw [withoutEmptyGroups, Std.ExtTreeMap.getElem?_filter', Option.filter_eq_some_iff] at hgroup
  obtain ⟨hgroup, hempty⟩ := hgroup
  rw [Bool.not_eq_true'] at hempty
  refine ⟨hempty, ?_⟩
  rw [code.ofOctet_toOctet, if_neg (h code addresses hgroup hempty)]

end Hello

namespace Body

def withoutEmptyGroups : Body → Body
  | .hello message => .hello message.withoutEmptyGroups
  | .tc message => .tc message

def Readable : Body → Prop
  | .hello message => message.Readable
  | .tc _ => True

theorem legible_withoutEmptyGroups {body : Body} (h : body.Readable) :
    body.withoutEmptyGroups.Legible := by
  cases body with
  | hello message => exact Hello.legible_withoutEmptyGroups h
  | tc message => trivial

theorem encode_withoutEmptyGroups (body : Body) : body.withoutEmptyGroups.encode = body.encode := by
  cases body with
  | hello message => exact message.encode_withoutEmptyGroups
  | tc message => rfl

theorem type_withoutEmptyGroups (body : Body) : body.withoutEmptyGroups.type = body.type := by
  cases body <;> rfl

end Body

namespace Packet

def withoutEmptyGroups (packet : Packet) : Packet :=
  { packet with body := packet.body.withoutEmptyGroups }

theorem spells_withoutEmptyGroups {packet : Packet} {bytes : Bytes}
    (h : packet.encode = .ok bytes) (hreadable : packet.body.Readable) :
    decoder.Spells DecodeError.IsTruncated bytes packet.withoutEmptyGroups := by
  obtain ⟨body, hbody, rfl⟩ := exists_of_encode_eq_ok h
  rw [← packet.body.type_withoutEmptyGroups]
  rw [← packet.body.encode_withoutEmptyGroups] at hbody
  exact spells_encode (Body.legible_withoutEmptyGroups hreadable) hbody packet.header

end Packet

/-! ## Whatever is read can be read again -/

theorem LinkCode.readable_of_ofOctet {octet : UInt8} {code : LinkCode}
    (h : ofOctet octet = .ok code) :
    ¬(code.link = .asymmetric ∧ code.neighbor.isSymmetric = true) := by
  unfold ofOctet at h
  dsimp only at h
  split at h
  · cases h
    simp [NeighborType.isSymmetric]
  · split at h
    · cases h
    · cases h
      exact fun hboth => absurd hboth.1 ‹_›
  · split at h
    · cases h
    · cases h
      exact fun hboth => absurd hboth.1 ‹_›
  · cases h

theorem Decoder.forall_mem_of_repeated {α : Type} {d : Decoder α} {P : α → Prop}
    (hd : ∀ input a rest, d input = .ok (a, rest) → P a) {n : Nat} {input rest : Bytes}
    {values : List α} (h : repeated d n input = .ok (values, rest)) : ∀ a ∈ values, P a := by
  induction n generalizing input values with
  | zero =>
    cases h
    nofun
  | succ n ih =>
    obtain ⟨a, middle, ha, h⟩ := exists_of_bind h
    obtain ⟨others, middle', hothers, h⟩ := exists_of_bind h
    cases h
    exact List.forall_mem_cons.2 ⟨hd _ _ _ ha, ih hothers⟩

namespace Hello

theorem readable_decodeGroup {input rest : Bytes} {group : LinkCode × List Address}
    (h : decodeGroup input = .ok (group, rest)) :
    ¬(group.1.link = .asymmetric ∧ group.1.neighbor.isSymmetric = true) := by
  obtain ⟨octet, middle, -, h⟩ := Decoder.exists_of_bind h
  obtain ⟨code, middle', hcode, h⟩ := Decoder.exists_of_bind h
  obtain ⟨addresses, middle'', -, h⟩ := Decoder.exists_of_bind h
  cases h
  cases hoctet : LinkCode.ofOctet octet with
  | ok code' =>
    rw [hoctet] at hcode
    cases hcode
    exact LinkCode.readable_of_ofOctet hoctet
  | error e =>
    rw [hoctet] at hcode
    nomatch hcode

theorem exists_of_groups_foldl {groups : List (LinkCode × List Address)} {hello : Hello}
    {code : LinkCode} {addresses : AddressSet}
    (h : (groups.foldl (fun (hello : Hello) group =>
      hello.list group.1 group.2) hello).groups[code]? = some addresses) :
    (∃ group ∈ groups, group.1 = code) ∨ hello.groups[code]? = some addresses := by
  induction groups generalizing hello with
  | nil => exact .inr h
  | cons group rest ih =>
    rcases ih h with ⟨other, hmem, hcode⟩ | hlisted
    · exact .inl ⟨other, List.mem_cons_of_mem group hmem, hcode⟩
    · rw [getElem?_groups_list] at hlisted
      split at hlisted
      · exact .inl ⟨group, List.mem_cons_self, ‹_›⟩
      · exact .inr hlisted

theorem readable_of_decode {input rest : Bytes} {hello : Hello}
    (h : Hello.decode input = .ok (hello, rest)) : hello.Readable := by
  obtain ⟨count, middle, -, h⟩ := Decoder.exists_of_bind h
  obtain ⟨groups, middle', hgroups, h⟩ := Decoder.exists_of_bind h
  cases h
  have hreadable := Decoder.forall_mem_of_repeated (fun _ _ _ => readable_decodeGroup) hgroups
  intro code addresses hgroup _
  rcases exists_of_groups_foldl hgroup with ⟨group, hmem, rfl⟩ | hnone
  · exact hreadable group hmem
  · simp at hnone

end Hello

theorem Packet.readable_of_decode {input : Bytes} {packet : Packet}
    (h : Packet.decode input = .ok packet) : packet.body.Readable := by
  obtain ⟨type, middle, rest, hbody⟩ := exists_of_decode h
  cases type with
  | hello =>
    obtain ⟨message, hmessage, heq⟩ := Decoder.exists_of_map hbody
    rw [← heq]
    exact Hello.readable_of_decode hmessage
  | tc =>
    obtain ⟨message, -, heq⟩ := Decoder.exists_of_map hbody
    rw [← heq]
    trivial

/-! ## The code -/

/-- **The format of control packets is faithful, and no packet is the beginning of another.** A
packet has no bytes exactly if some group of its greeting, its advertised set or its group set has
more than 255 addresses, and the error tells which list that is and how long. If it has bytes, and
lists nobody as a symmetric neighbor over an asymmetric link, then they are read as the packet
without the empty groups of its greeting; all that breaks off before their end is refused as
truncated, and whatever goes on behind it is refused with the number of bytes that are left over. If
the packet was read from any input and can be written, then what is written is read as the packet
without empty groups. -/
theorem Packet.faithful_code (packet : Packet) :
    ((∃ e, packet.encode = .error e) ↔
        ∃ list length, packet.body.Counts list length ∧ 255 < length)
      ∧ (∀ e, packet.encode = .error e →
        ∃ list length, packet.body.Counts list length ∧ 255 < length
          ∧ e = .tooManyEntries list length)
      ∧ (∀ bytes, packet.encode = .ok bytes → packet.body.Readable →
        Packet.decode bytes = .ok packet.withoutEmptyGroups
          ∧ (∀ front, front <+: bytes → front ≠ bytes →
            ∃ needed remaining, Packet.decode front = .error (.truncated needed remaining))
          ∧ ∀ more, more ≠ [] →
            Packet.decode (bytes ++ more) = .error (.trailingBytes more.length))
      ∧ ∀ input bytes, Packet.decode input = .ok packet → packet.encode = .ok bytes →
        Packet.decode bytes = .ok packet.withoutEmptyGroups := by
  refine ⟨⟨?_, ?_⟩, fun e => exists_of_encode_eq_error, ?_, ?_⟩
  · rintro ⟨e, he⟩
    obtain ⟨list, length, hcounts, hmany, -⟩ := exists_of_encode_eq_error he
    exact ⟨list, length, hcounts, hmany⟩
  · rintro ⟨list, length, hcounts, hmany⟩
    cases hencode : packet.encode with
    | error e => exact ⟨e, rfl⟩
    | ok bytes =>
      have := le_of_encode_eq_ok hencode hcounts
      omega
  · intro bytes hbytes hreadable
    obtain ⟨hwhole, hfront, hmore⟩ :=
      Decoder.whole_of_spells (spells_withoutEmptyGroups hbytes hreadable)
    refine ⟨hwhole, ?_, hmore⟩
    intro front hprefix hne
    obtain ⟨e, ⟨needed, remaining, rfl⟩, he⟩ := hfront front hprefix hne
    exact ⟨needed, remaining, he⟩
  · intro input bytes hinput hbytes
    exact (Decoder.whole_of_spells
      (spells_withoutEmptyGroups hbytes (readable_of_decode hinput))).1

/-- A greeting that lists one relay. Its empty group has a code that no octet may hold. -/
theorem Packet.faithful_code_relay :
    let greeting : Hello :=
      (Hello.list {} ⟨.symmetric, .relay⟩ [⟨0x0a000002⟩]).list ⟨.asymmetric, .symmetric⟩ []
    let packet : Packet :=
      { header := ⟨⟨0xe8⟩, ⟨0x0a000001⟩, 1, 0, ⟨258⟩⟩, body := .hello greeting }
    let bytes : Bytes := [1, 0xe8, 10, 0, 0, 1, 1, 0, 1, 2, 1, 10, 1, 10, 0, 0, 2]
    packet.encode = .ok bytes ∧ packet.body.Readable
      ∧ Packet.decode bytes = .ok packet.withoutEmptyGroups
      ∧ (∃ needed remaining, Packet.decode (bytes.take 14) = .error (.truncated needed remaining))
      ∧ Packet.decode (bytes ++ [0]) = .error (.trailingBytes 1) := by
  intro greeting packet bytes
  have hencode : packet.encode = .ok bytes := by decide +kernel
  have hreadable : packet.body.Readable := by
    intro code addresses hgroup hlists
    rw [Hello.getElem?_groups_list, Hello.getElem?_groups_list] at hgroup
    split at hgroup
    · cases hgroup
      exact absurd hlists (by decide)
    · split at hgroup
      · subst code
        decide
      · simp at hgroup
  obtain ⟨-, -, hfaithful, -⟩ := Packet.faithful_code packet
  obtain ⟨hdecode, htruncated, htrailing⟩ := hfaithful bytes hencode hreadable
  exact ⟨hencode, hreadable, hdecode, htruncated _ (List.take_prefix 14 bytes) (by decide),
    htrailing [0] (by decide)⟩

end Meshcast
