import Mathlib.Data.List.Nodup
import Mathlib.Data.List.Perm.Subperm
import Meshcast.DataMessage
import Meshcast.Proofs.Wire

/-!
# Meshcast — data messages as a code

A data message has one form in which it is written, and many in which it may be read: numbers may be
written wider than necessary, recipients and members in any order and more than once. The form that
is written is the shortest of them.

* **`Varint.spells_decode64`**, **`Varint.takes_decode64`** — a number is read in the form in which
  it is written, and in no shorter one.
* **`Decoder.Takes`** — what is so of all that a decoder reads, in view of how many bytes it takes,
  with **`takes_bind`** and its like.
* **`DataMessage.spells_encode`**, **`DataMessage.takes_decoder`** — the same of messages.
* **`DataMessage.canonical_code`** — the result.
-/

namespace Meshcast

/-- The input ended before the end of the message. -/
def DecodeError.IsUnexpectedEnd (e : DecodeError) : Prop :=
  ∃ additional, e = .data (.unexpectedEnd additional)

/-! ## What decoders take -/

namespace Decoder

/-- Whatever is read is so, in view of how many bytes it took. -/
def Takes {α : Type} (d : Decoder α) (Q : α → Nat → Prop) : Prop :=
  ∀ input a rest, d input = .ok (a, rest) → ∃ used, used + rest.length = input.length ∧ Q a used

section Combinators

variable {α β : Type} {d : Decoder α} {f : α → Decoder β} {g : α → β} {Q : α → Nat → Prop}
  {R : β → Nat → Prop} {a : α}

theorem takes_pure (h : Q a 0) : (pure a : Decoder α).Takes Q := by
  intro input a' rest hread
  cases hread
  exact ⟨0, by omega, h⟩

theorem takes_bind (hd : d.Takes Q) (hf : ∀ a m, Q a m → (f a).Takes fun b n => R b (m + n)) :
    (d >>= f).Takes R := by
  intro input b rest h
  obtain ⟨a, middle, ha, hb⟩ := exists_of_bind h
  obtain ⟨m, hm, hQ⟩ := hd input a middle ha
  obtain ⟨n, hn, hR⟩ := hf a m hQ middle b rest hb
  exact ⟨m + n, by omega, hR⟩

theorem takes_map (hd : d.Takes Q) (h : ∀ a n, Q a n → R (g a) n) : (g <$> d).Takes R := by
  intro input b rest hread
  obtain ⟨a, ha, rfl⟩ := exists_of_map hread
  obtain ⟨n, hn, hQ⟩ := hd input a rest ha
  exact ⟨n, hn, h a n hQ⟩

theorem takes_takeOr {shortage : Nat → Nat → DecodeError} (needed : Nat) :
    (takeOr shortage needed).Takes fun bytes n => bytes.length = n ∧ n = needed := by
  intro input bytes rest h
  unfold takeOr at h
  dsimp only at h
  split at h
  · nomatch h
  · rename_i hlength
    rw [List.length_take] at hlength
    cases h
    refine ⟨needed, ?_, ?_, rfl⟩
    · rw [List.length_drop]
      omega
    · rw [List.length_take]
      omega

/-- What is read by repeating a decoder is written in no more bytes than it took, if this is so of
each piece. -/
theorem takes_repeated {write : α → Bytes} (hd : d.Takes fun a n => (write a).length ≤ n)
    (count : Nat) : (repeated d count).Takes fun values n =>
      values.length = count ∧ (values.flatMap write).length ≤ n := by
  induction count with
  | zero => exact takes_pure ⟨rfl, Nat.le_refl _⟩
  | succ count ih =>
    refine takes_bind hd fun a m hm => takes_bind ih fun values n hn => takes_pure ?_
    rw [List.length_cons, List.flatMap_cons, List.length_append]
    omega

/-- A list of values is read back from what is written of each. -/
theorem spells_repeated_flatMap {short : DecodeError → Prop} {write : α → Bytes} {values : List α}
    (h : ∀ a ∈ values, d.Spells short (write a) a) :
    (repeated d values.length).Spells short (values.flatMap write) values := by
  rw [List.flatMap_def]
  refine spells_repeated ?_
  rw [List.forall₂_map_right_iff, List.forall₂_same]
  exact h

end Combinators

end Decoder

/-! ## Variable-length integers -/

theorem ofLittleEndian_lt (bytes : Bytes) : ofLittleEndian bytes < wordBound bytes.length := by
  induction bytes with
  | nil => exact Nat.one_pos
  | cons b rest ih =>
    have hb := b.toNat_lt
    unfold ofLittleEndian
    rw [List.length_cons, wordBound]
    omega

namespace Varint

theorem length_encode (n : Nat) : (encode n).length =
    if n < 251 then 1 else if n < 65536 then 3 else if n < 4294967296 then 5 else 9 := by
  unfold encode
  split_ifs <;> simp

theorem length_encode_mono {m n : Nat} (h : m ≤ n) : (encode m).length ≤ (encode n).length := by
  rw [length_encode, length_encode]
  split_ifs <;> omega

theorem spells_take {bytes : Bytes} {needed : Nat} (h : bytes.length = needed) :
    (take needed).Spells DecodeError.IsUnexpectedEnd bytes bytes :=
  Decoder.spells_takeOr (fun remaining _ => ⟨needed - remaining, rfl⟩) h

theorem spells_tag (b : UInt8) : tag.Spells DecodeError.IsUnexpectedEnd [b] b.toNat := by
  have hone : [b].length = 1 := rfl
  exact Decoder.spells_map ofLittleEndian (spells_take hone)

theorem spells_word {width n : Nat} (h : n < wordBound width) :
    (word width).Spells DecodeError.IsUnexpectedEnd (littleEndian width n) n := by
  have hread := Decoder.spells_map ofLittleEndian (spells_take (length_littleEndian width n))
  rwa [ofLittleEndian_littleEndian h] at hread

/-- A number below 251 is its own tag. -/
theorem spells_small {n : Nat} (h : n < 251) {f : Nat → Decoder Nat} (hf : f n = pure n) :
    (tag >>= f).Spells DecodeError.IsUnexpectedEnd [UInt8.ofNat n] n := by
  have htag := spells_tag (UInt8.ofNat n)
  have hvalue : (UInt8.ofNat n).toNat = n := UInt8.toNat_ofNat_of_lt (Nat.lt_trans h (by decide))
  rw [hvalue] at htag
  rw [← List.append_nil [UInt8.ofNat n]]
  refine Decoder.spells_bind htag ?_
  rw [hf]
  exact Decoder.spells_pure n

theorem spells_decode32 {n : Nat} (h : n < wordBound 4) :
    decode32.Spells DecodeError.IsUnexpectedEnd (encode n) n := by
  unfold encode decode32
  split_ifs with hsmall hshort hlong
  · refine spells_small hsmall ?_
    split
    case h_6 => rfl
    all_goals omega
  · exact Decoder.spells_bind (spells_tag 251) (spells_word hshort)
  · exact Decoder.spells_bind (spells_tag 252) (spells_word hlong)
  · exact absurd h hlong

theorem spells_decode64 {n : Nat} (h : n < wordBound 8) :
    decode64.Spells DecodeError.IsUnexpectedEnd (encode n) n := by
  unfold encode decode64
  split_ifs with hsmall hshort hlong
  · refine spells_small hsmall ?_
    split
    case h_6 => rfl
    all_goals omega
  · exact Decoder.spells_bind (spells_tag 251) (spells_word hshort)
  · exact Decoder.spells_bind (spells_tag 252) (spells_word hlong)
  · exact Decoder.spells_bind (spells_tag 253) (spells_word h)

theorem takes_word (width : Nat) :
    (word width).Takes fun n used => used = width ∧ n < wordBound width := by
  refine Decoder.takes_map (Decoder.takes_takeOr width) fun bytes used h => ?_
  have hbound := ofLittleEndian_lt bytes
  rw [h.1, h.2] at hbound
  exact ⟨h.2, hbound⟩

theorem takes_tag : tag.Takes fun n used => used = 1 ∧ n < 256 :=
  takes_word 1

theorem takes_refuse {α : Type} {Q : α → Nat → Prop} (expected found : IntegerType) :
    (refuse expected found : Decoder α).Takes Q :=
  fun _ _ _ h => nomatch h

/-- A number that stands behind a tag takes no fewer bytes than it is written in. -/
theorem takes_wide {width limit : Nat} (hwidth : width = 2 ∨ width = 4 ∨ width = 8)
    (hlimit : wordBound width ≤ limit) :
    (word width).Takes fun n used => n < limit ∧ (encode n).length ≤ 1 + used := by
  intro input n rest h
  obtain ⟨used, hused, rfl, hn⟩ := takes_word width input n rest h
  refine ⟨used, hused, by omega, ?_⟩
  rw [length_encode]
  rcases hwidth with rfl | rfl | rfl
  all_goals
    simp only [wordBound] at hn
    split_ifs <;> omega

theorem takes_small {n limit : Nat} (hn : n < 251) (hlimit : 251 ≤ limit) :
    (pure n : Decoder Nat).Takes fun n used => n < limit ∧ (encode n).length ≤ 1 + used :=
  Decoder.takes_pure ⟨by omega, by simp [length_encode, hn]⟩

theorem lt_of_untagged {n : Nat} (hn : n < 256) (h₁ : n ≠ 251) (h₂ : n ≠ 252) (h₃ : n ≠ 253)
    (h₄ : n ≠ 254) (h₅ : n ≠ 255) : n < 251 := by
  omega

theorem takes_decode32 :
    decode32.Takes fun n used => n < wordBound 4 ∧ (encode n).length ≤ used := by
  unfold decode32
  refine Decoder.takes_bind takes_tag fun n m hn => ?_
  obtain ⟨rfl, hn⟩ := hn
  split
  · exact takes_wide (by decide) (by decide)
  · exact takes_wide (by decide) (by decide)
  · exact takes_refuse _ _
  · exact takes_refuse _ _
  · exact takes_refuse _ _
  · next h₁ h₂ h₃ h₄ h₅ => exact takes_small (lt_of_untagged hn h₁ h₂ h₃ h₄ h₅) (by decide)

theorem takes_decode64 :
    decode64.Takes fun n used => n < wordBound 8 ∧ (encode n).length ≤ used := by
  unfold decode64
  refine Decoder.takes_bind takes_tag fun n m hn => ?_
  obtain ⟨rfl, hn⟩ := hn
  split
  · exact takes_wide (by decide) (by decide)
  · exact takes_wide (by decide) (by decide)
  · exact takes_wide (by decide) (by decide)
  · exact fun _ _ _ h => nomatch h
  · exact fun _ _ _ h => nomatch h
  · next h₁ h₂ h₃ h₄ h₅ => exact takes_small (lt_of_untagged hn h₁ h₂ h₃ h₄ h₅) (by decide)

end Varint

/-! ## Sets of addresses -/

/-- There are no more addresses than numbers of 32 bits. -/
theorem length_le_of_nodup {addresses : List Address} (h : addresses.Nodup) :
    addresses.length ≤ 4294967296 := by
  have hinjective : Function.Injective fun a : Address => a.bits.toNat := by
    rintro ⟨a⟩ ⟨b⟩ heq
    exact congrArg Address.mk (UInt32.toNat_inj.1 heq)
  have hsubset : addresses.map (fun a => a.bits.toNat) ⊆ List.range 4294967296 := by
    intro number hnumber
    obtain ⟨a, -, rfl⟩ := List.mem_map.1 hnumber
    exact List.mem_range.2 a.bits.toNat_lt
  have hle := ((List.Nodup.map hinjective h).subperm hsubset).length_le
  rwa [List.length_map, List.length_range] at hle

theorem size_lt_wordBound (addresses : AddressSet) : addresses.size < wordBound 8 := by
  have hle := length_le_of_nodup (nodup_toList addresses)
  rw [Std.ExtTreeSet.length_toList] at hle
  exact Nat.lt_of_le_of_lt hle (by decide)

theorem length_flatMap_octets (addresses : List Address) :
    (addresses.flatMap Address.octets).length = 4 * addresses.length := by
  rw [List.length_flatMap]
  simp [Nat.mul_comm]

/-- What is written of some members of a list is no longer than what is written of all. -/
theorem length_flatMap_le {α : Type} {l₁ l₂ : List α} (h : l₁.Subperm l₂) (write : α → Bytes) :
    (l₁.flatMap write).length ≤ (l₂.flatMap write).length := by
  obtain ⟨l, hperm, hsublist⟩ := h
  rw [← (hperm.flatMap_right write).length_eq]
  clear hperm
  induction hsublist with
  | slnil => exact Nat.le_refl _
  | cons a _ ih =>
    rw [List.flatMap_cons, List.length_append]
    omega
  | cons_cons a _ ih =>
    rw [List.flatMap_cons, List.flatMap_cons, List.length_append, List.length_append]
    omega

namespace DataMessage

/-! ## Reading what was written -/

theorem size_header_lt (header : ForwardingHeader) : header.size < wordBound 8 := by
  have hnodup : header.keys.Nodup :=
    Std.ExtTreeMap.distinct_keys.imp fun h heq => h (Std.compare_eq_iff_eq.2 heq)
  have hle := length_le_of_nodup hnodup
  rw [Std.ExtTreeMap.length_keys] at hle
  exact Nat.lt_of_le_of_lt hle (by decide)

theorem spells_address (a : Address) :
    decodeAddress.Spells DecodeError.IsUnexpectedEnd a.octets a := by
  have h := Decoder.spells_map Address.ofOctets (Varint.spells_take a.length_octets)
  rwa [a.ofOctets_octets] at h

theorem spells_entry (entry : Address × AddressSet) :
    decodeEntry.Spells DecodeError.IsUnexpectedEnd (encodeEntry entry) entry := by
  obtain ⟨recipient, members⟩ := entry
  have hlist : (Decoder.repeated decodeAddress members.toList.length).Spells
      DecodeError.IsUnexpectedEnd (members.toList.flatMap Address.octets) members.toList :=
    Decoder.spells_repeated_flatMap fun a _ => spells_address a
  have hmembers := Decoder.spells_bind_pure
    (fun addresses => (recipient, Std.ExtTreeSet.ofList addresses)) hlist
  rw [ofList_toList, Std.ExtTreeSet.length_toList] at hmembers
  unfold decodeEntry encodeEntry encodeMembers
  exact Decoder.spells_bind (spells_address recipient)
    (Decoder.spells_bind (Varint.spells_decode64 (size_lt_wordBound members)) hmembers)

theorem spells_encode {m : DataMessage} (h : m.payload.length < wordBound 8) :
    decoder.Spells DecodeError.IsUnexpectedEnd m.encode m := by
  have hentries : (Decoder.repeated decodeEntry m.header.toList.length).Spells
      DecodeError.IsUnexpectedEnd (m.header.toList.flatMap encodeEntry) m.header.toList :=
    Decoder.spells_repeated_flatMap fun entry _ => spells_entry entry
  rw [Std.ExtTreeMap.length_toList] at hentries
  have hpayload := Decoder.spells_bind_pure
    (fun payload => ({ m with
      seq := UInt32.ofNat m.seq.toNat, header := .ofList m.header.toList, payload } : DataMessage))
    (Varint.spells_take (Eq.refl m.payload.length))
  rw [UInt32.ofNat_toNat, ofList_toList_map] at hpayload
  unfold decoder encode
  simp only [List.append_assoc]
  refine Decoder.spells_bind (spells_address m.group)
    (Decoder.spells_bind (spells_address m.source)
      (Decoder.spells_bind (Varint.spells_decode32 m.seq.toNat_lt)
        (Decoder.spells_bind (Varint.spells_decode64 (size_header_lt m.header))
          (Decoder.spells_bind hentries
            (Decoder.spells_bind (Varint.spells_decode64 h) ?_)))))
  rw [UInt32.ofNat_toNat, ofList_toList_map]
  exact hpayload

/-! ## Writing what was read -/

theorem takes_address : decodeAddress.Takes fun a used => a.octets.length = used :=
  Decoder.takes_map (Decoder.takes_takeOr 4) fun bytes used h => by
    rw [Address.length_octets, h.2]

theorem length_encodeMembers_ofList_le (members : List Address) :
    (encodeMembers (.ofList members)).length ≤
      (Varint.encode members.length).length + 4 * members.length := by
  have hsize : (Std.ExtTreeSet.ofList members).size ≤ members.length :=
    Std.ExtTreeSet.size_ofList_le
  have hcount := Varint.length_encode_mono hsize
  unfold encodeMembers
  rw [List.length_append, length_flatMap_octets, Std.ExtTreeSet.length_toList]
  omega

theorem takes_entry : decodeEntry.Takes fun entry used => (encodeEntry entry).length ≤ used := by
  unfold decodeEntry
  refine Decoder.takes_bind takes_address fun recipient m hm => ?_
  refine Decoder.takes_bind Varint.takes_decode64 fun count n hn => ?_
  have hmember : decodeAddress.Takes fun a used => a.octets.length ≤ used := by
    intro input a rest h
    obtain ⟨used, hused, ha⟩ := takes_address input a rest h
    exact ⟨used, hused, Nat.le_of_eq ha⟩
  refine Decoder.takes_bind (Decoder.takes_repeated hmember count) fun members k hk =>
    Decoder.takes_pure ?_
  obtain ⟨rfl, hk⟩ := hk
  rw [length_flatMap_octets] at hk
  have hmembers := length_encodeMembers_ofList_le members
  rw [encodeEntry, List.length_append]
  dsimp only
  omega

/-- Entries for one recipient become one entry. -/
theorem length_header_ofList_le (entries : List (Address × AddressSet)) :
    (Varint.encode (Std.ExtTreeMap.ofList entries).size).length
        + ((Std.ExtTreeMap.ofList entries).toList.flatMap encodeEntry).length ≤
      (Varint.encode entries.length).length + (entries.flatMap encodeEntry).length := by
  have hnodup : (Std.ExtTreeMap.ofList entries).toList.Nodup :=
    Std.ExtTreeMap.distinct_keys_toList.imp fun h heq => h (Std.compare_eq_iff_eq.2 (by rw [heq]))
  have hsubset : (Std.ExtTreeMap.ofList entries).toList ⊆ entries := fun entry hentry =>
    mem_of_getElem?_ofList (Std.ExtTreeMap.mem_toList_iff_getElem?_eq_some.1 hentry)
  have hentries := length_flatMap_le (hnodup.subperm hsubset) encodeEntry
  have hsize : (Std.ExtTreeMap.ofList entries).size ≤ entries.length :=
    Std.ExtTreeMap.size_ofList_le
  have hcount := Varint.length_encode_mono hsize
  omega

theorem takes_decoder : decoder.Takes fun m used =>
    m.encode.length ≤ used ∧ m.payload.length < wordBound 8 := by
  unfold decoder
  refine Decoder.takes_bind takes_address fun group m₁ h₁ => ?_
  refine Decoder.takes_bind takes_address fun source m₂ h₂ => ?_
  refine Decoder.takes_bind Varint.takes_decode32 fun seq m₃ h₃ => ?_
  refine Decoder.takes_bind Varint.takes_decode64 fun count m₄ h₄ => ?_
  refine Decoder.takes_bind (Decoder.takes_repeated takes_entry count) fun entries m₅ h₅ => ?_
  refine Decoder.takes_bind Varint.takes_decode64 fun length m₆ h₆ => ?_
  refine Decoder.takes_bind (Decoder.takes_takeOr length) fun payload m₇ h₇ =>
    Decoder.takes_pure ?_
  obtain ⟨rfl, h₅⟩ := h₅
  obtain ⟨hpayload, rfl⟩ := h₇
  have hheader := length_header_ofList_le entries
  have hseq : (UInt32.ofNat seq).toNat = seq := UInt32.toNat_ofNat_of_lt h₃.1
  refine ⟨?_, by rw [hpayload]; exact h₆.1⟩
  unfold encode
  simp only [List.length_append, hseq, hpayload]
  omega

/-! ## The code -/

/-- **The format of data messages is faithful, no message is the beginning of another, and there is
no shorter form of a message than the one it is written in.** A message whose payload is not longer
than an eight-octet length can tell, as no payload in memory is, is read back from its bytes; all
that breaks off before their end is refused as bad data, and whatever goes on behind it is refused
with the number of bytes that are left over. Any input from which a message was read, be its numbers
wider than necessary or its recipients and members repeated or out of order, is at least as long as
the bytes of the message, and these are read as the message again. -/
theorem canonical_code (m : DataMessage) :
    (m.payload.length < wordBound 8 →
        DataMessage.decode m.encode = .ok m
          ∧ (∀ front, front <+: m.encode → front ≠ m.encode →
            ∃ additional, DataMessage.decode front = .error (.data (.unexpectedEnd additional)))
          ∧ ∀ more, more ≠ [] →
            DataMessage.decode (m.encode ++ more) = .error (.trailingBytes more.length))
      ∧ ∀ input, DataMessage.decode input = .ok m →
        m.encode.length ≤ input.length ∧ DataMessage.decode m.encode = .ok m := by
  constructor
  · intro h
    obtain ⟨hwhole, hfront, hmore⟩ := Decoder.whole_of_spells (spells_encode h)
    refine ⟨hwhole, ?_, hmore⟩
    intro front hprefix hne
    obtain ⟨e, ⟨additional, rfl⟩, he⟩ := hfront front hprefix hne
    exact ⟨additional, he⟩
  · intro input hinput
    obtain ⟨used, hused, hlength, hpayload⟩ :=
      takes_decoder input m [] (Decoder.eq_ok_of_whole hinput)
    exact ⟨by omega, (Decoder.whole_of_spells (spells_encode hpayload)).1⟩

/-- A message of two recipients, read from a form in which one of them stands twice and its number
is wider than necessary. -/
theorem canonical_code_repeated :
    let members : AddressSet := .ofList [(⟨0x0a000003⟩ : Address)]
    let header : ForwardingHeader :=
      .ofList [((⟨0x0a000004⟩ : Address), (∅ : AddressSet)), (⟨0x0a000002⟩, ∅),
        (⟨0x0a000002⟩, members)]
    let m : DataMessage :=
      { group := ⟨0xe0000001⟩, source := ⟨0x0a000001⟩, seq := 7, header, payload := [104, 105] }
    let input : Bytes :=
      [224, 0, 0, 1, 10, 0, 0, 1, 252, 7, 0, 0, 0, 3, 10, 0, 0, 4, 0, 10, 0, 0, 2, 0,
        10, 0, 0, 2, 251, 1, 0, 10, 0, 0, 3, 2, 104, 105]
    m.payload.length < wordBound 8 ∧ DataMessage.decode m.encode = .ok m
      ∧ DataMessage.decode input = .ok m ∧ m.encode.length ≤ input.length := by
  intro members header m input
  have hpayload : m.payload.length < wordBound 8 := by decide
  have hinput : DataMessage.decode input = .ok m := rfl
  obtain ⟨hfaithful, hcanonical⟩ := canonical_code m
  exact ⟨hpayload, (hfaithful hpayload).1, hinput, (hcanonical input hinput).1⟩

end DataMessage

end Meshcast
