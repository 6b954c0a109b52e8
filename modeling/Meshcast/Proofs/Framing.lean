import Meshcast.Frame
import Meshcast.Proofs.Wire

/-!
# Meshcast — frames on a stream

A stream hands on its bytes in chunks that have nothing to do with where frames begin and end. After
each chunk the receiving end is asked for messages until it has none.

* **`FrameReader.Drains`**, **`FrameReader.Receives`** — the results of asking until there is no
  message, and of all the chunks of a stream.
* **`FrameReader.Faces`** — the invariant: what the reader holds, with the bytes that are still to
  arrive, is the rest of some frames; **`advances_of_faces`** — the reader takes off one of them, or
  waits.
* **`FrameReader.receives_frames_iff`** — the results are those of the payloads, one by one.
* **`framing_of_any_cut`** — the same of the frames of control packets and of data messages.
-/

namespace Meshcast

/-- A payload behind its length. -/
def framed (payload : Bytes) : Bytes :=
  bigEndian 4 payload.length ++ payload

theorem frame_eq_ok {payload : Bytes} (h : payload.length ≤ maxFrameLength) :
    frame payload = .ok (framed payload) :=
  if_neg (by omega)

namespace FrameReader

variable {α : Type} {next : FrameReader → Except FrameError (Option α) × FrameReader}
  {reader reader₁ reader₂ : FrameReader} {buffer payload rest : Bytes}
  {payloads chunks : List Bytes} {results results₁ results₂ : List (Except FrameError α)}

/-- What comes out of a reader, and what is left of it, when it is asked until it has no message. -/
inductive Drains (next : FrameReader → Except FrameError (Option α) × FrameReader) :
    FrameReader → List (Except FrameError α) → FrameReader → Prop
  | idle {reader reader' : FrameReader} (h : next reader = (.ok none, reader')) :
      Drains next reader [] reader'
  | message {reader reader' last : FrameReader} {message : α} {results : List (Except FrameError α)}
      (h : next reader = (.ok (some message), reader')) (hrest : Drains next reader' results last) :
      Drains next reader (.ok message :: results) last
  | failure {reader reader' last : FrameReader} {e : FrameError}
      {results : List (Except FrameError α)}
      (h : next reader = (.error e, reader')) (hrest : Drains next reader' results last) :
      Drains next reader (.error e :: results) last

/-- What comes out of a reader that is fed the chunks of a stream, and drained after each. -/
inductive Receives (next : FrameReader → Except FrameError (Option α) × FrameReader) :
    FrameReader → List Bytes → List (Except FrameError α) → FrameReader → Prop
  | done (reader : FrameReader) : Receives next reader [] [] reader
  | chunk {reader reader' last : FrameReader} {chunk : Bytes} {chunks : List Bytes}
      {results later : List (Except FrameError α)}
      (h : Drains next (reader.feed chunk) results reader')
      (hrest : Receives next reader' chunks later last) :
      Receives next reader (chunk :: chunks) (results ++ later) last

theorem Drains.unique (h₁ : Drains next reader results₁ reader₁)
    (h₂ : Drains next reader results₂ reader₂) : results₁ = results₂ ∧ reader₁ = reader₂ := by
  induction h₁ generalizing results₂ with
  | idle h =>
    cases h₂ with
    | idle h' => exact ⟨rfl, congrArg Prod.snd (h.symm.trans h')⟩
    | message h' => nomatch h.symm.trans h'
    | failure h' => nomatch h.symm.trans h'
  | message h _ ih =>
    cases h₂ with
    | idle h' => nomatch h.symm.trans h'
    | failure h' => nomatch h.symm.trans h'
    | message h' hrest =>
      cases h.symm.trans h'
      obtain ⟨rfl, rfl⟩ := ih hrest
      exact ⟨rfl, rfl⟩
  | failure h _ ih =>
    cases h₂ with
    | idle h' => nomatch h.symm.trans h'
    | message h' => nomatch h.symm.trans h'
    | failure h' hrest =>
      cases h.symm.trans h'
      obtain ⟨rfl, rfl⟩ := ih hrest
      exact ⟨rfl, rfl⟩

theorem Receives.unique (h₁ : Receives next reader chunks results₁ reader₁)
    (h₂ : Receives next reader chunks results₂ reader₂) :
    results₁ = results₂ ∧ reader₁ = reader₂ := by
  induction h₁ generalizing results₂ with
  | done _ =>
    cases h₂
    exact ⟨rfl, rfl⟩
  | chunk h _ ih =>
    cases h₂ with
    | chunk h' hrest =>
      obtain ⟨rfl, rfl⟩ := h.unique h'
      obtain ⟨rfl, rfl⟩ := ih hrest
      exact ⟨rfl, rfl⟩

/-! ## One frame -/

/-- The reader stands before the frames of the payloads, or within the first of them, when `rest`
is still to arrive. -/
inductive Faces (rest : Bytes) : FrameReader → List Bytes → Prop
  | length {buffer : Bytes} {payloads : List Bytes} (h : buffer ++ rest = payloads.flatMap framed) :
      Faces rest { buffer } payloads
  | payload {buffer payload : Bytes} {payloads : List Bytes}
      (h : buffer ++ rest = payload ++ payloads.flatMap framed) :
      Faces rest { awaited := some payload.length, buffer } (payload :: payloads)

theorem Faces.feed {chunk : Bytes} (h : Faces (chunk ++ rest) reader payloads) :
    Faces rest (reader.feed chunk) payloads := by
  cases h with
  | length h => exact .length (by rw [List.append_assoc, h])
  | payload h => exact .payload (by rw [List.append_assoc, h])

theorem readLength_of_short (h : buffer.length < 4) : readLength { buffer } = .ok { buffer } := by
  match buffer, h with
  | [], _ | [_], _ | [_, _], _ | [_, _, _], _ => rfl

theorem readLength_framed (h : payload.length ≤ maxFrameLength) (behind : Bytes) :
    readLength { buffer := bigEndian 4 payload.length ++ behind }
      = .ok { awaited := some payload.length, buffer := behind } := by
  have hread : ofBigEndian (bigEndian 4 payload.length) = payload.length :=
    ofBigEndian_bigEndian (Nat.lt_of_le_of_lt h (by decide))
  obtain ⟨a, b, c, d, hoctets⟩ : ∃ a b c d, bigEndian 4 payload.length = [a, b, c, d] :=
    ⟨_, _, _, _, rfl⟩
  rw [hoctets] at hread ⊢
  show (if maxFrameLength < ofBigEndian [a, b, c, d] then _ else Except.ok _) = _
  rw [hread, if_neg (Nat.not_lt.2 h)]
  rfl

theorem takeAwaited_of_append (behind : Bytes) :
    takeAwaited { awaited := some payload.length, buffer := payload ++ behind }
      = (some payload, { buffer := behind }) := by
  unfold takeAwaited
  simp only [List.take_left, List.drop_left, Nat.lt_irrefl, if_false]

theorem takeAwaited_of_lt {length : ℕ} (h : buffer.length < length) :
    takeAwaited { awaited := some length, buffer }
      = (none, { awaited := some length, buffer }) := by
  unfold takeAwaited
  simp only [List.length_take]
  exact if_pos (by omega)

theorem next_of_readLength (h : reader.readLength = .ok reader₁) :
    reader.next = (.ok reader₁.takeAwaited.1, reader₁.takeAwaited.2) := by
  unfold FrameReader.next
  rw [h]

/-- What a reader that faces the frames of the payloads may do: take off the first of them, or wait
for more bytes. With none to arrive it waits only if no frame is left. -/
inductive Advances (rest : Bytes) (payloads : List Bytes) :
    Except FrameError (Option Bytes) × FrameReader → Prop
  | taken {reader : FrameReader} {payload : Bytes} {others : List Bytes}
      (hpayloads : payloads = payload :: others) (hfaces : Faces rest reader others) :
      Advances rest payloads (.ok (some payload), reader)
  | waiting {reader : FrameReader} (hfaces : Faces rest reader payloads)
      (hend : rest = [] → payloads = [] ∧ reader = {}) : Advances rest payloads (.ok none, reader)

theorem advances_within (hread : reader.readLength = .ok { awaited := some payload.length, buffer })
    (h : buffer ++ rest = payload ++ payloads.flatMap framed) :
    Advances rest (payload :: payloads) reader.next := by
  rw [next_of_readLength hread]
  by_cases hlength : payload.length ≤ buffer.length
  · obtain ⟨behind, rfl⟩ : payload <+: buffer :=
      List.prefix_of_prefix_length_le (List.prefix_append payload _) ⟨rest, h⟩ hlength
    rw [List.append_assoc, List.append_cancel_left_eq] at h
    rw [takeAwaited_of_append]
    exact .taken rfl (.length h)
  · rw [takeAwaited_of_lt (by omega)]
    refine .waiting (.payload h) ?_
    rintro rfl
    rw [List.append_nil] at h
    rw [h, List.length_append] at hlength
    omega

/-- **One step of the reader.** Wherever the bytes that have arrived break off, the reader takes
off the next frame or waits, and stands before the frames that are left. -/
theorem advances_of_faces (h : Faces rest reader payloads)
    (hlengths : ∀ payload ∈ payloads, payload.length ≤ maxFrameLength) :
    Advances rest payloads reader.next := by
  cases h with
  | payload h => exact advances_within rfl h
  | @length buffer _ h =>
    by_cases hshort : buffer.length < 4
    · rw [next_of_readLength (readLength_of_short hshort)]
      refine .waiting (.length h) ?_
      rintro rfl
      cases payloads with
      | nil =>
        rw [List.append_nil] at h
        exact ⟨rfl, by rw [h]; rfl⟩
      | cons payload others =>
        rw [List.append_nil] at h
        rw [h, List.flatMap_cons, framed, List.length_append, List.length_append,
          length_bigEndian] at hshort
        omega
    · cases payloads with
      | nil =>
        rw [(List.append_eq_nil_iff.1 h).1] at hshort
        exact absurd (by decide) hshort
      | cons payload others =>
        rw [List.flatMap_cons, framed, List.append_assoc] at h
        obtain ⟨behind, rfl⟩ : bigEndian 4 payload.length <+: buffer :=
          List.prefix_of_prefix_length_le (List.prefix_append _ _) ⟨rest, h⟩
            (by rw [length_bigEndian]; omega)
        rw [List.append_assoc, List.append_cancel_left_eq] at h
        exact advances_within
          (readLength_framed (hlengths payload List.mem_cons_self) behind) h

/-! ## All frames -/

/-- What comes of a frame: the message in it, or that it holds none. -/
def outcome (decode : Bytes → Except DecodeError α) (payload : Bytes) : Except FrameError α :=
  (decode payload).mapError .undecodable

variable {decode : Bytes → Except DecodeError α}

theorem Drains.taken (h : reader.next = (.ok (some payload), reader₁))
    (hrest : Drains (nextMessage decode) reader₁ results reader₂) :
    Drains (nextMessage decode) reader (outcome decode payload :: results) reader₂ := by
  unfold outcome
  cases hdecode : decode payload with
  | ok message =>
    refine .message ?_ hrest
    unfold nextMessage
    simp only [h, hdecode]
  | error e =>
    refine .failure ?_ hrest
    unfold nextMessage
    simp only [h, hdecode]

/-- A reader that is drained takes off some of the frames it faces, and then waits. -/
theorem exists_drains_of_faces (decode : Bytes → Except DecodeError α)
    (h : Faces rest reader payloads)
    (hlengths : ∀ payload ∈ payloads, payload.length ≤ maxFrameLength) :
    ∃ taken left reader', payloads = taken ++ left
      ∧ Drains (nextMessage decode) reader (taken.map (outcome decode)) reader'
      ∧ Faces rest reader' left ∧ (rest = [] → left = [] ∧ reader' = {}) := by
  induction payloads generalizing reader with
  | nil =>
    generalize hnext : reader.next = step
    cases hnext ▸ advances_of_faces h hlengths with
    | taken hpayloads _ => nomatch hpayloads
    | waiting hfaces hend =>
      refine ⟨[], [], _, rfl, .idle ?_, hfaces, hend⟩
      unfold nextMessage
      rw [hnext]
  | cons payload others ih =>
    generalize hnext : reader.next = step
    cases hnext ▸ advances_of_faces h hlengths with
    | taken hpayloads hfaces =>
      cases hpayloads
      obtain ⟨taken, left, reader', rfl, hdrains, hleft⟩ :=
        ih hfaces fun other hother => hlengths other (List.mem_cons_of_mem _ hother)
      exact ⟨payload :: taken, left, reader', rfl, hdrains.taken hnext, hleft⟩
    | waiting hfaces hend =>
      refine ⟨[], _, _, rfl, .idle ?_, hfaces, hend⟩
      unfold nextMessage
      rw [hnext]

theorem receives_of_faces (decode : Bytes → Except DecodeError α)
    (h : Faces chunks.flatten reader payloads)
    (hend : chunks.flatten = [] → payloads = [] ∧ reader = {})
    (hlengths : ∀ payload ∈ payloads, payload.length ≤ maxFrameLength) :
    Receives (nextMessage decode) reader chunks (payloads.map (outcome decode)) {} := by
  induction chunks generalizing reader payloads with
  | nil =>
    obtain ⟨rfl, rfl⟩ := hend rfl
    exact .done {}
  | cons chunk chunks ih =>
    obtain ⟨taken, left, reader', rfl, hdrains, hfaces, hend'⟩ :=
      exists_drains_of_faces decode h.feed hlengths
    rw [List.map_append]
    exact .chunk hdrains
      (ih hfaces hend' fun payload hmem => hlengths payload (List.mem_append_right taken hmem))

/-- **However the frames of some payloads are cut into chunks**, a reader delivers one result for
each of them and is left as it was. -/
theorem receives_frames_iff (decode : Bytes → Except DecodeError α)
    (hlengths : ∀ payload ∈ payloads, payload.length ≤ maxFrameLength)
    (hcut : chunks.flatten = payloads.flatMap framed) :
    Receives (nextMessage decode) {} chunks results reader
      ↔ results = payloads.map (outcome decode) ∧ reader = {} := by
  have hreceives : Receives (nextMessage decode) {} chunks (payloads.map (outcome decode)) {} := by
    refine receives_of_faces decode (.length hcut) (fun hempty => ⟨?_, rfl⟩) hlengths
    cases payloads with
    | nil => rfl
    | cons payload others => nomatch hempty.symm.trans hcut
  constructor
  · exact fun h => h.unique hreceives
  · rintro ⟨rfl, rfl⟩
    exact hreceives

end FrameReader

/-! ## Streams of messages -/

/-- What is put on a stream: a message, or bytes that need not be those of any message. -/
inductive Parcel (α : Type)
  | message (message : α)
  | raw (payload : Bytes)

namespace Parcel

variable {α : Type} {encode : α → Except EncodeError Bytes} {write : α → Except FrameError Bytes}
  {payloads : List Bytes}

def payload (encode : α → Except EncodeError Bytes) : Parcel α → Except EncodeError Bytes
  | .message m => encode m
  | .raw payload => .ok payload

/-- The frame that is written for a parcel. -/
def onWire (write : α → Except FrameError Bytes) : Parcel α → Except FrameError Bytes
  | .message m => write m
  | .raw payload => frame payload

theorem mapM_onWire (hwrite : ∀ m bytes, encode m = .ok bytes → write m = frame bytes)
    {parcels : List (Parcel α)} (h : parcels.mapM (payload encode) = .ok payloads)
    (hlengths : ∀ payload ∈ payloads, payload.length ≤ maxFrameLength) :
    parcels.mapM (onWire write) = .ok (payloads.map framed) := by
  induction parcels generalizing payloads with
  | nil =>
    cases h
    rfl
  | cons parcel parcels ih =>
    rw [List.mapM_cons] at h
    obtain ⟨bytes, hbytes, h⟩ := exists_of_bind_eq_ok h
    obtain ⟨others, hothers, h⟩ := exists_of_bind_eq_ok h
    cases h
    have hfirst : parcel.onWire write = .ok (framed bytes) := by
      rw [← frame_eq_ok (hlengths bytes List.mem_cons_self)]
      cases parcel with
      | message m => exact hwrite m bytes hbytes
      | raw payload =>
        cases hbytes
        rfl
    rw [List.mapM_cons, hfirst,
      ih hothers fun payload hmem => hlengths payload (List.mem_cons_of_mem _ hmem)]
    rfl

end Parcel

open FrameReader in
/-- **Framing does not depend on where the stream is cut.** Take any messages and any other bytes,
none longer than a frame may be. The frames written for them, cut into chunks anywhere, within a
length or within a payload, with chunks that are empty, give one result each, in order: the message
in the frame, or that the frame could not be decoded, whatever stood before it. At the end nothing
is left in the reader. This is so of control packets and of data messages. -/
theorem framing_of_any_cut :
    (∀ (parcels : List (Parcel Packet)) (payloads : List Bytes),
        parcels.mapM (Parcel.payload Packet.encode) = .ok payloads →
        (∀ payload ∈ payloads, payload.length ≤ maxFrameLength) →
        ∃ frames, parcels.mapM (Parcel.onWire framePacket) = .ok frames
          ∧ ∀ chunks : List Bytes, chunks.flatten = frames.flatten → ∀ results reader,
            Receives nextPacket {} chunks results reader
              ↔ results = payloads.map (outcome Packet.decode) ∧ reader = {})
      ∧ ∀ (parcels : List (Parcel DataMessage)) (payloads : List Bytes),
        parcels.mapM (Parcel.payload fun message => .ok message.encode) = .ok payloads →
        (∀ payload ∈ payloads, payload.length ≤ maxFrameLength) →
        ∃ frames, parcels.mapM (Parcel.onWire frameData) = .ok frames
          ∧ ∀ chunks : List Bytes, chunks.flatten = frames.flatten → ∀ results reader,
            Receives nextData {} chunks results reader
              ↔ results = payloads.map (outcome DataMessage.decode) ∧ reader = {} := by
  constructor
  · intro parcels payloads h hlengths
    have hwrite : ∀ packet bytes, packet.encode = .ok bytes → framePacket packet = frame bytes := by
      intro packet bytes hbytes
      unfold framePacket
      rw [hbytes]
    refine ⟨payloads.map framed, Parcel.mapM_onWire hwrite h hlengths, ?_⟩
    intro chunks hcut results reader
    exact receives_frames_iff Packet.decode hlengths hcut
  · intro parcels payloads h hlengths
    have hwrite : ∀ (message : DataMessage) (bytes : Bytes),
        (.ok message.encode : Except EncodeError Bytes) = .ok bytes →
        frameData message = frame bytes := by
      intro message bytes hbytes
      cases hbytes
      rfl
    refine ⟨payloads.map framed, Parcel.mapM_onWire hwrite h hlengths, ?_⟩
    intro chunks hcut results reader
    exact receives_frames_iff DataMessage.decode hlengths hcut

/-- A frame that cannot be decoded and the greeting behind it, cut within a length and within a
payload. -/
theorem framing_of_any_cut_resumes :
    let packet : Packet :=
      { header := ⟨⟨0xe8⟩, ⟨0x0a000001⟩, 1, 0, ⟨258⟩⟩, body := .hello {} }
    let chunks : List Bytes :=
      [[0, 0], [0, 2, 255], [], [255, 0, 0, 0, 11, 1], [0xe8, 10, 0, 0, 1, 1, 0, 1, 2, 0]]
    ∀ results reader, FrameReader.Receives FrameReader.nextPacket {} chunks results reader
      ↔ results = [.error (.undecodable (.unknownMessageType 255)), .ok packet] ∧ reader = {} := by
  intro packet chunks results reader
  have hpayloads : [.raw [255, 255], .message packet].mapM (Parcel.payload Packet.encode)
      = .ok [[255, 255], [1, 0xe8, 10, 0, 0, 1, 1, 0, 1, 2, 0]] := by decide +kernel
  have hdecode : Packet.decode [1, 0xe8, 10, 0, 0, 1, 1, 0, 1, 2, 0] = .ok packet := rfl
  obtain ⟨frames, hframes, hcut⟩ := framing_of_any_cut.1 _ _ hpayloads (by decide)
  cases hframes
  have hiff := hcut chunks (by decide +kernel) results reader
  rwa [List.map_cons, List.map_cons, FrameReader.outcome, FrameReader.outcome, hdecode] at hiff

end Meshcast
