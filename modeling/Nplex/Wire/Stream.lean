import Nplex.Common.StreamDecoder
import Nplex.Wire.Framing

/-!
# The stream of a connection

A stream is cut at its length fields. The loop of `cb_tcp_read` finds the same messages however
the stream arrives, and finds the contents of the frames that were written.
-/

namespace Nplex

open Nplex.Common

/-- The length field at the front of a stream. -/
def lengthField (stream : Bytes) : ℕ := (ntohl (stream.take 4)).toNat

/-- The contents of a stream cut at its length fields, up to the first frame that is refused; the
flag says that there is one. -/
inductive Cut (verify : Bytes → Bool) : Bytes → List Bytes → Bool → Prop
  | waiting {stream : Bytes} (hshort : stream.length < 4 ∨ stream.length < lengthField stream) :
      Cut verify stream [] false
  | refused {stream : Bytes} (hfield : 4 ≤ stream.length)
      (hlength : lengthField stream ≤ stream.length)
      (hrefused : parseNetworkMsg verify (stream.take (lengthField stream)) (lengthField stream) =
        .refused) : Cut verify stream [] true
  | message {frame rest content : Bytes} {contents : List Bytes} {refused : Bool}
      (hfield : 4 ≤ frame.length) (hlength : lengthField frame = frame.length)
      (hmessage : parseNetworkMsg verify frame frame.length = .message content)
      (hrest : Cut verify rest contents refused) :
      Cut verify (frame ++ rest) (content :: contents) refused

section Reads

variable {verify : Bytes → Bool} {buf : Bytes}

/-- The number in front is read from four bytes. -/
theorem ntohlPtr_zero (h : 4 ≤ buf.length) : ntohlPtr buf 0 = some (ntohl (buf.take 4)) := by
  simp [ntohlPtr, h]

/-- A read within the first bytes of a buffer. -/
theorem ntohlPtr_take {ptr len : ℕ} (hptr : ptr + 4 ≤ len) (hlen : len ≤ buf.length) :
    ntohlPtr buf ptr = ntohlPtr (buf.take len) ptr := by
  have htake : ((buf.take len).drop ptr).take 4 = (buf.drop ptr).take 4 := by
    rw [List.drop_take, List.take_take, min_eq_left (by omega)]
  simp [ntohlPtr, htake, show ptr + 4 ≤ buf.length by omega, show ptr + 4 ≤ len by omega]

/-- Parsing looks at the bytes of the frame only. -/
theorem parseNetworkMsg_take {len : ℕ} (hlen : len ≤ buf.length) :
    parseNetworkMsg verify buf len = parseNetworkMsg verify (buf.take len) len := by
  unfold parseNetworkMsg
  by_cases hshort : len ≤ 12
  · rw [if_pos hshort, if_pos hshort]
  · rw [if_neg hshort, if_neg hshort, ntohlPtr_take (by omega : 0 + 4 ≤ len) hlen,
      ntohlPtr_take (by omega : 4 + 4 ≤ len) hlen, ntohlPtr_take (by omega : len - 4 + 4 ≤ len) hlen]
    have hcrc : (buf.take len).take (len - 4) = buf.take (len - 4) := by
      rw [List.take_take, min_eq_left (by omega)]
    have hcontent : ((buf.take len).drop 8).take (len - 12) = (buf.drop 8).take (len - 12) := by
      rw [List.drop_take, List.take_take, min_eq_left (by omega)]
    have hlength : (buf.take len).length = len := by simp [hlen]
    have hinside : ¬buf.length < len - 4 := by omega
    have hinside' : ¬len < len - 4 := by omega
    simp only [hcrc, hcontent, hlength, hinside, hinside', if_false]

/-- Parsing a complete frame stays within the buffer. -/
theorem parseNetworkMsg_ne_overrun {len : ℕ} (hlen : len ≤ buf.length) :
    parseNetworkMsg verify buf len ≠ .overrun := by
  unfold parseNetworkMsg
  split
  · simp
  · next hlong =>
    have hread : ∀ ptr, ptr + 4 ≤ len → ∃ n, ntohlPtr buf ptr = some n := fun ptr hptr =>
      ⟨_, if_pos (by omega)⟩
    obtain ⟨n, hn⟩ := hread 0 (by omega)
    obtain ⟨metadata, hmetadata⟩ := hread 4 (by omega)
    obtain ⟨checksum, hchecksum⟩ := hread (len - 4) (by omega)
    rw [hn, hmetadata, hchecksum]
    dsimp only
    rw [if_neg (by omega : ¬buf.length < len - 4)]
    split
    · simp
    · split
      · simp
      · split <;> simp

/-- The loop never reads outside of its buffer. -/
theorem readTurn_ne_overrun (verify : Bytes → Bool) (buf : Bytes) :
    readTurn verify buf ≠ .overrun := by
  unfold readTurn
  split
  · simp
  · next hfield =>
    rw [ntohlPtr_zero (by omega)]
    dsimp only
    split
    · simp
    · next hlength =>
      have hparse : parseNetworkMsg verify buf (ntohl (buf.take 4)).toNat ≠ .overrun :=
        parseNetworkMsg_ne_overrun (by omega)
      split
      · simp
      · simp
      · next hoverrun => exact absurd hoverrun hparse

/-- A turn on a buffer with a complete frame. -/
theorem readTurn_of_frame (verify : Bytes → Bool) (hfield : 4 ≤ buf.length)
    (hlength : lengthField buf ≤ buf.length) :
    readTurn verify buf =
      match parseNetworkMsg verify (buf.take (lengthField buf)) (lengthField buf) with
      | .refused => .refused
      | .message content => .message content (lengthField buf)
      | .overrun => .overrun := by
  unfold readTurn
  rw [if_neg (by omega), ntohlPtr_zero hfield]
  dsimp only
  rw [← lengthField, if_neg (by omega)]
  cases hparse : parseNetworkMsg verify (buf.take (lengthField buf)) (lengthField buf) <;>
    simp only [parseNetworkMsg_take hlength, hparse]

/-- The loop stops at an incomplete message. -/
theorem readTurn_stop (verify : Bytes → Bool) :
    readTurn verify buf = .stop ↔ buf.length < 4 ∨ buf.length < lengthField buf := by
  constructor
  · intro hstop
    by_contra hframe
    push Not at hframe
    rw [readTurn_of_frame verify hframe.1 hframe.2] at hstop
    split at hstop <;> cases hstop
  · intro hshort
    unfold readTurn
    by_cases hfield : buf.length < 4
    · rw [if_pos hfield]
    · rw [if_neg hfield, ntohlPtr_zero (by omega)]
      exact if_pos (hshort.resolve_left hfield)

/-- More input does not change the length in front. -/
theorem lengthField_append (hfield : 4 ≤ buf.length) (more : Bytes) :
    lengthField (buf ++ more) = lengthField buf := by
  rw [lengthField, lengthField, List.take_append_of_le_length hfield]

/-- What follows a complete frame does not matter. -/
theorem readTurn_append (more : Bytes) (hframe : readTurn verify buf ≠ .stop) :
    readTurn verify (buf ++ more) = readTurn verify buf := by
  rw [Ne, readTurn_stop] at hframe
  push Not at hframe
  obtain ⟨hfield, hlength⟩ := hframe
  have hmore : (buf ++ more).length = buf.length + more.length := List.length_append
  rw [readTurn_of_frame verify hfield hlength,
    readTurn_of_frame verify (by omega) (by rw [lengthField_append hfield]; omega),
    lengthField_append hfield, List.take_append_of_le_length hlength]

end Reads

/-- The loop of `cb_tcp_read` as a decoder. -/
def frameDecoder (verify : Bytes → Bool) : Decoder UInt8 Bytes where
  front buf :=
    match readTurn verify buf with
    | .stop => .incomplete
    | .refused | .overrun => .reject
    | .message content len => .item content len
  front_nil := rfl
  consumes := by
    intro buf content len h
    split at h
    · cases h
    · cases h
    · cases h
    · next content' len' hturn =>
      cases h
      have hconsumes := readTurn_consumes hturn
      omega
  item_append := by
    intro buf content len more h
    rw [readTurn_append]
    · exact h
    · intro hstop
      rw [hstop] at h
      cases h
  reject_append := by
    intro buf more h
    rw [readTurn_append]
    · exact h
    · intro hstop
      rw [hstop] at h
      cases h

section Loop

variable {verify : Bytes → Bool}

/-- The decoder waits where the loop stops. -/
theorem front_incomplete {buf : Bytes} :
    (frameDecoder verify).front buf = .incomplete ↔ readTurn verify buf = .stop := by
  simp only [frameDecoder]
  cases readTurn verify buf <;> simp

/-- It rejects what the loop refuses. -/
theorem front_reject {buf : Bytes} :
    (frameDecoder verify).front buf = .reject ↔ readTurn verify buf = .refused := by
  have hinside := readTurn_ne_overrun verify buf
  simp only [frameDecoder]
  cases hturn : readTurn verify buf <;> simp_all

/-- It takes what the loop takes. -/
theorem front_item {buf content : Bytes} {len : ℕ} :
    (frameDecoder verify).front buf = .item content len ↔
      readTurn verify buf = .message content len := by
  simp only [frameDecoder]
  cases readTurn verify buf <;> simp

/-- The decoder cuts a stream at its length fields. -/
theorem cut_drain (stream : Bytes) :
    Cut verify stream ((frameDecoder verify).drain stream).items
      ((frameDecoder verify).drain stream).rejected := by
  induction stream using Decoder.drain.induct (frameDecoder verify) with
  | case1 stream hfront =>
    rw [Decoder.drain_of_incomplete hfront]
    exact .waiting ((readTurn_stop verify).mp (front_incomplete.mp hfront))
  | case2 stream hfront =>
    rw [Decoder.drain_of_reject hfront]
    have hturn := front_reject.mp hfront
    have hframe : ¬(stream.length < 4 ∨ stream.length < lengthField stream) := by
      rw [← readTurn_stop verify, hturn]
      simp
    push Not at hframe
    rw [readTurn_of_frame verify hframe.1 hframe.2] at hturn
    refine .refused hframe.1 hframe.2 ?_
    split at hturn
    · next hrefused => exact hrefused
    · cases hturn
    · cases hturn
  | case3 stream content len hfront ih =>
    rw [Decoder.drain_of_item hfront]
    have hturn := front_item.mp hfront
    have hframe : ¬(stream.length < 4 ∨ stream.length < lengthField stream) := by
      rw [← readTurn_stop verify, hturn]
      simp
    push Not at hframe
    rw [readTurn_of_frame verify hframe.1 hframe.2] at hturn
    split at hturn
    · cases hturn
    · next content' hmessage =>
      obtain ⟨rfl, rfl⟩ := ReadTurn.message.inj hturn
      have hlong := parseNetworkMsg_length hmessage
      have hlength : (stream.take (lengthField stream)).length = lengthField stream := by
        simp [hframe.2]
      have hfield : lengthField (stream.take (lengthField stream)) = lengthField stream := by
        conv_rhs => rw [← List.take_append_drop (lengthField stream) stream]
        rw [lengthField_append (by omega)]
      have hwhole : parseNetworkMsg verify (stream.take (lengthField stream))
          (stream.take (lengthField stream)).length = .message content' := by
        rw [hlength]
        exact hmessage
      have hcut := Cut.message (by omega) (by rw [hlength, hfield]) hwhole ih
      rwa [List.take_append_drop] at hcut
    · cases hturn

/-- A stream is cut in one way. -/
theorem Cut.drain {stream : Bytes} {contents : List Bytes} {refused : Bool}
    (h : Cut verify stream contents refused) :
    contents = ((frameDecoder verify).drain stream).items ∧
      refused = ((frameDecoder verify).drain stream).rejected := by
  induction h with
  | waiting hshort =>
    rw [Decoder.drain_of_incomplete (front_incomplete.mpr ((readTurn_stop verify).mpr hshort))]
    exact ⟨rfl, rfl⟩
  | refused hfield hlength hrefused =>
    have hturn := readTurn_of_frame verify hfield hlength
    rw [hrefused] at hturn
    rw [Decoder.drain_of_reject (front_reject.mpr hturn)]
    exact ⟨rfl, rfl⟩
  | @message frame rest content contents refused hfield hlength hmessage hrest ih =>
    have hturn : readTurn verify frame = .message content frame.length := by
      rw [readTurn_of_frame verify hfield hlength.le, hlength, List.take_length, hmessage]
    have hfront : (frameDecoder verify).front (frame ++ rest) = .item content frame.length := by
      rw [front_item, readTurn_append _ (by simp [hturn]), hturn]
    rw [Decoder.drain_of_item hfront, List.drop_left]
    exact ⟨congrArg (content :: ·) ih.1, ih.2⟩

namespace TcpInput

/-- An incomplete message ends the loop. -/
theorem readLoop_of_stop {s : TcpInput} (h : readTurn verify s.inputMsg = .stop) :
    s.readLoop verify = s := by
  rw [readLoop]
  split
  · rfl
  · next hturn => rw [h] at hturn; cases hturn
  · next hturn => rw [h] at hturn; cases hturn
  · next hturn => rw [h] at hturn; cases hturn

/-- A refused message disconnects. -/
theorem readLoop_of_refused {s : TcpInput} (h : readTurn verify s.inputMsg = .refused) :
    s.readLoop verify = { s with con := s.con.disconnect .msgError } := by
  rw [readLoop]
  split
  · next hturn => rw [h] at hturn; cases hturn
  · rfl
  · next hturn => rw [h] at hturn; cases hturn
  · next hturn => rw [h] at hturn; cases hturn

/-- A message is received, and the loop goes on behind it. -/
theorem readLoop_of_message {s : TcpInput} {content : Bytes} {len : ℕ}
    (h : readTurn verify s.inputMsg = .message content len) :
    s.readLoop verify =
      readLoop verify
        { s with received := s.received ++ [content], inputMsg := s.inputMsg.drop len } := by
  rw [readLoop]
  split
  · next hturn => rw [h] at hturn; cases hturn
  · next hturn => rw [h] at hturn; cases hturn
  · next hturn =>
    rw [h] at hturn
    cases hturn
    rfl
  · next hturn => rw [h] at hturn; cases hturn

/-- The loop of `cb_tcp_read` decodes its buffer. -/
theorem readLoop_eq (s : TcpInput) :
    s.readLoop verify =
      { s with
        inputMsg := ((frameDecoder verify).drain s.inputMsg).buffer
        received := s.received ++ ((frameDecoder verify).drain s.inputMsg).items
        con := if ((frameDecoder verify).drain s.inputMsg).rejected then
            s.con.disconnect .msgError
          else s.con } := by
  induction s using TcpInput.readLoop.induct verify with
  | case1 s hturn =>
    rw [readLoop_of_stop hturn, Decoder.drain_of_incomplete (front_incomplete.mpr hturn)]
    simp
  | case2 s hturn =>
    rw [readLoop_of_refused hturn, Decoder.drain_of_reject (front_reject.mpr hturn)]
    simp
  | case3 s content len hturn ih =>
    rw [readLoop_of_message hturn, ih, Decoder.drain_of_item (front_item.mpr hturn)]
    simp
  | case4 s hturn => exact absurd hturn (readTurn_ne_overrun verify s.inputMsg)

/-- The connection has received the items of the decoder. -/
structure Decodes (s : TcpInput) (d : Decoded UInt8 Bytes) : Prop where
  connected : s.con.state = .connected
  closing : s.con.closing = d.rejected
  buffer : s.inputMsg = d.buffer
  received : s.received = d.items
  inside : s.overrun = false

/-- A chunk is read as the decoder is fed with it. -/
theorem Decodes.arrive {s : TcpInput} {d : Decoded UInt8 Bytes} (h : s.Decodes d)
    (hdone : (frameDecoder verify).Done d) (bytes : Bytes) :
    (s.arrive verify bytes).Decodes ((frameDecoder verify).feed d bytes) := by
  unfold TcpInput.arrive
  cases hrejected : d.rejected with
  | true =>
    rw [if_neg (by simp [h.closing, hrejected]), Decoder.feed, if_pos hrejected]
    exact h
  | false =>
    rw [if_pos ⟨h.connected, h.closing.trans hrejected⟩, cbTcpRead]
    by_cases hnil : bytes = []
    · rw [if_pos hnil, hnil, Decoder.feed_nil hdone]
      exact h
    · rw [if_neg hnil, readLoop_eq]
      simp only [Decoder.feed, hrejected, Bool.false_eq_true, if_false, h.buffer, h.received]
      refine ⟨?_, ?_, rfl, rfl, h.inside⟩
      · split
        · simp [h.connected]
        · exact h.connected
      · split
        · next hstops => simp [Connection.disconnect, Connection.isClosed, h.connected, hstops]
        · next hgoes => simp [h.closing, hrejected, hgoes]

/-- An established connection has read nothing. -/
theorem decodes_established : Decodes established { buffer := [] } := ⟨rfl, rfl, rfl, rfl, rfl⟩

/-- After any chunks, the connection has received what the decoder finds in them. -/
theorem decodes_chunks (verify : Bytes → Bool) (chunks : List Bytes) :
    Decodes (chunks.foldl (TcpInput.arrive verify) established)
      (chunks.foldl (frameDecoder verify).feed { buffer := [] }) := by
  have hdone : (frameDecoder verify).Done { buffer := [] } := fun _ => (frameDecoder verify).front_nil
  have hchunks : ∀ (s : TcpInput) (d : Decoded UInt8 Bytes), s.Decodes d →
      (frameDecoder verify).Done d →
      Decodes (chunks.foldl (TcpInput.arrive verify) s) (chunks.foldl (frameDecoder verify).feed d) := by
    induction chunks with
    | nil => exact fun s d h _ => h
    | cons chunk rest ih =>
      exact fun s d h hdone => ih _ _ (h.arrive hdone chunk) (Decoder.feed_done hdone chunk)
  exact hchunks _ _ decodes_established hdone

end TcpInput

end Loop

section Encoder

variable {verify : Bytes → Bool}

/-- The number of four bytes in network order. -/
theorem toNat_ntohl (b0 b1 b2 b3 : UInt8) :
    (ntohl [b0, b1, b2, b3]).toNat =
      ((b0.toNat * 256 + b1.toNat) * 256 + b2.toNat) * 256 + b3.toNat := by
  have hshift : ∀ (b : UInt8) (k : ℕ), k < 25 → (b.toUInt32 <<< UInt32.ofNat k).toNat = b.toNat <<< k := by
    intro b k hk
    have hb := b.toNat_lt
    have hle : b.toNat <<< k < 2 ^ 32 := by
      rw [Nat.shiftLeft_eq]
      calc b.toNat * 2 ^ k < 2 ^ 8 * 2 ^ k := by gcongr
        _ ≤ 2 ^ 8 * 2 ^ 24 := by gcongr <;> omega
    have hsize : k < UInt32.size := by
      simp only [UInt32.size]
      omega
    rw [UInt32.toNat_shiftLeft, UInt8.toNat_toUInt32, UInt32.toNat_ofNat_of_lt' hsize,
      Nat.mod_eq_of_lt (show k < 32 by omega), Nat.mod_eq_of_lt hle]
  have hjoin : ∀ (a : ℕ) (b : UInt8), a <<< 8 ||| b.toNat = a * 256 + b.toNat := by
    intro a b
    rw [← Nat.shiftLeft_add_eq_or_of_lt (by simpa using b.toNat_lt), Nat.shiftLeft_eq]
  have h24 := hshift b0 24 (by omega)
  have h16 := hshift b1 16 (by omega)
  have h8 := hshift b2 8 (by omega)
  have hwide : ∀ (a k : ℕ), a <<< (k + 8) = (a <<< k) <<< 8 := fun a k => Nat.shiftLeft_add a k 8
  change ((b0.toUInt32 <<< UInt32.ofNat 24) ||| (b1.toUInt32 <<< UInt32.ofNat 16) |||
    (b2.toUInt32 <<< UInt32.ofNat 8) ||| b3.toUInt32).toNat = _
  rw [UInt32.toNat_or, UInt32.toNat_or, UInt32.toNat_or, h24, h16, h8, UInt8.toNat_toUInt32,
    hwide b0.toNat 16, hwide b1.toNat 8, ← Nat.shiftLeft_or_distrib, ← Nat.shiftLeft_or_distrib,
    hwide b0.toNat 8, ← Nat.shiftLeft_or_distrib, hjoin, hjoin, hjoin]

/-- The two conversions agree. -/
theorem ntohl_htonl (n : UInt32) : ntohl (htonl n) = n := by
  apply UInt32.toNat_inj.mp
  have hn := n.toNat_lt
  rw [htonl, toNat_ntohl]
  simp [Nat.shiftRight_eq_div_pow]
  omega

/-- The frame of a content, apart from its checksum. -/
theorem outputMsg_eq (content : Bytes) : ∃ checked : Bytes,
    checked = htonl (UInt32.ofNat (content.length + 12)) ++ htonl 0 ++ content ∧
      checked.length = content.length + 8 ∧
      outputMsg content = checked ++ htonl (Crc32.crcCalc checked Crc32.nullCrc) := by
  refine ⟨_, rfl, by simp [htonl], ?_⟩
  rw [outputMsg, Crc32.crcCalc_append, Crc32.crcCalc_append, List.append_assoc (htonl _) (htonl 0)]

/-- A message is longer than its content by twelve bytes. -/
theorem outputMsg_length (content : Bytes) : (outputMsg content).length = content.length + 12 := by
  obtain ⟨checked, -, hlength, hframe⟩ := outputMsg_eq content
  rw [hframe, List.length_append, hlength]
  rfl

/-- Its first field is its length. -/
theorem lengthField_outputMsg {content : Bytes} (hsize : content.length < 2 ^ 32 - 12) :
    lengthField (outputMsg content) = content.length + 12 := by
  have htake : (outputMsg content).take 4 = htonl (UInt32.ofNat (content.length + 12)) := by
    simp [outputMsg, htonl]
  rw [lengthField, htake, ntohl_htonl]
  simp
  omega

/-- A frame is parsed to its content. -/
theorem parseNetworkMsg_outputMsg {content : Bytes} (hsize : content.length < 2 ^ 32 - 12)
    (hnil : content ≠ []) (hverify : verify content = true) :
    parseNetworkMsg verify (outputMsg content) (outputMsg content).length = .message content := by
  obtain ⟨checked, hchecked, hlength, hframe⟩ := outputMsg_eq content
  have hfield := lengthField_outputMsg hsize
  have hframeLength := outputMsg_length content
  have hpos : 0 < content.length := List.length_pos_iff.mpr hnil
  have hfirst : ntohlPtr (outputMsg content) 0 = some (ntohl ((outputMsg content).take 4)) :=
    ntohlPtr_zero (by omega)
  have hmetadata : ntohlPtr (outputMsg content) 4 = some (ntohl (((outputMsg content).drop 4).take 4)) :=
    if_pos (by omega)
  have hlast : content.length + 12 - 4 = checked.length := by omega
  have hchecksum : ntohlPtr (outputMsg content) checked.length =
      some (Crc32.crcCalc checked Crc32.nullCrc) := by
    rw [ntohlPtr, if_pos (by omega), hframe, List.drop_left, List.take_of_length_le (by simp [htonl]),
      ntohl_htonl]
  have hcontent : ((outputMsg content).drop 8).take (content.length + 12 - 12) = content := by
    rw [hframe, hchecked]
    simp [htonl]
  have htake : (outputMsg content).take checked.length = checked := by
    rw [hframe, List.take_left]
  unfold parseNetworkMsg
  rw [hframeLength, if_neg (by omega), hfirst]
  dsimp only
  rw [← lengthField, hfield, if_neg (by simp), hmetadata, hlast, hchecksum]
  dsimp only
  rw [if_neg (by omega), htake, hcontent, if_neg (by simp), if_neg (by simp [hverify])]

/-- The frames of some contents are cut to these contents. -/
theorem cut_outputMsgs (hverify : verify [] = false) (contents : List Bytes)
    (hcontents : ∀ content ∈ contents, content.length < 2 ^ 32 - 12 ∧ verify content = true) :
    Cut verify (contents.map outputMsg).flatten contents false := by
  induction contents with
  | nil => exact .waiting (Or.inl (by simp))
  | cons content rest ih =>
    obtain ⟨hsize, haccepted⟩ := hcontents content (by simp)
    have hnil : content ≠ [] := by
      rintro rfl
      rw [hverify] at haccepted
      cases haccepted
    have hlength := outputMsg_length content
    rw [List.map_cons, List.flatten_cons]
    refine .message (by omega) (by rw [lengthField_outputMsg hsize, hlength])
      (parseNetworkMsg_outputMsg hsize hnil haccepted)
      (ih fun other hother => hcontents other (by simp [hother]))

/-- However a stream is split, the messages received from it are its contents cut at the length
fields, up to the first frame that is refused, where the connection is closing. Each turn of the
loop consumes bytes or ends it, and none reads outside of the buffer. What arrives from the frames
of some contents are these contents. -/
theorem stream_received (verify : Bytes → Bool) (hverify : verify [] = false) :
    (∀ (chunks contents : List Bytes) (refused : Bool),
        Cut verify chunks.flatten contents refused ↔
          (chunks.foldl (TcpInput.arrive verify) .established).received = contents ∧
            (chunks.foldl (TcpInput.arrive verify) .established).con.closing = refused) ∧
      (∀ chunks : List Bytes,
        (chunks.foldl (TcpInput.arrive verify) .established).overrun = false) ∧
      (∀ buf : Bytes, readTurn verify buf ≠ .overrun) ∧
      (∀ (buf content : Bytes) (len : ℕ), readTurn verify buf = .message content len →
        0 < len ∧ len ≤ buf.length) ∧
      ∀ chunks contents : List Bytes,
        (∀ content ∈ contents, content.length < 2 ^ 32 - 12 ∧ verify content = true) →
        chunks.flatten = (contents.map outputMsg).flatten →
        (chunks.foldl (TcpInput.arrive verify) .established).received = contents ∧
          (chunks.foldl (TcpInput.arrive verify) .established).con.closing = false := by
  have hcut : ∀ (chunks contents : List Bytes) (refused : Bool),
      Cut verify chunks.flatten contents refused ↔
        (chunks.foldl (TcpInput.arrive verify) .established).received = contents ∧
          (chunks.foldl (TcpInput.arrive verify) .established).con.closing = refused := by
    intro chunks contents refused
    have hdecodes := TcpInput.decodes_chunks verify chunks
    obtain ⟨hitems, hrejected, -⟩ := Decoder.feed_chunks (d := frameDecoder verify) chunks
    rw [hdecodes.received, hdecodes.closing, hitems, hrejected]
    constructor
    · intro h
      obtain ⟨rfl, rfl⟩ := h.drain
      exact ⟨rfl, rfl⟩
    · rintro ⟨rfl, rfl⟩
      exact cut_drain chunks.flatten
  refine ⟨hcut, fun chunks => (TcpInput.decodes_chunks verify chunks).inside,
    readTurn_ne_overrun verify,
    fun buf content len hturn => ?_, fun chunks contents hcontents hframes => ?_⟩
  · have hconsumes := readTurn_consumes hturn
    omega
  · refine (hcut chunks contents false).mp ?_
    rw [hframes]
    exact cut_outputMsgs hverify contents hcontents

/-- The content of a KEEPALIVE_PUSH. -/
def keepaliveContent : Bytes :=
  [12, 0, 0, 0, 8, 0, 12, 0, 8, 0, 4, 0, 8, 0, 0, 0, 12, 0, 0, 0, 15, 0, 0, 0, 4, 0, 4, 0, 4, 0, 0, 0]

/-- Two messages arrive in pieces. -/
theorem stream_received_keepalives :
    ([(outputMsg keepaliveContent).take 30,
        (outputMsg keepaliveContent).drop 30 ++ outputMsg keepaliveContent].foldl
      (TcpInput.arrive fun content => decide (content ≠ [])) .established).received =
        [keepaliveContent, keepaliveContent] := by
  obtain ⟨-, -, -, -, hframes⟩ := stream_received (fun content => decide (content ≠ [])) (by simp)
  refine (hframes _ [keepaliveContent, keepaliveContent] ?_ ?_).1
  · simp [keepaliveContent]
  · simp [← List.append_assoc]

end Encoder

end Nplex
