import Nplex.Wire.Stream
import Nplex.Common.Checksum

/-!
# Corrupted frames

A frame with one altered byte is refused wherever the byte is. In the length it no longer agrees
with the length of the frame, in the checksum it no longer agrees with the checksum of the rest,
and elsewhere it changes that one: the table of the CRC has 256 values with different top bytes,
so that each step of the calculation can be undone.

A content is a FlatBuffers buffer, of less than `2^31` bytes, and its size passes the casts of
`output_msg_t` unchanged.
-/

namespace Nplex

open Nplex.Common

namespace Crc32

/-- The top byte of a table value. -/
def topByte (index : UInt8) : UInt8 := (tableValue index >>> 24).toUInt8

/-- One turn of the table taken back. -/
def untableTurn (r : UInt32) : UInt32 :=
  if r &&& 0x80000000 != 0 then ((r ^^^ 0xEDB88320) <<< 1) ||| 1 else r <<< 1

/-- The index of the table value with a top byte. -/
def indexOfTop (top : UInt8) : UInt8 := (Nat.iterate untableTurn 8 (top.toUInt32 <<< 24)).toUInt8

/-- The top byte of an entry tells its index. -/
theorem indexOfTop_topByte (index : UInt8) : indexOfTop (topByte index) = index := by
  have hall : ∀ n : Fin 256, indexOfTop (topByte (UInt8.ofNat n)) = UInt8.ofNat n := by
    decide +kernel
  simpa using hall ⟨index.toNat, index.toNat_lt⟩

/-- The top byte after a turn is that of the table value. -/
theorem topByte_turn (crc : UInt32) (byte : UInt8) :
    (turn crc byte >>> 24).toUInt8 = topByte (byte ^^^ crc.toUInt8) := by
  have hcrc := crc.toNat_lt
  have hzero : crc >>> 8 >>> 24 = 0 := by
    apply UInt32.toNat_inj.mp
    simp [Nat.shiftRight_eq_div_pow]
    omega
  have hshift : turn crc byte >>> 24 = tableValue (byte ^^^ crc.toUInt8) >>> 24 := by
    rw [turn, UInt32.shiftRight_xor, hzero, UInt32.xor_zero]
  rw [topByte, hshift]

/-- A turn loses nothing about the state or the byte. -/
theorem lossless_turn : Lossless turn := by
  have hindex : ∀ crc crc' byte byte', turn crc byte = turn crc' byte' →
      byte ^^^ crc.toUInt8 = byte' ^^^ crc'.toUInt8 := by
    intro crc crc' byte byte' heq
    have htop := topByte_turn crc byte
    rw [heq, topByte_turn] at htop
    have hindices := congrArg indexOfTop htop
    rw [indexOfTop_topByte, indexOfTop_topByte] at hindices
    exact hindices.symm
  constructor
  · intro byte crc crc' heq
    have hsame := hindex crc crc' byte byte heq
    have hlow : crc.toUInt8 = crc'.toUInt8 := (UInt8.xor_right_inj byte).mp hsame
    have hhigh : crc >>> 8 = crc' >>> 8 := by
      dsimp only [turn] at heq
      rw [hsame] at heq
      exact (UInt32.xor_right_inj _).mp heq
    apply UInt32.toNat_inj.mp
    have hlow := congrArg UInt8.toNat hlow
    have hhigh := congrArg UInt32.toNat hhigh
    simp [Nat.shiftRight_eq_div_pow] at hlow hhigh
    omega
  · intro crc byte byte' heq
    exact (UInt8.xor_left_inj crc.toUInt8).mp (hindex crc crc byte byte' heq)

/-- Altering one byte changes the CRC. -/
theorem crcCalc_set_ne {bytes : Bytes} {i : ℕ} {b : UInt8} (hi : i < bytes.length)
    (hb : bytes[i]? ≠ some b) (prior : UInt32) :
    crcCalc (bytes.set i b) prior ≠ crcCalc bytes prior := by
  unfold crcCalc calculateCrc
  intro heq
  exact lossless_turn.foldl_set_ne hi hb _ ((UInt32.xor_left_inj _).mp heq)

end Crc32

section Frames

variable {verify : Bytes → Bool} {buf content : Bytes} {len i : ℕ} {b : UInt8}

/-- Four bytes in network order are told by their number. -/
theorem ntohl_inj {bytes bytes' : Bytes} (hlength : bytes.length = 4) (hlength' : bytes'.length = 4)
    (h : ntohl bytes = ntohl bytes') : bytes = bytes' := by
  match bytes, bytes', hlength, hlength' with
  | [b0, b1, b2, b3], [c0, c1, c2, c3], _, _ =>
    have hnat := congrArg UInt32.toNat h
    rw [toNat_ntohl, toNat_ntohl] at hnat
    have hbyte : ∀ b c : UInt8, b.toNat = c.toNat → b = c := fun _ _ => UInt8.toNat_inj.mp
    have hb1 := b1.toNat_lt
    have hb2 := b2.toNat_lt
    have hb3 := b3.toNat_lt
    have hc1 := c1.toNat_lt
    have hc2 := c2.toNat_lt
    have hc3 := c3.toNat_lt
    rw [hbyte b0 c0 (by omega), hbyte b1 c1 (by omega), hbyte b2 c2 (by omega),
      hbyte b3 c3 (by omega)]

/-- A frame whose length or checksum does not fit is refused. -/
theorem parseNetworkMsg_refused (hlen : len ≤ buf.length)
    (h : lengthField buf ≠ len ∨
      ntohl ((buf.drop (len - 4)).take 4) ≠ Crc32.crcCalc (buf.take (len - 4)) Crc32.nullCrc) :
    parseNetworkMsg verify buf len = .refused := by
  unfold parseNetworkMsg
  by_cases hshort : len ≤ 12
  · rw [if_pos hshort]
  · rw [if_neg hshort, ntohlPtr_zero (by omega)]
    dsimp only
    by_cases hfield : lengthField buf = len
    · have hchecksum := h.resolve_left (not_not_intro hfield)
      have hmetadata : ntohlPtr buf 4 = some (ntohl ((buf.drop 4).take 4)) := if_pos (by omega)
      have hlast : ntohlPtr buf (len - 4) = some (ntohl ((buf.drop (len - 4)).take 4)) :=
        if_pos (by omega)
      rw [hmetadata, hlast]
      dsimp only
      have hfits : len = (ntohl (buf.take 4)).toNat := hfield.symm
      have hinside : ¬buf.length < len - 4 := by omega
      rw [if_neg (not_not_intro hfits), if_neg hinside, if_pos hchecksum]
    · exact if_pos (Ne.symm hfield)

/-- Altering one of four bytes changes their number. -/
theorem ntohl_set_ne {bytes : Bytes} (hlength : bytes.length = 4) (hi : i < 4)
    (hb : bytes[i]? ≠ some b) : ntohl (bytes.set i b) ≠ ntohl bytes := by
  intro heq
  have hsame := ntohl_inj (by simpa using hlength) hlength heq
  rw [← hsame, List.getElem?_set_self (by omega)] at hb
  exact hb rfl

/-- The length field of an altered frame no longer is its length. -/
theorem lengthField_set_ne (hi : i < 4) (hb : (outputMsg content)[i]? ≠ some b) :
    lengthField ((outputMsg content).set i b) ≠ (outputMsg content).length := by
  have hframeLength := outputMsg_length content
  have hfour : ((outputMsg content).take 4).length = 4 := by
    rw [List.length_take]
    omega
  have haltered : ntohl (((outputMsg content).take 4).set i b) ≠ ntohl ((outputMsg content).take 4) :=
    ntohl_set_ne hfour hi (by rwa [List.getElem?_take_of_lt hi])
  intro heq
  -- an altered field that fits is below `2^32`, so that the original one fits as well
  have hlt := (ntohl (((outputMsg content).set i b).take 4)).toNat_lt
  have hfield : lengthField ((outputMsg content).set i b) < 2 ^ 32 := hlt
  have horiginal : lengthField (outputMsg content) = content.length + 12 :=
    lengthField_outputMsg (by omega)
  refine haltered (UInt32.toNat_inj.mp ?_)
  rw [← List.take_set]
  exact heq.trans (hframeLength.trans horiginal.symm)

/-- A frame with one altered byte is refused, with the length of the original frame. -/
theorem parseNetworkMsg_corrupted (verify : Bytes → Bool) (content : Bytes) (i : ℕ) (b : UInt8)
    (hi : i < (outputMsg content).length) (hb : (outputMsg content)[i]? ≠ some b) :
    parseNetworkMsg verify ((outputMsg content).set i b) (outputMsg content).length = .refused := by
  obtain ⟨checked, -, hlength, hframe⟩ := outputMsg_eq content
  have hframeLength := outputMsg_length content
  refine parseNetworkMsg_refused (by simp) ?_
  by_cases hfield : i < 4
  · exact Or.inl (lengthField_set_ne hfield hb)
  · right
    have hlast : (outputMsg content).length - 4 = checked.length := by omega
    have hfour : (htonl (Crc32.crcCalc checked Crc32.nullCrc)).length = 4 := rfl
    rw [hlast]
    rw [hframe] at hb ⊢
    by_cases hinside : i < checked.length
    · -- the checksum is kept and that of the other bytes changes
      rw [List.set_append_left _ _ hinside]
      have hset : (checked.set i b).length = checked.length := List.length_set
      rw [← hset, List.drop_left, List.take_left, List.take_of_length_le (Nat.le_of_eq hfour),
        ntohl_htonl]
      rw [List.getElem?_append_left hinside] at hb
      exact (Crc32.crcCalc_set_ne hinside hb _).symm
    · -- the checksum changes and the other bytes are kept
      have hpos : i - checked.length < 4 := by omega
      rw [List.set_append_right _ _ (by omega), List.drop_left, List.take_left,
        List.take_of_length_le (by simp [hfour])]
      rw [List.getElem?_append_right (by omega)] at hb
      have haltered := ntohl_set_ne hfour hpos hb
      rwa [ntohl_htonl] at haltered

/-- The last byte of the content of a frame is altered. -/
theorem parseNetworkMsg_corrupted_keepalive :
    parseNetworkMsg (fun _ => true) ((outputMsg keepaliveContent).set 39 1)
      (outputMsg keepaliveContent).length = .refused :=
  parseNetworkMsg_corrupted (fun _ => true) keepaliveContent 39 1
    (by simp [outputMsg_length, keepaliveContent]) (by simp [outputMsg, keepaliveContent, htonl])

end Frames

end Nplex
