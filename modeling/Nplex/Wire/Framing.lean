import Nplex.Connection
import Nplex.Wire.Crc32

/-!
# Frames

The frames of `messaging.cpp` and the loop of `cb_tcp_read` that cuts them from what a connection
receives. The FlatBuffers verifier is a parameter. A read of memory outside of the buffered bytes
is an outcome of its own.
-/

namespace Nplex

/-- The bytes of a number in network order, as `htonl` leaves them in memory. -/
def htonl (n : UInt32) : Bytes :=
  [(n >>> 24).toUInt8, (n >>> 16).toUInt8, (n >>> 8).toUInt8, n.toUInt8]

/-- The number with these bytes in network order. -/
def ntohl : Bytes → UInt32
  | [b0, b1, b2, b3] =>
    (b0.toUInt32 <<< 24) ||| (b1.toUInt32 <<< 16) ||| (b2.toUInt32 <<< 8) ||| b3.toUInt32
  | _ => 0

/-- `ntohl_ptr` at a position of a buffer, unless the read leaves the buffer. -/
def ntohlPtr (buf : Bytes) (ptr : ℕ) : Option UInt32 :=
  if ptr + 4 ≤ buf.length then some (ntohl ((buf.drop ptr).take 4)) else none

/-- `output_msg_t`: the bytes of the four buffers that are written for a content. The length is a
32-bit number. -/
def outputMsg (content : Bytes) : Bytes :=
  let len := htonl (UInt32.ofNat (content.length + 12))
  let metadata := htonl 0
  let checksum := Crc32.crcCalc len Crc32.nullCrc
  let checksum := Crc32.crcCalc metadata checksum
  let checksum := Crc32.crcCalc content checksum
  len ++ metadata ++ content ++ htonl checksum

/-- What `parse_network_msg` returns. -/
inductive Parsed
  | refused
  /-- The message, by its content. -/
  | message (content : Bytes)
  /-- It reads outside of the buffer. -/
  | overrun
  deriving DecidableEq

/-- `parse_network_msg` on the first bytes of a buffer. -/
def parseNetworkMsg (verify : Bytes → Bool) (buf : Bytes) (len : ℕ) : Parsed :=
  if len ≤ 12 then .refused
  else
    match ntohlPtr buf 0 with
    | none => .overrun
    | some n =>
      if len ≠ n.toNat then .refused
      else
        match ntohlPtr buf 4, ntohlPtr buf (len - 4) with
        | some _, some checksum =>
          if buf.length < len - 4 then .overrun
          else if checksum ≠ Crc32.crcCalc (buf.take (len - 4)) Crc32.nullCrc then .refused
          else
            let content := (buf.drop 8).take (len - 12)
            if !verify content then .refused else .message content
        | _, _ => .overrun

/-- What one turn of the loop of `cb_tcp_read` does. -/
inductive ReadTurn
  /-- The buffer holds no complete frame. -/
  | stop
  | refused
  /-- A message is handed to the client and its frame erased. -/
  | message (content : Bytes) (len : ℕ)
  | overrun
  deriving DecidableEq

/-- One turn of the loop of `cb_tcp_read`. -/
def readTurn (verify : Bytes → Bool) (buf : Bytes) : ReadTurn :=
  if buf.length < 4 then .stop
  else
    match ntohlPtr buf 0 with
    | none => .overrun
    | some len =>
      if buf.length < len.toNat then .stop
      else
        match parseNetworkMsg verify buf len.toNat with
        | .refused => .refused
        | .message content => .message content len.toNat
        | .overrun => .overrun

/-- A message is longer than the fields around its content. -/
theorem parseNetworkMsg_length {verify : Bytes → Bool} {buf content : Bytes} {len : ℕ}
    (h : parseNetworkMsg verify buf len = .message content) : 12 < len := by
  unfold parseNetworkMsg at h
  split at h
  · cases h
  · next hlength => omega

/-- Each turn that goes on consumes bytes of the buffer. -/
theorem readTurn_consumes {verify : Bytes → Bool} {buf content : Bytes} {len : ℕ}
    (h : readTurn verify buf = .message content len) : 12 < len ∧ len ≤ buf.length := by
  unfold readTurn at h
  split at h
  · cases h
  · split at h
    · cases h
    · next n _ =>
      split at h
      · cases h
      · next hlength =>
        split at h
        · cases h
        · next content' hparse =>
          cases h
          exact ⟨parseNetworkMsg_length hparse, by omega⟩
        · cases h

/-- The input side of a connection: the connection, `m_input_msg`, and the contents handed to
`on_msg_received`. -/
structure TcpInput where
  con : Connection
  inputMsg : Bytes := []
  received : List Bytes := []
  overrun : Bool := false

namespace TcpInput

/-- The loop of `cb_tcp_read`. -/
def readLoop (verify : Bytes → Bool) (s : TcpInput) : TcpInput :=
  match _hturn : readTurn verify s.inputMsg with
  | .stop => s
  | .refused => { s with con := s.con.disconnect .msgError }
  | .message content len =>
    readLoop verify
      { s with received := s.received ++ [content], inputMsg := s.inputMsg.drop len }
  | .overrun => { s with overrun := true }
termination_by s.inputMsg.length
decreasing_by
  have hconsumes := readTurn_consumes _hturn
  simp only [List.length_drop]
  omega

/-- What libuv passes to `cb_tcp_read`: some bytes, the end of the stream or no buffer, or an
error. -/
inductive Nread
  | data (bytes : Bytes)
  | closed
  | error (rc : Int)

/-- `cb_tcp_read`. -/
def cbTcpRead (verify : Bytes → Bool) (s : TcpInput) : Nread → TcpInput
  | .data bytes =>
    if bytes = [] then s else { s with inputMsg := s.inputMsg ++ bytes }.readLoop verify
  | .closed => { s with con := s.con.disconnect .closedByPeer }
  | .error rc => { s with con := s.con.disconnect (.system rc) }

/-- Some bytes arrive. libuv reads a connected stream until it is closed. -/
def arrive (verify : Bytes → Bool) (s : TcpInput) (bytes : Bytes) : TcpInput :=
  if s.con.state = .connected ∧ s.con.closing = false then s.cbTcpRead verify (.data bytes) else s

/-- The connection just established. -/
def established : TcpInput := { con := { state := .connected } }

end TcpInput

end Nplex
