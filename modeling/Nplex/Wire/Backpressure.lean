import Nplex.Common.Transition
import Nplex.Wire.Stream

/-!
# Back-pressure

The output side of `connection_impl`: `send` hands a frame to libuv unless too many messages or
bytes are unacknowledged, and `cb_tcp_write` takes the completed write off the counters. The
writes that libuv accepted and has not completed are kept beside the counters; libuv completes
each of them once, in any order, and runs the close callback of a handle after all of them.
-/

namespace Nplex

open Nplex.Common

/-- `flatbuffers::DetachedBuffer`: a finished buffer is smaller than 2 GiB. -/
structure DetachedBuffer where
  content : Bytes
  size_lt : content.length < 2 ^ 31

/-- `output_msg_t::length`, a 32-bit number. -/
def DetachedBuffer.msgLength (buf : DetachedBuffer) : UInt32 :=
  UInt32.ofNat (buf.content.length + 12)

/-- The frame that `uv_write` is given. -/
def DetachedBuffer.frame (buf : DetachedBuffer) : Bytes := outputMsg buf.content

/-- `connection_params_t`, as far as sending is concerned. -/
structure ConnectionParams where
  maxUnackMsgs : UInt32
  maxUnackBytes : UInt32

/-- The limits of a connection, of which zero is none. -/
structure Limits extends ConnectionParams where
  msgs_pos : 0 < maxUnackMsgs.toNat
  bytes_pos : 0 < maxUnackBytes.toNat

/-- The constructor of `connection_impl` takes zero for no limit. -/
def unlimited (limit : UInt32) : UInt32 := if limit = 0 then UInt32.ofNat (2 ^ 32 - 1) else limit

/-- A limit is positive, zero being none. -/
theorem unlimited_pos (limit : UInt32) : 0 < (unlimited limit).toNat := by
  unfold unlimited
  split
  · decide
  · next hne => exact Nat.pos_of_ne_zero fun hzero => hne (UInt32.toNat_inj.mp hzero)

/-- The limits that the constructor of `connection_impl` takes from the parameters. -/
def ConnectionParams.limits (params : ConnectionParams) : Limits where
  maxUnackMsgs := unlimited params.maxUnackMsgs
  maxUnackBytes := unlimited params.maxUnackBytes
  msgs_pos := unlimited_pos params.maxUnackMsgs
  bytes_pos := unlimited_pos params.maxUnackBytes

/-- `connection_stats_t`, without what `cb_tcp_read` counts. -/
structure ConnectionStats where
  unackMsgs : UInt64 := 0
  unackBytes : UInt64 := 0
  sentMsgs : UInt64 := 0
  sentBytes : UInt64 := 0

/-- `connection_impl` with its output side. -/
structure ConnectionImpl where
  limits : Limits
  con : Connection := {}
  stats : ConnectionStats := {}
  /-- The writes that `uv_write` accepted and that are not completed. -/
  writes : List DetachedBuffer := []

/-- `ERR_QUEUE_EXCEEDED`. -/
def queueExceeded : DisconnectCause := .system 1004

/-- What happens to a connection. -/
inductive IoEvent
  /-- `connect`; `fails` says that libuv or the address resolution refuses. -/
  | connect (fails : Bool)
  /-- `cb_tcp_connect`. -/
  | connected (status : Int)
  /-- `send`; `rc` is what `uv_write` returns if it is called. -/
  | send (buf : DetachedBuffer) (rc : Int)
  /-- `cb_tcp_write` for one of the writes. -/
  | written (n : ℕ) (status : Int)
  /-- `disconnect`. -/
  | disconnect (cause : DisconnectCause)
  /-- `cb_tcp_close`. -/
  | closed

namespace ConnectionImpl

/-- The constructor. -/
def create (params : ConnectionParams) : ConnectionImpl := { limits := params.limits }

/-- `connection_impl::disconnect`. -/
def disconnect (c : ConnectionImpl) (cause : DisconnectCause) : ConnectionImpl :=
  { c with con := c.con.disconnect cause }

/-- `connection_impl::connect`, and whether it throws. -/
def connect (c : ConnectionImpl) (fails : Bool) : ConnectionImpl × Bool :=
  if !c.con.isClosed then (c, true)
  else ({ c with con := (c.con.connect fails).1, stats := {} }, (c.con.connect fails).2)

/-- `cb_tcp_connect`. -/
def onConnect (c : ConnectionImpl) (status : Int) : ConnectionImpl :=
  if status < 0 then c.disconnect (.system status)
  else { c with con := { c.con with state := .connected } }

/-- `send` finds a limit exceeded. -/
def exceeds (c : ConnectionImpl) (buf : DetachedBuffer) : Bool :=
  c.limits.maxUnackMsgs.toUInt64 ≤ c.stats.unackMsgs ||
    c.limits.maxUnackBytes.toUInt64 ≤ c.stats.unackBytes + buf.msgLength.toUInt64

/-- `connection_impl::send`, and whether it throws. -/
def send (c : ConnectionImpl) (buf : DetachedBuffer) (rc : Int) : ConnectionImpl × Bool :=
  if c.con.state ≠ .connected then (c, true)
  else if c.exceeds buf then (c.disconnect queueExceeded, false)
  else if rc ≠ 0 then (c.disconnect (.system rc), false)
  else
    ({ c with
        writes := c.writes ++ [buf]
        stats := { c.stats with
          unackMsgs := c.stats.unackMsgs + 1
          unackBytes := c.stats.unackBytes + buf.msgLength.toUInt64 } }, false)

/-- The assertions of `cb_tcp_write`. -/
def writeAsserts (c : ConnectionImpl) (buf : DetachedBuffer) : Bool :=
  0 < c.stats.unackMsgs && buf.msgLength.toUInt64 ≤ c.stats.unackBytes

/-- `cb_tcp_write`, on the counters. -/
def countWritten (c : ConnectionImpl) (buf : DetachedBuffer) : ConnectionImpl :=
  { c with
    stats :=
      { unackMsgs := c.stats.unackMsgs - 1
        unackBytes := c.stats.unackBytes - buf.msgLength.toUInt64
        sentMsgs := c.stats.sentMsgs + 1
        sentBytes := c.stats.sentBytes + buf.msgLength.toUInt64 } }

/-- `cb_tcp_write`. -/
def onWrite (c : ConnectionImpl) (buf : DetachedBuffer) (status : Int) : ConnectionImpl :=
  if status < 0 then (c.countWritten buf).disconnect (.system status) else c.countWritten buf

/-- One step. -/
def step (c : ConnectionImpl) : IoEvent → Option ConnectionImpl
  | .connect fails => some (c.connect fails).1
  | .connected status =>
    if c.con.state = .connecting ∧ (status < 0 ∨ c.con.closing = false) then
      some (c.onConnect status)
    else none
  | .send buf rc => some (c.send buf rc).1
  | .written n status =>
    match c.writes[n]? with
    | none => none
    | some buf => some (onWrite { c with writes := c.writes.eraseIdx n } buf status)
  | .disconnect cause => some (c.disconnect cause)
  | .closed =>
    if c.con.isClosed = false ∧ c.con.closing = true ∧ c.writes = [] then
      some { c with con := c.con.onClose }
    else none

/-- The total length of the frames that are being written. -/
def pendingBytes (c : ConnectionImpl) : ℕ := (c.writes.map (·.frame.length)).sum

/-- The counters are about the writes that are not completed, within the limits. -/
structure Accounted (c : ConnectionImpl) : Prop where
  msgs : c.stats.unackMsgs.toNat = c.writes.length
  bytes : c.stats.unackBytes.toNat = c.pendingBytes
  msgs_le : c.writes.length ≤ c.limits.maxUnackMsgs.toNat
  bytes_lt : c.pendingBytes < c.limits.maxUnackBytes.toNat
  /-- A closed connection has no writes. -/
  idle : c.con.state = .closed → c.writes = []

section Steps

variable {c c' : ConnectionImpl}

/-- The length that is counted is the number of bytes written. -/
theorem msgLength_toNat (buf : DetachedBuffer) : buf.msgLength.toNat = buf.frame.length := by
  have hlt := buf.size_lt
  rw [DetachedBuffer.frame, outputMsg_length, DetachedBuffer.msgLength, UInt32.toNat_ofNat']
  exact Nat.mod_eq_of_lt (by omega)

/-- What is being written is a pending write and the others. -/
theorem pendingBytes_eq {n : ℕ} {buf : DetachedBuffer} (hn : c.writes[n]? = some buf) :
    c.pendingBytes = buf.frame.length +
      ((c.writes.eraseIdx n).map (·.frame.length)).sum := by
  obtain ⟨hlength, hbuf⟩ := List.getElem?_eq_some_iff.mp hn
  have hperm := List.getElem_cons_eraseIdx_perm hlength
  have hsum := (hperm.map (·.frame.length)).sum_eq
  rw [hbuf] at hsum
  exact hsum.symm

/-- What changes neither the counters nor the writes. -/
theorem Accounted.of_con (h : c.Accounted) {con : Connection}
    (hidle : con.state = .closed → c.writes = []) : Accounted { c with con := con } where
  msgs := h.msgs
  bytes := h.bytes
  msgs_le := h.msgs_le
  bytes_lt := h.bytes_lt
  idle := hidle

/-- Disconnecting keeps the account. -/
theorem Accounted.disconnect (h : c.Accounted) (cause : DisconnectCause) :
    (c.disconnect cause).Accounted :=
  h.of_con fun hclosed => h.idle (by simpa using hclosed)

/-- A new connection has nothing to account for. -/
theorem accounted_create (params : ConnectionParams) : (create params).Accounted where
  msgs := rfl
  bytes := rfl
  msgs_le := Nat.zero_le _
  bytes_lt := params.limits.bytes_pos
  idle _ := rfl

/-- The counters start again on a connection without writes. -/
theorem Accounted.connect (h : c.Accounted) (fails : Bool) : (c.connect fails).1.Accounted := by
  unfold ConnectionImpl.connect
  by_cases hclosed : c.con.state = .closed
  · rw [if_neg (by simp [Connection.isClosed, hclosed])]
    have hempty := h.idle hclosed
    exact ⟨by simp [hempty], by simp [pendingBytes, hempty], h.msgs_le, h.bytes_lt, fun _ => hempty⟩
  · rw [if_pos (by simp [Connection.isClosed, hclosed])]
    exact h

/-- So is one that connects. -/
theorem Accounted.onConnect (h : c.Accounted) (status : Int) : (c.onConnect status).Accounted := by
  unfold ConnectionImpl.onConnect
  split
  · exact h.disconnect _
  · exact h.of_con (by simp)

/-- Below the limits there is room for one more message. -/
theorem room_of_not_exceeds (h : c.Accounted) {buf : DetachedBuffer} (hroom : c.exceeds buf = false) :
    c.writes.length < c.limits.maxUnackMsgs.toNat ∧
      c.pendingBytes + buf.frame.length < c.limits.maxUnackBytes.toNat := by
  have hmsgs := h.msgs
  have hbytes := h.bytes
  have hbytesLt := h.bytes_lt
  have hlength := msgLength_toNat buf
  have hmax := c.limits.maxUnackBytes.toNat_lt
  have hlen := buf.msgLength.toNat_lt
  simp only [exceeds, Bool.or_eq_false_iff, decide_eq_false_iff_not, UInt64.not_le,
    UInt64.lt_iff_toNat_lt, UInt32.toNat_toUInt64, UInt64.toNat_add] at hroom
  rw [Nat.mod_eq_of_lt (by omega)] at hroom
  omega

/-- An accepted message is counted. -/
theorem Accounted.send (h : c.Accounted) (buf : DetachedBuffer) (rc : Int) :
    (c.send buf rc).1.Accounted := by
  unfold ConnectionImpl.send
  by_cases hconnected : c.con.state = .connected
  swap
  · rw [if_pos hconnected]
    exact h
  rw [if_neg (not_not.mpr hconnected)]
  cases hroom : c.exceeds buf with
  | true => exact h.disconnect _
  | false =>
    by_cases hrc : rc = 0
    swap
    · rw [if_neg (by simp), if_pos hrc]
      exact h.disconnect _
    rw [if_neg (by simp), if_neg (not_not.mpr hrc)]
    obtain ⟨hmsgsRoom, hbytesRoom⟩ := room_of_not_exceeds h hroom
    have hmsgs := h.msgs
    have hbytes := h.bytes
    have hlength := msgLength_toNat buf
    have hmaxMsgs := c.limits.maxUnackMsgs.toNat_lt
    have hmaxBytes := c.limits.maxUnackBytes.toNat_lt
    have hpending : pendingBytes { c with writes := c.writes ++ [buf] } =
        c.pendingBytes + buf.frame.length := by
      simp [pendingBytes]
    refine ⟨?_, ?_, ?_, ?_, fun hclosed => ?_⟩
    · simp only [UInt64.toNat_add, List.length_append, List.length_singleton, UInt64.toNat_one]
      omega
    · refine Eq.trans ?_ hpending.symm
      simp only [UInt64.toNat_add, UInt32.toNat_toUInt64]
      omega
    · simp only [List.length_append, List.length_singleton]
      omega
    · exact hpending.trans_lt hbytesRoom
    · rw [hconnected] at hclosed
      cases hclosed

/-- A pending write is counted, so that the assertions hold. -/
theorem Accounted.writeAsserts (h : c.Accounted) {n : ℕ} {buf : DetachedBuffer}
    (hn : c.writes[n]? = some buf) : c.writeAsserts buf = true := by
  have hmsgs := h.msgs
  have hbytes := h.bytes
  have hpending := pendingBytes_eq hn
  have hlength := msgLength_toNat buf
  have hlt := (List.getElem?_eq_some_iff.mp hn).1
  simp only [ConnectionImpl.writeAsserts, Bool.and_eq_true, decide_eq_true_eq,
    UInt64.lt_iff_toNat_lt, UInt64.le_iff_toNat_le, UInt32.toNat_toUInt64, UInt64.toNat_zero]
  omega

/-- Counters that meet the assertions do not underflow. -/
theorem countWritten_toNat {buf : DetachedBuffer} (hasserts : c.writeAsserts buf = true) :
    (c.countWritten buf).stats.unackMsgs.toNat + 1 = c.stats.unackMsgs.toNat ∧
      (c.countWritten buf).stats.unackBytes.toNat + buf.frame.length =
        c.stats.unackBytes.toNat := by
  simp only [ConnectionImpl.writeAsserts, Bool.and_eq_true, decide_eq_true_eq] at hasserts
  obtain ⟨hmsgs, hbytes⟩ := hasserts
  have hone : (1 : UInt64) ≤ c.stats.unackMsgs := by
    rw [UInt64.le_iff_toNat_le]
    exact UInt64.lt_iff_toNat_lt.mp hmsgs
  rw [countWritten, UInt64.toNat_sub_of_le _ _ hone, UInt64.toNat_sub_of_le _ _ hbytes,
    UInt32.toNat_toUInt64, msgLength_toNat]
  rw [UInt64.le_iff_toNat_le] at hone hbytes
  rw [UInt32.toNat_toUInt64, msgLength_toNat] at hbytes
  exact ⟨Nat.sub_add_cancel hone, Nat.sub_add_cancel hbytes⟩

/-- The status of a completed write changes no counter. -/
theorem onWrite_same (c : ConnectionImpl) (buf : DetachedBuffer) (status : Int) :
    c.onWrite buf status = { c.countWritten buf with con := (c.onWrite buf status).con } := by
  unfold onWrite
  split <;> rfl

/-- A completed write is taken off the counters. -/
theorem Accounted.written (h : c.Accounted) {n : ℕ} {buf : DetachedBuffer}
    (hn : c.writes[n]? = some buf) (status : Int) :
    (ConnectionImpl.onWrite { c with writes := c.writes.eraseIdx n } buf status).Accounted := by
  have hmsgs := h.msgs
  have hmsgsLe := h.msgs_le
  have hbytes := h.bytes
  have hbytesLt := h.bytes_lt
  have hpending := pendingBytes_eq hn
  have hlength := (List.getElem?_eq_some_iff.mp hn).1
  have herased := List.length_eraseIdx_of_lt hlength
  obtain ⟨hmsgs', hbytes'⟩ := countWritten_toNat (h.writeAsserts hn)
  have hcounted : Accounted { c.countWritten buf with writes := c.writes.eraseIdx n } := by
    refine ⟨?_, ?_, ?_, ?_, fun hclosed => ?_⟩
    · show (c.countWritten buf).stats.unackMsgs.toNat = (c.writes.eraseIdx n).length
      omega
    · show (c.countWritten buf).stats.unackBytes.toNat = ((c.writes.eraseIdx n).map (·.frame.length)).sum
      omega
    · show (c.writes.eraseIdx n).length ≤ c.limits.maxUnackMsgs.toNat
      omega
    · show ((c.writes.eraseIdx n).map (·.frame.length)).sum < c.limits.maxUnackBytes.toNat
      omega
    · have hempty := h.idle hclosed
      rw [hempty] at hlength
      exact absurd hlength (by simp)
  unfold ConnectionImpl.onWrite
  split
  · exact hcounted.disconnect _
  · exact hcounted

/-- Every step keeps the account. -/
theorem accounted_step {e : IoEvent} (h : c.Accounted) (hstep : c.step e = some c') :
    c'.Accounted := by
  cases e with
  | connect fails =>
    obtain rfl := Option.some.inj hstep
    exact h.connect fails
  | connected status =>
    simp only [step] at hstep
    split_ifs at hstep
    obtain rfl := Option.some.inj hstep
    exact h.onConnect status
  | send buf rc =>
    obtain rfl := Option.some.inj hstep
    exact h.send buf rc
  | written n status =>
    simp only [step] at hstep
    split at hstep
    · cases hstep
    · next buf hn =>
      obtain rfl := Option.some.inj hstep
      exact h.written hn status
  | disconnect cause =>
    obtain rfl := Option.some.inj hstep
    exact h.disconnect cause
  | closed =>
    simp only [step] at hstep
    split_ifs at hstep with hclosing
    obtain rfl := Option.some.inj hstep
    exact h.of_con fun _ => hclosing.2.2

/-- Sending keeps the limits. -/
theorem send_limits (buf : DetachedBuffer) (rc : Int) : (c.send buf rc).1.limits = c.limits := by
  unfold send
  split
  · rfl
  · split
    · rfl
    · split <;> rfl

/-- The limits are those of the constructor. -/
theorem step_limits {e : IoEvent} (hstep : c.step e = some c') : c'.limits = c.limits := by
  cases e with
  | connect fails =>
    obtain rfl := Option.some.inj hstep
    unfold connect
    split <;> rfl
  | connected status =>
    simp only [step] at hstep
    split_ifs at hstep
    obtain rfl := Option.some.inj hstep
    unfold onConnect
    split <;> rfl
  | send buf rc =>
    obtain rfl := Option.some.inj hstep
    exact send_limits buf rc
  | written n status =>
    simp only [step] at hstep
    split at hstep
    · cases hstep
    · obtain rfl := Option.some.inj hstep
      rw [onWrite_same]
      rfl
  | disconnect cause =>
    obtain rfl := Option.some.inj hstep
    rfl
  | closed =>
    simp only [step] at hstep
    split_ifs at hstep
    obtain rfl := Option.some.inj hstep
    rfl

/-- So does every run. -/
theorem run_limits {ok : ConnectionImpl → IoEvent → Prop} {events : List IoEvent}
    (hrun : Run step ok c events c') : c'.limits = c.limits := by
  induction hrun with
  | nil => rfl
  | cons _ hstep _ ih => exact ih.trans (step_limits hstep)

/-- A refused message is not counted. -/
theorem send_exceeds {buf : DetachedBuffer} (hexceeds : c.exceeds buf = true) (rc : Int) :
    (c.send buf rc).1.stats = c.stats ∧ (c.send buf rc).1.writes = c.writes := by
  unfold send
  rw [if_pos hexceeds]
  split <;> exact ⟨rfl, rfl⟩

/-- On every run the counters are the number and the total length of the writes that are not
completed, within the limits. The assertions hold when a write is completed, nothing underflows,
and a message refused for a limit is not counted. -/
theorem unacked_exact (params : ConnectionParams) (events : List IoEvent) (c : ConnectionImpl)
    (hrun : Run step anyStep (create params) events c) :
    (c.stats.unackMsgs.toNat = c.writes.length ∧ c.stats.unackBytes.toNat = c.pendingBytes) ∧
      (c.stats.unackMsgs.toNat ≤ params.limits.maxUnackMsgs.toNat ∧
        c.stats.unackBytes.toNat < params.limits.maxUnackBytes.toNat) ∧
      (∀ (n : ℕ) (buf : DetachedBuffer) (status : Int), c.writes[n]? = some buf →
        c.writeAsserts buf = true ∧
          (c.onWrite buf status).stats.unackMsgs.toNat + 1 = c.stats.unackMsgs.toNat ∧
          (c.onWrite buf status).stats.unackBytes.toNat + buf.frame.length =
            c.stats.unackBytes.toNat) ∧
      ∀ (buf : DetachedBuffer) (rc : Int), c.exceeds buf = true →
        (c.send buf rc).1.stats = c.stats ∧ (c.send buf rc).1.writes = c.writes := by
  have h : c.Accounted :=
    hrun.invariant (fun _ _ _ _ hstep h => accounted_step h hstep) (accounted_create params)
  have hlimits : c.limits = params.limits := run_limits hrun
  rw [← hlimits]
  refine ⟨⟨h.msgs, h.bytes⟩, ⟨?_, ?_⟩, fun n buf status hn => ?_, fun buf rc hexceeds => ?_⟩
  · exact h.msgs.trans_le h.msgs_le
  · exact h.bytes.trans_lt h.bytes_lt
  · have hasserts := h.writeAsserts hn
    rw [onWrite_same]
    exact ⟨hasserts, countWritten_toNat hasserts⟩
  · exact send_exceeds hexceeds rc

/-- A limit of one message: the second one is refused and closes the connection. -/
theorem unacked_exact_one_message : ∃ c : ConnectionImpl,
    Run step anyStep (create ⟨1, 0⟩)
        [.connect false, .connected 0, .send ⟨[7], by decide⟩ 0, .send ⟨[8], by decide⟩ 0] c ∧
      c.writes.length = 1 ∧ c.stats.unackMsgs.toNat = 1 ∧ c.con.closing = true := by
  have hexec : (execute step (fun _ _ => true) (create ⟨1, 0⟩)
      [.connect false, .connected 0, .send ⟨[7], by decide⟩ 0, .send ⟨[8], by decide⟩ 0]).map
        (fun c => (c.writes.length, c.con.closing)) = some (1, true) := by
    decide +kernel
  obtain ⟨c, hrun, hc⟩ := exists_run_of_execute (fun s e _ => (trivial : anyStep s e)) hexec
  obtain ⟨hwrites, hclosing⟩ := Prod.mk.inj hc
  exact ⟨c, hrun, hwrites, (unacked_exact ⟨1, 0⟩ _ c hrun).1.1.trans hwrites, hclosing⟩

end Steps

end ConnectionImpl

end Nplex
