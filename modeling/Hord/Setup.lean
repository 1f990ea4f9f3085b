import Hord.Stream

/- Bringing a stream up (`hord-stream/src/stream.rs`): building the pools and
   posting the receives, the first-message handshake exchange, and applying the
   peer's handshake.

   Correspondence (Rust ↔ Lean):
     `my_handshake` / `negotiate_split`       ↔ `myHandshake` / `negotiateSplit`
     `new_common`                             ↔ `newCommon`
     `begin_handshake_send`, `poll_handshake` ↔ `beginHandshakeSend`, `pollHandshake`
     `apply_peer` (`finish_handshake`)        ↔ `applyPeer`
     `post_split_recvs`                       ↔ `postSplitRecvs`
   The connection metadata captured for logging is left out. A size that leaves `usize`
   ends here as the panic of the allocation it is for, since no buffer that long can be
   allocated: with overflow checks on the operation itself panics, just before. The
   README's release build wraps the size and goes on. -/
namespace Hord

open Region

def negotiateSplit (localSplit negotiatedZeroCopy : Bool) (peer : Handshake) : Bool :=
  localSplit && negotiatedZeroCopy && peer.splitModeCapable && decide (0 < peer.splitCredits.toNat)

/-- The handshake a configuration advertises. The message size and pool casts
    truncate, the transfer-credit cast saturates. -/
def myHandshake (config : HordConfig) : Handshake :=
  let credits : UInt16 :=
    if config.splitCredits ≤ u16Max then UInt16.ofNat config.splitCredits else UInt16.ofNat u16Max
  let split := config.splitMode && config.zeroCopy && decide (0 < credits.toNat)
  (((Handshake.new (UInt32.ofNat config.maxMessageSize) (UInt16.ofNat config.recvPoolSize)).withZeroCopy
    config.zeroCopy).withSplitMode split).withSplitCredits (if split then credits else 0)

/-- The sizes of a configuration, if a stream can be built with them. -/
def Geometry.ofConfig (config : HordConfig) : Except Fail Geometry :=
  if hm : envelopeLen < config.maxMessageSize then
    if hr : recvBaseCount config * config.maxMessageSize ≤ allocMax then
      if hs : (config.sendPoolSize + ctrlSendSlots) * config.maxMessageSize ≤ allocMax then
        .ok
          { msgSize := config.maxMessageSize
            recvPool := config.recvPoolSize
            splitBase := recvBaseCount config
            splitHeadroom := splitSlack config
            sendPool := config.sendPoolSize
            ctrlSlot := config.sendPoolSize
            envelope_lt := hm
            splitBase_eq := rfl
            ctrlSlot_eq := rfl
            recv_fits := hr
            send_fits := hs }
      else .error (.panic "memory allocation failed")
    else .error (.panic "memory allocation failed")
  else .error (.panic "max_message_size too small")

/-- The stream `new_common` fills in, before anything is posted. -/
def HordStream.blank (conn : Connection) (geo : Geometry) (config : HordConfig) : HordStream where
  conn := conn
  geo := geo
  recv := []
  splitRecv := none
  send := []
  handshake := []
  payloadCap := 0
  sendFree := List.range geo.sendPool
  sendCredits := 0
  grantPending := 0
  ctrlSendBusy := false
  txStage := []
  rxReady := []
  peerClosed := false
  cmWatch := false
  zeroCopy := config.zeroCopy
  writesOutstanding := 0
  splitMode := config.splitMode
  completedTransfers := []
  peerSplitCredits := 0
  immOutstanding := 0
  hsGotSend := false
  hsGotRecv := false
  hsRecvLen := 0

/-- Post the receive for the peer's handshake, ahead of the data pool. -/
def postHandshakeRecv : M Unit :=
  dev (Connection.postRecv ⟨hsRecvWrId, .handshake, 0, handshakeLen⟩)

def postRecvRange : List Nat → M Unit
  | [] => return ()
  | slot :: rest => do
    postRecvSlot slot
    postRecvRange rest

def postAllRecvs : M Unit := do
  let s ← get
  postRecvRange (List.range s.geo.splitBase)

/-- Register the three eager regions and pre-post every receive. -/
def setUp : M Unit := do
  let s ← get
  let recv ← dev (Connection.registerBuffer (s.geo.splitBase * s.geo.msgSize))
  let send ← dev (Connection.registerBuffer ((s.geo.sendPool + ctrlSendSlots) * s.geo.msgSize))
  let handshake ← dev (Connection.registerBuffer (2 * handshakeLen))
  modify fun s => { s with recv := recv, send := send, handshake := handshake }
  postHandshakeRecv
  postAllRecvs

def newCommon (conn : Connection) (config : HordConfig) : Except Fail HordStream :=
  match Geometry.ofConfig config with
  | .error e => .error e
  | .ok geo =>
    match setUp (HordStream.blank conn geo config) with
    | .ok _ s => .ok s
    | .error e _ => .error e

/-- Post our handshake out of the send half of the handshake region. -/
def beginHandshakeSend (config : HordConfig) : M Unit := do
  let s ← get
  let b ← copyIn s.handshake handshakeLen (myHandshake config).encode
  modify fun s => { s with handshake := b }
  dev (Connection.postSend (.send hsSendWrId .handshake handshakeLen handshakeLen))

def hexLower (n : Nat) : String := "0x" ++ String.ofList (Nat.toDigits 16 n)

/-- Drain the queue until both handshake completions are in (`true`) or it is
    empty (`false`). Every round but the last takes one completion. -/
def handshakeLoop : Nat → M Bool
  | 0 => return false
  | fuel + 1 => do
    let s ← get
    if s.hsGotRecv && s.hsGotSend then return true
    else
      match ← dev Connection.poll with
      | none => return false
      | some wc =>
        if !wc.isSuccess then
          ioErr .other ("handshake completion failed (wr_id " ++ hexLower wc.wrId ++ ", status " ++
            toString wc.status ++ ")")
        else if wc.wrId = hsRecvWrId then
          modify fun s => { s with hsGotRecv := true, hsRecvLen := wc.byteLen }
          handshakeLoop fuel
        else if wc.wrId = hsSendWrId then
          modify fun s => { s with hsGotSend := true }
          handshakeLoop fuel
        else
          ioErr .other ("unexpected completion during handshake (wr_id " ++ hexLower wc.wrId ++ ")")

/-- One non-blocking step of the exchange: the peer's handshake once both
    completions are in, decoded from exactly the bytes received. -/
def pollHandshake : M (Option Handshake) := do
  let s ← get
  if ← handshakeLoop (s.conn.cq.length + 1) then
    let s ← get
    let buf ← copyOut s.handshake 0 handshakeLen
    match Handshake.decode (buf.take (min s.hsRecvLen handshakeLen)) with
    | .ok peer => return some peer
    | .error e => throw (.io e)
  else return none

/-- Register the split-mode headroom and post its receives. -/
def postSplitRecvs : M Unit := do
  let s ← get
  let buf ← dev (Connection.registerBuffer (s.geo.splitHeadroom * s.geo.msgSize))
  modify fun s => { s with splitRecv := some buf }
  postRecvRange (List.range' s.geo.splitBase s.geo.splitHeadroom)

/-- Fix the effective message size and windows, resolve the negotiation and post
    the split headroom if split mode negotiated. -/
def applyPeer (peer : Handshake) : M Unit := do
  let s ← get
  let effective := min s.geo.msgSize peer.maxMessageSize.toNat
  if effective ≤ envelopeLen then
    ioErr .invalidData s!"negotiated message size {effective} too small"
  else
    let zeroCopy := s.zeroCopy && peer.zeroCopyCapable
    let splitMode := negotiateSplit s.splitMode zeroCopy peer
    modify fun s => { s with payloadCap := effective - envelopeLen,
                             sendCredits := peer.maxRecvBuffers.toNat,
                             zeroCopy := zeroCopy,
                             splitMode := splitMode,
                             peerSplitCredits := peer.splitCredits.toNat }
    if splitMode && decide (0 < s.geo.splitHeadroom) then postSplitRecvs
    match ← attempt (dev Connection.deviceCall) with
    | .ok () => modify fun s => { s with cmWatch := true }
    | .error _ => modify fun s => { s with cmWatch := false }

end Hord
