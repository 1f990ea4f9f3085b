import Mathlib.Data.Nat.Bitwise
import Hord.Device

/- Stream configuration, queue sizing and the `wr_id` encoding
   (`hord-stream/src/stream.rs`, top of the file). Sizes are `usize`, so `Nat`;
   the casts to the narrower wire fields are written where the code has them. Their sums
   and products are exact, as in a build with overflow checks, where one that leaves
   `usize` panics; the README's release build wraps instead, so of such a configuration
   the model describes the checked build only. -/
namespace Hord

/-- Stream-layer configuration. The connection-manager retry parameters are left
    to the device. -/
structure HordConfig where
  maxMessageSize : Nat
  recvPoolSize : Nat
  sendPoolSize : Nat
  zeroCopy : Bool
  splitMode : Bool
  splitCredits : Nat
  deriving DecidableEq, Repr

/-- Receive buffers beyond the data pool, kept posted for control messages. -/
def ctrlRecvSlack : Nat := 2
/-- Send buffers reserved for the control lane. -/
def ctrlSendSlots : Nat := 1
def hsSendSlots : Nat := 1
def hsRecvSlots : Nat := 1

/-- Receive headroom for split-mode transfers. -/
def splitSlack (config : HordConfig) : Nat :=
  if config.splitMode then config.splitCredits else 0

/-- Receive requests posted before the handshake. -/
def recvBaseCount (config : HordConfig) : Nat := config.recvPoolSize + ctrlRecvSlack

/-- Receive requests the queue must be sized to hold. -/
def recvWrCount (config : HordConfig) : Nat := recvBaseCount config + splitSlack config

/-- Send and receive queue depths. -/
def qpSizing (config : HordConfig) : Nat × Nat :=
  (config.sendPoolSize + ctrlSendSlots + hsSendSlots, recvWrCount config + hsRecvSlots)

/-! The `wr_id` encoding: the top four bits mark sends, control sends, one-sided
    writes and immediate-bearing writes; the low bits are the slot or chunk index. -/

def sendFlag : Nat := 2 ^ 63
def ctrlFlag : Nat := 2 ^ 62
def writeFlag : Nat := 2 ^ 61
def immFlag : Nat := 2 ^ 60
def u64Max : Nat := 2 ^ 64 - 1

def recvWrId (slot : Nat) : Nat := slot
def sendWrId (slot : Nat) : Nat := sendFlag ||| slot
def ctrlSendWrId (slot : Nat) : Nat := sendFlag ||| ctrlFlag ||| slot
def writeWrId (chunk : Nat) : Nat := writeFlag ||| chunk
def immWriteWrId (chunk : Nat) : Nat := writeFlag ||| immFlag ||| chunk

def isSend (wrId : Nat) : Bool := wrId &&& sendFlag != 0
def isCtrlSend (wrId : Nat) : Bool := wrId &&& ctrlFlag != 0
def isWrite (wrId : Nat) : Bool := wrId &&& writeFlag != 0
def isImmWrite (wrId : Nat) : Bool := wrId &&& immFlag != 0

def slotOf (wrId : Nat) : Nat :=
  wrId &&& (u64Max ^^^ (sendFlag ||| ctrlFlag ||| writeFlag ||| immFlag))

/-- The two requests of the first-message exchange. -/
def hsRecvWrId : Nat := u64Max
def hsSendWrId : Nat := u64Max - 1

/-! The encoding is faithful for every slot below `2 ^ 60`. -/

/-- Slots and chunk indices fit below the four flag bits. -/
def slotLimit : Nat := 2 ^ 60

theorem and_flag (w i : Nat) : (w &&& 2 ^ i != 0) = w.testBit i := by
  rw [Nat.and_two_pow]
  cases w.testBit i <;> simp

theorem isSend_eq (w : Nat) : isSend w = w.testBit 63 :=
  and_flag w 63

theorem isCtrlSend_eq (w : Nat) : isCtrlSend w = w.testBit 62 :=
  and_flag w 62

theorem isWrite_eq (w : Nat) : isWrite w = w.testBit 61 :=
  and_flag w 61

theorem isImmWrite_eq (w : Nat) : isImmWrite w = w.testBit 60 :=
  and_flag w 60

theorem slotOf_eq (w : Nat) : slotOf w = w % slotLimit := by
  have hmask : u64Max ^^^ (sendFlag ||| ctrlFlag ||| writeFlag ||| immFlag) = 2 ^ 60 - 1 := by
    decide
  rw [slotOf, hmask, Nat.and_two_pow_sub_one_eq_mod, slotLimit]

theorem testBit_slot {slot : Nat} (h : slot < slotLimit) {i : Nat} (hi : 60 ≤ i) :
    slot.testBit i = false :=
  Nat.testBit_lt_two_pow (Nat.lt_of_lt_of_le h (Nat.pow_le_pow_right (by decide) hi))

section Encoding
variable {slot : Nat} (h : slot < slotLimit)
include h

theorem recvWrId_kind : isSend (recvWrId slot) = false ∧ isWrite (recvWrId slot) = false := by
  simp [isSend_eq, isWrite_eq, recvWrId, testBit_slot h]

theorem sendWrId_kind : isSend (sendWrId slot) = true ∧ isCtrlSend (sendWrId slot) = false ∧
    isWrite (sendWrId slot) = false := by
  simp [isSend_eq, isCtrlSend_eq, isWrite_eq, sendWrId, sendFlag, Nat.testBit_or,
    testBit_slot h]
  decide

theorem ctrlSendWrId_kind : isSend (ctrlSendWrId slot) = true ∧
    isCtrlSend (ctrlSendWrId slot) = true ∧ isWrite (ctrlSendWrId slot) = false := by
  simp [isSend_eq, isCtrlSend_eq, isWrite_eq, ctrlSendWrId, sendFlag, ctrlFlag, Nat.testBit_or,
    testBit_slot h]
  decide

theorem writeWrId_kind : isSend (writeWrId slot) = false ∧ isWrite (writeWrId slot) = true ∧
    isImmWrite (writeWrId slot) = false := by
  simp [isSend_eq, isWrite_eq, isImmWrite_eq, writeWrId, writeFlag, Nat.testBit_or,
    testBit_slot h]
  decide

theorem immWriteWrId_kind : isSend (immWriteWrId slot) = false ∧
    isWrite (immWriteWrId slot) = true ∧ isImmWrite (immWriteWrId slot) = true := by
  simp [isSend_eq, isWrite_eq, isImmWrite_eq, immWriteWrId, writeFlag, immFlag, Nat.testBit_or,
    testBit_slot h]
  decide

theorem slotOf_recvWrId : slotOf (recvWrId slot) = slot := by
  rw [slotOf_eq, recvWrId, Nat.mod_eq_of_lt h]

theorem slotOf_sendWrId : slotOf (sendWrId slot) = slot := by
  have hor : sendFlag ||| slot = sendFlag + slot :=
    (Nat.two_pow_add_eq_or_of_lt (i := 63) (Nat.lt_trans h (by decide)) 1).symm
  rw [slotOf_eq, sendWrId, hor, sendFlag]
  unfold slotLimit at *
  omega

end Encoding

/-- The handshake's requests look like neither data receives nor data sends. -/
theorem hsWrId_kind : isWrite hsRecvWrId = true ∧ isWrite hsSendWrId = true := by
  decide

end Hord
