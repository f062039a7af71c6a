import Infnoise.Core.Loop
import Infnoise.Core.Word

/-!
# USB transfers of the kernel driver

What `usb_bulk_msg` returns is given by the device: a bulk-out result is an error or the number
of bytes accepted, a bulk-in completion is an error or the bytes delivered. The functions that
move bytes without looking at them are stated for bytes of any type.
-/

namespace Kernel

open Core

/-- The error numbers the driver returns or tests. -/
inductive Errno where
  | epipe
  | etimedout
  | eproto
  | eilseq
  | eoverflow
  | eio
  | enodev
  | eshutdown
  | enoent
  | eagain
  | efault
  | erestartsys
  | other (code : ℕ)
  deriving DecidableEq, Repr

/-- `infnoise_is_recoverable_error`. -/
def infnoiseIsRecoverableError : Errno → Bool
  | .epipe | .etimedout | .eproto | .eilseq | .eoverflow | .eio => true
  | .enodev | .eshutdown | .enoent => false
  | _ => false

/-! ### Sizes -/

@[simp] def infnoiseBuflen : ℕ := 512
@[simp] def infnoiseBytesOut : ℕ := infnoiseBuflen / 8
@[simp] def ftdiPacketSize : ℕ := 64
@[simp] def ftdiStatusSize : ℕ := 2
@[simp] def ftdiDataPerPacket : ℕ := ftdiPacketSize - ftdiStatusSize
@[simp] def infnoiseUsbReadSize : ℕ :=
  (infnoiseBuflen + ftdiDataPerPacket - 1) / ftdiDataPerPacket * ftdiPacketSize

/-! ### Reading samples -/

variable {α : Type*}

/-- A bulk-in completion. -/
abbrev BulkIn (α : Type*) := Except Errno (List α)

/-- The loop that fills `usb_buf` from `total_read` on. A device that delivers nothing more lets
the read run into its timeout. -/
def readLoop : List (BulkIn α) → (ℕ → α) → ℕ → Except Errno ℕ × (ℕ → α)
  | [], usbBuf, totalRead =>
    if totalRead < infnoiseUsbReadSize then (.error .etimedout, usbBuf)
    else (.ok totalRead, usbBuf)
  | completion :: rest, usbBuf, totalRead =>
    if totalRead < infnoiseUsbReadSize then
      match completion with
      | .error e => (.error e, usbBuf)
      | .ok [] => (.error .etimedout, usbBuf)
      | .ok bytes =>
        readLoop rest (memcpyList usbBuf totalRead bytes) (totalRead + bytes.length)
    else (.ok totalRead, usbBuf)

/-- `infnoise_strip_ftdi_status`: the number of data bytes and the new `read_buf`. -/
def infnoiseStripFtdiStatus (usbBuf readBuf : ℕ → α) (usbBytes : ℕ) : ℕ × (ℕ → α) :=
  let packets := usbBytes / ftdiPacketSize
  let leftover := usbBytes % ftdiPacketSize
  let (dataBytes, readBuf) := forLoop packets (fun i (s : ℕ × (ℕ → α)) =>
    let (dataBytes, readBuf) := s
    let src := fun k => usbBuf (i * ftdiPacketSize + ftdiStatusSize + k)
    let copyLen := min ftdiDataPerPacket (infnoiseBuflen - dataBytes)
    if copyLen > 0 then (dataBytes + copyLen, memcpy readBuf dataBytes src copyLen)
    else (dataBytes, readBuf)) (0, readBuf)
  -- the partial packet at the end
  if leftover > ftdiStatusSize ∧ dataBytes < infnoiseBuflen then
    let copyLen := min (leftover - ftdiStatusSize) (infnoiseBuflen - dataBytes)
    let src := fun k => usbBuf (packets * ftdiPacketSize + ftdiStatusSize + k)
    (dataBytes + copyLen, memcpy readBuf dataBytes src copyLen)
  else (dataBytes, readBuf)

/-- The part of `infnoise_usb_transfer_once` before `infnoise_extract_bytes`: the error it stops
with, if any, and the two buffers. -/
def receiveSamples (write : Except Errno ℕ) (reads : List (BulkIn α)) (usbBuf readBuf : ℕ → α) :
    Option Errno × (ℕ → α) × (ℕ → α) :=
  match write with
  | .error e => (some e, usbBuf, readBuf)
  | .ok actual =>
    if actual ≠ infnoiseBuflen then (some .eio, usbBuf, readBuf)
    else
      match readLoop reads usbBuf 0 with
      | (.error e, usbBuf) => (some e, usbBuf, readBuf)
      | (.ok totalRead, usbBuf) =>
        let (dataBytes, readBuf) := infnoiseStripFtdiStatus usbBuf readBuf totalRead
        if dataBytes < infnoiseBuflen then (some .eio, usbBuf, readBuf)
        else (none, usbBuf, readBuf)

end Kernel
