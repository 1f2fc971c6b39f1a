import BlobTopFs.SimpleFs.File

/-!
# `monopoly_ops.c`: reading, writing and seeking

A request is cut down to whole io_units. If the caller's buffer is one the spdkfs memory
table knows (`registered`), it is handed to the file layer as it is; otherwise the request
goes through the shared bounce buffer in chunks of `bufSize` bytes, until one chunk moves
nothing.

The chunk counter is an `int`. Where it would overflow the code has no meaning, and the
loops have no result.
-/

namespace BlobTopFs

open Machine

variable {g : Geometry}

/-- A finished request: the file, the bounce buffer, the caller's buffer, and the value
returned. -/
structure MonopolyIo (g : Geometry) where
  view : OpenFile g
  bounce : Mem
  buf : Mem
  ret : Int

/-- `bytes_for_read` and `bytes_for_write` of chunk `i` -/
def chunkBytes (total i : Nat) : Nat := min bufSize (total - i * bufSize)

/-- The loop of `monopoly_read`, with `left` chunks to go from chunk `i` on. -/
def readChunks (io : Nat → IoAnswer) (total : Nat) :
    (left i : Nat) → OpenFile g → (bounce buf : Mem) → (realReadBytes : Nat) →
      Option (MonopolyIo g)
  | 0, _, v, bounce, buf, realReadBytes => some ⟨v, bounce, buf, s64 realReadBytes⟩
  | left + 1, i, v, bounce, buf, realReadBytes =>
      (simpleFsRead (io i) v (chunkBytes total i) bounce).bind fun t =>
        let readBytes := s32 t.ret
        if readBytes ≠ 0 then
          -- `memcpy` out of the bounce buffer, and then `i++`
          let buf := buf.write (i * bufSize) readBytes.toNat t.buffer
          if i + 1 < 2 ^ 31 then
            readChunks io total left (i + 1) t.view t.buffer buf
              (u64 (realReadBytes + readBytes))
          else none
        else some ⟨t.view, t.buffer, buf, s64 realReadBytes⟩

/-- `monopoly_read`, once the descriptor is resolved -/
def monopolyReadFile (io : Nat → IoAnswer) (v : OpenFile g) (bounce buf : Mem)
    (nbytes : Nat) (registered : Bool) : Option (MonopolyIo g) :=
  let realIoUnit := nbytes / g.ioUnit
  if realIoUnit = 0 then some ⟨v, bounce, buf, 0⟩
  else if !registered then
    readChunks io (realIoUnit * g.ioUnit) (upperDiv (realIoUnit * g.ioUnit) bufSize) 0
      v bounce buf 0
  else
    (simpleFsRead (io 0) v (realIoUnit * g.ioUnit) buf).map fun t =>
      -- `real_read_bytes` is a `size_t`, the value returned a `ssize_t`
      ⟨t.view, bounce, t.buffer, s64 (u64 t.ret)⟩

/-- The loop of `monopoly_write`. What the bounce buffer holds is copied back into the
caller's buffer after every chunk. -/
def writeChunks (io : Nat → WriteAnswer) (total : Nat) :
    (left i : Nat) → OpenFile g → (bounce buf : Mem) → (realWriteBytes : Nat) →
      Option (MonopolyIo g)
  | 0, _, v, bounce, buf, realWriteBytes => some ⟨v, bounce, buf, s64 realWriteBytes⟩
  | left + 1, i, v, bounce, buf, realWriteBytes =>
      let bytesForWrite := chunkBytes total i
      let bounce := bounce.write 0 bytesForWrite (buf.shift (i * bufSize))
      (simpleFsWrite (io i) v bytesForWrite bounce).bind fun t =>
        let writeBytes := s32 t.ret
        if writeBytes ≠ 0 then
          let buf := buf.write (i * bufSize) writeBytes.toNat t.buffer
          if i + 1 < 2 ^ 31 then
            writeChunks io total left (i + 1) t.view t.buffer buf
              (u64 (realWriteBytes + writeBytes))
          else none
        else some ⟨t.view, t.buffer, buf, s64 realWriteBytes⟩

/-- `monopoly_write`, once the descriptor is resolved -/
def monopolyWriteFile (io : Nat → WriteAnswer) (v : OpenFile g) (bounce buf : Mem)
    (nbytes : Nat) (registered : Bool) : Option (MonopolyIo g) :=
  let realIoUnit := nbytes / g.ioUnit
  if realIoUnit = 0 then some ⟨v, bounce, buf, 0⟩
  else if !registered then
    writeChunks io (realIoUnit * g.ioUnit) (upperDiv (realIoUnit * g.ioUnit) bufSize) 0
      v bounce buf 0
  else
    (simpleFsWrite (io 0) v (realIoUnit * g.ioUnit) buf).map fun t =>
      ⟨t.view, bounce, t.buffer, s64 (u64 t.ret)⟩

/-- The `whence` values of `lseek` -/
def SEEK_SET : Int := 0

def SEEK_CUR : Int := 1

/-- `__offset / io_unit * io_unit`: signed division, toward zero -/
def actualSeek (g : Geometry) (offset : Int) : Int := offset.tdiv g.ioUnit * g.ioUnit

/-- `monopoly_lseek`, once the descriptor is resolved: the file object and the value
returned -/
def monopolyLseekFile (g : Geometry) (file : SpdkfsFile) (offset whence : Int) :
    SpdkfsFile × Int :=
  let file := if whence = SEEK_SET then { file with fPos := actualSeek g offset } else file
  let file := if whence = SEEK_CUR then
    { file with fPos := s64 (file.fPos + actualSeek g offset) } else file
  (file, file.fPos)

end BlobTopFs
