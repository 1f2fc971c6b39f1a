import Mathlib.Data.List.TakeWhile
import BlobTopFs.SimpleFs.Dir

/-!
# `find_path`: walking down a path

A path is taken apart by `get_next_part`, which reads a string up to its terminator and writes
into an array of `SPDK_MAX_NAME_COUNT + 1` bytes; a read or a write outside of these has no
result here. `find_path` keeps a pointer to the directory it is in and opens the next one in
place, so that the directory objects are named by their addresses.
-/

namespace BlobTopFs

open Machine

variable {g : Geometry}

/-! ## `get_next_part` -/

/-- `'/'` -/
def slash : UInt8 := 47

/-- `*src`, for a pointer into the string -/
def CStr.read (s : CStr) (src : Nat) : Option UInt8 :=
  if src ≤ s.strlen then some (s.mem src) else none

/-- `part[dst] = c` -/
def storePart (part : Mem) (dst : Nat) (c : UInt8) : Option Mem :=
  if dst < spdkMaxNameCount + 1 then some (Function.update part dst c) else none

/-- The first loop: where `src` stops. -/
def skipSlashes (s : CStr) : (fuel src : Nat) → Option Nat
  | 0, _ => none
  | fuel + 1, src =>
      (s.read src).bind fun c => if c = slash then skipSlashes s fuel (src + 1) else some src

/-- The second loop: the part, and where `src` and `dst` stop unless the part is too long. -/
def copyPart (s : CStr) : (fuel src dst : Nat) → Mem → Option (Mem × Option (Nat × Nat))
  | 0, _, _, _ => none
  | fuel + 1, src, dst, part =>
      (s.read src).bind fun c =>
        if c ≠ slash ∧ c ≠ 0 then
          if dst < spdkMaxNameCount then
            (storePart part dst c).bind fun part => copyPart s fuel (src + 1) (dst + 1) part
          else some (part, none)
        else some (part, some (src, dst))

/-- What `get_next_part` returns, and what it leaves in `part` and `*srcp`. -/
structure NextPart where
  ret : Int
  part : Mem
  srcp : Nat

/-- `get_next_part`. No string keeps a loop going for more rounds than it has bytes, the
terminator included. -/
def getNextPart (part : Mem) (s : CStr) (srcp : Nat) : Option NextPart :=
  (skipSlashes s (s.strlen + 1) srcp).bind fun src =>
    (s.read src).bind fun c =>
      if c = 0 then some ⟨0, part, srcp⟩
      else
        (copyPart s (s.strlen + 1) src 0 part).bind fun
          | (part, none) => some ⟨-1, part, srcp⟩
          | (part, some (src, dst)) => (storePart part dst 0).map fun part => ⟨1, part, src⟩

/-- The string at the beginning of a buffer of `n` bytes. -/
def CStr.ofMem (m : Mem) (n : Nat) : CStr where
  chars := ((List.range n).map m).takeWhile (· ≠ 0)
  noNul := fun h => by simpa using List.mem_takeWhile_imp h

/-! ## `find_path` -/

/-- The address of a directory object. -/
abbrev DirPtr := Nat

/-- What `find_path` can reach: the blobstore and the directory objects. -/
structure PathState (g : Geometry) where
  bs : Blobstore g
  dirs : DirPtr → Option SpdkfsDir

/-- The answers to one round of the loop: to the close, to the open, and to the read of the
directory into a buffer that `spdk_malloc` returns. -/
structure PathAnswer where
  close : DirCloseAnswer
  openErrno : Int
  mem : Option Mem
  io : IoAnswer

/-- The body of the loop: the entry `fileName` of `*now` is looked up, and `*now` becomes the
directory with that id. There is no next state if the lookup finds nothing. -/
def findPathStep (ans : PathAnswer) (dir now : DirPtr) (fileName : CStr) (s : PathState g) :
    Option (Option (PathState g)) :=
  (s.dirs now).bind fun d =>
    let blobId := UInt64.ofNat (u64 (spdkfsDirLookup d fileName))
    if blobId = UInt64.ofNat (u64 (-1)) then some none
    else
      (if now ≠ dir then simpleDirClose ans.close s.bs d else some s.bs).bind fun bs =>
        let o := blobOpen ans.openErrno blobId bs
        o.2.bind fun h =>
          (simpleDirRead ans.mem ans.io o.1 { d with blob := h }).map fun r =>
            some { bs := r.1, dirs := Function.update s.dirs now (some r.2) }

/-- What the loop of `find_path` leaves: the state, `file_name`, and whether it got through. -/
structure PathEnd (g : Geometry) where
  state : PathState g
  fileName : Mem
  ok : Bool

/-- The loop of `find_path`, from round `k` on. -/
def findPathLoop (ans : Nat → PathAnswer) (dir now : DirPtr) (name : CStr) :
    (fuel k srcp : Nat) → Mem → PathState g → Option (PathEnd g)
  | 0, _, _, _, _ => none
  | fuel + 1, k, srcp, fileName, s =>
      (getNextPart fileName name srcp).bind fun p =>
        if p.ret = 0 then some ⟨s, p.part, true⟩
        else if name.strlen - p.srcp = 0 then some ⟨s, p.part, true⟩
        else if p.ret = -1 then some ⟨s, p.part, false⟩
        else
          (findPathStep (ans k) dir now (.ofMem p.part (spdkMaxNameCount + 1)) s).bind fun
            | none => some ⟨s, p.part, false⟩
            | some s => findPathLoop ans dir now name fuel (k + 1) p.srcp p.part s

/-- What `find_path` leaves: the state, `tail_name` if it was written to, and the return value. -/
structure FoundPath (g : Geometry) where
  state : PathState g
  tailName : Option CStr
  ret : Bool

/-- `find_path`. `raw` is what `file_name` holds at first. For the path `/` only the parameter
`file_dir` is assigned to, not what it points to. -/
def findPath (ans : Nat → PathAnswer) (raw : Mem) (dir root fileDir : DirPtr) (name : CStr)
    (s : PathState g) : Option (FoundPath g) :=
  if name.chars = [slash] then some ⟨s, some ⟨[46], by decide⟩, true⟩
  else
    let now := if name.chars.head? = some slash then root else dir
    (findPathLoop ans dir now name (name.strlen + 1) 0 0 raw s).bind fun e =>
      if e.ok then
        (e.state.dirs now).map fun d =>
          ⟨{ e.state with dirs := Function.update e.state.dirs fileDir (some d) },
            some (.ofMem e.fileName (spdkMaxNameCount + 1)), true⟩
      else some ⟨e.state, none, false⟩

end BlobTopFs
