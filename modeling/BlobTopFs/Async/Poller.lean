import BlobTopFs.Lib.Polling
import BlobTopFs.SimpleFs.BlobOp

/-!
# `thread_poller.c` and the callbacks: waiting for a request

A wrapper of `blob_op.c` puts a context on its stack, sends a message to the SPDK thread and
polls that thread until the flag `done` of the context is set, or for `POLLER_MAX_TIME` rounds.
The message makes the first request; the callback of a request may make the next one, or set
the flag. When a callback runs is up to SPDK: a schedule says how many of the events that are
still to come run in each poll.

The wrappers have the names they have in `blob_op.c`; those in `SimpleFs/BlobOp` are the same
functions for a schedule that is never late.
-/

namespace BlobTopFs.Async

open Polling

/-! ## Callbacks -/

/-- What the callbacks of a wrapper write to: `*done`, `fs_errno` or `blob_errno`, and
`op_blob`. -/
structure CallCtx where
  done : Bool
  errno : Int
  opBlob : Option BlobId

/-- A callback is given the status of its request. The flag it leaves says that it has made
another one. -/
abbrev Callback := Int → CallCtx → CallCtx × Bool

/-- `open_blob_complete`: the blob is NULL if there was an error. -/
def openBlobComplete (id : BlobId) : Callback := fun e c =>
  ({ c with errno := e, opBlob := if e ≠ 0 then none else some id, done := true }, false)

/-- `close_blob_complete` -/
def closeBlobComplete : Callback := fun e c => ({ c with errno := e, done := true }, false)

/-- `io_blob_complete` -/
def ioBlobComplete : Callback := fun e c => ({ c with errno := e, done := true }, false)

/-- `spdk_blob_sync_complete` -/
def spdkBlobSyncComplete : Callback := fun e c => ({ c with errno := e, done := true }, false)

/-- `resize_blob_complete` -/
def resizeBlobComplete : Callback := fun e c =>
  if e ≠ 0 then ({ c with errno := e, done := true }, false) else ({ c with errno := e }, true)

/-- `open_blob_finished` -/
def openBlobFinished (id : BlobId) : Callback := fun e c =>
  if e ≠ 0 then ({ c with errno := e, done := true }, false)
  else ({ c with opBlob := some id, errno := e, done := true }, false)

/-- `create_blob_finished` -/
def createBlobFinished : Callback := fun e c =>
  if e ≠ 0 then ({ c with errno := e, done := true }, false) else (c, true)

/-- `delete_blob_finished` -/
def deleteBlobFinished : Callback := fun e c =>
  ({ c with errno := if e ≠ 0 then e else c.errno, done := true }, false)

/-- The message, which makes the first request. -/
def message : Callback := fun _ c => (c, true)

/-! ## Polling -/

/-- A call under way: the context, the events to come with the statuses they will report, and
the status the last callback has reported, once it has run. -/
structure Pending where
  ctx : CallCtx
  chain : List (Int × Callback)
  reported : Option Int

/-- The next event. A callback that makes no further request is the last one. -/
def Pending.event (p : Pending) : Pending :=
  match p.chain with
  | [] => p
  | (e, callback) :: rest =>
      let r := callback e p.ctx
      if r.2 then { p with ctx := r.1, chain := rest } else ⟨r.1, [], some e⟩

/-- `spdk_thread_poll`, in which `n` events run if there are that many -/
def spdkThreadPoll (n : Nat) (p : Pending) : Pending := Pending.event^[n] p

/-- The loop of `generic_poller`, with `left` rounds to go: it ends when `*done` is set. -/
def pollLoop (sched : Nat → Nat) : (left count : Nat) → Pending → Pending
  | 0, _, p => p
  | left + 1, count, p =>
      let p := spdkThreadPoll (sched count) p
      if p.ctx.done then p else pollLoop sched left (count + 1) p

/-- `generic_poller`: the call when the loop has ended, and whether it ended in time -/
def genericPoller (sched : Nat → Nat) (ctx : CallCtx) (chain : List (Int × Callback)) :
    Pending × Bool :=
  let p := pollLoop sched pollerMaxTime 0 ⟨ctx, (0, message) :: chain, none⟩
  (p, p.ctx.done)

/-! ## The wrappers -/

/-- What a wrapper returns, and what its last callback has reported by then. -/
structure Returned where
  ret : Bool
  reported : Option Int
  deriving DecidableEq

/-- `if (!args.fs_errno) return true; else return false;` -/
def Pending.returned (p : Pending) : Returned := ⟨p.ctx.errno == 0, p.reported⟩

/-- `blob_create`, when its `done` and the caller's pointer start as they do; the assertion
stops the process if the pointer is NULL. -/
def blobCreate (sched : Nat → Nat) (done : Bool) (blob : Option BlobId) (id : BlobId)
    (createErrno openErrno : Int) : Option Returned :=
  let p := (genericPoller sched ⟨done, 0, blob⟩
    [(createErrno, createBlobFinished), (openErrno, openBlobFinished id)]).1
  if p.ctx.opBlob = none then none else some p.returned

/-- `blob_open` -/
def blobOpen (sched : Nat → Nat) (done : Bool) (blob : Option BlobId) (id : BlobId)
    (e : Int) : Option Returned :=
  some (genericPoller sched ⟨done, 0, blob⟩ [(e, openBlobComplete id)]).1.returned

/-- `blob_close` -/
def blobClose (sched : Nat → Nat) (done : Bool) (blob : BlobId) (e : Int) : Option Returned :=
  some (genericPoller sched ⟨done, 0, some blob⟩ [(e, closeBlobComplete)]).1.returned

/-- `blob_unlink` -/
def blobUnlink (sched : Nat → Nat) (done : Bool) (e : Int) : Option Returned :=
  some (genericPoller sched ⟨done, 0, none⟩ [(e, deleteBlobFinished)]).1.returned

/-- `generic_blob_io` -/
def genericBlobIo (sched : Nat → Nat) (blob : BlobId) (e : Int) : Option Returned :=
  some (genericPoller sched ⟨false, 0, some blob⟩ [(e, ioBlobComplete)]).1.returned

/-- `generic_blob_resize` -/
def genericBlobResize (sched : Nat → Nat) (blob : BlobId) (resizeErrno syncErrno : Int) :
    Option Returned :=
  some (genericPoller sched ⟨false, 0, some blob⟩
    [(resizeErrno, resizeBlobComplete), (syncErrno, spdkBlobSyncComplete)]).1.returned

/-- A call of one of the wrappers: what its uninitialised variables start as, and the statuses
its requests complete with. -/
inductive BlobCall where
  | create (done : Bool) (blob : Option BlobId) (id : BlobId) (createErrno openErrno : Int)
  | openBlob (done : Bool) (blob : Option BlobId) (id : BlobId) (e : Int)
  | close (done : Bool) (blob : BlobId) (e : Int)
  | unlink (done : Bool) (e : Int)
  | io (blob : BlobId) (e : Int)
  | resize (blob : BlobId) (resizeErrno syncErrno : Int)

def BlobCall.run (sched : Nat → Nat) : BlobCall → Option Returned
  | .create done blob id createErrno openErrno =>
      blobCreate sched done blob id createErrno openErrno
  | .openBlob done blob id e => blobOpen sched done blob id e
  | .close done blob e => blobClose sched done blob e
  | .unlink done e => blobUnlink sched done e
  | .io blob e => genericBlobIo sched blob e
  | .resize blob resizeErrno syncErrno => genericBlobResize sched blob resizeErrno syncErrno

/-! ## The loop -/

theorem pollLoop_eq_pollUntil (sched : Nat → Nat) (left count : Nat) (p : Pending) :
    pollLoop sched left count p =
      pollUntil Pending.event (fun p => p.ctx.done) sched left count p := by
  induction left generalizing count p with
  | zero => rfl
  | succ left ih =>
      rw [pollLoop, pollUntil]
      simp only [ih]
      rfl

/-- What the loop has run when it ends: everything up to the first poll that left the flag
set, or all polls there are. -/
theorem pollLoop_spec (sched : Nat → Nat) (left count : Nat) (p : Pending) :
    ∃ k ≤ left, pollLoop sched left count p =
        spdkThreadPoll (∑ i ∈ Finset.range k, sched (count + i)) p ∧
      (k = left ∨ (pollLoop sched left count p).ctx.done = true) := by
  rw [pollLoop_eq_pollUntil]
  exact pollUntil_spec Pending.event (fun p => p.ctx.done) sched left count p

/-- A flag that is set already ends it after one poll. -/
theorem pollLoop_done {sched : Nat → Nat} {left count : Nat} {p : Pending}
    (h : (spdkThreadPoll (sched count) p).ctx.done = true) :
    pollLoop sched (left + 1) count p = spdkThreadPoll (sched count) p := by
  simp only [pollLoop]
  rw [if_pos h]

/-- When no event is left, polling changes nothing. -/
theorem spdkThreadPoll_idle {p : Pending} (h : p.chain = []) (n : Nat) :
    spdkThreadPoll n p = p := by
  refine Function.iterate_fixed ?_ n
  unfold Pending.event
  rw [h]

theorem spdkThreadPoll_add (m n : Nat) (p : Pending) :
    spdkThreadPoll (m + n) p = spdkThreadPoll m (spdkThreadPoll n p) :=
  Function.iterate_add_apply ..

end BlobTopFs.Async
