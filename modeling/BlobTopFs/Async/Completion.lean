import BlobTopFs.Async.Poller
import Mathlib.Algebra.Order.BigOperators.Group.Finset

/-!
# What a wrapper's `true` is worth

A wrapper reports success when the error field of its context is 0, which is what the field
starts as. So it is right exactly when the last callback has run by the time the polling ends,
which it does after one poll where the flag happens to start as set, and after
`POLLER_MAX_TIME` polls at the latest. Where that callback has run, the wrapper is the function
that `SimpleFs/BlobOp` says it is.
-/

namespace BlobTopFs.Async

open Machine

variable {g : Geometry}

/-! ## The end of the polling -/

namespace BlobCall

/-- The call before the first poll. -/
def start : BlobCall → Pending
  | .create done blob id createErrno openErrno => ⟨⟨done, 0, blob⟩, [(0, message),
      (createErrno, createBlobFinished), (openErrno, openBlobFinished id)], none⟩
  | .openBlob done blob id e => ⟨⟨done, 0, blob⟩, [(0, message), (e, openBlobComplete id)], none⟩
  | .close done blob e => ⟨⟨done, 0, some blob⟩, [(0, message), (e, closeBlobComplete)], none⟩
  | .unlink done e => ⟨⟨done, 0, none⟩, [(0, message), (e, deleteBlobFinished)], none⟩
  | .io blob e => ⟨⟨false, 0, some blob⟩, [(0, message), (e, ioBlobComplete)], none⟩
  | .resize blob resizeErrno syncErrno => ⟨⟨false, 0, some blob⟩, [(0, message),
      (resizeErrno, resizeBlobComplete), (syncErrno, spdkBlobSyncComplete)], none⟩

/-- The status the last callback reports. -/
def status : BlobCall → Int
  | .create _ _ _ createErrno openErrno => chainErrno createErrno openErrno
  | .resize _ resizeErrno syncErrno => chainErrno resizeErrno syncErrno
  | .openBlob _ _ _ e | .close _ _ e | .unlink _ e | .io _ e => e

/-- How many events run up to the last callback, the message included. A first request that
fails is the last one. -/
def events : BlobCall → Nat
  | .create _ _ _ first _ | .resize _ first _ => if first ≠ 0 then 2 else 3
  | _ => 2

/-- How many polls there are at most. -/
def polls (c : BlobCall) : Nat := if c.start.ctx.done then 1 else pollerMaxTime

/-- The last callback runs in one of them. -/
def Completes (sched : Nat → Nat) (c : BlobCall) : Prop :=
  c.events ≤ ∑ i ∈ Finset.range c.polls, sched i

/-- It is a `blob_create` whose caller's pointer starts as NULL. -/
def NullBlob : BlobCall → Prop
  | .create _ blob .. => blob = none
  | _ => False

/-- The call when the polling has ended. -/
def last (sched : Nat → Nat) (c : BlobCall) : Pending := pollLoop sched pollerMaxTime 0 c.start

variable {sched : Nat → Nat} {c : BlobCall} {n : Nat}

/-- Before the last callback has run, the context is as it was. -/
theorem poll_early (h : n < c.events) :
    (spdkThreadPoll n c.start).ctx = c.start.ctx ∧ (spdkThreadPoll n c.start).reported = none := by
  have hn : n = 0 ∨ n = 1 ∨ n = 2 ∧ c.events = 3 := by
    have : c.events ≤ 3 := by
      cases c <;> simp only [events] <;> first | omega | (split <;> omega)
    omega
  rcases hn with rfl | rfl | ⟨rfl, hthree⟩
  · cases c <;> exact ⟨rfl, rfl⟩
  · cases c <;> exact ⟨rfl, rfl⟩
  · -- the first of two requests has succeeded
    cases c with
    | create done blob id createErrno openErrno =>
        by_cases he : createErrno = 0
        · subst he
          exact ⟨rfl, rfl⟩
        · simp [events, he] at hthree
    | resize blob resizeErrno syncErrno =>
        by_cases he : resizeErrno = 0
        · subst he
          exact ⟨rfl, rfl⟩
        · simp [events, he] at hthree
    | _ => cases hthree

/-- Once it has run, the context holds what it reported. -/
structure Ended (c : BlobCall) (p : Pending) : Prop where
  chain : p.chain = []
  done : p.ctx.done = true
  errno : p.ctx.errno = c.status
  reported : p.reported = some c.status

theorem poll_events (c : BlobCall) : c.Ended (spdkThreadPoll c.events c.start) := by
  cases c with
  | create done blob id createErrno openErrno =>
      by_cases he : createErrno = 0
      · subst he
        by_cases he' : openErrno = 0
        · subst he'
          exact ⟨rfl, rfl, rfl, rfl⟩
        · constructor <;> simp [events, status, chainErrno, spdkThreadPoll, Pending.event, start,
            message, createBlobFinished, openBlobFinished, he']
      · constructor <;> simp [events, status, chainErrno, spdkThreadPoll, Pending.event, start,
          message, createBlobFinished, he]
  | resize blob resizeErrno syncErrno =>
      by_cases he : resizeErrno = 0
      · subst he
        exact ⟨rfl, rfl, rfl, rfl⟩
      · constructor <;> simp [events, status, chainErrno, spdkThreadPoll, Pending.event, start,
          message, resizeBlobComplete, he]
  | unlink done e =>
      by_cases he : e = 0
      · subst he
        exact ⟨rfl, rfl, rfl, rfl⟩
      · constructor <;> simp [events, status, spdkThreadPoll, Pending.event, start, message,
          deleteBlobFinished, he]
  | openBlob done blob id e => exact ⟨rfl, rfl, rfl, rfl⟩
  | close done blob e => exact ⟨rfl, rfl, rfl, rfl⟩
  | io blob e => exact ⟨rfl, rfl, rfl, rfl⟩

theorem poll_late (h : c.events ≤ n) : c.Ended (spdkThreadPoll n c.start) := by
  obtain ⟨m, rfl⟩ := Nat.exists_eq_add_of_le' h
  rw [spdkThreadPoll_add, spdkThreadPoll_idle c.poll_events.chain]
  exact c.poll_events

/-- The polling ends behind the last callback if there is time for it, and otherwise with the
context the call began with. -/
theorem last_cases (sched : Nat → Nat) (c : BlobCall) :
    (c.Completes sched ∧ c.last sched = spdkThreadPoll c.events c.start) ∨
      (¬ c.Completes sched ∧ (c.last sched).ctx = c.start.ctx ∧
        (c.last sched).reported = none) := by
  obtain ⟨k, hk, hrun, hend⟩ : ∃ k ≤ c.polls,
      c.last sched = spdkThreadPoll (∑ i ∈ Finset.range k, sched i) c.start ∧
        (k = c.polls ∨ c.start.ctx.done = false ∧ (c.last sched).ctx.done = true) := by
    unfold polls last
    cases hflag : c.start.ctx.done with
    | true =>
        -- whatever runs in the first poll, the flag is set behind it
        have hset : (spdkThreadPoll (sched 0) c.start).ctx.done = true := by
          rcases Nat.lt_or_ge (sched 0) c.events with h | h
          · rw [(poll_early h).1, hflag]
          · exact (poll_late h).done
        refine ⟨1, Nat.le_refl _, ?_, Or.inl rfl⟩
        rw [Finset.sum_range_one]
        exact pollLoop_done hset
    | false =>
        obtain ⟨k, hk, hrun, hend⟩ := pollLoop_spec sched pollerMaxTime 0 c.start
        simp only [Nat.zero_add] at hrun
        exact ⟨k, hk, hrun, hend.imp id fun h => ⟨rfl, h⟩⟩
  rcases Nat.lt_or_ge (∑ i ∈ Finset.range k, sched i) c.events with hlt | hge
  · obtain ⟨hctx, hrep⟩ := poll_early hlt
    rw [← hrun] at hctx hrep
    refine Or.inr ⟨fun hc => ?_, hctx, hrep⟩
    rcases hend with rfl | ⟨hflag, hdone⟩
    · unfold Completes at hc
      omega
    · rw [hctx, hflag] at hdone
      cases hdone
  · have hsum := Finset.sum_le_sum_of_subset (f := sched) (Finset.range_subset_range.mpr hk)
    refine Or.inl ⟨Nat.le_trans hge hsum, ?_⟩
    obtain ⟨m, hm⟩ := Nat.exists_eq_add_of_le' hge
    rw [hrun, hm, spdkThreadPoll_add, spdkThreadPoll_idle c.poll_events.chain]

/-! ## What is returned -/

/-- What the wrapper makes of the context. -/
def result (p : Pending) : BlobCall → Option Returned
  | .create .. => if p.ctx.opBlob = none then none else some p.returned
  | _ => some p.returned

theorem run_eq (sched : Nat → Nat) (c : BlobCall) : c.run sched = c.result (c.last sched) := by
  cases c <;> rfl

theorem result_cases {p : Pending} (c : BlobCall) :
    c.result p = some p.returned ∨ c.result p = none ∧ p.ctx.opBlob = none := by
  cases c with
  | create done blob id createErrno openErrno =>
      by_cases h : p.ctx.opBlob = none
      · exact Or.inr ⟨if_pos h, h⟩
      · exact Or.inl (if_neg h)
  | _ => exact Or.inl rfl

/-- A call that ends in time returns what its last callback reported. -/
theorem run_of_completes (h : c.Completes sched) {r : Returned} (hr : c.run sched = some r) :
    r = ⟨c.status == 0, some c.status⟩ := by
  rcases last_cases sched c with ⟨-, hlast⟩ | ⟨hno, -⟩
  · rw [run_eq, hlast] at hr
    rcases c.result_cases (p := spdkThreadPoll c.events c.start) with hres | ⟨hres, -⟩
    · rw [hres] at hr
      cases hr
      rw [Pending.returned, c.poll_events.errno, c.poll_events.reported]
    · rw [hres] at hr
      cases hr
  · exact absurd h hno

/-- One that does not returns `true` before anything was reported, unless it stops at the
assertion of `blob_create`. -/
theorem run_of_late (h : ¬ c.Completes sched) :
    (¬ c.NullBlob ∧ c.run sched = some ⟨true, none⟩) ∨ (c.NullBlob ∧ c.run sched = none) := by
  rcases last_cases sched c with ⟨hc, -⟩ | ⟨-, hctx, hrep⟩
  · exact absurd hc h
  · have hret : (c.last sched).returned = ⟨true, none⟩ := by
      rw [Pending.returned, hctx, hrep]
      cases c <;> rfl
    rw [run_eq]
    cases c with
    | create done blob id createErrno openErrno =>
        cases blob with
        | none => exact Or.inr ⟨rfl, if_pos (congrArg CallCtx.opBlob hctx)⟩
        | some b =>
            refine Or.inl ⟨Option.some_ne_none b, ?_⟩
            have hblob : (last sched (.create done (some b) id createErrno openErrno)).ctx.opBlob ≠
                none := by
              rw [hctx]
              exact Option.some_ne_none b
            rw [result, if_neg hblob, hret]
    | _ => exact Or.inl ⟨id, congrArg some hret⟩

end BlobCall

/-! ## The wrappers in time

Where the last callback runs in one of the polls, each wrapper returns what the function of the
same name in `SimpleFs/BlobOp` does, which makes its requests and completes them in one go. -/

section Timely

variable {sched : Nat → Nat} {done : Bool} {id : BlobId} {bs : Blobstore g}

theorem BlobCall.ret_of_completes {c : BlobCall} (h : c.Completes sched)
    (hsome : (c.run sched).isSome) : (c.run sched).map Returned.ret = some (c.status == 0) := by
  obtain ⟨r, hr⟩ := Option.isSome_iff_exists.mp hsome
  rw [hr, c.run_of_completes h hr]
  rfl

theorem blobOpen_eq {blob : Option BlobId} {e : Int}
    (h : (BlobCall.openBlob done blob id (spdkBsOpenBlob e id bs).2).Completes sched) :
    (blobOpen sched done blob id (spdkBsOpenBlob e id bs).2).map Returned.ret =
      some (BlobTopFs.blobOpen e id bs).2.isSome := by
  refine (BlobCall.ret_of_completes h rfl).trans (congrArg some ?_)
  show ((spdkBsOpenBlob e id bs).2 == 0) = _
  unfold BlobTopFs.blobOpen
  by_cases he : (spdkBsOpenBlob e id bs).2 = 0
  · simp [he]
  · simp [he]

theorem blobClose_eq {e : Int}
    (h : (BlobCall.close done id (spdkBlobClose e id bs).2).Completes sched) :
    (blobClose sched done id (spdkBlobClose e id bs).2).map Returned.ret =
      some (BlobTopFs.blobClose e id bs).2 :=
  BlobCall.ret_of_completes h rfl

theorem blobUnlink_eq {e : Int}
    (h : (BlobCall.unlink done (spdkBsDeleteBlob e id bs).2).Completes sched) :
    (blobUnlink sched done (spdkBsDeleteBlob e id bs).2).map Returned.ret =
      some (BlobTopFs.blobUnlink e id bs).2 :=
  BlobCall.ret_of_completes h rfl

theorem genericBlobIo_eq {d : IoDone g} (h : (BlobCall.io id d.event.bserrno).Completes sched) :
    (genericBlobIo sched id d.event.bserrno).map Returned.ret = some d.ok :=
  BlobCall.ret_of_completes h rfl

theorem genericBlobResize_eq {ans : ResizeAnswer} {b : Blob g} {size : Nat} (h0 : size ≠ 0)
    (h : (BlobCall.resize id (spdkBlobResize ans.resizeErrno b (upperDiv size g.clusterSize)).2
      (spdkBlobSyncMd ans.syncErrno (spdkBlobResize ans.resizeErrno b
        (upperDiv size g.clusterSize)).1).2).Completes sched) :
    (genericBlobResize sched id (spdkBlobResize ans.resizeErrno b (upperDiv size g.clusterSize)).2
        (spdkBlobSyncMd ans.syncErrno (spdkBlobResize ans.resizeErrno b
          (upperDiv size g.clusterSize)).1).2).map Returned.ret =
      (BlobTopFs.genericBlobResize ans id b size).map ResizeDone.ok := by
  refine (BlobCall.ret_of_completes h rfl).trans ?_
  unfold BlobTopFs.genericBlobResize BlobCall.status chainErrno
  rw [if_neg h0]
  dsimp only
  split
  · next he => simp [he]
  · rfl

theorem blobCreate_eq {createErrno openErrno : Int} {content : Mem} {garbage : Option BlobId}
    (h : (BlobCall.create done garbage id (spdkBsCreateBlob createErrno id content bs).2
      (spdkBsOpenBlob openErrno id (spdkBsCreateBlob createErrno id content bs).1).2).Completes
        sched) :
    (blobCreate sched done garbage id (spdkBsCreateBlob createErrno id content bs).2
        (spdkBsOpenBlob openErrno id (spdkBsCreateBlob createErrno id content bs).1).2).map
          Returned.ret =
      (BlobTopFs.blobCreate createErrno openErrno id content garbage bs).map fun r => r.2.2 := by
  unfold BlobTopFs.blobCreate
  dsimp only
  generalize spdkBsCreateBlob createErrno id content bs = made at h ⊢
  generalize spdkBsOpenBlob openErrno id made.1 = opened at h ⊢
  rcases BlobCall.last_cases sched (.create done garbage id made.2 opened.2) with
    ⟨-, hlast⟩ | ⟨hno, -⟩
  · have hrun := BlobCall.run_eq sched (.create done garbage id made.2 opened.2)
    rw [hlast] at hrun
    refine (congrArg (Option.map Returned.ret) hrun).trans ?_
    by_cases hm : made.2 = 0
    · by_cases ho : opened.2 = 0
      · simp [hm, ho, BlobCall.result, BlobCall.events, BlobCall.start, spdkThreadPoll,
          Pending.event, message, createBlobFinished, openBlobFinished, Pending.returned]
      · cases garbage <;> simp [hm, ho, BlobCall.result, BlobCall.events, BlobCall.start,
          spdkThreadPoll, Pending.event, message, createBlobFinished, openBlobFinished,
          Pending.returned]
    · cases garbage <;> simp [hm, BlobCall.result, BlobCall.events, BlobCall.start,
        spdkThreadPoll, Pending.event, message, createBlobFinished, Pending.returned]
  · exact absurd h hno

end Timely

/-- **No success without completion.** Whatever the schedule, the statuses and the initial
values, a wrapper returns `true` only if its last callback has run and reported 0, exactly when
that callback runs in one of the polls there are, or the wrapper is a `blob_create` that stops
at its assertion. -/
theorem true_reported_iff (sched : Nat → Nat) (c : BlobCall) :
    (∀ r, c.run sched = some r → r.ret = true → r.reported = some 0) ↔
      c.Completes sched ∨ c.NullBlob := by
  constructor
  · intro h
    by_cases hc : c.Completes sched
    · exact Or.inl hc
    · rcases c.run_of_late hc with ⟨-, hrun⟩ | ⟨hnull, -⟩
      · cases h _ hrun rfl
      · exact Or.inr hnull
  · intro h r hr hret
    by_cases hc : c.Completes sched
    · rw [c.run_of_completes hc hr] at hret ⊢
      exact congrArg some (beq_iff_eq.mp hret)
    · rcases c.run_of_late hc with ⟨hnull, -⟩ | ⟨-, hrun⟩
      · exact absurd (h.resolve_left hc) hnull
      · rw [hrun] at hr
        cases hr

/-- Nothing has run yet, and the close will fail. -/
theorem blobClose_true_unreported : blobClose (fun _ => 0) true 1 (-5) = some ⟨true, none⟩ := by
  decide +kernel

end BlobTopFs.Async
