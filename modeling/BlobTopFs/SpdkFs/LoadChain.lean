import BlobTopFs.Lib.Polling
import BlobTopFs.Spdk.Blobstore

/-!
# `fs.c` and `load_simple_spdk_fs`: loading the file system

`init_spdk_filesystem` starts a chain of operations on a context that they share. Each of them
ends in a callback, which is given a status and may start the next operation or set `*done`.
`load_simple_spdk_fs` polls until the flag is set, or for `POLLER_MAX_TIME` rounds, and goes on
to the root directory in either case.
-/

namespace BlobTopFs

open Polling

/-- `struct spdk_blob_store *` -/
abbrev BsPtr := Nat

/-- `struct bs_load_context`, with what of `*fs` the callbacks set and with `*done`. The fields
`bs` and `super_blob` of a file system are as `malloc` left them until then, which is `none`. -/
structure BsLoadContext where
  bs : Option BsPtr
  superBlob : Option BlobId
  isLoading : Bool
  superBlobId : BlobId
  done : Bool

/-- The operations of the chain, of which `spdk_bs_load` and `spdk_bs_init` end in one callback
and all others in one of their own. -/
inductive LoadOp where
  | load
  | init
  | getSuper
  | createBlob
  | setSuper (id : BlobId)
  | openBlob (id : BlobId)

/-- What SPDK answers: the status of each operation, the one that makes the device included,
and what it hands out. `raw` is what `malloc` left in `super_blob_id`, and `wildBs` tells whether
what it left in `bs` can be followed without an end to the process. -/
structure LoadEnv where
  bsDev : Int
  load : Int
  init : Int
  getSuper : Int
  createBlob : Int
  setSuper : Int
  openBlob : Int
  bs : BsPtr
  superId : BlobId
  createdId : BlobId
  raw : BlobId
  wildBs : Bool

/-! ## The callbacks

A callback returns the context and the operations it starts. -/

/-- `spdk_bs_sb_open_complete` -/
def spdkBsSbOpenComplete (blb : BlobId) (bserrno : Int) (ctx : BsLoadContext) :
    BsLoadContext × List LoadOp :=
  if bserrno ≠ 0 then ({ ctx with done := true }, [])
  else ({ ctx with superBlob := some blb, done := true }, [])

/-- `spdk_bs_set_super_complete` -/
def spdkBsSetSuperComplete (bserrno : Int) (ctx : BsLoadContext) : BsLoadContext × List LoadOp :=
  if bserrno ≠ 0 then ({ ctx with done := true }, []) else (ctx, [.openBlob ctx.superBlobId])

/-- `spdk_bs_create_super_complete` -/
def spdkBsCreateSuperComplete (blobid : BlobId) (bserrno : Int) (ctx : BsLoadContext) :
    BsLoadContext × List LoadOp :=
  if bserrno ≠ 0 then ({ ctx with done := true }, [])
  else ({ ctx with superBlobId := blobid }, [.setSuper blobid])

/-- `spdk_bs_get_super_complete` -/
def spdkBsGetSuperComplete (blobid : BlobId) (bserrno : Int) (ctx : BsLoadContext) :
    BsLoadContext × List LoadOp :=
  if bserrno ≠ 0 then
    -- any other error is logged, and that is all
    if bserrno = -ENOENT then (ctx, [.createBlob]) else (ctx, [])
  else (ctx, [.openBlob blobid])

/-- `spdk_init_super_block_cb` -/
def spdkInitSuperBlockCb (bs : BsPtr) (bserrno : Int) (ctx : BsLoadContext) :
    BsLoadContext × List LoadOp :=
  if bserrno ≠ 0 then
    if ctx.isLoading then ({ ctx with isLoading := false }, [.init]) else (ctx, [])
  else ({ ctx with bs := some bs }, [.getSuper])

/-- The callback that an operation ends in. -/
def LoadOp.complete (env : LoadEnv) : LoadOp → BsLoadContext → BsLoadContext × List LoadOp
  | .load => spdkInitSuperBlockCb env.bs env.load
  | .init => spdkInitSuperBlockCb env.bs env.init
  | .getSuper => spdkBsGetSuperComplete env.superId env.getSuper
  | .createBlob => spdkBsCreateSuperComplete env.createdId env.createBlob
  | .setSuper _ => spdkBsSetSuperComplete env.setSuper
  | .openBlob id => spdkBsSbOpenComplete id env.openBlob

/-! ## The chain -/

/-- `init_spdk_filesystem`, which ends the process if there is no device. `*done` is cleared by
the caller. -/
def initSpdkFilesystem (env : LoadEnv) : Option (BsLoadContext × List LoadOp) :=
  if env.bsDev ≠ 0 then none else some (⟨none, none, true, env.raw, false⟩, [.load])

/-- The file system is being loaded: the message with `init_spdk_filesystem` has not run yet, it
has ended the process, or the operations are under way. -/
inductive Loading where
  | queued
  | exited
  | running (ctx : BsLoadContext) (ops : List LoadOp)

/-- The next event: the message runs, or the operation that was started first completes. -/
def Loading.event (env : LoadEnv) : Loading → Loading
  | .queued =>
      match initSpdkFilesystem env with
      | none => .exited
      | some r => .running r.1 r.2
  | .running ctx (op :: ops) => .running (op.complete env ctx).1 (ops ++ (op.complete env ctx).2)
  | .running ctx [] => .running ctx []
  | .exited => .exited

/-- `*done` -/
def Loading.isDone : Loading → Bool
  | .running ctx _ => ctx.done
  | _ => false

/-- `spdk_blob_stat`, which asks the blobstore for its sizes: does it come back? -/
def spdkBlobStat (env : LoadEnv) (ctx : BsLoadContext) : Bool := ctx.bs.isSome || env.wildBs

/-- `load_simple_spdk_fs`: the file system that `load_root` is called on. Without one,
`spdk_blob_stat` follows a NULL pointer, and with one it follows `bs`, whatever that is.
`super_blob` is not looked at, and neither is what `generic_poller` returns. -/
def loadSimpleSpdkFs (env : LoadEnv) (sched : Nat → Nat) : Option BsLoadContext :=
  match pollUntil (Loading.event env) Loading.isDone sched pollerMaxTime 0 .queued with
  | .running ctx _ => if spdkBlobStat env ctx then some ctx else none
  | _ => none

/-- The chain after `n` events. -/
def Loading.after (env : LoadEnv) (n : Nat) : Loading := (Loading.event env)^[n] .queued

/-! ## What a callback does -/

/-- The blobstore is loaded or made anew. -/
def LoadEnv.OpensBs (env : LoadEnv) : Prop := env.load = 0 ∨ env.init = 0

/-- There is a super blob, or SPDK says that there is none. -/
def LoadEnv.KnowsSuper (env : LoadEnv) : Prop := env.getSuper = 0 ∨ env.getSuper = -ENOENT

/-- The blobstore is there, and so is a super blob, which may have been made, and is opened. -/
structure LoadEnv.Succeeds (env : LoadEnv) : Prop where
  bs : env.OpensBs
  super : env.getSuper = 0 ∨ env.getSuper = -ENOENT ∧ env.createBlob = 0 ∧ env.setSuper = 0
  openBlob : env.openBlob = 0

/-- Without a super blob to begin with, one has been created and set. -/
theorem LoadEnv.Succeeds.created {env : LoadEnv} (h : env.Succeeds) (hno : env.getSuper = -ENOENT) :
    env.createBlob = 0 ∧ env.setSuper = 0 := by
  rcases h.super with h0 | ⟨-, hmade⟩
  · rw [hno] at h0
    cases h0
  · exact hmade

/-- How many events it takes until the blobstore is there, if one of the two that can bring it
succeeds: the message, the load, and after a failed load the init. -/
def LoadEnv.bsEvents (env : LoadEnv) : Nat := if env.load = 0 then 2 else 3

/-- What has gone before when an operation is under way. -/
def LoadOp.Reached (env : LoadEnv) (ctx : BsLoadContext) : LoadOp → Prop
  | .load => ctx.isLoading = true ∧ ctx.bs = none
  | .init => ctx.isLoading = false ∧ env.load ≠ 0 ∧ ctx.bs = none
  | .getSuper => env.OpensBs ∧ ctx.bs.isSome = true
  | .createBlob => env.OpensBs ∧ ctx.bs.isSome = true ∧ env.getSuper = -ENOENT
  | .setSuper _ =>
      env.OpensBs ∧ ctx.bs.isSome = true ∧ env.getSuper = -ENOENT ∧ env.createBlob = 0
  | .openBlob _ => env.OpensBs ∧ ctx.bs.isSome = true ∧ env.KnowsSuper ∧
      (env.getSuper = -ENOENT → env.createBlob = 0 ∧ env.setSuper = 0)

/-- How many operations are left when one is under way, that one included, if none fails but the
load and the search for the super blob. -/
def LoadOp.left (env : LoadEnv) : LoadOp → Nat
  | .openBlob _ => 1
  | .setSuper _ => 2
  | .createBlob => 3
  | .getSuper => if env.getSuper = 0 then 2 else 4
  | .init => (if env.getSuper = 0 then 2 else 4) + 1
  | .load => (if env.getSuper = 0 then 2 else 4) + (if env.load = 0 then 1 else 2)

variable {env : LoadEnv}

/-- How many events a chain without a failure takes: those for the blobstore, and those for the
super blob. -/
theorem LoadEnv.all_events (env : LoadEnv) :
    1 + LoadOp.load.left env = (if env.getSuper = 0 then 2 else 4) + env.bsEvents := by
  simp only [LoadOp.left, bsEvents]
  split
  · split <;> rfl
  · split <;> rfl

/-- The blobstore is there when the events have run that it takes, and not before. -/
theorem LoadOp.Reached.bs_iff {ctx : BsLoadContext} {op : LoadOp} {n : Nat}
    (h : op.Reached env ctx) (hnow : n + op.left env = 1 + LoadOp.load.left env) :
    ctx.bs.isSome = true ↔ env.bsEvents ≤ n := by
  have hsuper : 2 ≤ if env.getSuper = 0 then 2 else 4 := by split <;> decide
  have hbs : 2 ≤ env.bsEvents := by
    unfold LoadEnv.bsEvents
    split <;> decide
  have hall := env.all_events
  cases op with
  | load =>
      rw [h.2]
      exact iff_of_false nofun (by omega)
  | init =>
      rw [LoadOp.left] at hnow
      rw [h.2.2]
      exact iff_of_false nofun (by omega)
  | getSuper =>
      rw [LoadOp.left] at hnow
      exact iff_of_true h.2 (by omega)
  | createBlob =>
      have hno : ¬ env.getSuper = 0 := by
        rw [h.2.2]
        decide
      rw [LoadOp.left] at hnow
      rw [if_neg hno] at hall
      exact iff_of_true h.2.1 (by omega)
  | setSuper id => exact iff_of_true h.2.1 (by rw [LoadOp.left] at hnow; omega)
  | openBlob id => exact iff_of_true h.2.1 (by rw [LoadOp.left] at hnow; omega)

theorem LoadOp.left_pos (env : LoadEnv) (op : LoadOp) : 0 < op.left env := by
  cases op <;> grind [left]

/-- The callback has started one operation, which is reached. -/
structure LoadOp.Next (env : LoadEnv) (op : LoadOp) (ctx ctx' : BsLoadContext) (next : LoadOp) :
    Prop where
  run : op.complete env ctx = (ctx', [next])
  done : ctx'.done = ctx.done
  super : ctx'.superBlob = ctx.superBlob
  reached : next.Reached env ctx'
  left : op.left env = next.left env + 1

/-- The callback has started none. The flag is set unless it is the blobstore or the search for
the super blob that has failed, and the super blob is set if nothing has. -/
structure LoadOp.Last (env : LoadEnv) (op : LoadOp) (ctx ctx' : BsLoadContext) : Prop where
  run : op.complete env ctx = (ctx', [])
  done : ctx'.done = true ↔ env.OpensBs ∧ env.KnowsSuper
  bs : env.OpensBs → ctx.bs.isSome = true ∧ ctx'.bs.isSome = true
  super : (ctx'.superBlob = ctx.superBlob ∧ ¬ env.Succeeds) ∨
    (ctx'.superBlob.isSome = true ∧ ctx'.bs.isSome = true ∧ env.Succeeds ∧ op.left env = 1)

/-- A callback that is run starts one operation or none. -/
theorem LoadOp.complete_cases {ctx : BsLoadContext} {op : LoadOp} (hdone : ctx.done = false)
    (h : op.Reached env ctx) :
    (∃ ctx' next, op.Next env ctx ctx' next) ∨ ∃ ctx', op.Last env ctx ctx' := by
  cases op with
  | load =>
      by_cases he : env.load = 0
      · have hrun : spdkInitSuperBlockCb env.bs env.load ctx =
            ({ ctx with bs := some env.bs }, [.getSuper]) := if_neg (not_not.mpr he)
        exact Or.inl ⟨_, _, hrun, rfl, rfl, ⟨Or.inl he, rfl⟩, by simp [left, he]⟩
      · have hrun : spdkInitSuperBlockCb env.bs env.load ctx =
            ({ ctx with isLoading := false }, [.init]) := (if_pos he).trans (if_pos h.1)
        exact Or.inl ⟨_, _, hrun, rfl, rfl, ⟨rfl, he, h.2⟩, by simp [left, he]⟩
  | init =>
      by_cases he : env.init = 0
      · have hrun : spdkInitSuperBlockCb env.bs env.init ctx =
            ({ ctx with bs := some env.bs }, [.getSuper]) := if_neg (not_not.mpr he)
        exact Or.inl ⟨_, _, hrun, rfl, rfl, ⟨Or.inr he, rfl⟩, rfl⟩
      · have hrun : spdkInitSuperBlockCb env.bs env.init ctx = (ctx, []) :=
          (if_pos he).trans (if_neg (by simp [h.1]))
        have hfails : ¬ env.OpensBs := not_or.mpr ⟨h.2.1, he⟩
        refine Or.inr ⟨ctx, hrun, ?_, fun hbs => absurd hbs hfails,
          Or.inl ⟨rfl, fun hs => hfails hs.bs⟩⟩
        simp [hdone, hfails]
  | getSuper =>
      by_cases he : env.getSuper = 0
      · have hrun : spdkBsGetSuperComplete env.superId env.getSuper ctx =
            (ctx, [.openBlob env.superId]) := if_neg (not_not.mpr he)
        refine Or.inl ⟨_, _, hrun, rfl, rfl, ⟨h.1, h.2, Or.inl he, fun hno => ?_⟩, ?_⟩
        · rw [he] at hno
          cases hno
        · simp [left, he]
      · by_cases hno : env.getSuper = -ENOENT
        · have hrun : spdkBsGetSuperComplete env.superId env.getSuper ctx = (ctx, [.createBlob]) :=
            (if_pos he).trans (if_pos hno)
          exact Or.inl ⟨_, _, hrun, rfl, rfl, ⟨h.1, h.2, hno⟩, by simp [left, he]⟩
        · have hrun : spdkBsGetSuperComplete env.superId env.getSuper ctx = (ctx, []) :=
            (if_pos he).trans (if_neg hno)
          have hfails : ¬ env.KnowsSuper := not_or.mpr ⟨he, hno⟩
          refine Or.inr ⟨ctx, hrun, ?_, fun _ => ⟨h.2, h.2⟩, Or.inl ⟨rfl, fun hs => ?_⟩⟩
          · simp [hdone, hfails]
          · exact hfails (hs.super.imp_right fun hs => hs.1)
  | createBlob =>
      obtain ⟨hbs, hset, hno⟩ := h
      by_cases he : env.createBlob = 0
      · have hrun : spdkBsCreateSuperComplete env.createdId env.createBlob ctx =
            ({ ctx with superBlobId := env.createdId }, [.setSuper env.createdId]) :=
          if_neg (not_not.mpr he)
        exact Or.inl ⟨_, _, hrun, rfl, rfl, ⟨hbs, hset, hno, he⟩, rfl⟩
      · have hrun : spdkBsCreateSuperComplete env.createdId env.createBlob ctx =
            ({ ctx with done := true }, []) := if_pos he
        exact Or.inr ⟨_, hrun, iff_of_true rfl ⟨hbs, Or.inr hno⟩, fun _ => ⟨hset, hset⟩,
          Or.inl ⟨rfl, fun hs => he (hs.created hno).1⟩⟩
  | setSuper id =>
      obtain ⟨hbs, hset, hno, hcreate⟩ := h
      by_cases he : env.setSuper = 0
      · have hrun : spdkBsSetSuperComplete env.setSuper ctx = (ctx, [.openBlob ctx.superBlobId]) :=
          if_neg (not_not.mpr he)
        exact Or.inl ⟨_, _, hrun, rfl, rfl, ⟨hbs, hset, Or.inr hno, fun _ => ⟨hcreate, he⟩⟩, rfl⟩
      · have hrun : spdkBsSetSuperComplete env.setSuper ctx = ({ ctx with done := true }, []) :=
          if_pos he
        exact Or.inr ⟨_, hrun, iff_of_true rfl ⟨hbs, Or.inr hno⟩, fun _ => ⟨hset, hset⟩,
          Or.inl ⟨rfl, fun hs => he (hs.created hno).2⟩⟩
  | openBlob id =>
      obtain ⟨hbs, hset, hknows, hmade⟩ := h
      by_cases he : env.openBlob = 0
      · have hrun : spdkBsSbOpenComplete id env.openBlob ctx =
            ({ ctx with superBlob := some id, done := true }, []) := if_neg (not_not.mpr he)
        have hsuper : env.Succeeds := ⟨hbs, hknows.imp_right fun hno => ⟨hno, hmade hno⟩, he⟩
        exact Or.inr ⟨_, hrun, iff_of_true rfl ⟨hbs, hknows⟩, fun _ => ⟨hset, hset⟩,
          Or.inr ⟨rfl, hset, hsuper, rfl⟩⟩
      · have hrun : spdkBsSbOpenComplete id env.openBlob ctx = ({ ctx with done := true }, []) :=
          if_pos he
        exact Or.inr ⟨_, hrun, iff_of_true rfl ⟨hbs, hknows⟩, fun _ => ⟨hset, hset⟩,
          Or.inl ⟨rfl, fun hs => he hs.openBlob⟩⟩

/-! ## The chain after so many events -/

/-- At most one operation is under way after `n` events, and then it is known how many are left.
Behind the last one, the context is as its callback left it. -/
inductive Loading.At (env : LoadEnv) (n : Nat) : Loading → Prop
  | queued (now : n = 0) : At env n .queued
  | exited (failed : env.bsDev ≠ 0) : At env n .exited
  | started {ctx : BsLoadContext} {op : LoadOp} (dev : env.bsDev = 0) (done : ctx.done = false)
      (super : ctx.superBlob = none) (reached : op.Reached env ctx)
      (now : n + op.left env = 1 + LoadOp.load.left env) : At env n (.running ctx [op])
  | ended {ctx : BsLoadContext} (dev : env.bsDev = 0)
      (done : ctx.done = true ↔ env.OpensBs ∧ env.KnowsSuper)
      (bs : env.OpensBs → ctx.bs.isSome = true ∧ env.bsEvents ≤ n)
      (super : (ctx.superBlob = none ∧ ¬ env.Succeeds) ∨ (ctx.superBlob.isSome = true ∧
        ctx.bs.isSome = true ∧ env.Succeeds ∧ 1 + LoadOp.load.left env ≤ n)) :
      At env n (.running ctx [])

theorem Loading.At.event {n : Nat} {s : Loading} (h : s.At env n) :
    (s.event env).At env (n + 1) := by
  cases h with
  | queued now =>
      unfold Loading.event initSpdkFilesystem
      by_cases he : env.bsDev = 0
      · rw [if_neg (not_not.mpr he), now]
        exact .started he rfl rfl ⟨rfl, rfl⟩ rfl
      · rw [if_pos he]
        exact .exited he
  | exited failed => exact .exited failed
  | @started ctx op dev done super reached now =>
      show (Loading.running (op.complete env ctx).1 (op.complete env ctx).2).At env (n + 1)
      rcases LoadOp.complete_cases done reached with ⟨ctx', next, hnext⟩ | ⟨ctx', hlast⟩
      · rw [hnext.run]
        refine .started dev (hnext.done.trans done) (hnext.super.trans super) hnext.reached ?_
        have hleft := hnext.left
        omega
      · rw [hlast.run]
        refine .ended dev hlast.done (fun hbs => ?_)
          (hlast.super.imp (fun h => ⟨h.1.trans super, h.2⟩) fun h => ?_)
        · obtain ⟨hset, hset'⟩ := hlast.bs hbs
          exact ⟨hset', Nat.le_succ_of_le ((reached.bs_iff now).mp hset)⟩
        · obtain ⟨hsome, hbs, hsucceeds, hleft⟩ := h
          exact ⟨hsome, hbs, hsucceeds, by omega⟩
  | ended dev done bs super =>
      refine .ended dev done (fun hbs => ?_) (super.imp_right fun h => ?_)
      · exact ⟨(bs hbs).1, Nat.le_succ_of_le (bs hbs).2⟩
      · exact ⟨h.1, h.2.1, h.2.2.1, Nat.le_succ_of_le h.2.2.2⟩

/-- So it is throughout the chain. -/
theorem Loading.after_at (env : LoadEnv) (n : Nat) : (Loading.after env n).At env n := by
  induction n with
  | zero => exact .queued rfl
  | succ n ih =>
      have hsucc : Loading.after env (n + 1) = (Loading.after env n).event env :=
        Function.iterate_succ_apply' ..
      rw [hsucc]
      exact ih.event

end BlobTopFs
