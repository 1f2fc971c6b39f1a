import BlobTopFs.SpdkFs.LoadChain

/-!
# When loading the file system ends well

Two errors break the chain of callbacks off: one of `spdk_bs_init`, and one of
`spdk_bs_get_super` other than `-ENOENT`. No operation is under way then and `*done` is not set.
`load_simple_spdk_fs` notices neither these nor the errors that do set the flag, nor that its
polls have run out, and calls `load_root` on whatever file system there is, unless there is none or
`spdk_blob_stat` does not come back from what `malloc` left in place of a blobstore.
-/

namespace BlobTopFs

open Polling

variable {env : LoadEnv} {sched : Nat → Nat}

/-- The callback has either started one further operation or set the flag. -/
def GoesOn (ctx : BsLoadContext) (r : BsLoadContext × List LoadOp) : Prop :=
  (r.2.length = 1 ∧ r.1.done = ctx.done) ∨ (r.2 = [] ∧ r.1.done = true)

/-- Every callback of the chain goes on, so that a chain that is started ends with the flag set,
and `load_root` is reached only with a blobstore and a super blob that have been opened. -/
structure LoadsSafely (env : LoadEnv) (sched : Nat → Nat) : Prop where
  callbacks : ∀ n ctx op ops, Loading.after env n = .running ctx (op :: ops) →
    GoesOn ctx (op.complete env ctx)
  ends : env.bsDev = 0 → ∃ n, (Loading.after env n).isDone = true
  root : ∀ ctx, loadSimpleSpdkFs env sched = some ctx →
    ctx.bs.isSome = true ∧ ctx.superBlob.isSome = true

/-- How many events run before the polls have run out. -/
def eventsPolled (sched : Nat → Nat) : Nat := ∑ i ∈ Finset.range pollerMaxTime, sched i

/-- The blobstore is loaded or made, and its super blob found or known to be missing. Nothing else
fails either and all events run in time, or too few run for a blobstore and `spdk_blob_stat` stops
the process, for want of a file system or of a blobstore. -/
structure LoadEnv.Loads (env : LoadEnv) (sched : Nat → Nat) : Prop where
  bs : env.OpensBs
  super : env.KnowsSuper
  rest : eventsPolled sched = 0 ∨ (env.wildBs = false ∧ eventsPolled sched < env.bsEvents) ∨
    env.Succeeds ∧ 1 + LoadOp.load.left env ≤ eventsPolled sched

/-! ## The callbacks -/

/-- No callback breaks the chain off if neither of the two errors occurs. -/
theorem goesOn_of_opens (hbs : env.OpensBs) (hsuper : env.KnowsSuper) {n : Nat}
    {ctx : BsLoadContext} {op : LoadOp} {ops : List LoadOp}
    (h : Loading.after env n = .running ctx (op :: ops)) : GoesOn ctx (op.complete env ctx) := by
  have hat := Loading.after_at env n
  rw [h] at hat
  cases hat with
  | started dev done super reached now =>
      rcases LoadOp.complete_cases done reached with ⟨ctx', next, hnext⟩ | ⟨ctx', hlast⟩
      · rw [hnext.run]
        exact Or.inl ⟨rfl, hnext.done⟩
      · rw [hlast.run]
        exact Or.inr ⟨rfl, hlast.done.mpr ⟨hbs, hsuper⟩⟩

/-- A chain that is started is a context at every point but the first. -/
theorem Loading.At.running {n : Nat} {s : Loading} (h : s.At env n) (hdev : env.bsDev = 0)
    (hn : n ≠ 0) : ∃ ctx ops, s = .running ctx ops := by
  cases h with
  | queued now => exact absurd now hn
  | exited failed => exact absurd hdev failed
  | started dev done super reached now => exact ⟨_, _, rfl⟩
  | ended dev done bs super => exact ⟨_, _, rfl⟩

/-- The chain ends with the flag set exactly if neither of the two errors occurs. -/
theorem exists_done_iff (hdev : env.bsDev = 0) :
    (∃ n, (Loading.after env n).isDone = true) ↔ env.OpensBs ∧ env.KnowsSuper := by
  constructor
  · rintro ⟨n, hdone⟩
    have hat := Loading.after_at env n
    generalize Loading.after env n = s at hat hdone
    cases hat with
    | queued now => cases hdone
    | exited failed => cases hdone
    | started dev done super reached now => cases done.symm.trans hdone
    | ended dev done bs super => exact done.mp hdone
  · intro h
    -- by then no operation can be left
    refine ⟨1 + LoadOp.load.left env, ?_⟩
    have hat := Loading.after_at env (1 + LoadOp.load.left env)
    generalize Loading.after env (1 + LoadOp.load.left env) = s at hat
    cases hat with
    | queued now => omega
    | exited failed => exact absurd hdev failed
    | @started ctx op dev done super reached now =>
        have hpos := op.left_pos env
        omega
    | ended dev done bs super => exact done.mpr h

/-! ## The root directory -/

/-- The loading when the polls have ended: so many events have run, and there have been no more
polls only if the flag was set. -/
theorem exists_loaded (env : LoadEnv) (sched : Nat → Nat) :
    ∃ n ≤ eventsPolled sched, (n = eventsPolled sched ∨ (Loading.after env n).isDone = true) ∧
      loadSimpleSpdkFs env sched =
        match Loading.after env n with
        | .running ctx _ => if spdkBlobStat env ctx then some ctx else none
        | _ => none := by
  obtain ⟨n, hn, hrun, hend⟩ :=
    pollUntil_le (Loading.event env) Loading.isDone sched pollerMaxTime .queued
  rw [hrun] at hend
  refine ⟨n, hn, hend, ?_⟩
  rw [loadSimpleSpdkFs, hrun]
  rfl

/-- `load_root` is reached only with what it needs exactly if all events succeed in time, or
`spdk_blob_stat` stops the process before it. -/
theorem root_iff (hdev : env.bsDev = 0) (hopens : env.OpensBs) :
    (∀ ctx, loadSimpleSpdkFs env sched = some ctx →
        ctx.bs.isSome = true ∧ ctx.superBlob.isSome = true) ↔
      eventsPolled sched = 0 ∨ (env.wildBs = false ∧ eventsPolled sched < env.bsEvents) ∨
        env.Succeeds ∧ 1 + LoadOp.load.left env ≤ eventsPolled sched := by
  obtain ⟨n, hn, hend, hload⟩ := exists_loaded env sched
  have hat := Loading.after_at env n
  rw [hload]
  constructor
  · intro h
    by_cases h0 : eventsPolled sched = 0
    · exact Or.inl h0
    have hpos : n ≠ 0 := by
      rintro rfl
      rcases hend with h0' | hdone
      · exact h0 h0'.symm
      · cases hdone
    obtain ⟨ctx, ops, hs⟩ := hat.running hdev hpos
    rw [hs] at hat h hend
    -- a file system without a super blob does not get past `spdk_blob_stat`
    have hstopped : ctx.superBlob = none → ctx.bs.isSome = false ∧ env.wildBs = false := by
      intro hnone
      rw [← Bool.or_eq_false_iff]
      by_contra hstat
      have hset := (h ctx (if_pos (Bool.not_eq_false _ ▸ hstat))).2
      rw [hnone] at hset
      cases hset
    right
    cases hat with
    | started dev done super reached now =>
        obtain ⟨hbs, hwild⟩ := hstopped super
        have hfew : ¬ env.bsEvents ≤ n := fun hle => by
          rw [(reached.bs_iff now).mpr hle] at hbs
          cases hbs
        rcases hend with hall | hdone
        · exact Or.inl ⟨hwild, by omega⟩
        · cases done.symm.trans hdone
    | ended dev done bs super =>
        rcases super with ⟨hnone, -⟩ | ⟨-, -, hsucceeds, htime⟩
        · have hset := (bs hopens).1
          rw [(hstopped hnone).1] at hset
          cases hset
        · exact Or.inr ⟨hsucceeds, Nat.le_trans htime hn⟩
  · rintro (h0 | ⟨hwild, hfew⟩ | ⟨hsucceeds, htime⟩) ctx hctx
    · have hzero : n = 0 := Nat.eq_zero_of_le_zero (h0 ▸ hn)
      subst hzero
      cases hctx
    · generalize Loading.after env n = s at hat hctx
      cases hat with
      | queued now => cases hctx
      | exited failed => cases hctx
      | @started ctx' op dev done super reached now =>
          have hbs : ctx'.bs.isSome = false := by
            rw [← Bool.not_eq_true, reached.bs_iff now]
            omega
          have hstat : spdkBlobStat env ctx' = false := by
            unfold spdkBlobStat
            rw [hbs, hwild]
            rfl
          simp [hstat] at hctx
      | ended dev done bs super =>
          have hle := (bs hopens).2
          omega
    · generalize Loading.after env n = s at hat hend hctx
      cases hat with
      | queued now => cases hctx
      | exited failed => cases hctx
      | @started ctx' op dev done super reached now =>
          exfalso
          have hleft := op.left_pos env
          rcases hend with hall | hdone
          · omega
          · cases done.symm.trans hdone
      | ended dev done bs super =>
          rcases super with ⟨-, hfails⟩ | ⟨hsome, hbs, -⟩
          · exact absurd hsucceeds hfails
          · dsimp only at hctx
            split at hctx
            · cases hctx
              exact ⟨hbs, hsome⟩
            · cases hctx

/-- **Loading.** Every callback goes on, the chain ends with the flag set and `load_root` is only
reached with a blobstore and a super blob exactly if there is no device to load from, or the
operations succeed in time. -/
theorem loadsSafely_iff (env : LoadEnv) (sched : Nat → Nat) :
    LoadsSafely env sched ↔ env.bsDev ≠ 0 ∨ env.Loads sched := by
  by_cases hdev : env.bsDev = 0
  · constructor
    · intro h
      obtain ⟨hbs, hsuper⟩ := (exists_done_iff hdev).mp (h.ends hdev)
      exact Or.inr ⟨hbs, hsuper, (root_iff hdev hbs).mp h.root⟩
    · intro h
      have hloads := h.resolve_left (not_not.mpr hdev)
      refine ⟨fun n ctx op ops hn => ?_, fun _ => ?_, ?_⟩
      · exact goesOn_of_opens hloads.bs hloads.super hn
      · exact (exists_done_iff hdev).mpr ⟨hloads.bs, hloads.super⟩
      · exact (root_iff hdev hloads.bs).mpr hloads.rest
  · refine iff_of_true ?_ (Or.inl hdev)
    -- the message ends the process
    have hexit : ∀ n, Loading.after env n = .queued ∨ Loading.after env n = .exited := by
      intro n
      have hat := Loading.after_at env n
      generalize Loading.after env n = s at hat
      cases hat with
      | queued now => exact Or.inl rfl
      | exited failed => exact Or.inr rfl
      | started dev done super reached now => exact absurd dev hdev
      | ended dev done bs super => exact absurd dev hdev
    refine ⟨fun n ctx op ops hn => ?_, fun h => absurd h hdev, fun ctx hctx => ?_⟩
    · rcases hexit n with hs | hs
      · cases hs.symm.trans hn
      · cases hs.symm.trans hn
    · obtain ⟨n, -, -, hload⟩ := exists_loaded env sched
      rw [hload] at hctx
      rcases hexit n with hs | hs
      · rw [hs] at hctx
        cases hctx
      · rw [hs] at hctx
        cases hctx

/-- A device with a super blob, from which everything is read. -/
def LoadEnv.ok : LoadEnv := ⟨0, 0, 0, 0, 0, 0, 0, 0x1000, 7, 0, 0, false⟩

/-- `EIO` -/
def errIo : Int := 5

/-- If the super blob cannot be found for an I/O error, no callback ever sets the flag, and if it
cannot be opened `load_root` is called without it. -/
theorem not_loadsSafely_eio :
    ¬ LoadsSafely { LoadEnv.ok with getSuper := -errIo } (fun _ => 1) ∧
      ¬ LoadsSafely { LoadEnv.ok with openBlob := -errIo } (fun _ => 1) := by
  constructor
  · intro h
    have hknows := ((exists_done_iff rfl).mp (h.ends rfl)).2
    exact absurd hknows (by unfold LoadEnv.KnowsSuper; decide)
  · intro h
    have hall : eventsPolled (fun _ => 1) = pollerMaxTime := by
      simp [eventsPolled]
    rcases (root_iff rfl (Or.inl rfl)).mp h.root with h0 | ⟨-, hfew⟩ | ⟨hsucceeds, -⟩
    · rw [hall] at h0
      cases h0
    · rw [hall] at hfew
      exact absurd hfew (by decide)
    · exact absurd hsucceeds.openBlob (by decide)

end BlobTopFs
