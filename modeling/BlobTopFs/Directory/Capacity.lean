import BlobTopFs.Lib.Run
import BlobTopFs.SimpleFs.Calls
import BlobTopFs.SimpleFs.Super

/-!
# The directory buffer and its entries

`add_dirent` makes room one io_unit at a time, and one call of it per entry is all the
growth test can be relied on for. So the entries stay inside the buffer if an entry is no
larger than an io_unit, and with the io_unit of `bdev.json`, 512 bytes against an entry of
520, the very first one does not fit.
-/

namespace BlobTopFs

open Run

variable {g : Geometry}

/-- `d_size` is a multiple of the io_unit, and the entries lie inside the buffer. -/
structure SpdkfsDir.Contained (g : Geometry) (d : SpdkfsDir) : Prop where
  dvd : g.ioUnit ∣ d.size
  fits : d.Fits

/-- If the call is one that appends an entry, the entry is written inside the buffer. -/
def FsCall.WritesInside (s : Fs g) : FsCall → Prop
  | .create ans name =>
      spdkfsDirLookup s.workdir name = -1 →
        ∀ id dir, addDirent g ans.mem id name s.workdir = some dir →
        direntOff s.workdir.count + sizeofDirent ≤ dir.size
  | _ => True

/-! ## Entries no larger than an io_unit -/

/-- Every call keeps an io_unit for each entry. -/
theorem FsCall.run_sized {findDir : FindDir} {s s' : Fs g} {call : FsCall} {ret : Int}
    (hs : s.workdir.Sized g) (h : call.run findDir s = some (s', ret)) : s'.workdir.Sized g := by
  rcases FsCall.run_workdir h with hw | ⟨ans, name, blob, -, -, hd⟩ | ⟨_, _, _, i, -, -, hd⟩
  · rw [hw]
    exact hs
  · obtain ⟨m, happ⟩ := addDirent_spec hd
    exact happ.sized hs
  · exact (removeDirent_spec hd).sized hs

theorem FsCall.writesInside_of_sized {s : Fs g} {call : FsCall} (hg : sizeofDirent ≤ g.ioUnit)
    (hs : s.workdir.Sized g) : call.WritesInside s := by
  cases call with
  | create ans name =>
      intro _ id dir hd
      obtain ⟨m, happ⟩ := addDirent_spec hd
      have hfits : dir.count * sizeofDirent ≤ dir.size := (happ.sized hs).fits hg
      rwa [happ.count, Nat.succ_mul] at hfits
  | _ => trivial

/-! ## Entries larger than an io_unit -/

/-- In an empty directory an unlink finds nothing to remove. -/
theorem FsCall.run_empty {findDir : FindDir} {s s' : Fs g} {call : FsCall} {ret : Int}
    (hc : s.workdir.count = 0) (hcall : call.isCreate = false)
    (h : call.run findDir s = some (s', ret)) : s'.workdir = s.workdir := by
  rcases FsCall.run_workdir h with hw | ⟨ans, name, blob, rfl, -⟩ | ⟨_, _, _, i, -, -, hd⟩
  · exact hw
  · cases hcall
  · have hcount := (removeDirent_spec hd).count
    omega

/-- The first entry of a directory gets one io_unit. -/
theorem FsCall.run_first {findDir : FindDir} {s s' : Fs g} {call : FsCall} {ret : Int}
    (hc : s.workdir.count = 0) (hz : s.workdir.size = 0) (hcall : call.isCreate = true)
    (h : call.run findDir s = some (s', ret)) :
    s'.workdir.count = 1 ∧ s'.workdir.size = g.ioUnit := by
  cases call with
  | create ans name =>
      rcases monopolyCreate_cases h with ⟨hfound, -⟩ | ⟨_, blob, _, _, dir, _, -, -, -, hd, -, rfl⟩
      · refine absurd (lookup_eq_neg_one_iff.mpr ?_) hfound
        intro i hi
        omega
      · obtain ⟨m, happ⟩ := addDirent_spec hd
        exact ⟨happ.count.trans (by omega), happ.first hc hz⟩
  | _ => cases hcall

/-- In a run from an empty directory that stays inside the buffer, an entry fits an io_unit
or there is no entry. -/
theorem no_create_of_contained {findDir : FindDir} {s t : Fs g} {calls : List FsCall}
    (hc : s.workdir.count = 0) (hz : s.workdir.size = 0)
    (hrun : exec (fsStep findDir) s calls = some t)
    (h : Always (fsStep findDir) (fun s => s.workdir.Contained g) s calls) :
    sizeofDirent ≤ g.ioUnit ∨ ∀ call ∈ calls, call.isCreate = false := by
  induction calls generalizing s with
  | nil => exact Or.inr (fun _ hmem => nomatch hmem)
  | cons call calls ih =>
      obtain ⟨u, hu, hrun⟩ := exec_cons_eq_some.mp hrun
      have hAlways := h.2 u hu
      obtain ⟨ret, hret⟩ := fsStep_eq_some.mp hu
      cases hcall : call.isCreate with
      | true =>
          -- one entry in one io_unit
          obtain ⟨hcount, hsize⟩ := FsCall.run_first hc hz hcall hret
          have hfits : u.workdir.count * sizeofDirent ≤ u.workdir.size := hAlways.head.fits
          rw [hcount, hsize, Nat.one_mul] at hfits
          exact Or.inl hfits
      | false =>
          have hw := FsCall.run_empty hc hcall hret
          refine (ih (hw ▸ hc) (hw ▸ hz) hrun hAlways).imp id fun hall => ?_
          simpa [hcall] using hall

/-- **Capacity.** In a run of calls from the directory `simple_dir_create` makes, every state
has its entries inside the buffer and every entry is written there, exactly if an entry is no
larger than an io_unit or the run creates nothing. -/
theorem dirBuffer_contained_iff {findDir : FindDir} {now : Int} {bs bs' : Blobstore g}
    {d : SpdkfsDir} {s t : Fs g} {calls : List FsCall}
    (hmade : simpleDirCreate now bs d = some (bs', s.workdir))
    (hrun : exec (fsStep findDir) s calls = some t) :
    Always (fsStep findDir) (fun s => s.workdir.Contained g) s calls ∧
        EachStep (fsStep findDir) (fun s call => call.WritesInside s) s calls ↔
      sizeofDirent ≤ g.ioUnit ∨ ∀ call ∈ calls, call.isCreate = false := by
  obtain ⟨hc, hz⟩ := simpleDirCreate_empty hmade
  constructor
  · rintro ⟨hAlways, -⟩
    exact no_create_of_contained hc hz hrun hAlways
  · rintro (hg | hnone)
    · have hsized : s.workdir.Sized g := ⟨0, by rw [hz, Nat.zero_mul], Nat.le_of_eq hc⟩
      -- as many io_units as entries, whatever the growth test compares
      have hkeep : ∀ (s : Fs g) call t, s.workdir.Sized g → True → fsStep findDir s call = some t →
          t.workdir.Sized g := by
        intro s call t hs _ h
        obtain ⟨ret, hret⟩ := fsStep_eq_some.mp h
        exact FsCall.run_sized hs hret
      have hany : EachStep (fsStep findDir) (fun _ _ => True) s calls :=
        eachStep_of_forall fun _ _ => trivial
      refine ⟨?_, ?_⟩
      · refine (always_of_step hkeep hsized hany).mono fun s hs => ?_
        exact ⟨hs.dvd, hs.fits hg⟩
      · exact eachStep_of_step hkeep (fun s call hs _ => FsCall.writesInside_of_sized hg hs)
          hsized hany
    · -- nothing is created, and the directory stays as it was made
      have hkeep : ∀ (s : Fs g) call t, s.workdir.count = 0 ∧ s.workdir.size = 0 →
          call.isCreate = false → fsStep findDir s call = some t →
          t.workdir.count = 0 ∧ t.workdir.size = 0 := by
        intro s call t hs hcall h
        obtain ⟨ret, hret⟩ := fsStep_eq_some.mp h
        rw [FsCall.run_empty hs.1 hcall hret]
        exact hs
      have hcalls : EachStep (fsStep findDir) (fun _ call => call.isCreate = false) s calls :=
        eachStep_of_forall hnone
      refine ⟨?_, ?_⟩
      · refine (always_of_step hkeep ⟨hc, hz⟩ hcalls).mono fun s hs => ⟨?_, ?_⟩
        · rw [hs.2]
          exact Nat.dvd_zero _
        · rw [SpdkfsDir.Fits, hs.1, hs.2, Nat.zero_mul]
      · refine eachStep_of_step hkeep (fun s call _ hcall => ?_) ⟨hc, hz⟩ hcalls
        cases call with
        | create ans name => cases hcall
        | _ => trivial

/-- A file created and unlinked with io_units of 4 KiB. -/
theorem dirBuffer_contained_4k :
    Always (fsStep fun _ _ => 0) (fun s => s.workdir.Contained .malloc4k) (.empty .malloc4k)
      [.create (.done 1) ⟨[97], by decide⟩, .unlink 0 0 ⟨[97], by decide⟩] :=
  ((dirBuffer_contained_iff (s := .empty .malloc4k) (simpleDirCreate_formatted .done 0)
    rfl).mpr (Or.inl (by decide))).1

/-- With the io_unit of `bdev.json` the first entry ends 8 bytes past the buffer. -/
theorem dirBuffer_overflow :
    ∃ t, exec (fsStep fun _ _ => -1) (.empty .malloc0)
        [.create (.done 1) ⟨[97], by decide⟩] = some t ∧
      t.workdir.count * sizeofDirent = t.workdir.size + 8 ∧ ¬ t.workdir.Contained .malloc0 := by
  refine ⟨_, rfl, rfl, ?_⟩
  intro h
  have hfits : 1 * sizeofDirent ≤ 512 := h.fits
  exact absurd hfits (by decide)

end BlobTopFs
