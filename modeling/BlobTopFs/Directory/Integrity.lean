import BlobTopFs.Lib.PartialMap
import BlobTopFs.Lib.Run
import BlobTopFs.SimpleFs.Calls
import BlobTopFs.SimpleFs.Super

/-!
# Entries and blobs

The directory and the blobstore change in separate steps. A create adds a fresh blob and an
entry for it; an unlink asks for the delete of the blob and removes the entry without looking
at what came of that. So the two agree for as long as no unlink meets a blob that is open, and
from the first one that does there is a blob without an entry.
-/

namespace BlobTopFs

open Run KeyTable PartialMap

variable {g : Geometry}

/-- The ids of the entries are distinct, and are those of the file blobs. -/
structure Fs.Linked (s : Fs g) : Prop where
  distinct : ∀ i j, i < s.workdir.count → j < s.workdir.count →
    s.workdir.direntId i = s.workdir.direntId j → i = j
  exact : ∀ id, (∃ i < s.workdir.count, s.workdir.direntId i = id) ↔ s.FileBlob id

/-- Besides, the buffer has had an io_unit for each entry. -/
structure Fs.LinkedInv (s : Fs g) : Prop extends s.Linked where
  sized : s.workdir.Sized g

/-- If the call unlinks a file, no reference on its blob is open, and the delete is not failed
for another reason. -/
def FsCall.UnlinksClosed (s : Fs g) : FsCall → Prop
  | .unlink deleteErrno _ name => ∀ i : Nat, spdkfsDirLookup s.workdir name = i →
      deleteErrno = 0 ∧ ∀ b, s.bs.blobs (s.workdir.direntId i) = some b → b.openRef = 0
  | _ => True

/-! ## Calls that leave directory and blobs in place -/

theorem Fs.Through.isSome {s s' : Fs g} {fd : Int} {pos : Int → Int} (h : s.Through s' fd pos)
    (id : BlobId) : (s'.bs.blobs id).isSome = (s.bs.blobs id).isSome := by
  rcases h.blobs with hblobs | ⟨id', b, b', hb, -, hblobs⟩
  · rw [hblobs]
  · rw [hblobs, isSome_update (by rw [hb]; rfl)]

/-- Only a create and an unlink change which blobs there are. -/
theorem FsCall.run_isSome {findDir : FindDir} {s s' : Fs g} {call : FsCall} {ret : Int}
    (hcreate : call.isCreate = false) (hunlink : call.isUnlink = false)
    (h : call.run findDir s = some (s', ret)) (id : BlobId) :
    (s'.bs.blobs id).isSome = (s.bs.blobs id).isSome := by
  cases call with
  | create ans name => cases hcreate
  | openName openErrno name =>
      rcases monopolyOpen_cases h with ⟨-, rfl, -⟩ | ⟨i, -, b, _, -, hb, -, hblobs, -⟩
      · rfl
      · rw [hblobs, isSome_update (by rw [hb]; rfl)]
  | close closeErrno fd =>
      obtain ⟨f, file, -, hfile, -, -, -, -, -, hblobs⟩ := monopolyClose_cases h
      rcases hblobs with ⟨-, hblobs⟩ | ⟨v, hv, hblobs⟩
      · rw [hblobs]
      · obtain ⟨hvfile, hvblob, -⟩ := Fs.openFile_eq_some.mp hv
        cases hvfile.symm.trans hfile
        rw [hblobs, isSome_update (by rw [hvblob]; rfl)]
  | lseek fd offset whence =>
      obtain ⟨f, file, -, -, -, rfl⟩ := Fs.monopolyLseek_cases h
      rfl
  | read io fd buf nbytes registered =>
      obtain ⟨⟨s'', buf', ret'⟩, hread, heq⟩ := Option.map_eq_some_iff.mp h
      cases heq
      exact (monopolyRead_through hread).isSome id
  | write io fd buf nbytes registered =>
      obtain ⟨⟨s'', buf', ret'⟩, hwrite, heq⟩ := Option.map_eq_some_iff.mp h
      cases heq
      exact (monopolyWrite_through hwrite).isSome id
  | stat openErrno name =>
      obtain ⟨⟨s'', st, ret'⟩, hstat, heq⟩ := Option.map_eq_some_iff.mp h
      obtain ⟨-, -, -, -, hblobs⟩ := monopolyStat_cases hstat
      cases heq
      rcases hblobs with ⟨hblobs, -⟩ | ⟨-, b, hb, hblobs⟩
      · rw [hblobs]
      · rw [hblobs, isSome_update (by rw [hb]; rfl)]
  | unlink deleteErrno undef name => cases hunlink

section Step

variable {findDir : FindDir} {s s' : Fs g} {call : FsCall}

/-- A call that leaves the directory and the set of blobs alone. -/
theorem Fs.LinkedInv.same (hs : s.LinkedInv) (hdir : s'.workdir = s.workdir)
    (hblobs : ∀ id, (s'.bs.blobs id).isSome = (s.bs.blobs id).isSome) : s'.LinkedInv := by
  refine ⟨⟨?_, fun id => ?_⟩, ?_⟩
  · rw [hdir]
    exact hs.distinct
  · rw [Fs.FileBlob, hdir, hblobs]
    exact hs.exact id
  · rw [hdir]
    exact hs.sized

/-- A new blob with an entry. -/
theorem Fs.LinkedInv.append (hs : s.LinkedInv) (hg : sizeofDirent ≤ g.ioUnit) {mem : DirentMem}
    {id : BlobId} {name : CStr} {m : Mem} {b : Blob g}
    (happ : Appended g mem id name s.workdir s'.workdir m) (hfresh : s.Unused id)
    (hblobs : s'.bs.blobs = Function.update s.bs.blobs id (some b)) : s'.LinkedInv := by
  have hold : ∀ i < s.workdir.count, s'.workdir.direntId i = s.workdir.direntId i :=
    fun i hi => (happ.entries hs.sized (hs.sized.fits hg) hi).id
  -- an id that is handed out anew is in no entry, as entries have blobs
  have hnot : ∀ i < s.workdir.count, s.workdir.direntId i ≠ id := by
    rintro i hi rfl
    have hsome := ((hs.exact _).mp ⟨i, hi, rfl⟩).2
    rw [hfresh.1] at hsome
    cases hsome
  refine ⟨⟨fun i j hi hj heq => ?_, fun id' => ?_⟩, happ.sized hs.sized⟩
  · rw [happ.count] at hi hj
    rcases Nat.lt_succ_iff_lt_or_eq.mp hi with hi' | rfl <;>
      rcases Nat.lt_succ_iff_lt_or_eq.mp hj with hj' | rfl
    · rw [hold i hi', hold j hj'] at heq
      exact hs.distinct i j hi' hj' heq
    · rw [hold i hi', happ.newId] at heq
      exact absurd heq (hnot i hi')
    · rw [hold j hj', happ.newId] at heq
      exact absurd heq.symm (hnot j hj')
    · rfl
  · rw [Fs.FileBlob, happ.blob, hblobs, isSome_update_some_iff]
    constructor
    · rintro ⟨i, hi, rfl⟩
      rw [happ.count] at hi
      rcases Nat.lt_succ_iff_lt_or_eq.mp hi with hi' | rfl
      · rw [hold i hi']
        obtain ⟨hne, hsome⟩ := (hs.exact _).mp ⟨i, hi', rfl⟩
        exact ⟨hne, Or.inr hsome⟩
      · rw [happ.newId]
        exact ⟨hfresh.2, Or.inl rfl⟩
    · rintro ⟨hne, rfl | hsome⟩
      · exact ⟨s.workdir.count, happ.count ▸ Nat.lt_succ_self _, happ.newId⟩
      · obtain ⟨i, hi, hid⟩ := (hs.exact id').mpr ⟨hne, hsome⟩
        exact ⟨i, happ.count ▸ Nat.lt_succ_of_lt hi, (hold i hi).trans hid⟩

/-- The entry `idx` is gone, and so is its blob. -/
theorem Fs.LinkedInv.remove (hs : s.LinkedInv) {idx : Nat} (hidx : idx < s.workdir.count)
    (hrem : Removed idx s.workdir s'.workdir)
    (hblobs : s'.bs.blobs = Function.update s.bs.blobs (s.workdir.direntId idx) none) :
    s'.LinkedInv := by
  have hmoved : ∀ j < s'.workdir.count,
      s'.workdir.direntId j = s.workdir.direntId (skip idx j) := fun j hj => (hrem.moved j hj).id
  have hlt : ∀ j < s'.workdir.count, skip idx j < s.workdir.count := by
    intro j hj
    rw [← hrem.count]
    exact skip_lt hj
  refine ⟨⟨fun i j hi hj heq => ?_, fun id => ?_⟩, hrem.sized hs.sized⟩
  · rw [hmoved i hi, hmoved j hj] at heq
    exact skip_injective (hs.distinct _ _ (hlt i hi) (hlt j hj) heq)
  · rw [Fs.FileBlob, hrem.blob, hblobs, isSome_update_none_iff]
    constructor
    · rintro ⟨j, hj, rfl⟩
      rw [hmoved j hj]
      obtain ⟨hne, hsome⟩ := (hs.exact _).mp ⟨_, hlt j hj, rfl⟩
      exact ⟨hne, fun heq => skip_ne idx j (hs.distinct _ _ (hlt j hj) hidx heq), hsome⟩
    · rintro ⟨hne, hne', hsome⟩
      obtain ⟨i, hi, rfl⟩ := (hs.exact id).mpr ⟨hne, hsome⟩
      have hi' : i ≠ idx := by
        rintro rfl
        exact hne' rfl
      obtain ⟨j, hj, rfl⟩ := exists_skip hi' (hrem.count.symm ▸ hi) (hrem.count.symm ▸ hidx)
      exact ⟨j, hj, hmoved j hj⟩

/-- An entry that is gone while its blob is not. -/
theorem Fs.Linked.not_of_kept (hs : s.Linked) {idx : Nat} (hidx : idx < s.workdir.count)
    (hrem : Removed idx s.workdir s'.workdir) (hblobs : s'.bs.blobs = s.bs.blobs) :
    ¬ s'.Linked := by
  intro h
  obtain ⟨hne, hsome⟩ := (hs.exact _).mp ⟨idx, hidx, rfl⟩
  obtain ⟨j, hj, hid⟩ := (h.exact _).mpr ⟨hrem.blob.symm ▸ hne, hblobs.symm ▸ hsome⟩
  rw [(hrem.moved j hj).id] at hid
  exact skip_ne idx j (hs.distinct _ _ (hrem.count ▸ skip_lt hj) hidx hid)

theorem fsStep_linked (hg : sizeofDirent ≤ g.ioUnit)
    (hfind : ∀ n d, findDir n d = spdkfsDirLookup d n) (hs : s.LinkedInv)
    (hcall : call.CreatesFresh s) (hclosed : call.UnlinksClosed s)
    (h : fsStep findDir s call = some s') : s'.LinkedInv := by
  obtain ⟨ret, hrun⟩ := fsStep_eq_some.mp h
  cases call with
  | create ans name =>
      obtain ⟨he, he', hfresh⟩ := hcall
      rcases monopolyCreate_done he he' hrun with ⟨-, rfl, -⟩ | ⟨_, -, hd, hblobs, -⟩
      · exact hs
      · obtain ⟨m, happ⟩ := addDirent_spec hd
        exact hs.append hg happ hfresh hblobs
  | unlink deleteErrno undef name =>
      rcases monopolyUnlink_cases hrun with ⟨-, rfl, -⟩ | ⟨i, hi, hd, hbs, -⟩
      · exact hs
      · have hlookup := (hfind _ _).symm.trans hi
        obtain ⟨hlt, -⟩ := lookup_eq_natCast hlookup
        obtain ⟨he, hclosed⟩ := hclosed i hlookup
        rcases blobUnlink_cases deleteErrno (s.workdir.direntId i) s.bs with
          ⟨-, he' | hopen⟩ | ⟨-, -, hblobs⟩
        · exact absurd he he'
        · obtain ⟨b, hb⟩ := Option.isSome_iff_exists.mp ((hs.exact _).mp ⟨i, hlt, rfl⟩).2
          have hpos := hopen b hb
          rw [hclosed b hb] at hpos
          cases hpos
        · exact hs.remove hlt (removeDirent_spec hd) (by rw [hbs, hblobs])
  | _ =>
      rcases FsCall.run_workdir hrun with hsame | ⟨_, _, _, hcreate, -⟩ | ⟨_, _, _, _, hunlink, -⟩
      · exact hs.same hsame (FsCall.run_isSome rfl rfl hrun)
      · cases hcreate
      · cases hunlink

/-- An unlink that leaves the blob behind is noticed at once. -/
theorem unlinksClosed_of_linked (hfind : ∀ n d, findDir n d = spdkfsDirLookup d n)
    (hs : s.LinkedInv) (hnext : ∀ t, fsStep findDir s call = some t → t.Linked) :
    call.UnlinksClosed s := by
  cases call with
  | unlink deleteErrno undef name =>
      intro i hi
      obtain ⟨hlt, -⟩ := lookup_eq_natCast hi
      have hfound := (hfind name s.workdir).trans hi
      obtain ⟨⟨t, ret⟩, hrun⟩ := Option.isSome_iff_exists.mp
        (monopolyUnlink_isSome deleteErrno undef hfound (Nat.ne_zero_of_lt hlt))
      have hlinked := hnext t (fsStep_eq_some.mpr ⟨ret, hrun⟩)
      rcases monopolyUnlink_cases hrun with ⟨hneg, -⟩ | ⟨i', hi', hd, hbs, -⟩
      · omega
      · cases Int.ofNat.inj (hfound.symm.trans hi')
        rcases blobUnlink_cases deleteErrno (s.workdir.direntId i) s.bs with
          ⟨hblobs, -⟩ | ⟨he, ⟨b', hb', href⟩, -⟩
        · exact absurd hlinked
            (hs.not_of_kept hlt (removeDirent_spec hd)
              ((congrArg Blobstore.blobs hbs).trans hblobs))
        · refine ⟨he, fun b hb => ?_⟩
          cases hb.symm.trans hb'
          exact href
  | _ => trivial

end Step

/-- **Referential integrity.** In a run of calls whose creates are not failed, the entries name
exactly the file blobs at every point, each of them once, exactly if every unlink meets a file
that is closed and gets it deleted. -/
theorem directory_linked_iff {findDir : FindDir} (hg : sizeofDirent ≤ g.ioUnit)
    (hfind : ∀ n d, findDir n d = spdkfsDirLookup d n) {s : Fs g} {calls : List FsCall}
    (hs : s.LinkedInv)
    (hcalls : EachStep (fsStep findDir) (fun s call => call.CreatesFresh s) s calls) :
    Always (fsStep findDir) Fs.Linked s calls ↔
      EachStep (fsStep findDir) (fun s call => call.UnlinksClosed s) s calls :=
  always_iff_eachStep (fun _ hs => hs.toLinked)
    (fun _ _ _ hs hcall hclosed h => fsStep_linked hg hfind hs hcall hclosed h)
    (fun _ _ hs _ hnext => unlinksClosed_of_linked hfind hs hnext) hs hcalls

/-- On a device that has just been formatted there is neither an entry nor a file. -/
theorem formatted_linked (ans : LoadAnswer) (superBlob : BlobId) :
    (Fs.formatted (g := g) ans superBlob).LinkedInv := by
  have hblobs : ∀ id, ((Fs.formatted (g := g) ans superBlob).bs.blobs id).isSome = true ↔
      id = superBlob := by
    intro id
    simp [Fs.formatted, Blobstore.formatted, Blobstore.setBlob, isSome_update_some_iff]
  refine ⟨⟨fun i _ hi => absurd hi (Nat.not_lt_zero i), fun id => ?_⟩,
    ⟨0, (Nat.zero_mul _).symm, Nat.le_refl _⟩⟩
  constructor
  · rintro ⟨i, hi, -⟩
    exact absurd hi (Nat.not_lt_zero i)
  · rintro ⟨hne, hsome⟩
    exact absurd ((hblobs id).mp hsome) hne

/-- A file that is closed before it is unlinked. -/
theorem directory_linked_closed :
    Always (fsStep fun n d => spdkfsDirLookup d n) Fs.Linked (.empty .malloc4k)
      [.create (.done 1) ⟨[97], by decide⟩, .close 0 0, .unlink 0 0 ⟨[97], by decide⟩] := by
  refine (directory_linked_iff (by decide) (fun _ _ => rfl) (formatted_linked _ _) ?_).mpr ?_
  · refine EachStep.cons rfl ⟨rfl, rfl, rfl, by decide⟩ ?_
    exact EachStep.cons rfl trivial (EachStep.cons rfl trivial trivial)
  · refine EachStep.cons rfl trivial (EachStep.cons rfl trivial (EachStep.cons rfl ?_ trivial))
    intro i hi
    cases Int.ofNat.inj hi
    refine ⟨rfl, fun b hb => ?_⟩
    cases hb
    rfl

/-- A file that is unlinked while a descriptor is open leaves its blob behind. -/
theorem directory_orphan :
    ∃ t, exec (fsStep fun n d => spdkfsDirLookup d n) (.empty .malloc4k)
        [.create (.done 1) ⟨[97], by decide⟩, .unlink 0 0 ⟨[97], by decide⟩] = some t ∧
      t.workdir.count = 0 ∧ t.FileBlob 1 ∧ ¬ t.Linked := by
  have hfile : (1 : BlobId) ≠ 0 := by decide
  refine ⟨_, rfl, rfl, ⟨hfile, rfl⟩, ?_⟩
  intro h
  obtain ⟨i, hi, -⟩ := (h.exact 1).mpr ⟨hfile, rfl⟩
  exact absurd hi (Nat.not_lt_zero i)

end BlobTopFs
