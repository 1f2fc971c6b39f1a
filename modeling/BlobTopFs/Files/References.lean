import BlobTopFs.Files.Ownership
import BlobTopFs.Lib.Holders

/-!
# Open references and descriptors

A create and an open take a reference on a blob before they ask for a descriptor, and a stat
takes one that nobody gives back. So the references on a file are its descriptors as long as
every create and open finds a slot in the table, and no stat gets as far as opening a blob.
-/

namespace BlobTopFs

open Machine Run PartialMap

variable {g : Geometry}

/-! ## Counting -/

/-- The open references on the blob `id`. -/
def Blobstore.openRefs (bs : Blobstore g) (id : BlobId) : Nat :=
  ((bs.blobs id).map Blob.openRef).getD 0

/-- The blob of the file that the descriptor `fd` is open on. -/
def FdWorld.fileOf (w : FdWorld g) (fd : Nat) : Option BlobId :=
  (w.opened fd).bind fun o => (w.fs.files o.object).map SpdkfsFile.blob

/-- How many descriptors are open on the file of the blob `id`. -/
def FdWorld.descriptorsOn (w : FdWorld g) (id : BlobId) : Nat :=
  (holders spdkMaxFileCnt w.fileOf (some id)).card

/-- Every file blob has as many references as descriptors. -/
def FdWorld.Balanced (w : FdWorld g) : Prop :=
  ∀ id, id ≠ w.fs.workdir.blob → w.fs.bs.openRefs id = w.descriptorsOn id

/-- A call that takes a reference on a file blob gets a descriptor for it: a create or an open
finds a slot, and a stat finds no file. -/
def FsCall.KeepsBalance (findDir : FindDir) (s : Fs g) : FsCall → Prop
  | .create _ name => spdkfsDirLookup s.workdir name = -1 → s.fdtable.HasSlot
  | .openName _ name => ∀ i : Nat, spdkfsDirLookup s.workdir name = i →
      s.FileBlob (s.workdir.direntId i) → s.fdtable.HasSlot
  | .stat _ name => findDir name s.workdir = -1 ∨ ¬ s.FileBlob (statId findDir name s)
  | _ => True

/-- Open descriptors, no blobstore error, and a call that comes back. -/
structure FsCall.Legal (findDir : FindDir) (w : FdWorld g) (call : FsCall) : Prop where
  uses : call.UsesOpen w.opened
  noError : call.NoError w.fs
  returns : (fdStep findDir w call).isSome

/-- Besides ownership, the table counts its used slots. -/
structure FdWorld.RefInv (w : FdWorld g) : Prop extends w.Inv where
  counted : w.fs.fdtable.Counted
  balanced : w.Balanced

section References

variable {bs bs' : Blobstore g} {id x : BlobId} {b b' : Blob g}

theorem openRefs_update (hbs : bs'.blobs = Function.update bs.blobs x (some b)) (id : BlobId) :
    bs'.openRefs id = if id = x then b.openRef else bs.openRefs id := by
  unfold Blobstore.openRefs
  rw [hbs]
  by_cases h : id = x
  · subst h
    simp
  · simp [h]

/-- A reference is taken. -/
theorem openRefs_opening (hb : bs.blobs x = some b)
    (hbs : bs'.blobs = Function.update bs.blobs x (some b.opening)) (id : BlobId) :
    bs'.openRefs id = bs.openRefs id + if id = x then 1 else 0 := by
  rw [openRefs_update hbs]
  by_cases h : id = x
  · subst h
    simp [Blobstore.openRefs, hb, Blob.opening]
  · simp [h]

/-- A new blob comes with a reference. -/
theorem openRefs_created (hnone : bs.blobs x = none) (href : b.openRef = 1)
    (hbs : bs'.blobs = Function.update bs.blobs x (some b)) (id : BlobId) :
    bs'.openRefs id = bs.openRefs id + if id = x then 1 else 0 := by
  rw [openRefs_update hbs]
  by_cases h : id = x
  · subst h
    simp [Blobstore.openRefs, hnone, href]
  · simp [h]

/-- A reference is as it was. -/
theorem openRefs_kept (hb : bs.blobs x = some b) (href : b'.openRef = b.openRef)
    (hbs : bs'.blobs = Function.update bs.blobs x (some b')) (id : BlobId) :
    bs'.openRefs id = bs.openRefs id := by
  rw [openRefs_update hbs]
  by_cases h : id = x
  · subst h
    simp [Blobstore.openRefs, hb, href]
  · simp [h]

theorem openRefs_pos (h : 0 < bs.openRefs id) : ∃ b, bs.opened id = some b := by
  unfold Blobstore.openRefs at h
  cases hb : bs.blobs id with
  | none => simp [hb] at h
  | some b =>
      refine ⟨b, Blobstore.opened_eq_some.mpr ⟨hb, ?_⟩⟩
      simpa [hb] using h

end References

/-! ## Four ways of keeping, or losing, the balance -/

section Balance

variable {w w' : FdWorld g} {fd : Nat} {x : BlobId}

theorem FdWorld.Balanced.same (hw : w.Balanced) (hroot : w'.fs.workdir.blob = w.fs.workdir.blob)
    (hrefs : ∀ id, w'.fs.bs.openRefs id = w.fs.bs.openRefs id) (hfile : w'.fileOf = w.fileOf) :
    w'.Balanced := by
  intro id hid
  rw [hrefs, FdWorld.descriptorsOn, hfile]
  exact hw id (hroot ▸ hid)

/-- A reference is taken, and a free slot gets a descriptor. -/
theorem FdWorld.Balanced.take (hw : w.Balanced) (hroot : w'.fs.workdir.blob = w.fs.workdir.blob)
    (hrefs : ∀ id, w'.fs.bs.openRefs id = w.fs.bs.openRefs id + if id = x then 1 else 0)
    (hfd : fd < spdkMaxFileCnt) (hfree : w.fileOf fd = none)
    (hfile : w'.fileOf = Function.update w.fileOf fd (some x)) : w'.Balanced := by
  intro id hid
  rw [hrefs, hw id (hroot ▸ hid), FdWorld.descriptorsOn, FdWorld.descriptorsOn, hfile]
  have hne : w.fileOf fd ≠ some id := by simp [hfree]
  by_cases h : id = x
  · subst h
    rw [if_pos rfl, card_holders_gain hfd hne]
  · rw [if_neg h, card_holders_other hne (by simpa using Ne.symm h), Nat.add_zero]

/-- A reference is taken, and no descriptor. -/
theorem FdWorld.Balanced.leak_iff (hw : w.Balanced)
    (hroot : w'.fs.workdir.blob = w.fs.workdir.blob)
    (hrefs : ∀ id, w'.fs.bs.openRefs id = w.fs.bs.openRefs id + if id = x then 1 else 0)
    (hfile : w'.fileOf = w.fileOf) : w'.Balanced ↔ x = w.fs.workdir.blob := by
  constructor
  · intro h
    by_contra hne
    have hx := h x (hroot ▸ hne)
    rw [hrefs, hw x hne, if_pos rfl, FdWorld.descriptorsOn, FdWorld.descriptorsOn, hfile] at hx
    omega
  · rintro rfl id hid
    rw [hroot] at hid
    rw [hrefs, if_neg hid, Nat.add_zero, hw id hid, FdWorld.descriptorsOn, FdWorld.descriptorsOn,
      hfile]

/-- A descriptor is given back, and its reference with it. -/
theorem FdWorld.Balanced.drop (hw : w.Balanced) (hroot : w'.fs.workdir.blob = w.fs.workdir.blob)
    (hrefs : ∀ id, id ≠ w.fs.workdir.blob →
      w'.fs.bs.openRefs id + (if id = x then 1 else 0) = w.fs.bs.openRefs id)
    (hfd : fd < spdkMaxFileCnt) (hheld : w.fileOf fd = some x)
    (hfile : w'.fileOf = Function.update w.fileOf fd none) : w'.Balanced := by
  intro id hid
  rw [hroot] at hid
  have h := hrefs id hid
  rw [hw id hid, FdWorld.descriptorsOn] at h
  rw [FdWorld.descriptorsOn, hfile]
  by_cases hx : id = x
  · subst hx
    have hcard := card_holders_lose hfd hheld (Option.some_ne_none id).symm
    rw [if_pos rfl] at h
    omega
  · have hne : w.fileOf fd ≠ some id := by
      rw [hheld]
      simpa using Ne.symm hx
    rw [card_holders_other hne (Option.some_ne_none id).symm]
    rwa [if_neg hx, Nat.add_zero] at h

end Balance

/-! ## What a call does to the descriptors -/

section Step

variable {findDir : FindDir} {w : FdWorld g} {s : Fs g} {call : FsCall}

theorem fileOf_of_opened {fd : Nat} {o : Opened} {file : SpdkfsFile} (ho : w.opened fd = some o)
    (hfile : w.fs.files o.object = some file) : w.fileOf fd = some file.blob := by
  rw [FdWorld.fileOf, ho, Option.bind_some, hfile, Option.map_some]

/-- A new descriptor is on the file it was made for. -/
theorem FdWorld.Inv.fileOf_new (hw : w.Inv) {file : SpdkfsFile} (fd : Nat)
    (hfiles : s.files = Function.update w.fs.files w.fs.nextFile (some file)) :
    FdWorld.fileOf ⟨s, Function.update w.opened fd (some ⟨w.fs.nextFile, 0⟩)⟩ =
      Function.update w.fileOf fd (some file.blob) := by
  funext k
  by_cases hk : k = fd
  · subst hk
    simp [FdWorld.fileOf, hfiles]
  · simp only [FdWorld.fileOf, Function.update_of_ne hk, hfiles]
    cases ho : w.opened k with
    | none => rfl
    | some o =>
        simp only [Option.bind_some]
        rw [Function.update_of_ne (Nat.ne_of_lt (hw.old k o ho))]

/-- A new file object that nobody was given changes no descriptor. -/
theorem FdWorld.Inv.fileOf_lost (hw : w.Inv) {file : SpdkfsFile}
    (hfiles : s.files = Function.update w.fs.files w.fs.nextFile (some file)) :
    FdWorld.fileOf ⟨s, w.opened⟩ = w.fileOf := by
  funext k
  simp only [FdWorld.fileOf, hfiles]
  cases ho : w.opened k with
  | none => rfl
  | some o =>
      simp only [Option.bind_some]
      rw [Function.update_of_ne (Nat.ne_of_lt (hw.old k o ho))]

theorem fileOf_close (fd : Nat) (hfiles : s.files = w.fs.files) :
    FdWorld.fileOf ⟨s, Function.update w.opened fd none⟩ = Function.update w.fileOf fd none := by
  funext k
  by_cases hk : k = fd
  · subst hk
    simp [FdWorld.fileOf]
  · simp [FdWorld.fileOf, hfiles, hk]

/-- A position moves, and its descriptor stays on its file. -/
theorem FdWorld.Inv.fileOf_move (hw : w.Inv) {fd : Int} (h0 : 0 ≤ fd)
    (hopen : (w.opened fd.toNat).isSome) {pos : Int → Int} (h : w.fs.Through s fd pos) :
    FdWorld.fileOf ⟨s, moveTo w.opened fd pos⟩ = w.fileOf := by
  obtain ⟨f, file, file', hf, hfile, hfiles, hblob, -⟩ := h.files
  obtain ⟨o, ho, rfl⟩ := hw.file_eq h0 hopen hf
  have hblobs : ∀ j, (s.files j).map SpdkfsFile.blob = (w.fs.files j).map SpdkfsFile.blob := by
    intro j
    rw [hfiles]
    by_cases hj : j = o.object
    · subst hj
      simp [hfile, hblob]
    · simp [hj]
  funext k
  by_cases hk : k = fd.toNat
  · subst hk
    simp [FdWorld.fileOf, moveTo, ho, hblobs]
  · simp [FdWorld.fileOf, moveTo, hk, hblobs]

theorem Fs.Through.openRefs {s s' : Fs g} {fd : Int} {pos : Int → Int} (h : s.Through s' fd pos)
    (id : BlobId) : s'.bs.openRefs id = s.bs.openRefs id := by
  rcases h.blobs with hblobs | ⟨id', b, b', hb, href, hblobs⟩
  · simp [Blobstore.openRefs, hblobs]
  · exact openRefs_kept hb href hblobs id

/-! ## The count of used slots -/

theorem fdStep_counted {w' : FdWorld g} (hw : w.RefInv) (hcall : call.UsesOpen w.opened)
    (h : fdStep findDir w call = some w') : w'.fs.fdtable.Counted := by
  obtain ⟨⟨s, ret⟩, hrun, rfl⟩ := Option.map_eq_some_iff.mp h
  refine FsCall.run_counted hw.counted ?_ hrun
  rintro closeErrno fd f rfl -
  obtain ⟨-, hopen⟩ := hcall
  obtain ⟨o, ho⟩ := Option.isSome_iff_exists.mp hopen
  exact (hw.slot _ o ho).2.1

/-! ## The balance after a call -/

/-- A call that makes a file object on a blob it has taken a reference on keeps the balance if
there is a slot, or if the blob is no file's. -/
theorem FdWorld.RefInv.newFile_iff (hw : w.RefInv) {t : Fdtable} {fd : Int} {file : SpdkfsFile}
    (hfd : getFdFromTable w.fs.fdtable = some (t, fd))
    (hfiles : s.files = Function.update w.fs.files w.fs.nextFile (some file))
    (hroot : s.workdir.blob = w.fs.workdir.blob)
    (hrefs : ∀ id, s.bs.openRefs id = w.fs.bs.openRefs id + if id = file.blob then 1 else 0) :
    FdWorld.Balanced ⟨s, if 0 ≤ fd then
        Function.update w.opened fd.toNat (some ⟨w.fs.nextFile, 0⟩) else w.opened⟩ ↔
      (file.blob ≠ w.fs.workdir.blob → w.fs.fdtable.HasSlot) := by
  rcases getFdFromTable_cases hfd with ⟨rfl, -⟩ | ⟨i, rfl, hi, hfree, -⟩
  · -- no slot was found, so there was none
    rw [if_neg (by decide)]
    have hleak : FdWorld.Balanced ⟨s, w.opened⟩ ↔ file.blob = w.fs.workdir.blob :=
      hw.balanced.leak_iff hroot hrefs (hw.fileOf_lost hfiles)
    rw [hleak]
    refine ⟨fun heq hne => absurd heq hne, fun hslot => ?_⟩
    by_contra hne
    obtain ⟨t', fd', hfd', hne'⟩ := (hslot hne).getFd hw.counted
    cases hfd.symm.trans hfd'
    exact hne' rfl
  · have hslot : w.fs.fdtable.HasSlot := Fdtable.HasSlot.of_getFd hw.counted hfd (by omega)
    refine iff_of_true ?_ fun _ => hslot
    rw [if_pos (Int.natCast_nonneg i), Int.toNat_natCast]
    have hnone : w.opened i = none := by
      have h := (hw.returnsFree hfd (Int.natCast_nonneg i)).2
      rwa [Int.toNat_natCast] at h
    exact hw.balanced.take hroot hrefs hi (by rw [FdWorld.fileOf, hnone]; rfl)
      (hw.fileOf_new i hfiles)

/-- A call that goes through an open descriptor takes no reference and gives none back. -/
theorem FdWorld.RefInv.through_balanced (hw : w.RefInv) {fd : Int} {pos : Int → Int} (h0 : 0 ≤ fd)
    (hopen : (w.opened fd.toNat).isSome) (h : w.fs.Through s fd pos)
    (hroot : s.workdir.blob = w.fs.workdir.blob) :
    FdWorld.Balanced ⟨s, moveTo w.opened fd pos⟩ :=
  hw.balanced.same hroot h.openRefs (hw.fileOf_move h0 hopen h)

/-- The blob of a file that is open is open. -/
theorem FdWorld.RefInv.opened_of_held (hw : w.RefInv) {fd : Nat} {id : BlobId}
    (hfd : fd < spdkMaxFileCnt) (hheld : w.fileOf fd = some id)
    (hid : id ≠ w.fs.workdir.blob) : ∃ b, w.fs.bs.opened id = some b := by
  have hpos : 0 < w.fs.bs.openRefs id := by
    rw [hw.balanced _ hid]
    exact Finset.card_pos.mpr ⟨_, mem_holders.mpr ⟨hfd, hheld⟩⟩
  exact openRefs_pos hpos

theorem FdWorld.RefInv.close_balanced (hw : w.RefInv) {fd : Int} {ret : Int} (h0 : 0 ≤ fd)
    (hopen : (w.opened fd.toNat).isSome) (hrun : monopolyClose 0 fd w.fs = some (s, ret))
    (hroot : s.workdir.blob = w.fs.workdir.blob) :
    FdWorld.Balanced ⟨s, Function.update w.opened fd.toNat none⟩ := by
  obtain ⟨f, file, hf, hfile, -, hfiles, -, -, -, hblobs⟩ := monopolyClose_cases hrun
  obtain ⟨o, ho, rfl⟩ := hw.file_eq h0 hopen hf
  have hheld := fileOf_of_opened ho hfile
  have hlt := (hw.slot _ o ho).1
  refine hw.balanced.drop hroot (fun id hid => ?_) hlt hheld (fileOf_close _ hfiles)
  rcases hblobs with ⟨hnone, hblobs⟩ | ⟨v, hv, hblobs⟩
  · -- the file has no open blob, so it is not the one that is counted here
    have hclosed : w.fs.bs.opened file.blob = none := by
      rwa [Fs.openFile, hfile, Option.bind_some, Option.map_eq_none_iff] at hnone
    have hne : id ≠ file.blob := by
      rintro rfl
      obtain ⟨b, hb⟩ := hw.opened_of_held hlt hheld hid
      rw [hclosed] at hb
      cases hb
    simp [Blobstore.openRefs, hblobs, hne]
  · obtain ⟨hvfile, hvblob, href, -⟩ := Fs.openFile_eq_some.mp hv
    cases hvfile.symm.trans hfile
    rw [openRefs_update hblobs]
    by_cases hid' : id = v.file.blob
    · subst hid'
      have hclosing : v.storePersist.blob.closing.openRef = v.blob.openRef - 1 := rfl
      simp only [if_true, Blobstore.openRefs, hvblob, Option.map_some, Option.getD_some, hclosing]
      omega
    · simp [hid']

/-- A stat that finds a file opens its blob, and nothing closes it. -/
theorem FdWorld.RefInv.stat_balanced_iff (hw : w.RefInv) {name : CStr} {st : Option Stat}
    {ret : Int} (hrun : monopolyStat findDir 0 name w.fs = some (s, st, ret))
    (hroot : s.workdir.blob = w.fs.workdir.blob) :
    FdWorld.Balanced ⟨s, w.opened⟩ ↔ FsCall.KeepsBalance findDir w.fs (.stat 0 name) := by
  obtain ⟨hfiles, -, -, -, hblobs⟩ := monopolyStat_cases hrun
  have hfile : FdWorld.fileOf ⟨s, w.opened⟩ = w.fileOf := by
    funext k
    simp [FdWorld.fileOf, hfiles]
  rcases hblobs with ⟨hblobs, hwhy⟩ | ⟨hfound, b, hb, hblobs⟩
  · refine iff_of_true (hw.balanced.same hroot (fun id => ?_) hfile) ?_
    · simp [Blobstore.openRefs, hblobs]
    · rcases hwhy with hnot | hnone | he
      · exact Or.inl hnot
      · refine Or.inr fun hfb => ?_
        have hsome := hfb.2
        rw [hnone] at hsome
        cases hsome
      · exact absurd rfl he
  · have hleak : FdWorld.Balanced ⟨s, w.opened⟩ ↔
        statId findDir name w.fs = w.fs.workdir.blob :=
      hw.balanced.leak_iff hroot (openRefs_opening hb hblobs) hfile
    refine hleak.trans ?_
    constructor
    · intro heq
      exact Or.inr fun hfb => hfb.1 heq
    · rintro (hnot | hfb)
      · exact absurd hnot hfound
      · by_contra hne
        exact hfb ⟨hne, by rw [hb]; rfl⟩

/-- Only a blob without references is unlinked. -/
theorem openRefs_blobUnlink (deleteErrno : Int) (x : BlobId) (bs : Blobstore g) (id : BlobId) :
    (blobUnlink deleteErrno x bs).1.openRefs id = bs.openRefs id := by
  rcases blobUnlink_cases deleteErrno x bs with ⟨hblobs, -⟩ | ⟨-, ⟨b, hb, href⟩, hblobs⟩
  · simp [Blobstore.openRefs, hblobs]
  · by_cases hid : id = x
    · subst hid
      simp [Blobstore.openRefs, hblobs, hb, href]
    · simp [Blobstore.openRefs, hblobs, hid]

theorem fdStep_balanced_iff {w' : FdWorld g} (hw : w.RefInv) (hcall : call.Legal findDir w)
    (h : fdStep findDir w call = some w') :
    w'.Balanced ↔ call.KeepsBalance findDir w.fs := by
  obtain ⟨⟨s, ret⟩, hrun, rfl⟩ := Option.map_eq_some_iff.mp h
  have hroot : s.workdir.blob = w.fs.workdir.blob := FsCall.run_root hrun
  obtain ⟨huses, hno, -⟩ := hcall
  cases call with
  | create ans name =>
      obtain ⟨he, he', hfresh, hne⟩ := hno
      rcases monopolyCreate_done he he' hrun with
        ⟨hfound, rfl, rfl⟩ | ⟨t, habsent, -, hblobs, ht, -, -, hfiles⟩
      · exact iff_of_true hw.balanced fun habsent => absurd habsent hfound
      · refine (hw.newFile_iff ht hfiles hroot (openRefs_created hfresh rfl hblobs)).trans ?_
        exact ⟨fun hslot _ => hslot hne, fun hslot _ => hslot habsent⟩
  | openName openErrno name =>
      rcases monopolyOpen_cases hrun with
        ⟨habsent, rfl, rfl⟩ | ⟨i, -, b, t, hi, hb, -, hblobs, ht, -, -, -, hfiles⟩
      · refine iff_of_true hw.balanced fun i hi => ?_
        omega
      · refine (hw.newFile_iff ht hfiles hroot (openRefs_opening hb hblobs)).trans ?_
        constructor
        · intro hslot j hj hfile
          cases Int.ofNat.inj (hi.symm.trans hj)
          exact hslot hfile.1
        · exact fun hslot hne => hslot i hi ⟨hne, by rw [hb]; rfl⟩
  | close closeErrno fd =>
      obtain ⟨h0, hopen⟩ := huses
      have he : closeErrno = 0 := hno
      subst he
      refine iff_of_true ?_ trivial
      exact hw.close_balanced h0 hopen hrun hroot
  | lseek fd offset whence =>
      obtain ⟨h0, hopen, hoff⟩ := huses
      have hbalanced := hw.through_balanced h0 hopen (monopolyLseek_through hoff hrun) hroot
      exact iff_of_true hbalanced trivial
  | read io fd buf nbytes registered =>
      obtain ⟨⟨s', buf', ret'⟩, hread, heq⟩ := Option.map_eq_some_iff.mp hrun
      cases heq
      obtain ⟨h0, hopen⟩ := huses
      have hbalanced := hw.through_balanced h0 hopen (monopolyRead_through hread) hroot
      exact iff_of_true hbalanced trivial
  | write io fd buf nbytes registered =>
      obtain ⟨⟨s', buf', ret'⟩, hwrite, heq⟩ := Option.map_eq_some_iff.mp hrun
      cases heq
      obtain ⟨h0, hopen⟩ := huses
      have hbalanced := hw.through_balanced h0 hopen (monopolyWrite_through hwrite) hroot
      exact iff_of_true hbalanced trivial
  | stat openErrno name =>
      obtain ⟨⟨s', st, ret'⟩, hstat, heq⟩ := Option.map_eq_some_iff.mp hrun
      cases heq
      have he : openErrno = 0 := hno
      subst he
      exact hw.stat_balanced_iff hstat hroot
  | unlink deleteErrno undef name =>
      refine iff_of_true ?_ trivial
      rcases monopolyUnlink_cases hrun with ⟨-, rfl, -⟩ | ⟨i, -, -, hbs, hfiles, -⟩
      · exact hw.balanced
      · refine hw.balanced.same hroot (fun id => ?_) ?_
        · rw [hbs]
          exact openRefs_blobUnlink ..
        · funext k
          simp [FdWorld.fileOf, hfiles, FsCall.noteOpened]

end Step

/-! ## A session -/

/-- A session starts without references on files, and without descriptors. -/
theorem loadSession_refInv {ans : LoadAnswer} {superBlob : BlobId} {bs : Blobstore g} {s : Fs g}
    (h : loadSession ans superBlob bs = some s) : FdWorld.RefInv (g := g) ⟨s, fun _ => none⟩ := by
  obtain ⟨hroot, htable, -, hblobs⟩ := loadRoot_spec h
  refine ⟨loadRoot_inv h, ?_, fun id hid => ?_⟩
  · show s.fdtable.Counted
    rw [htable]
    exact Fdtable.Counted.zero
  · have hid' : id ≠ superBlob := hroot ▸ hid
    have hnone : FdWorld.descriptorsOn (g := g) ⟨s, fun _ => none⟩ id = 0 := by
      simp [FdWorld.descriptorsOn, holders, FdWorld.fileOf]
    rw [hnone]
    show s.bs.openRefs id = 0
    rw [Blobstore.openRefs, hblobs id hid']
    cases hb : bs.blobs id with
    | none => simp [Blobstore.reload, hb]
    | some b => simp [Blobstore.reload, hb, Blob.loaded, hid']

/-- **Reference balance.** In a session without blobstore errors, each file has at every point
as many open references as descriptors, exactly if every create and open that gets as far as a
blob finds a slot in the table, and no stat finds a file. -/
theorem refs_balanced_iff {findDir : FindDir} {ans : LoadAnswer} {superBlob : BlobId}
    {bs : Blobstore g} {s : Fs g} {calls : List FsCall}
    (hload : loadSession ans superBlob bs = some s)
    (hcalls : EachStep (fdStep findDir) (fun w call => call.Legal findDir w)
      ⟨s, fun _ => none⟩ calls) :
    Always (fdStep findDir) FdWorld.Balanced ⟨s, fun _ => none⟩ calls ↔
      EachStep (fdStep findDir) (fun w call => call.KeepsBalance findDir w.fs)
        ⟨s, fun _ => none⟩ calls := by
  refine always_iff_eachStep (I := FdWorld.RefInv) (fun w hw => hw.balanced) ?_ ?_
    (loadSession_refInv hload) hcalls
  · intro w call w' hw hcall hkeeps h
    exact ⟨fdStep_inv hw.toInv hcall.uses h, fdStep_counted hw hcall.uses h,
      (fdStep_balanced_iff hw hcall h).mpr hkeeps⟩
  · intro w call hw hcall hnext
    obtain ⟨w', hw'⟩ := Option.isSome_iff_exists.mp hcall.returns
    exact (fdStep_balanced_iff hw hcall hw').mp (hnext w' hw')

theorem loadSession_formatted (ans : LoadAnswer) (superBlob : BlobId) :
    loadSession (g := g) ans superBlob (.formatted superBlob) =
      some (.formatted ans superBlob) := by
  rw [loadSession, reload_formatted, loadRoot_formatted]

/-- A file created, closed, opened again and closed again. -/
theorem refs_balanced_reopened :
    Always (fdStep fun _ _ => 1) FdWorld.Balanced ⟨.empty .malloc4k, fun _ => none⟩
      [.create (.done 1) ⟨[97], by decide⟩, .close 0 0, .openName 0 ⟨[97], by decide⟩,
        .close 0 0] := by
  refine (refs_balanced_iff (loadSession_formatted .done 0) ?_).mpr ?_
  · refine EachStep.cons rfl ⟨trivial, ⟨rfl, rfl, rfl, by decide⟩, rfl⟩ ?_
    refine EachStep.cons rfl ⟨⟨by decide, rfl⟩, rfl, rfl⟩ ?_
    refine EachStep.cons rfl ⟨trivial, rfl, rfl⟩ ?_
    exact EachStep.cons rfl ⟨⟨by decide, rfl⟩, rfl, rfl⟩ trivial
  · refine EachStep.cons rfl (fun _ => Or.inl (by decide)) ?_
    refine EachStep.cons rfl trivial ?_
    exact EachStep.cons rfl (fun _ _ _ => Or.inl (by decide)) (EachStep.cons rfl trivial trivial)

/-- After a stat of a file that is closed, its blob is open. -/
theorem stat_leaks :
    ∃ w, exec (fdStep fun _ _ => 1) ⟨.empty .malloc4k, fun _ => none⟩
        [.create (.done 1) ⟨[97], by decide⟩, .close 0 0, .stat 0 ⟨[97], by decide⟩] = some w ∧
      w.descriptorsOn 1 = 0 ∧ w.fs.bs.openRefs 1 = 1 ∧ ¬ w.Balanced := by
  have hnone : ∀ w : FdWorld .malloc4k, (∀ fd, w.opened fd = none) → w.descriptorsOn 1 = 0 := by
    intro w hw
    simp [FdWorld.descriptorsOn, holders, FdWorld.fileOf, hw]
  have hclosed : ∀ fd, Function.update (Function.update (fun _ => none) 0 (some ⟨0, 0⟩)) 0
      (none : Option Opened) fd = none := by
    intro fd
    by_cases h : fd = 0
    · subst h
      rfl
    · simp [h]
  refine ⟨_, rfl, hnone _ hclosed, rfl, fun h => ?_⟩
  have hone := h 1 (by decide)
  rw [hnone _ hclosed] at hone
  cases hone

end BlobTopFs
