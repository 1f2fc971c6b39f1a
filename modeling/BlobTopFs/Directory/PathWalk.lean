import Mathlib.Data.List.Find
import BlobTopFs.Directory.Resolution
import BlobTopFs.SimpleFs.PathParts

/-!
# Where a path leads

A part of a path names the directory whose id is in the entry that a lookup finds. `find_path`
goes on to the blob whose id is the index of that entry, and with a slash at the end it goes
through the last part as well. So it follows a path exactly where every entry on the way has its
index for an id and no slash is left behind the last part.
-/

namespace BlobTopFs

open Machine Run

variable {g : Geometry}

/-! ## Directories on disk -/

/-- The directory that the blob holds: the attribute as an open shows it, and the bytes of the
blob, if the entries lie within the io_units that a read of `d_size` bytes asks for and these
within the blob. -/
def Blobstore.storedDir (bs : Blobstore g) (id : BlobId) : Option SpdkfsDir :=
  (bs.blobs id).bind fun b =>
    b.opening.xattrs.dirPersistent.bind fun p =>
      if p.dDirentCount = 0 ∨ p.dDirentCount * sizeofDirent ≤ upperDiv p.dSize g.ioUnit * g.ioUnit ∧
          upperDiv p.dSize g.ioUnit * g.ioUnit ≤ b.capacity then
        some ⟨id, true, p, b.data, false⟩
      else none

/-- SPDK opens the directory's blob and reads its entries. -/
def PathAnswer.serves (a : PathAnswer) (d : SpdkfsDir) : Bool :=
  a.openErrno == 0 && a.mem.isSome && (a.io.bserrno == 0 || d.count == 0)

/-- The directory that a part names in `d`, with the answers SPDK gives when it is entered. -/
def SpdkfsDir.child (bs : Blobstore g) (d : SpdkfsDir) (x : PathAnswer × CStr) :
    Option SpdkfsDir :=
  if spdkfsDirLookup d x.2 = -1 then none
  else (bs.storedDir (d.direntId (spdkfsDirLookup d x.2).toNat)).filter x.1.serves

/-- The parts with the answers of the rounds from `k` on. -/
def answered (ans : Nat → PathAnswer) : (k : Nat) → List CStr → List (PathAnswer × CStr)
  | _, [] => []
  | k, c :: cs => (ans k, c) :: answered ans (k + 1) cs

/-- The blobs of the directories that the parts name one after the other, as far as they do. -/
def SpdkfsDir.route (bs : Blobstore g) : SpdkfsDir → List (PathAnswer × CStr) → List BlobId
  | _, [] => []
  | d, x :: xs =>
      match d.child bs x with
      | none => []
      | some e => e.blob :: route bs e xs

/-- The same directory: the record, and the bytes of the entries. -/
structure SpdkfsDir.Alike (d d' : SpdkfsDir) : Prop where
  blob : d'.blob = d.blob
  dirPersist : d'.dirPersist = d.dirPersist
  dirents : ∀ q < d.count * sizeofDirent, d'.dirents q = d.dirents q

theorem SpdkfsDir.Alike.refl (d : SpdkfsDir) : d.Alike d := ⟨rfl, rfl, fun _ _ => rfl⟩

theorem SpdkfsDir.Alike.count {d d' : SpdkfsDir} (h : d.Alike d') : d'.count = d.count :=
  congrArg SpdkfsDirPersistCtx.dDirentCount h.dirPersist

/-- A part fits an entry with its terminator, so that a lookup sees no more than the entries. -/
theorem SpdkfsDir.Alike.lookup {d d' : SpdkfsDir} (h : d.Alike d') {c : CStr}
    (hlen : c.strlen ≤ spdkMaxNameCount) : spdkfsDirLookup d' c = spdkfsDirLookup d c := by
  have hfind : (List.range d'.count).find? (d'.direntIs c) =
      (List.range d.count).find? (d.direntIs c) := by
    rw [h.count]
    refine List.find?_congr fun i hi => ?_
    apply strEq_congr
    intro k hk
    apply h.dirents
    have hoff := direntOff_le (List.mem_range.mp hi)
    have hk' : k ≤ spdkMaxNameCount := Nat.le_trans hk hlen
    show direntOff i + k < direntOff d.count
    unfold sizeofDirent at hoff
    omega
  unfold spdkfsDirLookup
  rw [show d'.dirPersist.dDirentCount = d'.count from rfl, hfind]

theorem SpdkfsDir.Alike.direntId {d d' : SpdkfsDir} (h : d.Alike d') {i : Nat} (hi : i < d.count) :
    d'.direntId i = d.direntId i := by
  apply readLe64_congr
  intro k hk
  have hoff := direntOff_le hi
  apply h.dirents
  show direntOff i + spdkMaxNameCount + k < direntOff d.count
  unfold sizeofDirent at hoff
  omega

/-! ## The walk that `find_path` is for -/

theorem noNul_dot : (0 : UInt8) ∉ [(46 : UInt8)] := by decide

/-- `"."` -/
def dotName : CStr := ⟨[46], noNul_dot⟩

/-- A call that returned `e` has gone through the directories that `xs` names from `start` on,
and no others. It reports whether each part names one, and if so hands out the last one and the
name behind. -/
structure FollowsPath (s : PathState g) (start : SpdkfsDir) (xs : List (PathAnswer × CStr))
    (last : CStr) (fileDir : DirPtr) (e : FoundPath g) : Prop where
  through : AsksFor s.bs e.state.bs (start.route s.bs xs).reverse
  ret : e.ret = true ↔ (exec (SpdkfsDir.child s.bs) start xs).isSome = true
  tail : e.ret = true → e.tailName = some last
  dir : ∀ d, exec (SpdkfsDir.child s.bs) start xs = some d →
    ∃ d', e.state.dirs fileDir = some d' ∧ d.Alike d'

/-- `find_path` returns. For a path with parts it has followed all but the last from the root or
from `dir`; for a path of slashes it hands out the root under the name `.`. -/
def FindsPath (ans : Nat → PathAnswer) (raw : Mem) (dir root fileDir : DirPtr) (name : CStr)
    (s : PathState g) : Prop :=
  ∃ e, findPath ans raw dir root fileDir name s = some e ∧
    (pathParts name.chars = [] →
      e.ret = true ∧ e.tailName = some dotName ∧ e.state.dirs fileDir = s.dirs root) ∧
    ∀ init last, pathParts name.chars = init ++ [last] →
      ∀ start, s.dirs (pathCursor name dir root) = some start →
        FollowsPath s start (answered ans 0 init) last fileDir e

/-- The part is not there, or its entry has its index for an id and names a directory that SPDK
opens and reads. -/
def IndexedPart (bs : Blobstore g) (d : SpdkfsDir) (x : PathAnswer × CStr) : Prop :=
  ∀ i : Nat, spdkfsDirLookup d x.2 = i →
    d.direntId i = .ofNat i ∧ (d.child bs x).isSome = true

/-! ## What stays on disk -/

/-- Nothing but an attribute or bytes that are stored anew changes a directory. -/
theorem storedDir_update {bs bs' : Blobstore g} {id : BlobId} {b b' : Blob g}
    (hb : bs.blobs id = some b) (hblobs : bs'.blobs = Function.update bs.blobs id (some b'))
    (hx : b'.opening.xattrs = b.opening.xattrs) (hdata : b'.data = b.data)
    (hclusters : b'.clusters = b.clusters) (id' : BlobId) :
    bs'.storedDir id' = bs.storedDir id' := by
  have hcap : b'.capacity = b.capacity := congrArg (· * g.clusterSize) hclusters
  unfold Blobstore.storedDir
  by_cases hid : id' = id
  · subst hid
    rw [hblobs, Function.update_self, hb, Option.bind_some, Option.bind_some, hx, hdata, hcap]
  · rw [hblobs, Function.update_of_ne hid]

/-- An open leaves what is stored as it is, and so that a close does too. -/
theorem Blob.opening_opening (b : Blob g) : b.opening.opening.xattrs = b.opening.xattrs := by
  show (if b.openRef + 1 = 0 then b.disk else b.opening.xattrs) = b.opening.xattrs
  rw [if_neg (Nat.succ_ne_zero _)]

/-- The last close of the blob would store what is stored already. -/
def Blob.Settled (b : Blob g) : Prop := b.openRef = 1 → b.xattrDirty = false → b.disk = b.xattrs

theorem Blob.settled_opening (b : Blob g) : b.opening.Settled := by
  intro href _
  have h0 : b.openRef = 0 := Nat.succ.inj href
  show b.disk = if b.openRef = 0 then b.disk else b.xattrs
  rw [if_pos h0]

theorem Blob.Settled.closing {b : Blob g} (h : b.Settled) (href : 0 < b.openRef) :
    b.closing.opening.xattrs = b.opening.xattrs := by
  have hopen : b.opening.xattrs = b.xattrs := if_neg (Nat.ne_of_gt href)
  rw [hopen]
  by_cases hone : b.openRef = 1
  · have hzero : b.closing.openRef = 0 := by
      show b.openRef - 1 = 0
      omega
    rw [Blob.opening, if_pos hzero, Blob.closing_disk]
    split
    · rfl
    · next hdirty => exact h hone (by simpa using hdirty)
  · have hpos : b.closing.openRef ≠ 0 := by
      show b.openRef - 1 ≠ 0
      omega
    rw [Blob.opening, if_neg hpos, Blob.closing_xattrs]

/-- A close of a clean directory leaves all directories as they are, its own perhaps excepted. -/
theorem storedDir_blobClose {e : Int} {id : BlobId} {bs : Blobstore g} {id' : BlobId}
    (h : id' ≠ id ∨ ∀ b, bs.blobs id = some b → b.Settled) :
    (blobClose e id bs).1.storedDir id' = bs.storedDir id' := by
  rcases blobClose_cases e id bs with ⟨hsame, -⟩ | ⟨-, b, hb, hblobs⟩
  · unfold Blobstore.storedDir
    rw [hsame]
  · obtain ⟨hb, href⟩ := Blobstore.opened_eq_some.mp hb
    rcases h with hne | hsettled
    · unfold Blobstore.storedDir
      rw [hblobs, Function.update_of_ne hne]
    · exact storedDir_update hb hblobs ((hsettled b hb).closing href) (Blob.closing_data b)
        (Blob.closing_clusters b) id'

/-- The close before a part is entered, of an object whose blob is `a` or has been opened here. -/
theorem simpleDirClose_stored (ans : DirCloseAnswer) {bs : Blobstore g} {d : SpdkfsDir}
    {a : BlobId} (hdirty : d.dirty = true → d.blob = a ∧ (bs.opened d.blob).isSome = true)
    (hsettled : d.blob ≠ a → ∀ b, bs.blobs d.blob = some b → b.Settled) :
    ∃ bs', simpleDirClose ans bs d = some bs' ∧
      ∀ id, id ≠ a → bs'.storedDir id = bs.storedDir id := by
  unfold simpleDirClose
  split
  · next hd =>
      obtain ⟨rfl, hopen⟩ := hdirty hd
      obtain ⟨b, hb⟩ := Option.isSome_iff_exists.mp hopen
      obtain ⟨r, hr⟩ : ∃ r, d.makeRoom ans.resize b = some r := by
        unfold SpdkfsDir.makeRoom
        split
        · next hgrow =>
            obtain ⟨r, hr⟩ := genericBlobResize_isSome ans.resize d.blob b
              (Nat.ne_of_gt (Nat.zero_lt_of_lt hgrow))
            exact ⟨_, by rw [hr]; rfl⟩
        · exact ⟨_, rfl⟩
      rw [hb, Option.bind_some, hr, Option.map_some]
      refine ⟨_, rfl, fun id hid => ?_⟩
      rw [storedDir_blobClose (Or.inl hid)]
      unfold Blobstore.storedDir
      rw [Blobstore.setBlob_of_ne _ _ hid]
  · refine ⟨_, rfl, fun id hid => storedDir_blobClose ?_⟩
    by_cases ha : d.blob = a
    · exact Or.inl (ha ▸ hid)
    · exact Or.inr (hsettled ha)

theorem storedDir_eq_some {bs : Blobstore g} {id : BlobId} {d : SpdkfsDir} :
    bs.storedDir id = some d ↔ ∃ b p, bs.blobs id = some b ∧
      b.opening.xattrs.dirPersistent = some p ∧
      (p.dDirentCount = 0 ∨ p.dDirentCount * sizeofDirent ≤ upperDiv p.dSize g.ioUnit * g.ioUnit ∧
        upperDiv p.dSize g.ioUnit * g.ioUnit ≤ b.capacity) ∧
      d = ⟨id, true, p, b.data, false⟩ := by
  unfold Blobstore.storedDir
  rw [Option.bind_eq_some_iff]
  refine exists_congr fun b => ?_
  rw [Option.bind_eq_some_iff]
  constructor
  · rintro ⟨hb, p, hp, h⟩
    split at h
    · next hfits => exact ⟨p, hb, hp, hfits, (Option.some.inj h).symm⟩
    · cases h
  · rintro ⟨p, hb, hp, hfits, rfl⟩
    exact ⟨hb, p, hp, if_pos hfits⟩

/-- A part that names a directory: the lookup finds an entry, and the directory of its id is
served. -/
theorem child_eq_some {bs : Blobstore g} {d e : SpdkfsDir} {x : PathAnswer × CStr} :
    d.child bs x = some e ↔ ∃ i : Nat, i < d.count ∧ spdkfsDirLookup d x.2 = i ∧
      bs.storedDir (d.direntId i) = some e ∧ x.1.serves e = true := by
  unfold SpdkfsDir.child
  rcases lookup_cases d x.2 with hl | ⟨i, hi, hl, -⟩
  · rw [if_pos hl]
    constructor
    · intro h
      cases h
    · rintro ⟨i, -, hi, -⟩
      omega
  · rw [if_neg (by omega), hl, Int.toNat_natCast, Option.filter_eq_some_iff]
    constructor
    · rintro ⟨hstored, hserves⟩
      exact ⟨i, hi, rfl, hstored, hserves⟩
    · rintro ⟨j, -, hj, hstored, hserves⟩
      cases Int.ofNat.inj hj
      exact ⟨hstored, hserves⟩

theorem storedDir_blob {bs : Blobstore g} {id : BlobId} {d : SpdkfsDir}
    (h : bs.storedDir id = some d) : d.blob = id := by
  obtain ⟨_, _, _, _, _, rfl⟩ := storedDir_eq_some.mp h
  rfl

/-- What is served for the entry that the lookup finds. -/
theorem child_of_lookup {bs : Blobstore g} {d e : SpdkfsDir} {x : PathAnswer × CStr} {i : Nat}
    (hl : spdkfsDirLookup d x.2 = i) (h : d.child bs x = some e) :
    bs.storedDir (d.direntId i) = some e ∧ x.1.serves e = true := by
  obtain ⟨j, -, hj, hstored, hserves⟩ := child_eq_some.mp h
  cases Int.ofNat.inj (hl.symm.trans hj)
  exact ⟨hstored, hserves⟩

theorem child_blob {bs : Blobstore g} {d e : SpdkfsDir} {x : PathAnswer × CStr} {i : Nat}
    (hl : spdkfsDirLookup d x.2 = i) (h : d.child bs x = some e) : e.blob = d.direntId i :=
  storedDir_blob (child_of_lookup hl h).1

/-! ## One part -/

/-- The object at `now` is in the directory `d` of `bs₀`. Directories are as they are in `bs₀`, but
for that of the blob `a`, where the walk began. -/
structure Walking (bs₀ : Blobstore g) (a : BlobId) (now : DirPtr) (s : PathState g)
    (d : SpdkfsDir) : Prop where
  inside : ∃ d', s.dirs now = some d' ∧ d.Alike d' ∧
    (d'.dirty = true → d'.blob = a ∧ (s.bs.opened d'.blob).isSome = true)
  settled : d.blob ≠ a → ∀ b, s.bs.blobs d.blob = some b → b.Settled
  small : d.count < 2 ^ 64
  stored : ∀ id, id ≠ a → s.bs.storedDir id = bs₀.storedDir id

section Walk

variable {bs₀ : Blobstore g} {a : BlobId} {dir now : DirPtr} {s s' : PathState g}
  {d e : SpdkfsDir} {x : PathAnswer × CStr}

/-- The read of a directory that is served brings in its entries. -/
theorem genericBlobIo_entries {io : IoAnswer} (id : BlobId) {b : Blob g}
    {p : SpdkfsDirPersistCtx} {m : Mem}
    (hfits : p.dDirentCount = 0 ∨
      p.dDirentCount * sizeofDirent ≤ upperDiv p.dSize g.ioUnit * g.ioUnit ∧
        upperDiv p.dSize g.ioUnit * g.ioUnit ≤ b.capacity)
    (hio : io.bserrno = 0 ∨ p.dDirentCount = 0) :
    ∀ q < p.dDirentCount * sizeofDirent,
      (genericBlobIo io id b p.dSize 0 m true).buffer q = b.data q := by
  intro q hq
  have hpos : p.dDirentCount ≠ 0 := by
    intro h0
    rw [h0, Nat.zero_mul] at hq
    exact Nat.not_lt_zero q hq
  obtain ⟨hin, hcap⟩ := hfits.resolve_left hpos
  have hzero : u64 0 / g.ioUnit = 0 := Nat.zero_div _
  have hrange : b.inRange 0 (upperDiv p.dSize g.ioUnit) = true := by
    rw [Blob.inRange, Nat.zero_add]
    exact decide_eq_true hcap
  show (spdkBlobIoRead io b m (u64 0 / g.ioUnit) (upperDiv p.dSize g.ioUnit)).1 q = b.data q
  rw [hzero, spdkBlobIoRead, hrange, if_neg (by decide),
    if_neg (not_not.mpr (hio.resolve_right hpos))]
  dsimp only
  rw [Mem.write_in (Nat.zero_le q) (by omega)]
  simp

/-- The object finds what the directory does. -/
theorem Walking.lookup (h : Walking bs₀ a now s d) (hlen : x.2.strlen ≤ spdkMaxNameCount)
    {i : Nat} (hl : spdkfsDirLookup d x.2 = i) :
    ∃ d', s.dirs now = some d' ∧ spdkfsDirLookup d' x.2 = i ∧ i < 2 ^ 64 - 1 := by
  obtain ⟨d', hd', hsame, -⟩ := h.inside
  refine ⟨d', hd', (hsame.lookup hlen).trans hl, ?_⟩
  have hlt := (lookup_eq_natCast hl).1
  have hsmall := h.small
  omega

/-- The close that comes first, if the object is not the caller's. -/
theorem Walking.closes (h : Walking bs₀ a now s d) (dir : DirPtr) (ans : DirCloseAnswer)
    {d' : SpdkfsDir} (hd' : s.dirs now = some d') :
    ∃ bs, (if now ≠ dir then simpleDirClose ans s.bs d' else some s.bs) = some bs ∧
      ∀ id, id ≠ a → bs.storedDir id = bs₀.storedDir id := by
  obtain ⟨d'', hd'', hsame, hdirty⟩ := h.inside
  cases hd'.symm.trans hd''
  split
  · obtain ⟨bs, hclose, hkept⟩ := simpleDirClose_stored ans hdirty fun hne =>
      hsame.blob ▸ h.settled (hsame.blob ▸ hne)
    exact ⟨bs, hclose, fun id hid => (hkept id hid).trans (h.stored id hid)⟩
  · exact ⟨s.bs, rfl, h.stored⟩

/-- What a round that finds its part has done: it has asked for the blob with the index of the
entry. If that is what the part names, it is now in that directory. -/
theorem Walking.found (h : Walking bs₀ a now s d) (hlen : x.2.strlen ≤ spdkMaxNameCount) {i : Nat}
    (hl : spdkfsDirLookup d x.2 = i) {o : Option (PathState g)}
    (hstep : findPathStep x.1 dir now x.2 s = some o) :
    ∃ s', o = some s' ∧ AsksFor s.bs s'.bs [.ofNat i] ∧
      (d.child bs₀ x = some e → e.blob = .ofNat i → e.blob ≠ a → Walking bs₀ a now s' e) := by
  obtain ⟨d', hd', hl', hi⟩ := h.lookup hlen hl
  obtain ⟨bs, b, p, m, hclose, he, hb, hp, hm, rfl⟩ := (findPathStep_found hd' hl' hi).mp hstep
  refine ⟨_, rfl, findPathStep_asks hd' hl' hstep, fun hchild hid hne => ?_⟩
  obtain ⟨hstored, hserves⟩ := child_of_lookup hl hchild
  rw [← storedDir_blob hstored, hid] at hstored
  rw [hid] at hne
  obtain ⟨_, hclose', hkept⟩ := h.closes dir x.1.close hd'
  cases hclose'.symm.trans hclose
  have hin : bs.storedDir (.ofNat i) = some e := (hkept _ hne).trans hstored
  obtain ⟨b', p', hb', hp', hfits, rfl⟩ := storedDir_eq_some.mp hin
  cases hb.symm.trans hb'
  cases hp.symm.trans hp'
  simp only [PathAnswer.serves, Bool.and_eq_true, Bool.or_eq_true, beq_iff_eq] at hserves
  refine ⟨⟨_, Function.update_self .., ⟨rfl, rfl, ?_⟩, fun h => by cases h⟩, fun _ b₁ hb₁ => ?_, ?_,
    fun id hne => ?_⟩
  · exact genericBlobIo_entries (.ofNat i) hfits hserves.2
  · cases (Blobstore.setBlob_self bs (.ofNat i) b.opening).symm.trans hb₁
    exact b.settled_opening
  · show p.dDirentCount < 2 ^ 64
    rcases hfits with h0 | ⟨hfits, hcap⟩
    · omega
    · have hlt := b.capacity_lt
      have hsize : p.dDirentCount ≤ p.dDirentCount * sizeofDirent :=
        Nat.le_mul_of_pos_right _ (by decide)
      omega
  · rw [← hkept id hne]
    exact storedDir_update hb rfl b.opening_opening rfl rfl id

/-- A round that finds what its part names, with its index for an id, is made. -/
theorem Walking.enters (h : Walking bs₀ a now s d) (dir : DirPtr)
    (hlen : x.2.strlen ≤ spdkMaxNameCount) {i : Nat}
    (hl : spdkfsDirLookup d x.2 = i) (hid : d.direntId i = .ofNat i)
    (hchild : d.child bs₀ x = some e) (hne : e.blob ≠ a) :
    ∃ s', findPathStep x.1 dir now x.2 s = some (some s') := by
  obtain ⟨d', hd', hl', hi⟩ := h.lookup hlen hl
  obtain ⟨hstored, hserves⟩ := child_of_lookup hl hchild
  rw [storedDir_blob hstored] at hne
  rw [hid] at hstored hne
  obtain ⟨bs, hclose, hkept⟩ := h.closes dir x.1.close hd'
  obtain ⟨b, p, hb, hp, -, -⟩ := storedDir_eq_some.mp ((hkept _ hne).trans hstored)
  simp only [PathAnswer.serves, Bool.and_eq_true, beq_iff_eq] at hserves
  obtain ⟨m, hm⟩ := Option.isSome_iff_exists.mp hserves.1.2
  exact ⟨_, (findPathStep_found hd' hl' hi).mpr
    ⟨bs, b, p, m, hclose, hserves.1.1, hb, hp, hm, rfl⟩⟩

/-! ## All parts -/

variable {ans : Nat → PathAnswer} {k : Nat} {cs t : List CStr} {ok : Bool}

theorem walkParts_asks (h : walkParts ans dir now k cs s = some (s', ok)) :
    ∃ ids, AsksFor s.bs s'.bs ids := by
  induction cs generalizing k s with
  | nil =>
      cases h
      exact ⟨[], AsksFor.refl _⟩
  | cons c cs ih =>
      obtain ⟨o, hstep, hrest⟩ := Option.bind_eq_some_iff.mp h
      cases o with
      | none =>
          cases hrest
          exact ⟨[], AsksFor.refl _⟩
      | some s₁ =>
          obtain ⟨ids, hids⟩ := ih hrest
          obtain ⟨d, hd, -⟩ := Option.bind_eq_some_iff.mp hstep
          rcases lookup_cases d c with hl | ⟨i, -, hl, -⟩
          · rw [findPathStep_missing hd hl] at hstep
            cases hstep
          · exact ⟨_, (findPathStep_asks hd hl hstep).trans hids⟩

/-- Behind a round that asked for `id`, a walk that asked for `all` has asked for the others. -/
theorem walkParts_asked {id : BlobId} {all : List BlobId} {bs : Blobstore g}
    (hid : AsksFor bs s.bs [id]) (hrest : walkParts ans dir now k cs s = some (s', ok))
    (hall : AsksFor bs s'.bs all) : ∃ ids, AsksFor s.bs s'.bs ids ∧ ids ++ [id] = all := by
  obtain ⟨ids, hids⟩ := walkParts_asks hrest
  exact ⟨ids, hids, (hid.trans hids).unique hall⟩

/-- A part that is not found ends the walk, and names no directory. -/
theorem Walking.missing (h : Walking bs₀ a now s d) (dir : DirPtr)
    (hlen : x.2.strlen ≤ spdkMaxNameCount)
    (hl : spdkfsDirLookup d x.2 = -1) :
    findPathStep x.1 dir now x.2 s = some none ∧ d.child bs₀ x = none := by
  obtain ⟨d', hd', hsame, -⟩ := h.inside
  exact ⟨findPathStep_missing hd' ((hsame.lookup hlen).trans hl), if_pos hl⟩

/-- A walk that asks for the right directories, and ends as it should, has gone by indices that
are ids, and no further than the parts. The parts behind these are `t`. -/
theorem Walking.indexed (h : Walking bs₀ a now s d)
    (hlen : ∀ c ∈ cs ++ t, c.strlen ≤ spdkMaxNameCount)
    (hwalk : walkParts ans dir now k (cs ++ t) s = some (s', ok))
    (hasks : AsksFor s.bs s'.bs (d.route bs₀ (answered ans k cs)).reverse)
    (hok : ok = true ↔ (exec (SpdkfsDir.child bs₀) d (answered ans k cs)).isSome = true)
    (htree : a ∉ d.route bs₀ (answered ans k cs)) :
    EachStep (SpdkfsDir.child bs₀) (IndexedPart bs₀) d (answered ans k cs) ∧
      ((exec (SpdkfsDir.child bs₀) d (answered ans k cs)).isSome = true → t = []) := by
  induction cs generalizing k s d with
  | nil =>
      refine ⟨trivial, fun _ => ?_⟩
      cases t with
      | nil => rfl
      | cons c t =>
          exfalso
          have hc : c.strlen ≤ spdkMaxNameCount := hlen c List.mem_cons_self
          obtain ⟨o, hstep, hrest⟩ := Option.bind_eq_some_iff.mp hwalk
          rcases lookup_cases d c with hl | ⟨i, -, hl, -⟩
          · -- the walk stops at a part too many, though all parts have been found
            obtain ⟨hnone, -⟩ := h.missing (x := (ans k, c)) dir hc hl
            cases hnone.symm.trans hstep
            cases hrest
            exact absurd (hok.mpr rfl) (by decide)
          · obtain ⟨s₁, rfl, hone, -⟩ := h.found (x := (ans k, c)) (e := d) hc hl hstep
            obtain ⟨ids, -, hall⟩ := walkParts_asked hone hrest hasks
            simp [answered, SpdkfsDir.route] at hall
  | cons c cs ih =>
      have hc : c.strlen ≤ spdkMaxNameCount := hlen c List.mem_cons_self
      obtain ⟨o, hstep, hrest⟩ := Option.bind_eq_some_iff.mp hwalk
      rcases lookup_cases d c with hl | ⟨i, -, hl, -⟩
      · obtain ⟨-, hnone⟩ := h.missing (x := (ans k, c)) dir hc hl
        refine ⟨⟨fun j hj => ?_, fun e he => ?_⟩, fun hsome => ?_⟩
        · have : spdkfsDirLookup d c = j := hj
          omega
        · cases hnone.symm.trans he
        · rw [answered, exec_cons, hnone] at hsome
          cases hsome
      · cases hchild : d.child bs₀ (ans k, c) with
        | none =>
            obtain ⟨s₁, rfl, hone, -⟩ := h.found (x := (ans k, c)) (e := d) hc hl hstep
            obtain ⟨ids, -, hall⟩ := walkParts_asked hone hrest hasks
            simp [answered, SpdkfsDir.route, hchild] at hall
        | some e =>
            obtain ⟨s₁, rfl, hone, hwalking⟩ := h.found (x := (ans k, c)) (e := e) hc hl hstep
            obtain ⟨ids, hids, hall⟩ := walkParts_asked hone hrest hasks
            rw [answered, SpdkfsDir.route, hchild] at hall htree
            dsimp only at hall htree
            rw [List.reverse_cons] at hall
            obtain ⟨rfl, hid⟩ := List.append_inj' hall rfl
            have hblob : e.blob = .ofNat i := (List.cons.inj hid).1.symm
            have hne : e.blob ≠ a := fun heq => htree (heq ▸ List.mem_cons_self)
            rw [answered, exec_cons, hchild, Option.bind_some] at hok
            obtain ⟨hsteps, hend⟩ := ih (hwalking hchild hblob hne)
              (fun c hc => hlen c (List.mem_cons_of_mem _ hc)) hrest hids hok
              (fun hin => htree (List.mem_cons_of_mem _ hin))
            refine ⟨⟨fun j hj => ?_, fun e' he' => ?_⟩, fun hsome => ?_⟩
            · cases Int.ofNat.inj (hl.symm.trans hj)
              exact ⟨(child_blob hl hchild).symm.trans hblob, by rw [hchild]; rfl⟩
            · cases hchild.symm.trans he'
              exact hsteps
            · rw [answered, exec_cons, hchild, Option.bind_some] at hsome
              exact hend hsome

/-- A walk by indices that are ids goes where the parts lead. -/
theorem Walking.follows (h : Walking bs₀ a now s d) (dir : DirPtr)
    (hlen : ∀ c ∈ cs ++ t, c.strlen ≤ spdkMaxNameCount)
    (hsteps : EachStep (SpdkfsDir.child bs₀) (IndexedPart bs₀) d (answered ans k cs))
    (hend : (exec (SpdkfsDir.child bs₀) d (answered ans k cs)).isSome = true → t = [])
    (htree : a ∉ d.route bs₀ (answered ans k cs)) :
    ∃ s' ok, walkParts ans dir now k (cs ++ t) s = some (s', ok) ∧
      AsksFor s.bs s'.bs (d.route bs₀ (answered ans k cs)).reverse ∧
      (ok = true ↔ (exec (SpdkfsDir.child bs₀) d (answered ans k cs)).isSome = true) ∧
      ∀ e, exec (SpdkfsDir.child bs₀) d (answered ans k cs) = some e →
        ∃ d', s'.dirs now = some d' ∧ e.Alike d' := by
  induction cs generalizing k s d with
  | nil =>
      cases hend rfl
      obtain ⟨d', hd', hsame, -⟩ := h.inside
      refine ⟨s, true, rfl, AsksFor.refl _, iff_of_true rfl rfl, fun e he => ?_⟩
      cases he
      exact ⟨d', hd', hsame⟩
  | cons c cs ih =>
      have hc : c.strlen ≤ spdkMaxNameCount := hlen c List.mem_cons_self
      rcases lookup_cases d c with hl | ⟨i, -, hl, -⟩
      · obtain ⟨hstep, hnone⟩ := h.missing (x := (ans k, c)) dir hc hl
        refine ⟨s, false, ?_, ?_, ?_, fun e he => ?_⟩
        · rw [List.cons_append, walkParts, hstep]
          rfl
        · rw [answered, SpdkfsDir.route, hnone]
          exact AsksFor.refl _
        · rw [answered, exec_cons, hnone]
          exact iff_of_false Bool.false_ne_true Bool.false_ne_true
        · rw [answered, exec_cons, hnone] at he
          cases he
      · obtain ⟨hid, hsome⟩ := hsteps.1 i hl
        obtain ⟨e, hchild⟩ := Option.isSome_iff_exists.mp hsome
        have hblob : e.blob = .ofNat i := (child_blob hl hchild).trans hid
        rw [answered, SpdkfsDir.route, hchild] at htree ⊢
        dsimp only at htree ⊢
        rw [answered, exec_cons, hchild, Option.bind_some] at hend
        rw [exec_cons, hchild, Option.bind_some, List.reverse_cons]
        have hne : e.blob ≠ a := fun heq => htree (heq ▸ List.mem_cons_self)
        obtain ⟨s₁, hstep⟩ := h.enters (x := (ans k, c)) dir hc hl hid hchild hne
        obtain ⟨_, heq, hone, hwalking⟩ := h.found (x := (ans k, c)) (e := e) hc hl hstep
        cases heq
        obtain ⟨s', ok, hwalk, hasks, hok, hlast⟩ := ih (hwalking hchild hblob hne)
          (fun c hc => hlen c (List.mem_cons_of_mem _ hc)) (hsteps.2 e hchild) hend
          (fun hin => htree (List.mem_cons_of_mem _ hin))
        refine ⟨s', ok, ?_, ?_, hok, hlast⟩
        · rw [List.cons_append, walkParts, hstep]
          exact hwalk
        · rw [hblob]
          exact hone.trans hasks

end Walk

/-! ## `find_path` -/

/-- For the path `/`, the caller's object holds the root already. For other paths of slashes, the
array on the stack holds a dot. For a path with parts, all but the last go by indices that are
ids, and no slash is left behind the last unless one of them is not there. -/
structure LeadsByIndex (ans : Nat → PathAnswer) (raw : Mem) (root fileDir : DirPtr)
    (name : CStr) (s : PathState g) (start : SpdkfsDir) : Prop where
  root : name.chars = [slash] → s.dirs fileDir = s.dirs root
  slashes : pathParts name.chars = [] → name.chars ≠ [slash] →
    CStr.ofMem raw (spdkMaxNameCount + 1) = dotName
  parts : ∀ init last, pathParts name.chars = init ++ [last] →
    EachStep (SpdkfsDir.child s.bs) (IndexedPart s.bs) start (answered ans 0 init) ∧
      (name.chars.getLast? = some slash →
        exec (SpdkfsDir.child s.bs) start (answered ans 0 init) = none)

theorem exists_pathFinish (fileDir : DirPtr) {now : DirPtr} {s : PathState g} {ok : Bool}
    (tail : CStr) (h : ok = true → (s.dirs now).isSome = true) :
    ∃ e, pathFinish fileDir now (s, if ok then some tail else none) = some e := by
  cases ok with
  | false => exact ⟨_, rfl⟩
  | true =>
      obtain ⟨d, hd⟩ := Option.isSome_iff_exists.mp (h rfl)
      exact ⟨_, Option.map_eq_some_iff.mpr ⟨d, hd, rfl⟩⟩

theorem pathFinish_eq_some {fileDir now : DirPtr} {s : PathState g} {ok : Bool} {tail : CStr}
    {e : FoundPath g} (h : pathFinish fileDir now (s, if ok then some tail else none) = some e) :
    e.ret = ok ∧ e.state.bs = s.bs ∧ (ok = true → e.tailName = some tail ∧
      e.state.dirs fileDir = s.dirs now ∧ (s.dirs now).isSome = true) := by
  cases ok with
  | false =>
      cases h
      exact ⟨rfl, rfl, fun h => by cases h⟩
  | true =>
      obtain ⟨d, hd, rfl⟩ := Option.map_eq_some_iff.mp h
      refine ⟨rfl, rfl, fun _ => ⟨rfl, ?_, by rw [hd]; rfl⟩⟩
      rw [hd]
      exact Function.update_self ..

/-- A path of slashes begins with one. -/
theorem head_of_no_parts {l : List UInt8} (hne : l ≠ []) (h : pathParts l = []) :
    l.head? = some slash := by
  cases l with
  | nil => exact absurd rfl hne
  | cons c l =>
      by_contra hc
      have hslash : isSlash c = false := by simpa using hc
      rw [pathParts, fields_cons_run hslash] at h
      cases h

theorem pathRounds_of_parts {l : List UInt8} {init : List CStr} {last : CStr}
    (h : pathParts l = init ++ [last]) :
    pathRounds l = init ++ if l.getLast? = some slash then [last] else [] := by
  unfold pathRounds
  rw [h]
  split
  · rfl
  · rw [List.dropLast_concat, List.append_nil]

section FindPath

variable {ans : Nat → PathAnswer} {raw : Mem} {dir root fileDir : DirPtr} {name : CStr}
  {s : PathState g} {start : SpdkfsDir}

/-- A path of slashes. -/
theorem findsPath_slashes_iff (hne : name.chars ≠ []) (hparts : pathParts name.chars = [])
    (hstart : s.dirs (pathCursor name dir root) = some start) :
    FindsPath ans raw dir root fileDir name s ↔
      LeadsByIndex ans raw root fileDir name s start := by
  have hno : ∀ {init : List CStr} {last}, pathParts name.chars ≠ init ++ [last] := by
    intro init last h
    rw [hparts] at h
    exact List.append_ne_nil_of_right_ne_nil init (List.cons_ne_nil last []) h.symm
  by_cases hone : name.chars = [slash]
  · have hfind : findPath ans raw dir root fileDir name s = some ⟨s, some dotName, true⟩ :=
      if_pos hone
    constructor
    · rintro ⟨e, he, hslashes, -⟩
      cases hfind.symm.trans he
      exact ⟨fun _ => (hslashes hparts).2.2, fun _ h => absurd hone h, fun _ _ h => absurd h hno⟩
    · intro h
      exact ⟨_, hfind, fun _ => ⟨rfl, rfl, h.root hone⟩, fun _ _ h => absurd h hno⟩
  · have hcursor : pathCursor name dir root = root := if_pos (head_of_no_parts hne hparts)
    have hrounds : pathRounds name.chars = [] := by
      unfold pathRounds
      rw [hparts]
      split <;> rfl
    have hfind : findPath ans raw dir root fileDir name s =
        some ⟨{ s with dirs := Function.update s.dirs fileDir (some start) },
          some (.ofMem raw (spdkMaxNameCount + 1)), true⟩ := by
      rw [findPath_eq hone fun w hw => ?_, hrounds, hparts]
      · show pathFinish fileDir (pathCursor name dir root) (s, some _) = _
        rw [pathFinish]
        dsimp only
        rw [hstart, Option.map_some]
        rfl
      · rw [List.map_eq_nil_iff.mp hparts] at hw
        cases hw
    rw [hcursor] at hstart
    constructor
    · rintro ⟨e, he, hslashes, -⟩
      cases hfind.symm.trans he
      exact ⟨fun h => absurd h hone, fun _ _ => Option.some.inj (hslashes hparts).2.1,
        fun _ _ h => absurd h hno⟩
    · intro h
      refine ⟨_, hfind, fun _ => ⟨rfl, congrArg some (h.slashes hparts hone), ?_⟩,
        fun _ _ h => absurd h hno⟩
      rw [hstart]
      exact Function.update_self ..

/-- On a path with parts `find_path` walks all but the last, and the last as well if a slash is left
behind it. -/
theorem findPath_of_parts {init : List CStr} {last : CStr}
    (hparts : pathParts name.chars = init ++ [last]) (hone : name.chars ≠ [slash])
    (hlen : ∀ c ∈ pathParts name.chars, c.strlen ≤ spdkMaxNameCount) :
    findPath ans raw dir root fileDir name s =
      (walkParts ans dir (pathCursor name dir root) 0
        (init ++ if name.chars.getLast? = some slash then [last] else []) s).bind fun r =>
          pathFinish fileDir (pathCursor name dir root)
            (r.1, if r.2 then some last else none) := by
  have hfields : ∀ w ∈ fields isSlash name.chars, w.length ≤ spdkMaxNameCount := by
    intro w hw
    rw [← CStr.strlen_ofBytes (@CStr.noNul_of_mem_fields name 0 w hw)]
    exact hlen (.ofBytes w) (List.mem_map_of_mem hw)
  rw [findPath_eq hone hfields, pathRounds_of_parts hparts, hparts, List.getLastD_concat]

/-- A path with parts. -/
theorem findsPath_parts_iff {init : List CStr} {last : CStr}
    (hparts : pathParts name.chars = init ++ [last])
    (hlen : ∀ c ∈ pathParts name.chars, c.strlen ≤ spdkMaxNameCount)
    (hstart : s.dirs (pathCursor name dir root) = some start)
    (hopen : (s.bs.opened start.blob).isSome = true) (hcount : start.count < 2 ^ 64)
    (htree : start.blob ∉ start.route s.bs (answered ans 0 init)) :
    FindsPath ans raw dir root fileDir name s ↔
      LeadsByIndex ans raw root fileDir name s start := by
  have hsome : pathParts name.chars ≠ [] := by
    rw [hparts]
    exact List.append_ne_nil_of_right_ne_nil init (List.cons_ne_nil last [])
  have hone : name.chars ≠ [slash] := by
    intro hone
    rw [hone] at hsome
    exact hsome rfl
  have hwalking : Walking s.bs start.blob (pathCursor name dir root) s start :=
    ⟨⟨start, hstart, SpdkfsDir.Alike.refl start, fun _ => ⟨rfl, hopen⟩⟩, fun h => absurd rfl h,
      hcount, fun _ _ => rfl⟩
  have hlen' : ∀ c ∈ init ++ (if name.chars.getLast? = some slash then [last] else []),
      c.strlen ≤ spdkMaxNameCount := by
    intro c hc
    apply hlen
    rw [hparts]
    split at hc
    · exact hc
    · rw [List.append_nil] at hc
      exact List.mem_append_left _ hc
  -- how a path with parts is taken apart is settled
  have hsplit : ∀ {init' : List CStr} {last' : CStr}, pathParts name.chars = init' ++ [last'] →
      init' = init ∧ last' = last := by
    intro init' last' h
    obtain ⟨hinit, hlast⟩ := List.append_inj' (h.symm.trans hparts) rfl
    exact ⟨hinit, (List.cons.inj hlast).1⟩
  constructor
  · rintro ⟨e, he, -, hfollows⟩
    obtain ⟨hthrough, hret, -, -⟩ := hfollows init last hparts start hstart
    rw [findPath_of_parts hparts hone hlen] at he
    obtain ⟨⟨s', ok⟩, hwalk, hfinish⟩ := Option.bind_eq_some_iff.mp he
    obtain ⟨rfl, hbs, -⟩ := pathFinish_eq_some hfinish
    rw [hbs] at hthrough
    obtain ⟨hsteps, hend⟩ := hwalking.indexed hlen' hwalk hthrough hret htree
    refine ⟨fun h => absurd h hone, fun h => absurd h hsome, fun init' last' h => ?_⟩
    obtain ⟨rfl, rfl⟩ := hsplit h
    refine ⟨hsteps, fun htrail => ?_⟩
    rw [if_pos htrail] at hend
    by_contra hreached
    exact List.cons_ne_nil _ _ (hend (Option.isSome_iff_ne_none.mpr hreached))
  · intro h
    obtain ⟨hsteps, htrail⟩ := h.parts init last hparts
    obtain ⟨s', ok, hwalk, hthrough, hok, hlast⟩ := hwalking.follows dir hlen' hsteps
      (fun hreached => if_neg fun hslash => by rw [htrail hslash] at hreached; cases hreached) htree
    obtain ⟨e, hfinish⟩ := exists_pathFinish fileDir last fun htrue => by
      obtain ⟨d, hd⟩ := Option.isSome_iff_exists.mp (hok.mp htrue)
      obtain ⟨d', hd', -⟩ := hlast d hd
      exact Option.isSome_iff_exists.mpr ⟨d', hd'⟩
    obtain ⟨hret, hbs, hdone⟩ := pathFinish_eq_some hfinish
    refine ⟨e, ?_, fun hnil => absurd hnil hsome, fun init' last' hparts' start' hstart' => ?_⟩
    · rw [findPath_of_parts hparts hone hlen, hwalk]
      exact hfinish
    · obtain ⟨rfl, rfl⟩ := hsplit hparts'
      cases hstart.symm.trans hstart'
      refine ⟨?_, ?_, ?_, ?_⟩
      · rw [hbs]
        exact hthrough
      · rw [hret]
        exact hok
      · intro htrue
        exact (hdone (hret.symm.trans htrue)).1
      · intro d hd
        obtain ⟨d', hd', hsame⟩ := hlast d hd
        have htrue : ok = true := hok.mpr (by rw [hd]; rfl)
        exact ⟨d', (hdone htrue).2.1.trans hd', hsame⟩

end FindPath

/-- **Where `find_path` leads.** For every tree, every directory to start from and every path whose
parts fit a name, `find_path` resolves just the path exactly when it leads by indices that are
ids and, but for what is not there, ends in no slash. -/
theorem findsPath_iff {ans : Nat → PathAnswer} {raw : Mem} {dir root fileDir : DirPtr}
    {name : CStr} {s : PathState g} {start : SpdkfsDir} (hne : name.chars ≠ [])
    (hlen : ∀ c ∈ pathParts name.chars, c.strlen ≤ spdkMaxNameCount)
    (hstart : s.dirs (pathCursor name dir root) = some start)
    (hopen : (s.bs.opened start.blob).isSome = true) (hcount : start.count < 2 ^ 64)
    (htree : ∀ init last, pathParts name.chars = init ++ [last] →
      start.blob ∉ start.route s.bs (answered ans 0 init)) :
    FindsPath ans raw dir root fileDir name s ↔
      LeadsByIndex ans raw root fileDir name s start := by
  rcases List.eq_nil_or_concat (pathParts name.chars) with hnil | ⟨init, last, hparts⟩
  · exact findsPath_slashes_iff hne hnil hstart
  · rw [List.concat_eq_append] at hparts
    exact findsPath_parts_iff hparts hlen hstart hopen hcount (htree init last hparts)

/-- Every request goes through, and fresh memory is zero. -/
def PathAnswer.done : PathAnswer where
  close := ⟨⟨0, 0⟩, .done, 0⟩
  openErrno := 0
  mem := some fun _ => 0
  io := .done

/-- A root with the directory `a`, the blob `id`. -/
def oneDirRoot (id : BlobId) : SpdkfsDir :=
  ⟨1, true, ⟨0, 1, 4096, 1⟩, writeDirent (fun _ => 0) 0 id nameA, false⟩

/-- It is the blob 1, and `a` is empty. -/
def oneDir (id : BlobId) : PathState .malloc4k where
  bs :=
    { blobs := Function.update (Function.update (fun _ => none)
        id (some ((Blob.fresh fun _ => 0).setDirPersistent ⟨0, 0, 0, id⟩).synced))
        1 (some
          ((Blob.fresh fun _ => 0).setDirPersistent (oneDirRoot id).dirPersist).synced.opening)
      log := [] }
  dirs := fun p => if p = 0 then some (oneDirRoot id) else none

/-- `a/b` -/
def pathAB : CStr := ⟨[97, 47, 98], by decide⟩

/-- With the id 0, which is its index, the directory is found. -/
theorem findsPath_zero :
    FindsPath (fun _ => .done) (fun _ => 0) 0 0 1 pathAB (oneDir 0) := by
  have hparts : pathParts pathAB.chars = [nameA] ++ [nameB] := by decide
  have hinit : ∀ init last, pathParts pathAB.chars = init ++ [last] → init = [nameA] := by
    intro init last h
    exact (List.append_inj' (h.symm.trans hparts) rfl).1
  refine (findsPath_iff (by decide) (by decide) rfl (by decide +kernel) (by decide) ?_).mpr ?_
  · intro init last h
    cases hinit init last h
    decide +kernel
  · refine ⟨fun h => absurd h (by decide), fun h => absurd h (by decide), fun init last h => ?_⟩
    cases hinit init last h
    refine ⟨⟨fun i hi => ?_, fun _ _ => trivial⟩, fun h => absurd h (by decide)⟩
    have hzero : spdkfsDirLookup (oneDirRoot 0) nameA = (0 : Nat) := by decide +kernel
    cases Int.ofNat.inj (hzero.symm.trans hi)
    exact ⟨by decide +kernel, by decide +kernel⟩

/-- With the id 2 there is no blob that has its index for an id. -/
theorem findsPath_not_two :
    ¬ FindsPath (fun _ => .done) (fun _ => 0) 0 0 1 pathAB (oneDir 2) := by
  rintro ⟨e, he, -⟩
  have hnone : (findPath (fun _ => .done) (fun _ => 0) 0 0 1 pathAB (oneDir 2)).isNone = true := by
    decide +kernel
  rw [he] at hnone
  cases hnone

end BlobTopFs
