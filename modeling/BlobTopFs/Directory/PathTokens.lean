import BlobTopFs.SimpleFs.PathParts

/-!
# The parts of a path, one call after the other

`get_next_part` is called on one cursor until it has no further part to hand out. The parts are
then the runs of the string between its slashes, up to the first that does not fit a part; the
cursor stays before that one.
-/

namespace BlobTopFs

/-! ## What the calls should hand out -/

/-- The maximal nonempty runs without a slash. -/
def segments (l : List UInt8) : List (List UInt8) := (l.splitOn slash).filter fun w => !w.isEmpty

/-- The run fits a part. -/
def fitsPart (w : List UInt8) : Bool := decide (w.length ≤ spdkMaxNameCount)

/-- What the calls hand out before the last, what that one returns, and what they leave in `part`
and `*srcp`. -/
structure PartsRead where
  parts : List CStr
  ret : Int
  part : Mem
  srcp : Nat

/-- `get_next_part` is called until it returns something other than 1. -/
def readParts (s : CStr) : (fuel : Nat) → Mem → (srcp : Nat) → Option PartsRead
  | 0, _, _ => none
  | fuel + 1, part, srcp =>
      (getNextPart part s srcp).bind fun p =>
        if p.ret = 1 then
          (readParts s fuel p.part p.srcp).map fun r =>
            { r with parts := .ofMem p.part (spdkMaxNameCount + 1) :: r.parts }
        else some ⟨[], p.ret, p.part, p.srcp⟩

/-- The calls have handed out the segments of `l` that fit, up to the first that does not. If there
is one, the last call has returned -1 with the cursor still before it, and 0 otherwise. Nothing is
written behind the array. -/
structure PartsRead.Tokenizes (s : CStr) (l : List UInt8) (part : Mem) (r : PartsRead) : Prop where
  parts : r.parts.map CStr.chars = (segments l).takeWhile fitsPart
  ret : r.ret = if (segments l).all fitsPart then 0 else -1
  inside : r.srcp ≤ s.strlen
  cursor : segments (s.rest r.srcp) = (segments l).dropWhile fitsPart
  outside : ∀ q, spdkMaxNameCount < q → r.part q = part q

/-! ## One call -/

theorem segments_eq_fields (l : List UInt8) : segments l = fields isSlash l :=
  (fields_eq_filter_splitOnP isSlash l).symm

theorem storePart_outside {part part' : Mem} {dst q : Nat} {c : UInt8}
    (h : storePart part dst c = some part') (hq : spdkMaxNameCount < q) : part' q = part q := by
  unfold storePart at h
  split at h
  · cases h
    exact Function.update_of_ne (by omega) ..
  · cases h

section NextPart

variable {s : CStr} {part part' : Mem} {src q : Nat}

theorem copyPart_outside {fuel dst : Nat} {o : Option (Nat × Nat)}
    (h : copyPart s fuel src dst part = some (part', o)) (hq : spdkMaxNameCount < q) :
    part' q = part q := by
  induction fuel generalizing src dst part with
  | zero => cases h
  | succ fuel ih =>
      obtain ⟨c, -, h⟩ := Option.bind_eq_some_iff.mp h
      split at h
      · split at h
        · obtain ⟨part₁, hstore, hrest⟩ := Option.bind_eq_some_iff.mp h
          exact (ih hrest).trans (storePart_outside hstore hq)
        · cases h
          rfl
      · cases h
        rfl

/-- A call writes nothing behind the array. -/
theorem getNextPart_outside {p : NextPart} (h : getNextPart part s src = some p)
    (hq : spdkMaxNameCount < q) : p.part q = part q := by
  rcases getNextPart_cases h with rfl | ⟨start, part', ⟨hcopy, rfl⟩ | ⟨src', dst, hcopy, hdst, rfl⟩⟩
  · rfl
  · exact copyPart_outside hcopy hq
  · refine Eq.trans (Function.update_of_ne ?_ ..) (copyPart_outside hcopy hq)
    omega

end NextPart

/-! ## All calls -/

namespace PartsRead

variable {s : CStr} {part part' : Mem} {src : Nat} {l l' w : List UInt8} {ws : List (List UInt8)}

/-- Without a segment the first call is the last. -/
theorem tokenizes_nil (h : src ≤ s.strlen) (hseg : segments (s.rest src) = []) :
    Tokenizes s (s.rest src) part ⟨[], 0, part, src⟩ := by
  refine ⟨?_, ?_, h, ?_, fun _ _ => rfl⟩
  · rw [hseg]
    rfl
  · rw [hseg]
    rfl
  · rw [hseg]
    rfl

/-- So it is at a segment that is too long, and leaves the cursor before it. -/
theorem tokenizes_long (h : src ≤ s.strlen) (hseg : segments (s.rest src) = w :: ws)
    (hlong : fitsPart w = false) (hout : ∀ q, spdkMaxNameCount < q → part' q = part q) :
    Tokenizes s (s.rest src) part ⟨[], -1, part', src⟩ := by
  refine ⟨?_, ?_, h, ?_, hout⟩
  · rw [hseg, List.takeWhile_cons, hlong]
    rfl
  · rw [hseg, List.all_cons, hlong]
    rfl
  · rw [hseg, List.dropWhile_cons, hlong]
    rfl

/-- A segment that fits is handed out before those behind it. -/
theorem Tokenizes.cons {r : PartsRead} {c : CStr} (hr : r.Tokenizes s l' part')
    (hseg : segments l = c.chars :: segments l') (hfits : fitsPart c.chars = true)
    (hout : ∀ q, spdkMaxNameCount < q → part' q = part q) :
    Tokenizes s l part { r with parts := c :: r.parts } := by
  refine ⟨?_, ?_, hr.inside, ?_, fun q hq => (hr.outside q hq).trans (hout q hq)⟩
  · rw [hseg, List.takeWhile_cons, if_pos hfits, ← hr.parts, List.map_cons]
  · rw [hseg, List.all_cons, hfits, Bool.true_and]
    exact hr.ret
  · rw [hseg, List.dropWhile_cons, if_pos hfits]
    exact hr.cursor

end PartsRead

/-- From any place in the string on, by induction on the calls that are left. -/
theorem readParts_spec {s : CStr} (fuel : Nat) {src : Nat} (part : Mem) (h : src ≤ s.strlen)
    (hfuel : s.strlen - src < fuel) :
    ∃ r, readParts s fuel part src = some r ∧ r.Tokenizes s (s.rest src) part := by
  induction fuel generalizing src part with
  | zero => omega
  | succ fuel ih =>
      have hseg := fields_of_dropWhile isSlash (s.rest src)
      rw [← segments_eq_fields] at hseg
      cases hrest : (s.rest src).dropWhile isSlash with
      | nil =>
          rw [hrest] at hseg
          refine ⟨_, ?_, PartsRead.tokenizes_nil h hseg⟩
          rw [readParts, getNextPart_end part h hrest]
          rfl
      | cons b body =>
          rw [hrest] at hseg
          dsimp only at hseg
          by_cases hlen : (b :: body.takeWhile fun x => !isSlash x).length ≤ spdkMaxNameCount
          · obtain ⟨part', src', hnext, hlt, hle, hafter, hpart⟩ :=
              getNextPart_part part h hrest hlen
            obtain ⟨r, hread, htokens⟩ := ih part' hle (by omega)
            have hnul : (0 : UInt8) ∉ b :: body.takeWhile fun x => !isSlash x := by
              refine @CStr.noNul_of_mem_fields s src _ ?_
              rw [← segments_eq_fields, hseg]
              exact List.mem_cons_self
            have hchars : (CStr.ofMem part' (spdkMaxNameCount + 1)).chars =
                b :: body.takeWhile fun x => !isSlash x := by
              rw [CStr.ofMem_eq hnul hpart (Nat.lt_succ_of_le hlen), CStr.ofBytes_chars hnul]
            rw [← hafter, ← segments_eq_fields, ← hchars] at hseg
            refine ⟨_, ?_, htokens.cons hseg ?_ fun q hq => getNextPart_outside hnext hq⟩
            · rw [readParts, hnext, Option.bind_some, if_pos rfl, hread]
              rfl
            · rw [hchars]
              exact decide_eq_true hlen
          · obtain ⟨part', hnext⟩ := getNextPart_long part h hrest (not_le.mp hlen)
            refine ⟨_, ?_, PartsRead.tokenizes_long h hseg (decide_eq_false hlen)
              fun q hq => getNextPart_outside hnext hq⟩
            rw [readParts, hnext, Option.bind_some, if_neg (show ¬ (-1 : Int) = 1 by decide)]

/-- **The tokenizer.** For every string, calls of `get_next_part` until it returns something other
than 1 come to an end, read nothing behind the terminator and write nothing behind the array, and
hand out its segments up to the first that does not fit. -/
theorem readParts_tokenizes (s : CStr) (part : Mem) :
    ∃ r, readParts s (s.strlen + 1) part 0 = some r ∧ r.Tokenizes s s.chars part :=
  readParts_spec (s.strlen + 1) part (Nat.zero_le _) (Nat.lt_succ_self _)

end BlobTopFs
