import Mathlib.Data.List.Basic
import BlobTopFs.Lib.Split
import BlobTopFs.SimpleFs.FindPath

/-!
# `find_path` without the string

`get_next_part` reads one part of the path after the other, and the loop of `find_path` stops one
part early by looking at how much of the path remains. So it goes through all parts but the last,
or through all of them if a slash follows the last. This module says so once (`findPath_eq`), in
terms of the round that is made for each part.
-/

namespace BlobTopFs

open Machine

variable {g : Geometry}

/-! ## Parts -/

abbrev isSlash (c : UInt8) : Bool := c == slash

/-- The string that bytes begin with. -/
def CStr.ofBytes (w : List UInt8) : CStr where
  chars := w.takeWhile (· ≠ 0)
  noNul := fun h => by simpa using List.mem_takeWhile_imp h

/-- The nonempty parts of a path. -/
def pathParts (l : List UInt8) : List CStr := (fields isSlash l).map CStr.ofBytes

/-- The parts that the loop of `find_path` makes a round for. -/
def pathRounds (l : List UInt8) : List CStr :=
  if l.getLast? = some slash then pathParts l else (pathParts l).dropLast

theorem CStr.ofBytes_chars {w : List UInt8} (h : (0 : UInt8) ∉ w) : (CStr.ofBytes w).chars = w := by
  refine List.takeWhile_eq_self_iff.mpr fun c hc => decide_eq_true ?_
  rintro rfl
  exact h hc

theorem CStr.strlen_ofBytes {w : List UInt8} (h : (0 : UInt8) ∉ w) :
    (CStr.ofBytes w).strlen = w.length :=
  congrArg List.length (CStr.ofBytes_chars h)

/-- A buffer that a string stands in holds just that string. -/
theorem CStr.ofMem_eq {m : Mem} {n : Nat} {w : List UInt8} (h : (0 : UInt8) ∉ w)
    (hw : strEq m 0 w = true) (hn : w.length < n) : CStr.ofMem m n = .ofBytes w := by
  rw [strEq_iff] at hw
  obtain ⟨hbytes, hend⟩ := hw
  simp only [Nat.zero_add] at hbytes hend
  -- the buffer is the string, its terminator and whatever is behind that
  have hsplit : (List.range n).map m =
      w ++ 0 :: (List.range (n - w.length - 1)).map fun k => m (w.length + 1 + k) := by
    have hrange : List.range n =
        List.range w.length ++
          (w.length :: (List.range (n - w.length - 1)).map (w.length + 1 + ·)) := by
      conv_lhs => rw [show n = w.length + (1 + (n - w.length - 1)) by omega]
      rw [List.range_add, List.range_add]
      simp [Function.comp_def, Nat.add_assoc]
    rw [hrange, List.map_append, List.map_cons, List.map_map, hend]
    congr 1
    apply List.ext_getElem
    · simp
    · intro k h1 h2
      rw [List.getElem_map, List.getElem_range, hbytes k h2]
      exact List.getD_eq_getElem w 0 h2
  have hchars : (CStr.ofMem m n).chars = w := by
    show ((List.range n).map m).takeWhile (· ≠ 0) = w
    have hpos : ∀ c ∈ w, decide (c ≠ 0) = true := by
      intro c hc
      apply decide_eq_true
      rintro rfl
      exact h hc
    rw [hsplit, List.takeWhile_append_of_pos hpos]
    simp
  exact CStr.ext_chars (hchars.trans (CStr.ofBytes_chars h).symm)

/-! ## `get_next_part` -/

section NextPart

variable {s : CStr}

/-- What is left of a path from `src` on. -/
abbrev CStr.rest (s : CStr) (src : Nat) : List UInt8 := s.chars.drop src

/-- No part of what is left of a string holds the terminator. -/
theorem CStr.noNul_of_mem_fields {name : CStr} {src : Nat} {w : List UInt8}
    (hw : w ∈ fields isSlash (name.rest src)) : (0 : UInt8) ∉ w :=
  fun h0 => name.noNul (List.mem_of_mem_drop (mem_of_mem_fields hw h0))

theorem CStr.read_eq {src : Nat} (h : src ≤ s.strlen) : s.read src = some (s.mem src) := if_pos h

/-- The bytes read one after the other are those of the rest. -/
theorem CStr.rest_cases {src : Nat} (h : src ≤ s.strlen) :
    (src = s.strlen ∧ s.rest src = [] ∧ s.mem src = 0) ∨
      src < s.strlen ∧ s.rest src = s.mem src :: s.rest (src + 1) ∧ s.mem src ≠ 0 := by
  rcases Nat.eq_or_lt_of_le h with rfl | hlt
  · exact Or.inl ⟨rfl, List.drop_length, CStr.mem_strlen s⟩
  · refine Or.inr ⟨hlt, ?_, CStr.mem_ne_zero hlt⟩
    rw [CStr.mem_of_lt hlt]
    exact List.drop_eq_getElem_cons hlt

theorem skipSlashes_spec (fuel : Nat) {src : Nat} (h : src ≤ s.strlen)
    (hfuel : s.strlen - src < fuel) :
    ∃ src', skipSlashes s fuel src = some src' ∧ src ≤ src' ∧ src' ≤ s.strlen ∧
      s.rest src' = (s.rest src).dropWhile isSlash := by
  induction fuel generalizing src with
  | zero => omega
  | succ fuel ih =>
      rw [skipSlashes, CStr.read_eq h, Option.bind_some]
      rcases CStr.rest_cases h with ⟨-, hrest, hz⟩ | ⟨hlt, hrest, -⟩
      · -- the terminator is no slash
        rw [if_neg (by rw [hz]; decide), hrest]
        exact ⟨src, rfl, Nat.le_refl _, h, hrest⟩
      · rw [hrest, List.dropWhile_cons]
        by_cases hc : s.mem src = slash
        · rw [if_pos hc, if_pos (by simp [hc])]
          obtain ⟨src', hskip, hge, hle, hrest'⟩ := ih (show src + 1 ≤ s.strlen from hlt) (by omega)
          exact ⟨src', hskip, by omega, hle, hrest'⟩
        · rw [if_neg hc, if_neg (by simp [hc])]
          exact ⟨src, rfl, Nat.le_refl _, h, hrest⟩

/-- A part of at most `SPDK_MAX_NAME_COUNT` bytes is copied, and what stands before it stays. -/
theorem copyPart_spec (fuel : Nat) {src : Nat} (dst : Nat) (part : Mem) (h : src ≤ s.strlen)
    (hfuel : s.strlen - src < fuel)
    (hlen : dst + ((s.rest src).takeWhile fun c => !isSlash c).length ≤ spdkMaxNameCount) :
    ∃ part' src' dst', copyPart s fuel src dst part = some (part', some (src', dst')) ∧
      src ≤ src' ∧ src' ≤ s.strlen ∧ s.rest src' = (s.rest src).dropWhile (fun c => !isSlash c) ∧
      dst' = dst + ((s.rest src).takeWhile fun c => !isSlash c).length ∧
      (∀ q < dst, part' q = part q) ∧
      ∀ k < ((s.rest src).takeWhile fun c => !isSlash c).length,
        part' (dst + k) = ((s.rest src).takeWhile fun c => !isSlash c).getD k 0 := by
  induction fuel generalizing src dst part with
  | zero => omega
  | succ fuel ih =>
      rw [copyPart, CStr.read_eq h, Option.bind_some]
      rcases CStr.rest_cases h with ⟨-, hrest, hz⟩ | ⟨hlt, hrest, hnz⟩
      · -- the terminator ends the part, and so does a slash
        rw [if_neg (by simp [hz]), hrest]
        exact ⟨part, src, dst, rfl, Nat.le_refl _, h, hrest, rfl, fun _ _ => rfl,
          fun k hk => by cases hk⟩
      · rw [hrest, List.takeWhile_cons] at hlen ⊢
        rw [List.dropWhile_cons]
        by_cases hc : s.mem src = slash
        · rw [if_neg (by simp [hc]), if_neg (by simp [hc]), if_neg (by simp [hc])]
          exact ⟨part, src, dst, rfl, Nat.le_refl _, h, hrest, rfl, fun _ _ => rfl,
            fun k hk => by cases hk⟩
        · -- a byte of the part is stored behind those that were, and the rest follows
          have hrun : (!isSlash (s.mem src)) = true := by simp [hc]
          rw [if_pos hrun] at hlen ⊢
          rw [if_pos hrun, if_pos ⟨hc, hnz⟩, List.length_cons] at *
          rw [if_pos (by omega), storePart, if_pos (by omega), Option.bind_some]
          obtain ⟨part', src', dst', hcopy, hge, hle, hrest', hdst, hbefore, hbytes⟩ :=
            ih (dst + 1) (Function.update part dst (s.mem src))
              (show src + 1 ≤ s.strlen from hlt) (by omega) (by omega)
          refine ⟨part', src', dst', hcopy, by omega, hle, hrest', by omega, ?_, ?_⟩
          · intro q hq
            rw [hbefore q (by omega), Function.update_of_ne (by omega)]
          · intro k hk
            cases k with
            | zero => rw [Nat.add_zero, hbefore dst (by omega), Function.update_self]; rfl
            | succ k =>
                rw [show dst + (k + 1) = dst + 1 + k by omega, hbytes k (by omega)]
                rfl

variable {src : Nat}

/-- What a call does: there is no part, or it copies one that is too long, or one that it ends. -/
theorem getNextPart_cases {part : Mem} {p : NextPart} (h : getNextPart part s src = some p) :
    p = ⟨0, part, src⟩ ∨ ∃ start part',
      (copyPart s (s.strlen + 1) start 0 part = some (part', none) ∧ p = ⟨-1, part', src⟩) ∨
      ∃ src' dst, copyPart s (s.strlen + 1) start 0 part = some (part', some (src', dst)) ∧
        dst ≤ spdkMaxNameCount ∧ p = ⟨1, Function.update part' dst 0, src'⟩ := by
  obtain ⟨start, -, h⟩ := Option.bind_eq_some_iff.mp h
  obtain ⟨c, -, h⟩ := Option.bind_eq_some_iff.mp h
  split at h
  · exact Or.inl (Option.some.inj h).symm
  · obtain ⟨⟨part', o⟩, hcopy, h⟩ := Option.bind_eq_some_iff.mp h
    refine Or.inr ⟨start, part', ?_⟩
    cases o with
    | none => exact Or.inl ⟨hcopy, (Option.some.inj h).symm⟩
    | some ends =>
        obtain ⟨part'', hstore, heq⟩ := Option.map_eq_some_iff.mp h
        unfold storePart at hstore
        split at hstore
        · next hdst =>
            cases hstore
            exact Or.inr ⟨ends.1, ends.2, hcopy, Nat.le_of_lt_succ hdst, heq.symm⟩
        · cases hstore

theorem not_slash_of_dropWhile {l body : List UInt8} {c : UInt8}
    (h : l.dropWhile isSlash = c :: body) : (!isSlash c) = true := by
  have hne : l.dropWhile isSlash ≠ [] := by simp [h]
  have := List.head_dropWhile_not isSlash hne
  simpa [h] using this

/-- With slashes alone left there is no next part, -/
theorem getNextPart_end (part : Mem) (h : src ≤ s.strlen)
    (hrest : (s.rest src).dropWhile isSlash = []) :
    getNextPart part s src = some ⟨0, part, src⟩ := by
  obtain ⟨src', hskip, -, hle, hrest'⟩ :=
    skipSlashes_spec (s.strlen + 1) h (by omega)
  rw [hrest] at hrest'
  rcases CStr.rest_cases hle with ⟨-, -, hz⟩ | ⟨-, hcons, -⟩
  · rw [getNextPart, hskip, Option.bind_some, CStr.read_eq hle, Option.bind_some, if_pos hz]
  · rw [hrest'] at hcons
    cases hcons

/-- and otherwise it is the run of other bytes that comes next. -/
theorem getNextPart_part (part : Mem) (h : src ≤ s.strlen) {c : UInt8} {body : List UInt8}
    (hrest : (s.rest src).dropWhile isSlash = c :: body)
    (hlen : (c :: body.takeWhile fun b => !isSlash b).length ≤ spdkMaxNameCount) :
    ∃ part' src', getNextPart part s src = some ⟨1, part', src'⟩ ∧ src < src' ∧ src' ≤ s.strlen ∧
      s.rest src' = body.dropWhile (fun b => !isSlash b) ∧
      strEq part' 0 (c :: body.takeWhile fun b => !isSlash b) = true := by
  obtain ⟨src₁, hskip, hge, hle, hrest₁⟩ := skipSlashes_spec (s.strlen + 1) h (by omega)
  rw [hrest] at hrest₁
  have hc := not_slash_of_dropWhile hrest
  have hrun : (s.rest src₁).takeWhile (fun b => !isSlash b) =
      c :: body.takeWhile fun b => !isSlash b := by
    rw [hrest₁, List.takeWhile_cons, if_pos hc]
  have hleft : (s.rest src₁).dropWhile (fun b => !isSlash b) =
      body.dropWhile fun b => !isSlash b := by
    rw [hrest₁, List.dropWhile_cons, if_pos hc]
  -- behind the slashes something is left, so the part is copied
  rcases CStr.rest_cases hle with ⟨-, hnil, -⟩ | ⟨-, -, hnz⟩
  · rw [hnil] at hrest₁
    cases hrest₁
  · obtain ⟨part₁, src', dst', hcopy, hge', hle', hrest', rfl, -, hbytes⟩ :=
      copyPart_spec (s.strlen + 1) 0 part hle (by omega) (by rw [hrun]; omega)
    rw [hrun] at hcopy hbytes
    rw [hleft] at hrest'
    refine ⟨Function.update part₁ (0 + (c :: body.takeWhile fun b => !isSlash b).length) 0, src',
      ?_, ?_, hle', hrest', ?_⟩
    · rw [getNextPart, hskip, Option.bind_some, CStr.read_eq hle, Option.bind_some, if_neg hnz,
        hcopy, Option.bind_some]
      dsimp only
      rw [storePart, if_pos (by omega), Option.map_some]
    · rcases Nat.lt_or_ge src src' with hlt | hno
      · exact hlt
      · -- the part has a byte at least, which is no longer left
        have heq : src' = src₁ := by omega
        rw [heq, hrest₁] at hrest'
        have hlong := congrArg List.length hrest'
        have hshort := (List.dropWhile_sublist (fun b => !isSlash b) (l := body)).length_le
        rw [List.length_cons] at hlong
        omega
    · rw [strEq_iff]
      refine ⟨fun k hk => ?_, Function.update_self ..⟩
      rw [Function.update_of_ne (by omega)]
      exact hbytes k hk

/-- A part that is too long fills the array and is given up. -/
theorem copyPart_long (fuel : Nat) {src : Nat} (dst : Nat) (part : Mem) (h : src ≤ s.strlen)
    (hfuel : s.strlen - src < fuel) (hdst : dst ≤ spdkMaxNameCount)
    (hlong : spdkMaxNameCount < dst + ((s.rest src).takeWhile fun c => !isSlash c).length) :
    ∃ part', copyPart s fuel src dst part = some (part', none) := by
  induction fuel generalizing src dst part with
  | zero => omega
  | succ fuel ih =>
      rw [copyPart, CStr.read_eq h, Option.bind_some]
      rcases CStr.rest_cases h with ⟨-, hrest, -⟩ | ⟨hlt, hrest, hnz⟩
      · rw [hrest] at hlong
        exact absurd hlong (Nat.not_lt_of_le hdst)
      · rw [hrest, List.takeWhile_cons] at hlong
        by_cases hc : s.mem src = slash
        · rw [if_neg (by simp [hc])] at hlong
          exact absurd hlong (Nat.not_lt_of_le hdst)
        · -- one more byte is stored, or the array is full: both count towards the length
          rw [if_pos (by simp [hc]), List.length_cons] at hlong
          rw [if_pos ⟨hc, hnz⟩]
          split
          · next hroom =>
              rw [storePart, if_pos (by omega), Option.bind_some]
              exact ih (dst + 1) _ (show src + 1 ≤ s.strlen from hlt) (by omega) hroom (by omega)
          · exact ⟨part, rfl⟩

theorem getNextPart_long (part : Mem) (h : src ≤ s.strlen) {c : UInt8} {body : List UInt8}
    (hrest : (s.rest src).dropWhile isSlash = c :: body)
    (hlong : spdkMaxNameCount < (c :: body.takeWhile fun b => !isSlash b).length) :
    ∃ part', getNextPart part s src = some ⟨-1, part', src⟩ := by
  obtain ⟨src₁, hskip, -, hle, hrest₁⟩ := skipSlashes_spec (s.strlen + 1) h (by omega)
  rw [hrest] at hrest₁
  have hrun : (s.rest src₁).takeWhile (fun b => !isSlash b) =
      c :: body.takeWhile fun b => !isSlash b := by
    rw [hrest₁, List.takeWhile_cons, if_pos (not_slash_of_dropWhile hrest)]
  rcases CStr.rest_cases hle with ⟨-, hnil, -⟩ | ⟨-, -, hnz⟩
  · rw [hnil] at hrest₁
    cases hrest₁
  · obtain ⟨part', hcopy⟩ := copyPart_long (s.strlen + 1) 0 part hle (by omega)
      (Nat.zero_le _) (by rw [hrun]; omega)
    refine ⟨part', ?_⟩
    rw [getNextPart, hskip, Option.bind_some, CStr.read_eq hle, Option.bind_some, if_neg hnz,
      hcopy, Option.bind_some]

end NextPart

/-! ## The loop -/

theorem pathParts_of_dropWhile (l : List UInt8) :
    pathParts l =
      match l.dropWhile isSlash with
      | [] => []
      | c :: body => .ofBytes (c :: body.takeWhile fun b => !isSlash b) ::
          pathParts (body.dropWhile fun b => !isSlash b) := by
  unfold pathParts
  rw [fields_of_dropWhile]
  cases l.dropWhile isSlash with
  | nil => rfl
  | cons c body => rfl

/-- The rounds of the loop, one for each part: the state they leave, and whether each found its
part. -/
def walkParts (ans : Nat → PathAnswer) (dir now : DirPtr) :
    (k : Nat) → List CStr → PathState g → Option (PathState g × Bool)
  | _, [], s => some (s, true)
  | k, c :: cs, s =>
      (findPathStep (ans k) dir now c s).bind fun
        | none => some (s, false)
        | some s => walkParts ans dir now (k + 1) cs s

/-- A rest with a part and something behind it has a round for that part and those for what is
behind it. -/
theorem pathRounds_cons {l body : List UInt8} {c : UInt8} (hl : l.dropWhile isSlash = c :: body)
    (hne : body.dropWhile (fun b => !isSlash b) ≠ []) :
    pathRounds l = .ofBytes (c :: body.takeWhile fun b => !isSlash b) ::
      pathRounds (body.dropWhile fun b => !isSlash b) := by
  have hparts := pathParts_of_dropWhile l
  rw [hl] at hparts
  dsimp only at hparts
  have hsuffix : body.dropWhile (fun b => !isSlash b) <:+ l :=
    (List.dropWhile_suffix _).trans ((List.suffix_cons c body).trans (hl ▸ List.dropWhile_suffix _))
  generalize body.dropWhile (fun b => !isSlash b) = after at hne hparts hsuffix ⊢
  obtain ⟨pre, rfl⟩ := hsuffix
  unfold pathRounds
  rw [List.getLast?_append_of_ne_nil pre hne, hparts]
  split
  · rfl
  · next hlast =>
      -- with no slash at the end there is a further part
      have hmore : pathParts after ≠ [] := by
        rw [pathParts_of_dropWhile]
        cases hafter : after.dropWhile isSlash with
        | nil =>
            rw [List.dropWhile_eq_nil_iff] at hafter
            refine absurd ?_ hlast
            rw [List.getLast?_eq_getLast_of_ne_nil hne]
            exact congrArg some (by simpa using hafter _ (List.getLast_mem hne))
        | cons b rest => simp
      exact List.dropLast_cons_of_ne_nil hmore

/-- A rest that ends with its first part has no round. -/
theorem pathRounds_last {l body : List UInt8} {c : UInt8} (hl : l.dropWhile isSlash = c :: body)
    (hnil : body.dropWhile (fun b => !isSlash b) = []) : pathRounds l = [] := by
  have hparts := pathParts_of_dropWhile l
  rw [hl] at hparts
  dsimp only at hparts
  rw [hnil] at hparts
  have hlast : l.getLast? ≠ some slash := by
    have hc : isSlash c = false := by simpa using not_slash_of_dropWhile hl
    rw [List.dropWhile_eq_nil_iff] at hnil
    obtain ⟨pre, hpre⟩ : c :: body <:+ l := hl ▸ List.dropWhile_suffix _
    rw [← hpre, List.getLast?_append_of_ne_nil pre (List.cons_ne_nil c body),
      List.getLast?_eq_getLast_of_ne_nil (List.cons_ne_nil c body)]
    intro heq
    have hslash : isSlash ((c :: body).getLast (List.cons_ne_nil c body)) = true := by
      simpa using Option.some.inj heq
    rcases List.mem_cons.mp (List.getLast_mem (List.cons_ne_nil c body)) with hfirst | hin
    · rw [hfirst, hc] at hslash
      cases hslash
    · have := hnil _ hin
      rw [hslash] at this
      cases this
  rw [pathRounds, if_neg hlast, hparts]
  rfl

section Loop

variable {ans : Nat → PathAnswer} {dir now : DirPtr} {name : CStr}

variable (ans dir now) in
/-- The loop where a part of the right length is next: it ends there if that is the last, and
goes its round otherwise. -/
theorem findPathLoop_part (fuel k : Nat) {src : Nat} (part : Mem) (s : PathState g)
    (h : src ≤ name.strlen) {c : UInt8} {body : List UInt8}
    (hrest : (name.rest src).dropWhile isSlash = c :: body)
    (hlen : (c :: body.takeWhile fun b => !isSlash b).length ≤ spdkMaxNameCount) :
    ∃ part' src', src < src' ∧ src' ≤ name.strlen ∧
      name.rest src' = body.dropWhile (fun b => !isSlash b) ∧
      CStr.ofMem part' (spdkMaxNameCount + 1) =
        .ofBytes (c :: body.takeWhile fun b => !isSlash b) ∧
      findPathLoop ans dir now name (fuel + 1) k src part s =
        if body.dropWhile (fun b => !isSlash b) = [] then some ⟨s, part', true⟩
        else
          (findPathStep (ans k) dir now (.ofBytes (c :: body.takeWhile fun b => !isSlash b))
            s).bind fun
              | none => some ⟨s, part', false⟩
              | some s => findPathLoop ans dir now name fuel (k + 1) src' part' s := by
  obtain ⟨part', src', hnext, hlt, hle, hafter, hpart⟩ := getNextPart_part part h hrest hlen
  have hnul : (0 : UInt8) ∉ c :: body.takeWhile fun b => !isSlash b := by
    refine @CStr.noNul_of_mem_fields name src _ ?_
    rw [fields_of_dropWhile, hrest]
    exact List.mem_cons_self
  have hname := CStr.ofMem_eq hnul hpart (Nat.lt_succ_of_le hlen)
  refine ⟨part', src', hlt, hle, hafter, hname, ?_⟩
  rw [findPathLoop, hnext, Option.bind_some, if_neg (show ¬ (1 : Int) = 0 by decide), ← hafter]
  by_cases hend : name.strlen - src' = 0
  · -- nothing is left, and the loop is left before the round of this part
    have hnil : name.rest src' = [] := List.drop_eq_nil_of_le (by show name.strlen ≤ src'; omega)
    rw [if_pos hend, if_pos hnil]
  · have hne : name.rest src' ≠ [] := by
      intro hnil
      have := congrArg List.length hnil
      rw [List.length_drop, List.length_nil] at this
      exact hend this
    rw [if_neg hend, if_neg (show ¬ (1 : Int) = -1 by decide), if_neg hne]
    exact congrArg (fun c => (findPathStep (ans k) dir now c s).bind _) hname

variable (ans dir now) in
/-- The loop where a part that is too long is next. -/
theorem findPathLoop_long (fuel k : Nat) {src : Nat} (part : Mem) (s : PathState g)
    (h : src ≤ name.strlen) {c : UInt8} {body : List UInt8}
    (hrest : (name.rest src).dropWhile isSlash = c :: body)
    (hlong : spdkMaxNameCount < (c :: body.takeWhile fun b => !isSlash b).length) :
    ∃ part', findPathLoop ans dir now name (fuel + 1) k src part s = some ⟨s, part', false⟩ := by
  obtain ⟨part', hnext⟩ := getNextPart_long part h hrest hlong
  have hleft : name.strlen - src ≠ 0 := by
    intro h0
    have hnil : name.rest src = [] := List.drop_eq_nil_of_le (by show name.strlen ≤ src; omega)
    rw [hnil] at hrest
    cases hrest
  refine ⟨part', ?_⟩
  rw [findPathLoop, hnext, Option.bind_some, if_neg (show ¬ (-1 : Int) = 0 by decide),
    if_neg hleft, if_pos rfl]

variable (ans dir now) in
/-- What a string is for the loop: the rounds it makes, and the part it ends with. -/
theorem findPathLoop_eq (fuel k : Nat) {src : Nat} (part : Mem) (s : PathState g)
    (h : src ≤ name.strlen) (hfuel : name.strlen - src < fuel)
    (hlen : ∀ w ∈ fields isSlash (name.rest src), w.length ≤ spdkMaxNameCount) :
    (findPathLoop ans dir now name fuel k src part s).map (fun e =>
        (e.state, if e.ok then some (CStr.ofMem e.fileName (spdkMaxNameCount + 1)) else none)) =
      (walkParts ans dir now k (pathRounds (name.rest src)) s).map fun r =>
        (r.1, if r.2 then some ((pathParts (name.rest src)).getLastD
          (CStr.ofMem part (spdkMaxNameCount + 1))) else none) := by
  induction fuel generalizing k src part s with
  | zero => omega
  | succ fuel ih =>
      have hparts := pathParts_of_dropWhile (name.rest src)
      have hfields := fields_of_dropWhile isSlash (name.rest src)
      -- with no part left the loop ends; else it reads one, and stops short of its round if
      -- that is the last
      cases hrest : (name.rest src).dropWhile isSlash with
      | nil =>
          rw [hrest] at hparts
          have hrounds : pathRounds (name.rest src) = [] := by
            unfold pathRounds
            rw [hparts]
            split <;> rfl
          rw [findPathLoop, getNextPart_end part h hrest, hrounds, hparts]
          rfl
      | cons c body =>
          rw [hrest] at hparts hfields
          dsimp only at hparts hfields
          rw [hfields] at hlen
          obtain ⟨part', src', hlt, hle, hafter, hname, hloop⟩ :=
            findPathLoop_part ans dir now fuel k part s h hrest (hlen _ List.mem_cons_self)
          rw [hloop, hparts, List.getLastD_cons]
          split
          · next hnil =>
              rw [pathRounds_last hrest hnil, hnil, ← hname]
              rfl
          · next hne =>
              rw [pathRounds_cons hrest hne, walkParts, ← hname, Option.map_bind, Option.map_bind,
                ← hafter]
              congr 1
              funext o
              cases o with
              | none => simp
              | some t =>
                  exact ih (k + 1) part' t hle (by omega)
                    fun w hw => hlen w (List.mem_cons_of_mem _ (hafter ▸ hw))

/-- What every round keeps, the loop keeps. -/
theorem findPathLoop_inv {I : PathState g → Prop}
    (keep : ∀ a c s s', I s → findPathStep a dir now c s = some (some s') → I s')
    {fuel k src : Nat} {part : Mem} {s : PathState g} {e : PathEnd g} (hI : I s)
    (h : findPathLoop ans dir now name fuel k src part s = some e) : I e.state := by
  induction fuel generalizing k src part s with
  | zero => cases h
  | succ fuel ih =>
      rw [findPathLoop] at h
      obtain ⟨p, -, h⟩ := Option.bind_eq_some_iff.mp h
      split at h
      · cases h
        exact hI
      · split at h
        · cases h
          exact hI
        · split at h
          · cases h
            exact hI
          · obtain ⟨o, hstep, h⟩ := Option.bind_eq_some_iff.mp h
            cases o with
            | none =>
                cases h
                exact hI
            | some t => exact ih (keep _ _ _ _ hI hstep) h

/-- The directory object that `find_path` starts at and works on. -/
def pathCursor (name : CStr) (dir root : DirPtr) : DirPtr :=
  if name.chars.head? = some slash then root else dir

/-- What `find_path` makes of the state behind its rounds and the part it ended with, if it got
that far. -/
def pathFinish (fileDir now : DirPtr) (r : PathState g × Option CStr) : Option (FoundPath g) :=
  match r.2 with
  | none => some ⟨r.1, none, false⟩
  | some tail =>
      (r.1.dirs now).map fun d =>
        ⟨{ r.1 with dirs := Function.update r.1.dirs fileDir (some d) }, some tail, true⟩

theorem findPath_loop {raw : Mem} {root fileDir : DirPtr} {s : PathState g}
    (hne : name.chars ≠ [slash]) :
    findPath ans raw dir root fileDir name s =
      (findPathLoop ans dir (pathCursor name dir root) name (name.strlen + 1) 0 0 raw s).bind
        fun e => pathFinish fileDir (pathCursor name dir root)
          (e.state,
            if e.ok then some (CStr.ofMem e.fileName (spdkMaxNameCount + 1)) else none) := by
  rw [findPath, if_neg hne]
  show (findPathLoop ans dir (pathCursor name dir root) name _ 0 0 raw s).bind _ = _
  congr 1
  funext e
  cases he : e.ok with
  | false => simp [pathFinish]
  | true => simp [pathFinish, pathCursor]

/-- `find_path` goes its rounds, and then hands out the last part and the directory it is in. -/
theorem findPath_eq {raw : Mem} {root fileDir : DirPtr} {s : PathState g}
    (hne : name.chars ≠ [slash])
    (hlen : ∀ w ∈ fields isSlash name.chars, w.length ≤ spdkMaxNameCount) :
    findPath ans raw dir root fileDir name s =
      (walkParts ans dir (pathCursor name dir root) 0 (pathRounds name.chars) s).bind fun r =>
        pathFinish fileDir (pathCursor name dir root)
          (r.1, if r.2 then
            some ((pathParts name.chars).getLastD (.ofMem raw (spdkMaxNameCount + 1)))
          else none) := by
  have hloop := findPathLoop_eq ans dir (pathCursor name dir root) (name.strlen + 1) 0 raw s
    (Nat.zero_le name.strlen) (Nat.lt_succ_self _) hlen
  have hbind := congrArg (fun o => o.bind (pathFinish fileDir (pathCursor name dir root))) hloop
  simp only [Option.bind_map] at hbind
  rw [findPath_loop hne]
  exact hbind

variable (ans dir) in
/-- The first step of `find_path`: it ends without a round, gives up a part that is too long, or
goes its first round. -/
theorem findPath_cases (raw : Mem) (root fileDir : DirPtr) (s : PathState g)
    (hne : name.chars ≠ [slash]) :
    (pathRounds name.chars = [] ∧ (∀ c ∈ pathParts name.chars, c.strlen ≤ spdkMaxNameCount) ∧
        ∃ tail, findPath ans raw dir root fileDir name s =
          pathFinish fileDir (pathCursor name dir root) (s, some tail)) ∨
      ((∀ c cs, pathRounds name.chars = c :: cs → spdkMaxNameCount < c.strlen) ∧
        (∃ c ∈ pathParts name.chars, spdkMaxNameCount < c.strlen) ∧
        findPath ans raw dir root fileDir name s = some ⟨s, none, false⟩) ∨
      ∃ c cs part src, pathRounds name.chars = c :: cs ∧ c.strlen ≤ spdkMaxNameCount ∧
        findPath ans raw dir root fileDir name s =
          (findPathStep (ans 0) dir (pathCursor name dir root) c s).bind fun
            | none => some ⟨s, none, false⟩
            | some t =>
                (findPathLoop ans dir (pathCursor name dir root) name name.strlen 1 src part t).bind
                  fun e => pathFinish fileDir (pathCursor name dir root)
                    (e.state, if e.ok then some (CStr.ofMem e.fileName (spdkMaxNameCount + 1))
                      else none) := by
  have hparts := pathParts_of_dropWhile name.chars
  have hfields := fields_of_dropWhile isSlash name.chars
  rw [findPath_loop hne]
  cases hrest : name.chars.dropWhile isSlash with
  | nil =>
      rw [hrest] at hparts
      dsimp only at hparts
      refine Or.inl ⟨?_, by simp [hparts], ?_⟩
      · unfold pathRounds
        rw [hparts]
        split <;> rfl
      · rw [findPathLoop, getNextPart_end raw (Nat.zero_le _) hrest]
        exact ⟨_, rfl⟩
  | cons c body =>
      rw [hrest] at hparts hfields
      dsimp only at hparts hfields
      have hlength : (CStr.ofBytes (c :: body.takeWhile fun b => !isSlash b)).strlen =
          (c :: body.takeWhile fun b => !isSlash b).length :=
        CStr.strlen_ofBytes (@CStr.noNul_of_mem_fields name 0 _ (hfields ▸ List.mem_cons_self))
      -- the first part is too long, or it is read; then it is the last, or it has a round
      rcases Nat.lt_or_ge spdkMaxNameCount (c :: body.takeWhile fun b => !isSlash b).length with
        hlong | hfits
      · refine Or.inr (Or.inl ⟨fun c' cs' hrounds => ?_, ⟨_, ?_, hlength ▸ hlong⟩, ?_⟩)
        · by_cases hnil : body.dropWhile (fun b => !isSlash b) = []
          · rw [pathRounds_last hrest hnil] at hrounds
            cases hrounds
          · rw [pathRounds_cons hrest hnil] at hrounds
            cases hrounds
            exact hlength ▸ hlong
        · rw [hparts]
          exact List.mem_cons_self
        · obtain ⟨part, hloop⟩ := findPathLoop_long ans dir (pathCursor name dir root)
            name.strlen 0 raw s (Nat.zero_le _) hrest hlong
          rw [hloop]
          rfl
      · obtain ⟨part, src, -, -, -, -, hloop⟩ :=
          findPathLoop_part ans dir (pathCursor name dir root) name.strlen 0 raw s
            (Nat.zero_le _) hrest hfits
        rw [hloop]
        by_cases hnil : body.dropWhile (fun b => !isSlash b) = []
        · refine Or.inl ⟨pathRounds_last hrest hnil, ?_, ?_⟩
          · rw [hparts, hnil]
            intro c' hc'
            cases List.mem_singleton.mp hc'
            exact hlength ▸ hfits
          · rw [if_pos hnil]
            exact ⟨_, rfl⟩
        · refine Or.inr (Or.inr ⟨_, _, part, src, pathRounds_cons hrest hnil, hlength ▸ hfits, ?_⟩)
          rw [if_neg hnil, Option.bind_assoc]
          congr 1
          funext o
          cases o with
          | none => rfl
          | some t => rfl

end Loop

/-! ## One round -/

section Round

variable {a : PathAnswer} {dir now : DirPtr} {c : CStr} {s : PathState g} {d : SpdkfsDir}

theorem findPathStep_missing (hd : s.dirs now = some d) (hl : spdkfsDirLookup d c = -1) :
    findPathStep a dir now c s = some none := by
  rw [findPathStep, hd, Option.bind_some]
  dsimp only
  rw [hl, if_pos rfl]

/-- The state behind a round that has read the directory object `d` from the open blob `b`. -/
def PathState.enter (s : PathState g) (now : DirPtr) (bs : Blobstore g) (b : Blob g)
    (d : SpdkfsDir) (read : Event) : PathState g where
  bs := { bs.setBlob d.blob b with log := read :: ⟨.openBlob d.blob, 0⟩ :: bs.log }
  dirs := Function.update s.dirs now (some d)

/-- A round that is made has closed the directory it was in, unless that is the caller's, and has
put another in its place. -/
theorem findPathStep_entered {s' : PathState g}
    (h : findPathStep a dir now c s = some (some s')) :
    ∃ d bs b d' read, s.dirs now = some d ∧
      (if now ≠ dir then simpleDirClose a.close s.bs d else some s.bs) = some bs ∧
      s' = s.enter now bs b d' read := by
  obtain ⟨d, hd, h⟩ := Option.bind_eq_some_iff.mp h
  dsimp only at h
  split at h
  · cases h
  · obtain ⟨bs, hclose, h⟩ := Option.bind_eq_some_iff.mp h
    obtain ⟨blob, hblob, h⟩ := Option.bind_eq_some_iff.mp h
    obtain ⟨rfl, he, hsome⟩ := blobOpen_eq_some_iff.mp hblob
    obtain ⟨b, hb⟩ := Option.isSome_iff_exists.mp hsome
    rw [he, blobOpen_done hb] at h
    obtain ⟨r, hr, heq⟩ := Option.map_eq_some_iff.mp h
    cases heq
    obtain ⟨b', -, hr⟩ := Option.bind_eq_some_iff.mp hr
    obtain ⟨p, -, hr⟩ := Option.bind_eq_some_iff.mp hr
    obtain ⟨m, -, rfl⟩ := Option.map_eq_some_iff.mp hr
    exact ⟨d, bs, b.opening,
      ⟨_, true, p, (genericBlobIo a.io _ b' p.dSize 0 m true).buffer, false⟩,
      (genericBlobIo a.io _ b' p.dSize 0 m true).event, hd, hclose, rfl⟩

/-- A round that finds its part goes on to the blob whose id is the index of the entry, and ends
the process if that cannot be closed, opened and read as a directory. -/
theorem findPathStep_found {i : Nat} (hd : s.dirs now = some d) (hl : spdkfsDirLookup d c = i)
    (hi : i < 2 ^ 64 - 1) {o : Option (PathState g)} :
    findPathStep a dir now c s = some o ↔
      ∃ bs b p m, (if now ≠ dir then simpleDirClose a.close s.bs d else some s.bs) = some bs ∧
        a.openErrno = 0 ∧ bs.blobs (.ofNat i) = some b ∧
        b.opening.xattrs.dirPersistent = some p ∧ a.mem = some m ∧
        o = some (s.enter now bs b.opening
          ⟨.ofNat i, true, p, (genericBlobIo a.io (.ofNat i) b.opening p.dSize 0 m true).buffer,
            false⟩
          (genericBlobIo a.io (.ofNat i) b.opening p.dSize 0 m true).event) := by
  -- an index is below the id that stands for -1
  have hne : UInt64.ofNat i ≠ UInt64.ofNat (u64 (-1)) := by
    intro heq
    have := congrArg UInt64.toNat heq
    rw [UInt64.toNat_ofNat', UInt64.toNat_ofNat', Nat.mod_eq_of_lt (by omega)] at this
    unfold u64 at this
    omega
  rw [findPathStep, hd, Option.bind_some]
  dsimp only
  rw [hl, ofNat_u64, if_neg hne, Option.bind_eq_some_iff]
  refine exists_congr fun bs => ?_
  constructor
  · rintro ⟨hclose, h⟩
    obtain ⟨blob, hblob, h⟩ := Option.bind_eq_some_iff.mp h
    obtain ⟨rfl, he, hsome⟩ := blobOpen_eq_some_iff.mp hblob
    obtain ⟨b, hb⟩ := Option.isSome_iff_exists.mp hsome
    obtain ⟨r, hr, rfl⟩ := Option.map_eq_some_iff.mp h
    obtain ⟨b', hb', hr⟩ := Option.bind_eq_some_iff.mp hr
    obtain ⟨p, hp, hr⟩ := Option.bind_eq_some_iff.mp hr
    obtain ⟨m, hm, rfl⟩ := Option.map_eq_some_iff.mp hr
    rw [he, blobOpen_done hb] at hb' ⊢
    -- the attribute that is read is that of the blob just opened
    obtain rfl : b.opening = b' := by
      have := (Blobstore.opened_eq_some.mp hb').1
      rw [Blobstore.record_blobs, Blobstore.setBlob_self] at this
      exact Option.some.inj this
    exact ⟨b, p, m, hclose, rfl, hb, hp, hm, rfl⟩
  · rintro ⟨b, p, m, hclose, he, hb, hp, hm, rfl⟩
    have hopened : ((bs.setBlob (.ofNat i) b.opening).record (.openBlob (.ofNat i)) 0).opened
        (.ofNat i) = some b.opening :=
      Blobstore.opened_eq_some.mpr ⟨Blobstore.setBlob_self .., Nat.succ_pos _⟩
    refine ⟨hclose, ?_⟩
    rw [he, blobOpen_done hb, Option.bind_some]
    simp only [simpleDirRead, hopened, Option.bind_some, hp, hm, Option.map_some]
    rfl

end Round

end BlobTopFs
