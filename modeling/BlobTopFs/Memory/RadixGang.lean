import BlobTopFs.Memory.RadixRuns

/-!
# Listing the radix tree

`radix_tree_gang_lookup` goes through the keys in order, a leaf at a time, and skips what is below
an empty slot in one step. The step is `1 << shift` in an `int`, so that from the seventh level on
there is none to take: the list is right wherever it comes back, and it does unless it gets to
`2 ^ 36` keys in a row that have no item.
-/

namespace BlobTopFs.Radix

open Machine Run Trie

/-! ## Skipping a slot -/

/-- The mask clears the low bits of a word. -/
theorem and_mask_eq {x n : Nat} (hx : x < 2 ^ 64) (hn : n ≤ 64) :
    x &&& (2 ^ 64 - 2 ^ n) = x / 2 ^ n * 2 ^ n := by
  have hmask : 2 ^ 64 - 2 ^ n = (2 ^ (64 - n) - 1) <<< n := by
    rw [Nat.shiftLeft_eq, Nat.sub_mul, Nat.one_mul, ← Nat.pow_add]
    congr 2
    omega
  have hlow : x / 2 ^ n * 2 ^ n = (x >>> n) <<< n := by
    rw [Nat.shiftLeft_eq, Nat.shiftRight_eq_div_pow]
  rw [hmask, hlow]
  apply Nat.eq_of_testBit_eq
  intro i
  rw [Nat.testBit_and, Nat.testBit_shiftLeft, Nat.testBit_shiftLeft, Nat.testBit_two_pow_sub_one,
    Nat.testBit_shiftRight]
  by_cases hi : n ≤ i
  · have hadd : n + (i - n) = i := by omega
    rw [hadd]
    by_cases hhigh : i < 64
    · have hin : i - n < 64 - n := by omega
      simp [hi, hin]
    · have hout : x.testBit i = false := by
        apply Nat.testBit_lt_two_pow
        exact Nat.lt_of_lt_of_le hx (Nat.pow_le_pow_right (by decide) (by omega))
      simp [hout]
  · simp [hi]

theorem pow_dvd_word {h : Nat} (hh : h ≤ 10) : 64 ^ h ∣ 2 ^ 64 := by
  have hpow : (64 : Nat) ^ h = 2 ^ (6 * h) := by rw [Nat.pow_mul]
  rw [hpow]
  exact Nat.pow_dvd_pow 2 (by omega)

/-- A word is followed by the start of the next block of `64 ^ h` keys, if that is a word. -/
theorem next_block_le {h k : Nat} (hh : h ≤ 10) (hk : k < 2 ^ 64) :
    (k / 64 ^ h + 1) * 64 ^ h ≤ 2 ^ 64 := by
  obtain ⟨n, hn⟩ := pow_dvd_word hh
  have hpow : 0 < 64 ^ h := Nat.pow_pos (by decide)
  rw [hn] at hk ⊢
  have hlt : k / 64 ^ h < n := by
    rw [Nat.div_lt_iff_lt_mul hpow, Nat.mul_comm]
    exact hk
  rw [Nat.mul_comm (64 ^ h)]
  exact Nat.mul_le_mul_right _ hlt

/-- Below the seventh level a slot is skipped, to the start of the next block. -/
theorem skipSlot_low {h index : Nat} (hh : h ≤ 5) (hk : index < 2 ^ 64) :
    skipSlot index (radixShift (h + 1)) = some (u64 ((index / 64 ^ h + 1) * 64 ^ h : Nat)) := by
  have hbit : (1 : Nat) <<< (6 * h) = 2 ^ (6 * h) := by rw [Nat.shiftLeft_eq, Nat.one_mul]
  have hle : 2 ^ (6 * h) ≤ 2 ^ 64 := Nat.pow_le_pow_right (by decide) (by omega)
  have hpos : 0 < 2 ^ (6 * h) := Nat.pow_pos (by decide)
  have hmask : u64 (-((2 ^ (6 * h) : Nat) : Int)) = 2 ^ 64 - 2 ^ (6 * h) := by
    unfold u64
    omega
  have hpow : (64 : Nat) ^ h = 2 ^ (6 * h) := by rw [Nat.pow_mul]
  rw [radixShift_succ (by omega), skipSlot, intBit, if_pos (by omega), Option.map_some, hbit, hmask,
    and_mask_eq hk (by omega), hpow, Nat.add_mul, Nat.one_mul]
  rfl

/-- From there on it is not. -/
theorem skipSlot_high {h : Nat} (h6 : 6 ≤ h) (hh : h ≤ 10) (index : Nat) :
    skipSlot index (radixShift (h + 1)) = none := by
  rw [radixShift_succ hh, skipSlot, intBit, if_neg (by omega)]
  rfl

/-! ## The loops of `__lookup` -/

section Loops

variable {m : RadixMem} {nd : RadixTreeNode} {ns : Finset Addr} {h left index maxItems p : Nat}

variable (nd) in
/-- The `for` loop below the seventh level: it stops at the first slot that is not empty, with the
index that is or starts its block, or gets to the end of the node. -/
theorem scanSlots_low (hh : h ≤ 5) (hk : index < 2 ^ 64) (hleft : left = 64 - index / 64 ^ h % 64) :
    (∃ d, index / 64 ^ h ≤ d ∧ d / 64 = index / 64 ^ h / 64 ∧ nd.slots (d % 64) ≠ 0 ∧
        (∀ c, index / 64 ^ h ≤ c → c < d → nd.slots (c % 64) = 0) ∧
        scanSlots nd (radixShift (h + 1)) left (index / 64 ^ h % 64) index =
          some (some (d % 64), max index (d * 64 ^ h))) ∨
      (∀ c, index / 64 ^ h ≤ c → c / 64 = index / 64 ^ h / 64 → nd.slots (c % 64) = 0) ∧
        scanSlots nd (radixShift (h + 1)) left (index / 64 ^ h % 64) index =
          some (none, u64 ((index / 64 ^ h / 64 + 1) * 64 * 64 ^ h : Nat)) := by
  have hpow : 0 < 64 ^ h := Nat.pow_pos (by decide)
  induction left generalizing index with
  | zero => omega
  | succ left ih =>
      have hstart : index / 64 ^ h * 64 ^ h ≤ index := Nat.div_mul_le_self ..
      have hend : index < (index / 64 ^ h + 1) * 64 ^ h := by
        rw [← Nat.div_lt_iff_lt_mul hpow]
        exact Nat.lt_succ_self _
      have hblock := next_block_le (h := h + 1) (by omega) hk
      rw [Nat.pow_succ, ← Nat.div_div_eq_div_mul, Nat.mul_comm (64 ^ h), ← Nat.mul_assoc] at hblock
      generalize hq : index / 64 ^ h = q at *
      by_cases hslot : nd.slots (q % 64) = 0
      · rw [scanSlots, if_neg (not_not.mpr hslot), skipSlot_low hh hk, Option.bind_some, hq]
        by_cases hlast : q % 64 = 63
        · -- the last slot of the node
          have hnext : (q / 64 + 1) * 64 = q + 1 := by omega
          obtain rfl : left = 0 := by omega
          refine Or.inr ⟨fun c hc hsame => ?_, ?_⟩
          · obtain rfl : c = q := by omega
            exact hslot
          · rw [hnext, scanSlots, ite_self]
        · -- the next slot is in the node, so the index has not wrapped, and the rest of the
          -- loop begins at the start of that slot's block
          have hlt : (q + 1) * 64 ^ h < 2 ^ 64 := by
            refine Nat.lt_of_lt_of_le ?_ hblock
            exact Nat.mul_lt_mul_of_pos_right (by omega) hpow
          have hu : u64 ((q + 1) * 64 ^ h : Nat) = (q + 1) * 64 ^ h := u64_natCast hlt
          have hne : (q + 1) * 64 ^ h ≠ 0 := Nat.ne_of_gt (Nat.mul_pos (Nat.succ_pos q) hpow)
          have hdiv : (q + 1) * 64 ^ h / 64 ^ h = q + 1 := Nat.mul_div_cancel _ hpow
          have hdigit : q % 64 + 1 = (q + 1) % 64 := by omega
          have hupper : (q + 1) / 64 = q / 64 := by omega
          have hleft' : left = 64 - (q + 1) * 64 ^ h / 64 ^ h % 64 := by
            rw [hdiv]
            omega
          rw [hu, if_neg hne, hdigit]
          have hrest := ih hlt hleft'
          rw [hdiv, hupper] at hrest
          rcases hrest with ⟨d, hd, hsame, hfull, hempty, hscan⟩ | ⟨hempty, hscan⟩
          · refine Or.inl ⟨d, by omega, hsame, hfull, fun c hc hcd => ?_, ?_⟩
            · rcases Nat.eq_or_lt_of_le hc with rfl | hlt
              · exact hslot
              · exact hempty c hlt hcd
            · have hle : (q + 1) * 64 ^ h ≤ d * 64 ^ h := Nat.mul_le_mul_right _ hd
              rw [hscan, Nat.max_eq_right hle, Nat.max_eq_right (by omega)]
          · refine Or.inr ⟨fun c hc hsame => ?_, hscan⟩
            rcases Nat.eq_or_lt_of_le hc with rfl | hlt
            · exact hslot
            · exact hempty c hlt hsame
      · -- a slot that is not empty ends the loop where it stands
        refine Or.inl ⟨q, Nat.le_refl _, rfl, hslot, fun c hc hcq => by omega, ?_⟩
        rw [scanSlots, if_pos hslot, Nat.max_eq_left hstart]

variable (nd left index) in
/-- From the seventh level on it stops at the first slot or not at all. -/
theorem scanSlots_high (i : Nat) (h6 : 6 ≤ h) (hh : h ≤ 10) :
    scanSlots nd (radixShift (h + 1)) (left + 1) i index =
      if nd.slots i ≠ 0 then some (some i, index) else none := by
  rw [scanSlots, skipSlot_high h6 hh, Option.bind_none]

variable (nd) in
/-- The loop at the bottom level takes the items in order, up to the end of the node. -/
theorem grabItems_spec {t j first : Nat} {results : List Addr} (hsum : first + left = t * 64)
    (ht : t * 64 ≤ 2 ^ 64) (hj : j + left = 64) (hroom : results.length < maxItems) :
    ∃ e : Nat, grabItems nd maxItems left j (u64 first) results =
        (u64 e, results ++ items (fun k => nd.slots (k % 64)) first e) ∧ first ≤ e ∧ e ≤ t * 64 ∧
      (0 < left → first < e) ∧
      (results ++ items (fun k => nd.slots (k % 64)) first e).length ≤ maxItems := by
  induction left generalizing j first results with
  | zero =>
      refine ⟨first, ?_, Nat.le_refl _, Nat.le_of_eq hsum, by omega, ?_⟩
      · rw [grabItems, items_self, List.append_nil]
      · rw [items_self, List.append_nil]
        exact Nat.le_of_lt hroom
  | succ left ih =>
      have hu : u64 (first : Int) = first := u64_natCast (by omega)
      have hdigit : first % 64 = j := by omega
      have hcons : ∀ {e}, first < e → items (fun k => nd.slots (k % 64)) first e =
          (if nd.slots j ≠ 0 then [nd.slots j] else []) ++
            items (fun k => nd.slots (k % 64)) (first + 1) e := by
        intro e he
        rw [items_cons he, hdigit]
      rw [grabItems, hu]
      by_cases hslot : nd.slots j = 0
      · -- nothing is placed for an empty slot
        rw [if_neg (not_not.mpr hslot)]
        obtain ⟨e, hgrab, hle, hend, -, hlen⟩ := ih (show first + 1 + left = t * 64 by omega)
          (show j + 1 + left = 64 by omega) hroom
        simp only [if_neg (not_not.mpr hslot), List.nil_append] at hcons
        rw [← hcons hle] at hgrab hlen
        exact ⟨e, hgrab, by omega, hend, fun _ => hle, hlen⟩
      · rw [if_pos hslot]
        simp only [if_pos hslot] at hcons
        by_cases hfull : (results ++ [nd.slots j]).length = maxItems
        · -- the item is the last that is asked for
          have hone := hcons (Nat.lt_succ_self first)
          rw [items_self, List.append_nil] at hone
          refine ⟨first + 1, ?_, Nat.le_succ _, by omega, fun _ => Nat.lt_succ_self _, ?_⟩
          · rw [if_pos hfull, hone]
            rfl
          · rw [hone]
            exact Nat.le_of_eq hfull
        · have hroom' : (results ++ [nd.slots j]).length < maxItems := by
            rw [List.length_append, List.length_singleton] at hfull ⊢
            omega
          obtain ⟨e, hgrab, hle, hend, -, hlen⟩ := ih (show first + 1 + left = t * 64 by omega)
            (show j + 1 + left = 64 by omega) hroom'
          rw [List.append_assoc, ← hcons hle] at hgrab hlen
          rw [if_neg hfull]
          exact ⟨e, hgrab, by omega, hend, fun _ => hle, hlen⟩

end Loops

/-! ## `__lookup` -/

/-- No item at `k` or at any of the `2 ^ 36` keys that differ from it in the six lowest digits. -/
def Barren (f : Nat → Addr) (k : Nat) : Prop := ∀ i, i / 64 ^ 6 = k / 64 ^ 6 → f i = 0

/-- Keys that have the digits from the sixth on in common have those above as well. -/
theorem div_pow_congr {h i k : Nat} (h6 : 6 ≤ h) (heq : i / 64 ^ 6 = k / 64 ^ 6) :
    i / 64 ^ h = k / 64 ^ h := by
  obtain ⟨n, rfl⟩ := Nat.exists_eq_add_of_le h6
  rw [Nat.pow_add, ← Nat.div_div_eq_div_mul, ← Nat.div_div_eq_div_mul, heq]

section Lookup

variable {m : RadixMem} {nd : RadixTreeNode} {ns : Finset Addr} {h index maxItems p : Nat}

variable (index maxItems) in
/-- What `__lookup` finds at a key is the first thing it does with the node. -/
theorem lookup_node (hh : h ≤ 10) (hnode : m.nodes p = some nd) :
    lookup m maxItems (h + 1) (radixShift (h + 1)) index p =
      (scanSlots nd (radixShift (h + 1)) (64 - index / 64 ^ h % 64) (index / 64 ^ h % 64)
        index).bind fun r => match r.1 with
          | none => some (r.2, [])
          | some i =>
              if h = 0 then
                some (grabItems nd maxItems (64 - r.2 % 64) (r.2 % 64) r.2 [])
              else lookup m maxItems h (radixShift h) r.2 (nd.slots i) := by
  have hsize : radixTreeMapSize = 64 := rfl
  have hmask : ∀ x : Nat, x &&& radixTreeMapMask = x % 64 := by
    intro x
    have heq : radixTreeMapMask = 2 ^ 6 - 1 := rfl
    rw [heq, Nat.and_two_pow_sub_one_eq_mod]
  rw [lookup, hnode, Option.bind_some, slotIndex_eq hh, Option.bind_some, radixShift_step hh, hsize]
  refine congrArg (Option.bind _) (funext fun r => ?_)
  rcases r with ⟨_ | i, k⟩
  · rfl
  · exact congrArg (fun j => if h = 0 then some (grabItems nd maxItems (64 - j) j k [])
      else lookup m maxItems h (radixShift h) k (nd.slots i)) (hmask k)

/-- The items of a node, from one of its keys to another. -/
theorem items_node (hp : p ≠ 0) (hnode : m.nodes p = some nd) {d e : Nat}
    (hempty : ∀ c, index / 64 ^ h ≤ c → c < d → nd.slots (c % 64) = 0)
    (he : e ≤ (d + 1) * 64 ^ h) (hge : max index (d * 64 ^ h) ≤ e) :
    items (get 64 m.nodes (h + 1) p) index e =
      items (get 64 m.nodes h (nd.slots (d % 64))) (max index (d * 64 ^ h)) e := by
  have hpow : 0 < 64 ^ h := Nat.pow_pos (by decide)
  rw [← items_append (Nat.le_max_left ..) hge, items_eq_nil, List.nil_append]
  · -- up to `e` the keys are those of the slot `d`
    apply items_congr
    intro k hk hke
    have hd : k / 64 ^ h = d := by
      refine Nat.div_eq_of_lt_le ?_ ?_
      · exact Nat.le_trans (Nat.le_max_right ..) hk
      · exact Nat.lt_of_lt_of_le hke he
    rw [get_node hp hnode, hd]
  · -- before its block the slots are empty
    intro k hk hkd
    have hlow := Nat.div_le_div_right (c := 64 ^ h) hk
    have hlt : k / 64 ^ h < d := by
      rw [Nat.div_lt_iff_lt_mul hpow]
      omega
    rw [get_node hp hnode, hempty _ hlow hlt, get_empty]

/-- A node without items from the key on. -/
theorem items_rest (hp : p ≠ 0) (hnode : m.nodes p = some nd)
    (hempty : ∀ c, index / 64 ^ h ≤ c → c / 64 = index / 64 ^ h / 64 → nd.slots (c % 64) = 0) :
    items (get 64 m.nodes (h + 1) p) index ((index / 64 ^ h / 64 + 1) * 64 * 64 ^ h) = [] := by
  have hpow : 0 < 64 ^ h := Nat.pow_pos (by decide)
  apply items_eq_nil
  intro k hk hke
  have hlow := Nat.div_le_div_right (c := 64 ^ h) hk
  rw [← Nat.div_lt_iff_lt_mul hpow] at hke
  rw [get_node hp hnode, hempty _ hlow (by omega), get_empty]

/-- What one `__lookup` brings from a trie of height `h`: the items up to some key, and no further
than the trie. From the seventh level on it passes over no barren keys. -/
structure Listed (m : RadixMem) (maxItems h p index e : Nat) : Prop where
  returns : lookup m maxItems h (radixShift h) index p =
    some (u64 e, items (get 64 m.nodes h p) index e)
  gt : index < e
  block : e ≤ (index / 64 ^ h + 1) * 64 ^ h
  word : e ≤ 2 ^ 64
  room : (items (get 64 m.nodes h p) index e).length ≤ maxItems
  fertile : 7 ≤ h → ∀ k, index ≤ k → k < e → ¬ Barren (get 64 m.nodes h p) k

/-- It brings nothing if nothing is left. -/
theorem Listed.of_rest (hh : h ≤ 10) (hp : p ≠ 0) (hnode : m.nodes p = some nd)
    (hk : index < 2 ^ 64) (h5 : h ≤ 5)
    (hempty : ∀ c, index / 64 ^ h ≤ c → c / 64 = index / 64 ^ h / 64 → nd.slots (c % 64) = 0)
    (hlook : lookup m maxItems (h + 1) (radixShift (h + 1)) index p =
      some (u64 ((index / 64 ^ h / 64 + 1) * 64 * 64 ^ h : Nat), [])) :
    Listed m maxItems (h + 1) p index ((index / 64 ^ h / 64 + 1) * 64 * 64 ^ h) := by
  have hpow : 0 < 64 ^ h := Nat.pow_pos (by decide)
  have hend : (index / 64 ^ h / 64 + 1) * 64 * 64 ^ h =
      (index / 64 ^ (h + 1) + 1) * 64 ^ (h + 1) := by
    rw [Nat.pow_succ, ← Nat.div_div_eq_div_mul, Nat.mul_assoc, Nat.mul_comm 64]
  have hnil := items_rest hp hnode hempty
  refine ⟨?_, ?_, Nat.le_of_eq hend, ?_, ?_, by omega⟩
  · rw [hnil]
    exact hlook
  · rw [← Nat.div_lt_iff_lt_mul hpow]
    omega
  · rw [hend]
    exact next_block_le (by omega) hk
  · rw [hnil]
    exact Nat.zero_le _

/-- The bottom level -/
theorem lookup_bottom (hmax : 0 < maxItems) (hp : p ≠ 0) (hnode : m.nodes p = some nd)
    (hk : index < 2 ^ 64) : ∃ e, Listed m maxItems 1 p index e := by
  have hword := next_block_le (show 1 ≤ 10 by decide) hk
  have hget : ∀ k, get 64 m.nodes 1 p k = nd.slots (k % 64) := by
    intro k
    rw [get_node hp hnode, Nat.pow_zero, Nat.div_one]
    rfl
  have hscan := scanSlots_low nd (Nat.zero_le 5) hk rfl
  have hlook := lookup_node index maxItems (Nat.zero_le 10) hnode
  rcases hscan with ⟨d, hd, hsame, hfull, hempty, hscan⟩ | ⟨hempty, hscan⟩
  · rw [hscan, Option.bind_some] at hlook
    simp only [Nat.pow_zero, Nat.pow_one, Nat.div_one, Nat.mul_one] at hword hd hsame hempty hlook
    rw [Nat.max_eq_right hd] at hlook
    obtain ⟨e, hgrab, hle, hend, hlt, hlen⟩ := grabItems_spec nd
      (show d + (64 - d % 64) = (d / 64 + 1) * 64 by omega) (by omega)
      (show d % 64 + (64 - d % 64) = 64 by omega)
      (show ([] : List Addr).length < maxItems from hmax)
    rw [u64_natCast (show d < 2 ^ 64 by omega), List.nil_append] at hgrab
    -- at the bottom a slot is a key, so the keys that were passed over have no item
    have hitems : items (get 64 m.nodes 1 p) index e = items (fun k => nd.slots (k % 64)) d e := by
      rw [items_congr fun k _ _ => hget k, ← items_append hd hle, items_eq_nil hempty,
        List.nil_append]
    refine ⟨e, ?_, by omega, by omega, by omega, ?_, by omega⟩
    · rw [hitems, hlook]
      exact congrArg some hgrab
    · rw [hitems]
      exact hlen
  · rw [hscan, Option.bind_some] at hlook
    exact ⟨_, Listed.of_rest (by decide) hp hnode hk (by decide) hempty hlook⟩

/-- A level below the seventh -/
theorem lookup_low (h5 : h + 1 ≤ 5) (hp : p ≠ 0) (hnode : m.nodes p = some nd)
    (hk : index < 2 ^ 64) (hchild : ∀ c < 64, nd.slots c ≠ 0 → ∀ k < 2 ^ 64,
      ∃ e, Listed m maxItems (h + 1) (nd.slots c) k e) :
    ∃ e, Listed m maxItems (h + 2) p index e := by
  have hpow : 0 < 64 ^ (h + 1) := Nat.pow_pos (by decide)
  have hword := next_block_le (show h + 2 ≤ 10 by omega) hk
  have hlook := lookup_node index maxItems (show h + 1 ≤ 10 by omega) hnode
  have hup : ∀ k : Nat, k / 64 ^ (h + 2) = k / 64 ^ (h + 1) / 64 := by
    intro k
    rw [Nat.pow_succ 64 (h + 1), Nat.div_div_eq_div_mul]
  rcases scanSlots_low nd h5 hk rfl with ⟨d, hd, hsame, hfull, hempty, hscan⟩ | ⟨hempty, hscan⟩
  · rw [hscan, Option.bind_some] at hlook
    -- the slot is followed at the start of its block, or at the key itself
    have hblock : (d + 1) * 64 ^ (h + 1) ≤ (index / 64 ^ (h + 2) + 1) * 64 ^ (h + 2) := by
      rw [hup, Nat.pow_succ 64 (h + 1), Nat.mul_comm (64 ^ (h + 1)), ← Nat.mul_assoc]
      exact Nat.mul_le_mul_right _ (by omega)
    have hdiv : max index (d * 64 ^ (h + 1)) / 64 ^ (h + 1) = d := by
      refine Nat.div_eq_of_lt_le (Nat.le_max_right ..) (Nat.max_lt.mpr ⟨?_, ?_⟩)
      · rw [← Nat.div_lt_iff_lt_mul hpow]
        omega
      · exact Nat.mul_lt_mul_of_pos_right (Nat.lt_succ_self d) hpow
    have hlt : max index (d * 64 ^ (h + 1)) < 2 ^ 64 := by
      have hnext : d * 64 ^ (h + 1) < (d + 1) * 64 ^ (h + 1) :=
        Nat.mul_lt_mul_of_pos_right (Nat.lt_succ_self d) hpow
      exact Nat.max_lt.mpr ⟨hk, by omega⟩
    obtain ⟨e, he⟩ := hchild _ (Nat.mod_lt d (by decide)) hfull _ hlt
    have hend := he.block
    rw [hdiv] at hend
    have hitems := items_node (h := h + 1) hp hnode hempty hend (Nat.le_of_lt he.gt)
    refine ⟨e, ?_, Nat.lt_of_le_of_lt (Nat.le_max_left ..) he.gt, Nat.le_trans hend hblock, he.word,
      ?_, by omega⟩
    · rw [hitems, hlook]
      exact he.returns
    · rw [hitems]
      exact he.room
  · rw [hscan, Option.bind_some] at hlook
    exact ⟨_, Listed.of_rest (by omega) hp hnode hk h5 hempty hlook⟩

/-- In a block of a node that has the keys of the child, the two are barren together. -/
theorem barren_child_iff (h6 : 6 ≤ h) (hp : p ≠ 0) (hnode : m.nodes p = some nd) {k : Nat}
    (hblock : k / 64 ^ h = index / 64 ^ h) :
    Barren (get 64 m.nodes (h + 1) p) k ↔
      Barren (get 64 m.nodes h (nd.slots (index / 64 ^ h % 64))) k := by
  refine forall_congr' fun i => forall_congr' fun hi => ?_
  rw [get_node hp hnode, (div_pow_congr h6 hi).trans hblock]

/-- The seventh level and those above: the slot of the key is followed, and if it is empty there is
no way on. -/
theorem lookup_high (h6 : 6 ≤ h) (hh : h ≤ 10) (hnode : m.nodes p = some nd) :
    lookup m maxItems (h + 1) (radixShift (h + 1)) index p =
      if nd.slots (index / 64 ^ h % 64) = 0 then none
      else lookup m maxItems h (radixShift h) index (nd.slots (index / 64 ^ h % 64)) := by
  have hleft : 64 - index / 64 ^ h % 64 = 63 - index / 64 ^ h % 64 + 1 := by omega
  have hne : h ≠ 0 := by omega
  rw [lookup_node index maxItems hh hnode, hleft, scanSlots_high nd _ index _ h6 hh]
  by_cases hslot : nd.slots (index / 64 ^ h % 64) = 0
  · rw [if_neg (not_not.mpr hslot), if_pos hslot, Option.bind_none]
  · rw [if_pos hslot, if_neg hslot, Option.bind_some]
    exact if_neg hne

/-- What the child brings is what the node brings. -/
theorem Listed.above {e : Nat} (h6 : 6 ≤ h) (hh : h ≤ 10) (hp : p ≠ 0)
    (hnode : m.nodes p = some nd) (hslot : nd.slots (index / 64 ^ h % 64) ≠ 0)
    (he : Listed m maxItems h (nd.slots (index / 64 ^ h % 64)) index e)
    (hfertile : ∀ k, k / 64 ^ h = index / 64 ^ h → index ≤ k → k < e →
      ¬ Barren (get 64 m.nodes h (nd.slots (index / 64 ^ h % 64))) k) :
    Listed m maxItems (h + 1) p index e := by
  have hpow : 0 < 64 ^ h := Nat.pow_pos (by decide)
  have hstart : index / 64 ^ h * 64 ^ h ≤ index := Nat.div_mul_le_self ..
  have hmax : max index (index / 64 ^ h * 64 ^ h) = index := Nat.max_eq_left hstart
  have hitems : items (get 64 m.nodes (h + 1) p) index e =
      items (get 64 m.nodes h (nd.slots (index / 64 ^ h % 64))) index e := by
    have hitems := items_node hp hnode (fun c hc hlt => absurd hc (Nat.not_le.mpr hlt)) he.block
      (hmax.symm ▸ Nat.le_of_lt he.gt)
    rwa [hmax] at hitems
  have hblock : (index / 64 ^ h + 1) * 64 ^ h ≤ (index / 64 ^ (h + 1) + 1) * 64 ^ (h + 1) := by
    rw [Nat.pow_succ, ← Nat.div_div_eq_div_mul, Nat.mul_comm (64 ^ h) 64, ← Nat.mul_assoc]
    exact Nat.mul_le_mul_right _ (by omega)
  refine ⟨?_, he.gt, Nat.le_trans he.block hblock, he.word, ?_, fun _ k hk hke => ?_⟩
  · rw [lookup_high h6 hh hnode, if_neg hslot, hitems]
    exact he.returns
  · rw [hitems]
    exact he.room
  · have hsame : k / 64 ^ h = index / 64 ^ h := by
      refine Nat.div_eq_of_lt_le (Nat.le_trans hstart hk) ?_
      exact Nat.lt_of_lt_of_le hke he.block
    rw [barren_child_iff h6 hp hnode hsame]
    exact hfertile k hsame hk hke

/-- A trie of six levels that is not empty leaves no key barren. -/
theorem not_barren {c k : Nat} (hc : c ≠ 0) (ho : Owns 64 m.nodes 6 c ns) :
    ¬ Barren (get 64 m.nodes 6 c) k := by
  obtain ⟨i, hi, hget⟩ := ho.exists_get (by decide) hc
  intro hbarren
  have hpow : 0 < 64 ^ 6 := Nat.pow_pos (by decide)
  -- the key of the same block as `k` that has the six lowest digits of `i`
  have hdiv : (k / 64 ^ 6 * 64 ^ 6 + i) / 64 ^ 6 = k / 64 ^ 6 := by
    rw [Nat.mul_comm, Nat.mul_add_div hpow, Nat.div_eq_of_lt hi, Nat.add_zero]
  have hmod : (k / 64 ^ 6 * 64 ^ 6 + i) % 64 ^ 6 = i % 64 ^ 6 := by
    rw [Nat.mul_comm, Nat.mul_add_mod]
  have hzero := hbarren _ hdiv
  rw [get_eq_of_mod (by decide) hmod] at hzero
  exact hget hzero

/-- **`__lookup`**, by induction on the height: it brings the items from the key on up to some key,
unless the key is barren and the tree is of seven levels or more. -/
theorem lookup_spec (hmax : 0 < maxItems) (hh : h ≤ 10) (hp : p ≠ 0)
    (ho : Owns 64 m.nodes (h + 1) p ns) (hk : index < 2 ^ 64) :
    (∃ e, Listed m maxItems (h + 1) p index e) ∨
      lookup m maxItems (h + 1) (radixShift (h + 1)) index p = none ∧ 6 ≤ h ∧
        Barren (get 64 m.nodes (h + 1) p) index := by
  induction h generalizing index p ns with
  | zero =>
      obtain ⟨nd, parts, hnode, -⟩ := (ho.resolve_left fun hz => hp hz.1).2
      exact Or.inl (lookup_bottom hmax hp hnode hk)
  | succ h ih =>
      obtain ⟨nd, parts, hnode, hc, -⟩ := (ho.resolve_left fun hz => hp hz.1).2
      by_cases h5 : h + 1 ≤ 5
      · -- below the seventh level the whole node is scanned
        refine Or.inl (lookup_low h5 hp hnode hk fun c hc64 hslot k hk' => ?_)
        refine (ih (by omega) hslot (hc.owned c hc64) hk').resolve_right fun hbad => ?_
        omega
      · -- from there on only the slot of the key itself is looked at
        have h6 : 6 ≤ h + 1 := by omega
        have hd : index / 64 ^ (h + 1) % 64 < 64 := Nat.mod_lt _ (by decide)
        by_cases hslot : nd.slots (index / 64 ^ (h + 1) % 64) = 0
        · refine Or.inr ⟨?_, h6, ?_⟩
          · rw [lookup_high h6 hh hnode, if_pos hslot]
          · rw [barren_child_iff h6 hp hnode rfl, hslot]
            exact fun i _ => get_empty ..
        · rcases ih (by omega) hslot (hc.owned _ hd) hk with ⟨e, he⟩ | ⟨hnone, hlevel, hbarren⟩
          · refine Or.inl ⟨e, he.above h6 hh hp hnode hslot fun k _ hik hke => ?_⟩
            -- a child of six levels is scanned whole, and none of its keys is barren
            by_cases hseven : 7 ≤ h + 1
            · exact he.fertile hseven k hik hke
            · obtain rfl : h = 5 := by omega
              exact not_barren hslot (hc.owned _ hd)
          · refine Or.inr ⟨?_, h6, ?_⟩
            · rw [lookup_high h6 hh hnode, if_neg hslot]
              exact hnone
            · rw [barren_child_iff h6 hp hnode rfl]
              exact hbarren

end Lookup

/-! ## `radix_tree_gang_lookup` -/

/-- The scan for `maxItems` items from the key `first` on gets to a barren key of a tree of seven
levels or more. -/
def Stuck (height : Nat) (f : Nat → Addr) (first maxItems : Nat) : Prop :=
  7 ≤ height ∧ ∃ k, first ≤ k ∧ k < min (64 ^ height) (2 ^ 64) ∧ Barren f k ∧
    (items f first k).length < maxItems

section Gang

variable {m : RadixMem} {ns : Finset Addr} {first k e index maxItems fuel : Nat}

theorem RadixMem.item_of_lt (hk : k < 64 ^ m.root.height) :
    m.item k = get 64 m.nodes m.root.height m.root.rnode k := if_pos hk

/-- Behind the keys that the height has room for there is no item. -/
theorem RadixMem.items_behind (hk : min (64 ^ m.root.height) (2 ^ 64) ≤ k) :
    items m.item k (2 ^ 64) = [] := by
  apply items_eq_nil
  intro i hki hi
  refine if_neg ?_
  omega

/-- A barren key is one of the tree as it is one of the map. -/
theorem RadixMem.barren_iff (hlevel : 7 ≤ m.root.height) (hk : k < 64 ^ m.root.height) :
    Barren m.item k ↔ Barren (get 64 m.nodes m.root.height m.root.rnode) k := by
  refine forall_congr' fun i => forall_congr' fun hi => ?_
  have hpow : 0 < 64 ^ m.root.height := Nat.pow_pos (by decide)
  have hdiv := div_pow_congr (h := m.root.height) (by omega) hi
  rw [Nat.div_eq_of_lt hk, Nat.div_eq_zero_iff] at hdiv
  rw [RadixMem.item_of_lt (by omega)]

/-- What one `__lookup` brings is part of the list. -/
theorem Listed.items_item (he : Listed m maxItems m.root.height m.root.rnode k e)
    (hk : k < 64 ^ m.root.height) :
    items m.item k e = items (get 64 m.nodes m.root.height m.root.rnode) k e := by
  have hend := he.block
  rw [Nat.div_eq_of_lt hk, Nat.zero_add, Nat.one_mul] at hend
  exact items_congr fun i _ hi => RadixMem.item_of_lt (by omega)

/-- A scan that has come to `k` is stuck if it is so from there on. -/
theorem not_stuck_before (he : Listed m maxItems m.root.height m.root.rnode k e)
    (hk : k < 64 ^ m.root.height) {i : Nat} (hlevel : 7 ≤ m.root.height) (hki : k ≤ i)
    (hi : Barren m.item i) : e ≤ i := by
  by_contra hlt
  have hend := he.block
  rw [Nat.div_eq_of_lt hk, Nat.zero_add, Nat.one_mul] at hend
  rw [RadixMem.barren_iff hlevel (by omega)] at hi
  exact he.fertile hlevel i hki (by omega) hi

/-- The loop of `radix_tree_gang_lookup` when it has come to the key `k`, by induction on the
rounds that may be left: each takes it past one key at least. -/
theorem gangLoop_spec (hs : m.Shape ns) (hroot : m.root.rnode ≠ 0) (hheight : 0 < m.root.height)
    (hfirst : first ≤ k) (hk : k ≤ 2 ^ 64) (hfuel : 2 ^ 64 - k < fuel)
    (hroom : (items m.item first k).length ≤ maxItems) :
    gangLoop m (min (64 ^ m.root.height) (2 ^ 64) - 1) maxItems fuel k (items m.item first k) =
        none ∧ 7 ≤ m.root.height ∧
        (∃ i, k ≤ i ∧ i < min (64 ^ m.root.height) (2 ^ 64) ∧ Barren m.item i ∧
          (items m.item first i).length < maxItems) ∨
      gangLoop m (min (64 ^ m.root.height) (2 ^ 64) - 1) maxItems fuel k (items m.item first k) =
        some ((items m.item first (2 ^ 64)).take maxItems) ∧
        ¬ (7 ≤ m.root.height ∧ ∃ i, k ≤ i ∧ i < min (64 ^ m.root.height) (2 ^ 64) ∧
          Barren m.item i ∧ (items m.item first i).length < maxItems) := by
  have hpow : 0 < 64 ^ m.root.height := Nat.pow_pos (by decide)
  induction fuel generalizing k with
  | zero => omega
  | succ fuel ih =>
      rw [gangLoop]
      by_cases hmore : (items m.item first k).length < maxItems
      · rw [if_pos hmore]
        by_cases hend : k > min (64 ^ m.root.height) (2 ^ 64) - 1
        · -- no key is left
          have hsplit := items_append (f := m.item) hfirst hk
          rw [RadixMem.items_behind (by omega), List.append_nil] at hsplit
          refine Or.inr ⟨?_, ?_⟩
          · rw [if_pos hend, ← hsplit, List.take_of_length_le hroom]
          · rintro ⟨-, i, hki, hi, -⟩
            omega
        · rw [if_neg hend]
          obtain ⟨h, hh⟩ := Nat.exists_eq_succ_of_ne_zero (Nat.ne_of_gt hheight)
          have hkh : k < 64 ^ m.root.height := by omega
          have hlevel := hs.height_le
          have howns := hs.owns
          have hleft : 0 < maxItems - (items m.item first k).length := by omega
          have hword : k < 2 ^ 64 := by omega
          rw [hh] at howns hlevel
          have hspec := lookup_spec hleft (Nat.le_of_succ_le_succ hlevel) hroot howns hword
          rw [← Nat.succ_eq_add_one, ← hh] at hspec
          rw [← hh] at hlevel
          -- the round brings the items up to `e`, or it shifts too far in a barren block
          rcases hspec with ⟨e, he⟩ | ⟨hnone, h6, hbarren⟩
          · have hitems := he.items_item hkh
            have hlt := he.gt
            have hword := he.word
            have hlist : items m.item first k ++ items (get 64 m.nodes m.root.height m.root.rnode)
                k e = items m.item first e := by
              rw [← hitems, items_append hfirst (Nat.le_of_lt hlt)]
            have hroom' : (items m.item first e).length ≤ maxItems := by
              have := he.room
              rw [← hlist, List.length_append]
              omega
            rw [he.returns, Option.bind_some, hlist]
            by_cases hwrap : e = 2 ^ 64
            · -- the index has come to 0
              have hu : u64 (e : Int) = 0 := by
                rw [hwrap]
                rfl
              refine Or.inr ⟨?_, ?_⟩
              · rw [hu, if_pos rfl, hwrap, List.take_of_length_le (hwrap ▸ hroom')]
              · rintro ⟨hseven, i, hki, hi, hbarren, -⟩
                have := not_stuck_before he hkh hseven hki hbarren
                omega
            · have hu : u64 (e : Int) = e := u64_natCast (by omega)
              have hne : e ≠ 0 := by omega
              rw [hu, if_neg hne]
              -- no barren key is passed over, so the scan from `e` on is stuck where this one is
              rcases ih (by omega) hword (by omega) hroom' with
                ⟨hrun, hseven, i, hei, hrest⟩ | ⟨hrun, hnot⟩
              · exact Or.inl ⟨hrun, hseven, i, by omega, hrest⟩
              · refine Or.inr ⟨hrun, ?_⟩
                rintro ⟨hseven, i, hki, hi, hbarren, hlen⟩
                have hei := not_stuck_before he hkh hseven hki hbarren
                exact hnot ⟨hseven, i, hei, hi, hbarren, hlen⟩
          · have hseven : 7 ≤ m.root.height := by omega
            refine Or.inl ⟨?_, hseven, k, Nat.le_refl k, by omega, ?_, hmore⟩
            · rw [hnone, Option.bind_none]
            · exact (RadixMem.barren_iff hseven hkh).mpr hbarren
      · -- there are as many as asked for
        have hlen : (items m.item first k).length = maxItems := by omega
        refine Or.inr ⟨?_, ?_⟩
        · rw [if_neg hmore, ← items_append hfirst hk, List.take_left' hlen]
        · rintro ⟨-, i, hki, -, -, hfew⟩
          have := length_items_mono (f := m.item) hfirst hki
          omega

variable (maxItems) in
/-- **`radix_tree_gang_lookup`** -/
theorem radixTreeGangLookup_spec (ht : m.Tree ns) (hfirst : first < 2 ^ 64) :
    (Stuck m.root.height m.item first maxItems → radixTreeGangLookup first maxItems m = none) ∧
      (¬ Stuck m.root.height m.item first maxItems →
        radixTreeGangLookup first maxItems m =
          some ((items m.item first (2 ^ 64)).take maxItems)) := by
  have hheight : m.root.height < radixTreeMaxPath := Nat.lt_succ_of_le ht.height_le
  have hmax : radixTreeMaxindex m m.root.height =
      some (min (64 ^ m.root.height) (2 ^ 64) - 1) := by
    rw [radixTreeMaxindex, if_pos hheight, ht.table _ hheight, maxindex_eq _ hheight]
  rw [radixTreeGangLookup, hmax, Option.bind_some]
  by_cases hroot : m.root.rnode = 0
  · -- no item
    have hnil : items m.item first (2 ^ 64) = [] :=
      items_eq_nil fun i _ _ => RadixMem.item_of_empty hroot i
    rw [if_pos hroot, hnil, List.take_nil, ht.reset hroot]
    exact ⟨fun hstuck => absurd hstuck.1 (by decide), fun _ => rfl⟩
  · rw [if_neg hroot]
    by_cases hzero : m.root.height = 0
    · -- the root is the item at the key 0
      have hitem : ∀ k, m.item k = if k < 1 then m.root.rnode else 0 := by
        intro k
        rw [RadixMem.item, hzero, Nat.pow_zero, Trie.get]
      rw [hzero, if_pos (show min (64 ^ 0) (2 ^ 64) - 1 = 0 by decide)]
      refine ⟨fun hstuck => absurd hstuck.1 (by decide), fun _ => ?_⟩
      by_cases hfirst0 : first = 0
      · have hone : items m.item first (2 ^ 64) = [m.root.rnode] := by
          rw [items_cons hfirst, hfirst0, items_eq_nil, hitem, if_pos Nat.one_pos, if_pos hroot,
            List.append_nil]
          intro i hi _
          rw [hitem, if_neg (by omega)]
        rw [hone]
        cases maxItems with
        | zero => exact if_neg fun hpos => absurd hpos.2 (by decide)
        | succ n =>
            rw [if_pos ⟨hfirst0, Nat.succ_pos n⟩, List.take_succ_cons, List.take_nil]
      · have hnil : items m.item first (2 ^ 64) = [] := by
          refine items_eq_nil fun i hi _ => ?_
          rw [hitem, if_neg (by omega)]
        rw [hnil, List.take_nil]
        exact if_neg fun hfound => hfirst0 hfound.1
    · have hpos : 0 < m.root.height := Nat.pos_of_ne_zero hzero
      have hlarge : 64 ^ 1 ≤ 64 ^ m.root.height := Nat.pow_le_pow_right (by decide) hpos
      have hroom : (items m.item first first).length ≤ maxItems := by
        rw [items_self]
        exact Nat.zero_le _
      rw [if_neg (by omega)]
      have hspec := gangLoop_spec ht.toShape hroot hpos (Nat.le_refl first) (Nat.le_of_lt hfirst)
        (show 2 ^ 64 - first < 2 ^ 64 + 1 by omega) hroom
      rw [items_self] at hspec
      rcases hspec with ⟨hrun, hstuck⟩ | ⟨hrun, hfree⟩
      · exact ⟨fun _ => hrun, fun hfree => absurd hstuck hfree⟩
      · exact ⟨fun hstuck => absurd hstuck hfree, fun _ => hrun⟩

end Gang

/-- **The tree is listed in order.** Whatever has been inserted and deleted in whatever order,
`radix_tree_gang_lookup` places the first items from the key on, in the order of the keys and each
once; and it shifts out of an `int` if and only if its scan gets to `2 ^ 36` keys in a row without
an item, in a tree of seven levels or more. -/
theorem radix_tree_lists_in_order {calls : List TreeCall} (hlegal : ∀ call ∈ calls, call.Legal) :
    ∃ w a, exec treeStep .start calls = some w ∧ exec mapStep .start calls = some a ∧
      ∀ first < 2 ^ 64, ∀ maxItems,
        (radixTreeGangLookup first maxItems w.mem = none ↔
          Stuck w.mem.root.height a.map first maxItems) ∧
        (¬ Stuck w.mem.root.height a.map first maxItems →
          radixTreeGangLookup first maxItems w.mem =
            some ((items a.map first (2 ^ 64)).take maxItems)) := by
  have hrel := treeStep_simulates.exec TreeWorld.start_refines (eachStep_of_forall hlegal)
  obtain ⟨a, ha⟩ := exec_mapStep .start calls
  rw [ha] at hrel
  generalize hw : exec treeStep .start calls = o at hrel
  cases hrel with
  | some hR =>
      refine ⟨_, a, rfl, ha, fun first hfirst maxItems => ?_⟩
      obtain ⟨ns, ht⟩ := hR.mem.tree
      have hspec := radixTreeGangLookup_spec maxItems ht hfirst
      rw [funext hR.mem.item] at hspec
      refine ⟨⟨fun hnone => ?_, hspec.1⟩, hspec.2⟩
      by_contra hnot
      rw [hspec.2 hnot] at hnone
      exact Option.some_ne_none _ hnone

/-- The least and the largest key: either is listed alone, but no scan gets from one to the
other. -/
theorem radix_tree_lists_in_order_apart : ∃ w,
    exec treeStep .start [.insert .least (2 ^ 64 - 1) 996, .insert .least 0 995] = some w ∧
      radixTreeGangLookup 0 1 w.mem = some [995] ∧
      radixTreeGangLookup (2 ^ 64 - 1) 8 w.mem = some [996] ∧
      radixTreeGangLookup 0 2 w.mem = none := by
  have hlegal : ∀ call ∈ [TreeCall.insert .least (2 ^ 64 - 1) 996, .insert .least 0 995],
      call.Legal := by
    simp [TreeCall.Legal, Calloc.least_succeeds]
  obtain ⟨w, a, hw, ha, hlist⟩ := radix_tree_lists_in_order hlegal
  have hrel := treeStep_simulates.exec TreeWorld.start_refines (eachStep_of_forall hlegal)
  rw [hw, ha] at hrel
  cases hrel with
  | some hR =>
      have hmap : ∀ k, a.map k = if k = 0 then 995 else if k = 2 ^ 64 - 1 then 996 else 0 := by
        intro k
        cases ha
        simp [BlobTopFs.radixTreeInsert, MapWorld.start, Function.update_apply]
      have hfirst : items a.map 0 (64 ^ 6) = [995] := by
        rw [items_cons (by decide), items_eq_nil, hmap]
        · rfl
        · intro k hk hlt
          rw [hmap, if_neg (by omega), if_neg (by omega)]
      have hlast : items a.map (2 ^ 64 - 1) (2 ^ 64) = [996] := by
        rw [items_cons (by decide), Nat.sub_add_cancel (by decide), items_self, hmap]
        rfl
      refine ⟨w, hw, ?_, ?_, ?_⟩
      · have hfree : ¬ Stuck w.mem.root.height a.map 0 1 := by
          rintro ⟨-, k, -, -, hbarren, hlen⟩
          have hzero : k ≠ 0 := by
            rintro rfl
            exact absurd (hbarren 0 rfl) (by rw [hmap]; decide)
          rw [items_cons (Nat.pos_of_ne_zero hzero), hmap] at hlen
          exact absurd hlen (by simp)
        rw [(hlist 0 (by decide) 1).2 hfree, ← items_append (Nat.zero_le _)
          (show 64 ^ 6 ≤ 2 ^ 64 by decide), hfirst]
        rfl
      · have hfree : ¬ Stuck w.mem.root.height a.map (2 ^ 64 - 1) 8 := by
          rintro ⟨-, k, hk, hlt, hbarren, -⟩
          have hval := hbarren k rfl
          rw [hmap, if_neg (by omega), if_pos (by omega)] at hval
          exact absurd hval (by decide)
        rw [(hlist _ (by decide) 8).2 hfree, hlast]
        rfl
      · have hlevel : 7 ≤ w.mem.root.height := by
          by_contra hlow
          have hpow : 64 ^ w.mem.root.height ≤ 64 ^ 6 := Nat.pow_le_pow_right (by decide) (by omega)
          have hitem := hR.mem.item (2 ^ 64 - 1)
          rw [RadixMem.item, if_neg (by omega), hmap] at hitem
          exact absurd hitem (by decide)
        have hpow : 64 ^ 7 ≤ 64 ^ w.mem.root.height := Nat.pow_le_pow_right (by decide) hlevel
        refine (hlist 0 (by decide) 2).1.mpr ⟨hlevel, 64 ^ 6, Nat.zero_le _, by omega, ?_, ?_⟩
        · intro i hi
          rw [hmap, if_neg (by omega), if_neg (by omega)]
        · rw [hfirst]
          decide

end BlobTopFs.Radix
