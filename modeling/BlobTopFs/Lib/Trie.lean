import BlobTopFs.Lib.Holders
import Mathlib.Algebra.BigOperators.Ring.Finset
import Mathlib.Algebra.Order.BigOperators.Group.Finset
import Mathlib.Data.Finset.Union
import Mathlib.Data.Finset.Disjoint
import Mathlib.Logic.Function.Basic

/-!
# Tries in a heap

A trie of height `h` over the base `b` finds a key digit by digit, the highest first, through `h`
nodes of `b` slots each. The nodes are in a heap and a slot holds the address of one, 0 for none;
at height 0 the word is the item itself. `get` reads a trie and `Owns` says which nodes it is made
of: no two slots share a node, every node counts its filled slots, and none is empty.
-/

namespace BlobTopFs.Trie

/-- How many slots are filled, and what they hold. -/
structure Node where
  count : Nat
  slots : Nat → Nat

abbrev Heap := Nat → Option Node

/-- The item at the key, 0 if there is none. -/
def get (b : Nat) (heap : Heap) : (h p k : Nat) → Nat
  | 0, p, _ => p
  | h + 1, p, k =>
      if p = 0 then 0
      else match heap p with
        | none => 0
        | some nd => get b heap h (nd.slots (k / b ^ h % b)) k

/-- The node at `p` counts its slots, and what is below them lies apart. -/
structure Children (b : Nat) (owns : Nat → Finset Nat → Prop) (p : Nat) (nd : Node)
    (parts : Nat → Finset Nat) : Prop where
  count : nd.count + (holders b nd.slots 0).card = b
  owned : ∀ i < b, owns (nd.slots i) (parts i)
  apart : ∀ i < b, p ∉ parts i
  disjoint : ∀ i < b, ∀ j < b, i ≠ j → Disjoint (parts i) (parts j)

/-- The node at `p` and all that is below it. -/
def footprint (b p : Nat) (parts : Nat → Finset Nat) : Finset Nat :=
  insert p ((Finset.range b).biUnion parts)

/-- The trie of height `h` at `p` is made of the nodes `ns`. -/
def Owns (b : Nat) (heap : Heap) : Nat → Nat → Finset Nat → Prop
  | 0 => fun _ ns => ns = ∅
  | h + 1 => fun p ns =>
      (p = 0 ∧ ns = ∅) ∨ p ≠ 0 ∧ ∃ nd parts, heap p = some nd ∧
        Children b (Owns b heap h) p nd parts ∧ (∃ i < b, nd.slots i ≠ 0) ∧
        ns = footprint b p parts

/-- One node with its children. -/
theorem Owns.node {b h p : Nat} {heap : Heap} {nd : Node} {parts : Nat → Finset Nat} (hp : p ≠ 0)
    (hnode : heap p = some nd) (hc : Children b (Owns b heap h) p nd parts)
    (hfull : ∃ i < b, nd.slots i ≠ 0) : Owns b heap (h + 1) p (footprint b p parts) :=
  Or.inr ⟨hp, nd, parts, hnode, hc, hfull, rfl⟩

variable {b h p q k key v : Nat} {heap heap' : Heap} {nd nd' : Node} {ns ns' : Finset Nat}
  {parts : Nat → Finset Nat}

@[simp] theorem mem_footprint : q ∈ footprint b p parts ↔ q = p ∨ ∃ i < b, q ∈ parts i := by
  simp [footprint]

theorem mem_footprint_update {d : Nat} (hd : d < b) :
    q ∈ footprint b p (Function.update parts d ns) ↔
      q = p ∨ q ∈ ns ∨ ∃ i < b, i ≠ d ∧ q ∈ parts i := by
  rw [mem_footprint]
  refine or_congr_right ⟨?_, ?_⟩
  · rintro ⟨i, hi, hq⟩
    by_cases hid : i = d
    · rw [hid, Function.update_self] at hq
      exact Or.inl hq
    · rw [Function.update_of_ne hid] at hq
      exact Or.inr ⟨i, hi, hid, hq⟩
  · rintro (hq | ⟨i, hi, hid, hq⟩)
    · exact ⟨d, hd, by rwa [Function.update_self]⟩
    · exact ⟨i, hi, by rwa [Function.update_of_ne hid]⟩

theorem footprint_update {d : Nat} (hd : d < b) :
    footprint b p (Function.update (fun _ => ∅) d ns) = insert p ns := by
  ext q
  rw [mem_footprint_update hd]
  simp

/-! ## The empty trie -/

theorem owns_empty (b : Nat) (heap : Heap) (h : Nat) : Owns b heap h 0 ∅ := by
  cases h with
  | zero => rfl
  | succ h => exact Or.inl ⟨rfl, rfl⟩

theorem Owns.eq_empty (ho : Owns b heap h 0 ns) : ns = ∅ := by
  cases h with
  | zero => exact ho
  | succ h =>
      rcases ho with ⟨-, hns⟩ | ⟨hne, -⟩
      · exact hns
      · exact absurd rfl hne

@[simp] theorem get_empty (b : Nat) (heap : Heap) (h k : Nat) : get b heap h 0 k = 0 := by
  cases h with
  | zero => rfl
  | succ h => exact if_pos rfl

theorem get_node (hp : p ≠ 0) (hnode : heap p = some nd) :
    get b heap (h + 1) p k = get b heap h (nd.slots (k / b ^ h % b)) k := by
  rw [get, if_neg hp, hnode]

/-! ## Frames -/

/-- The nodes of a trie are in the heap. -/
theorem Owns.isSome (ho : Owns b heap h p ns) (hq : q ∈ ns) : q ≠ 0 ∧ (heap q).isSome = true := by
  induction h generalizing p ns with
  | zero =>
      rw [show ns = ∅ from ho] at hq
      simp at hq
  | succ h ih =>
      rcases ho with ⟨-, rfl⟩ | ⟨hp, nd, parts, hnode, hc, -, rfl⟩
      · simp at hq
      · rcases mem_footprint.mp hq with rfl | ⟨i, hi, hq⟩
        · exact ⟨hp, by rw [hnode]; rfl⟩
        · exact ih (hc.owned i hi) hq

/-- A trie is the same in every heap that has its nodes. -/
theorem Owns.congr (ho : Owns b heap h p ns) (hsame : ∀ q ∈ ns, heap' q = heap q) :
    Owns b heap' h p ns := by
  induction h generalizing p ns with
  | zero => exact ho
  | succ h ih =>
      rcases ho with hempty | ⟨hp, nd, parts, hnode, hc, hfull, rfl⟩
      · exact Or.inl hempty
      · refine Owns.node hp ?_ ⟨hc.count, fun i hi => ?_, hc.apart, hc.disjoint⟩ hfull
        · rw [hsame p (mem_footprint.mpr (Or.inl rfl)), hnode]
        · exact ih (hc.owned i hi) fun q hq => hsame q (mem_footprint.mpr (Or.inr ⟨i, hi, hq⟩))

theorem get_congr (ho : Owns b heap h p ns) (hb : 0 < b) (hsame : ∀ q ∈ ns, heap' q = heap q) :
    get b heap' h p k = get b heap h p k := by
  induction h generalizing p ns with
  | zero => rfl
  | succ h ih =>
      rcases ho with ⟨rfl, -⟩ | ⟨hp, nd, parts, hnode, hc, -, rfl⟩
      · rw [get_empty, get_empty]
      · have hnode' : heap' p = some nd := by
          rw [hsame p (mem_footprint.mpr (Or.inl rfl)), hnode]
        rw [get_node hp hnode, get_node hp hnode']
        have hd : k / b ^ h % b < b := Nat.mod_lt _ hb
        apply ih (hc.owned _ hd)
        exact fun q hq => hsame q (mem_footprint.mpr (Or.inr ⟨_, hd, hq⟩))

/-! ## Digits -/

/-- Two keys agree below `b ^ (h + 1)` if they have digit `h` in common and agree below `b ^ h`. -/
theorem mod_pow_succ_eq_iff (hb : 0 < b) : k % b ^ (h + 1) = key % b ^ (h + 1) ↔
    k / b ^ h % b = key / b ^ h % b ∧ k % b ^ h = key % b ^ h := by
  rw [Nat.mod_pow_succ, Nat.mod_pow_succ]
  constructor
  · intro heq
    have hpow : 0 < b ^ h := Nat.pow_pos hb
    have hlow : k % b ^ h = key % b ^ h := by
      have := congrArg (· % b ^ h) heq
      simpa using this
    rw [hlow] at heq
    exact ⟨Nat.eq_of_mul_eq_mul_left hpow (Nat.add_left_cancel heq), hlow⟩
  · rintro ⟨hdigit, hlow⟩
    rw [hdigit, hlow]

/-- A trie of height `h` looks at no digit from `h` on. -/
theorem get_eq_of_mod (hb : 0 < b) (hk : k % b ^ h = key % b ^ h) :
    get b heap h p k = get b heap h p key := by
  induction h generalizing p with
  | zero => rfl
  | succ h ih =>
      obtain ⟨hdigit, hlow⟩ := (mod_pow_succ_eq_iff hb).mp hk
      unfold get
      rw [hdigit]
      split
      · rfl
      · split
        · rfl
        · exact ih hlow

/-! ## Counting -/

/-- A trie's node counts its filled slots, and has one. -/
theorem Owns.count (ho : Owns b heap h p ns) (hq : q ∈ ns) (hnd : heap q = some nd) :
    0 < nd.count ∧ nd.count + (holders b nd.slots 0).card = b := by
  induction h generalizing p ns with
  | zero =>
      rw [show ns = ∅ from ho] at hq
      exact absurd hq (Finset.notMem_empty q)
  | succ h ih =>
      rcases ho with ⟨-, rfl⟩ | ⟨hp, nd', parts, hnode, hc, ⟨i, hi, hfull⟩, rfl⟩
      · exact absurd hq (Finset.notMem_empty q)
      · rcases mem_footprint.mp hq with rfl | ⟨j, hj, hq⟩
        · cases hnode.symm.trans hnd
          have hlt := card_holders_lt hi hfull
          have hcount := hc.count
          exact ⟨by omega, hcount⟩
        · exact ih (hc.owned j hj) hq

/-- The key that has digit `i` above those of `k`. -/
theorem digit_add {i : Nat} (hi : i < b) (hk : k < b ^ h) :
    i * b ^ h + k < b ^ (h + 1) ∧ (i * b ^ h + k) / b ^ h % b = i ∧
      (i * b ^ h + k) % b ^ h = k := by
  have hpow : 0 < b ^ h := Nat.lt_of_le_of_lt (Nat.zero_le k) hk
  refine ⟨?_, ?_, ?_⟩
  · rw [Nat.pow_succ, Nat.mul_comm (b ^ h)]
    calc i * b ^ h + k < i * b ^ h + b ^ h := Nat.add_lt_add_left hk _
      _ = (i + 1) * b ^ h := (Nat.succ_mul i _).symm
      _ ≤ b * b ^ h := Nat.mul_le_mul_right _ hi
  · rw [Nat.mul_comm, Nat.mul_add_div hpow, Nat.div_eq_of_lt hk, Nat.add_zero,
      Nat.mod_eq_of_lt hi]
  · rw [Nat.add_comm, Nat.add_mul_mod_self_right, Nat.mod_eq_of_lt hk]

/-- A trie that is not empty has an item. -/
theorem Owns.exists_get (ho : Owns b heap h p ns) (hb : 0 < b) (hp : p ≠ 0) :
    ∃ k < b ^ h, get b heap h p k ≠ 0 := by
  induction h generalizing p ns with
  | zero => exact ⟨0, Nat.one_pos, hp⟩
  | succ h ih =>
      rcases ho with ⟨rfl, -⟩ | ⟨-, nd, parts, hnode, hc, ⟨i, hi, hfull⟩, -⟩
      · exact absurd rfl hp
      · obtain ⟨k, hk, hget⟩ := ih (hc.owned i hi) hfull
        obtain ⟨hlt, hdigit, hlow⟩ := digit_add hi hk
        refine ⟨i * b ^ h + k, hlt, ?_⟩
        rw [get_node hp hnode, hdigit, get_eq_of_mod hb (hlow.trans (Nat.mod_eq_of_lt hk).symm)]
        exact hget

/-- A trie has at most one node for each item and each height. -/
theorem Owns.card_le (ho : Owns b heap h p ns) (hb : 0 < b) {K : Finset Nat}
    (hK : ∀ k < b ^ h, get b heap h p k ≠ 0 → k ∈ K) : ns.card ≤ h * K.card := by
  induction h generalizing p ns K with
  | zero =>
      rw [show ns = ∅ from ho, Finset.card_empty]
      exact Nat.zero_le _
  | succ h ih =>
      have hkey := ho.exists_get hb
      rcases ho with ⟨-, rfl⟩ | ⟨hp, nd, parts, hnode, hc, -, rfl⟩
      · exact Nat.zero_le _
      -- the keys of each child
      let part : Nat → Finset Nat := fun i => K.filter fun k => k / b ^ h % b = i
      have hpart : ∀ i ∈ Finset.range b, (parts i).card ≤ h * (part i).card := by
        intro i hi
        have hi := Finset.mem_range.mp hi
        have himage : ∀ k < b ^ h, get b heap h (nd.slots i) k ≠ 0 →
            k ∈ (part i).image (· % b ^ h) := by
          intro k hk hget
          obtain ⟨hlt, hdigit, hlow⟩ := digit_add hi hk
          refine Finset.mem_image.mpr ⟨i * b ^ h + k, ?_, hlow⟩
          refine Finset.mem_filter.mpr ⟨hK _ hlt ?_, hdigit⟩
          rw [get_node hp hnode, hdigit, get_eq_of_mod hb (hlow.trans (Nat.mod_eq_of_lt hk).symm)]
          exact hget
        calc (parts i).card ≤ h * ((part i).image (· % b ^ h)).card := ih (hc.owned i hi) himage
          _ ≤ h * (part i).card := Nat.mul_le_mul_left h Finset.card_image_le
      have hsum : ∑ i ∈ Finset.range b, (part i).card = K.card := by
        refine (Finset.card_eq_sum_card_fiberwise fun k _ => ?_).symm
        exact Finset.mem_coe.mpr (Finset.mem_range.mpr (Nat.mod_lt _ hb))
      have hpos : 0 < K.card := by
        obtain ⟨k, hk, hget⟩ := hkey hp
        exact Finset.card_pos.mpr ⟨k, hK k hk hget⟩
      calc (footprint b p parts).card
          ≤ ((Finset.range b).biUnion parts).card + 1 := Finset.card_insert_le ..
        _ ≤ ∑ i ∈ Finset.range b, (parts i).card + 1 :=
          Nat.add_le_add_right Finset.card_biUnion_le 1
        _ ≤ ∑ i ∈ Finset.range b, h * (part i).card + 1 :=
            Nat.add_le_add_right (Finset.sum_le_sum hpart) 1
        _ = h * K.card + 1 := by rw [← Finset.mul_sum, hsum]
        _ ≤ (h + 1) * K.card := by
            rw [Nat.succ_mul]
            exact Nat.add_le_add_left hpos _

/-! ## Changing one child -/

section Child

variable {d c' : Nat}

/-- The child at `d` becomes another trie, and the other children stay. -/
theorem Children.set (hc : Children b (Owns b heap h) p nd parts)
    (hslots : nd'.slots = Function.update nd.slots d c')
    (hcount : nd'.count + (holders b nd'.slots 0).card = b) (ho : Owns b heap' h c' ns')
    (hsame : ∀ i < b, i ≠ d → ∀ q ∈ parts i, heap' q = heap q) (hp : p ∉ ns')
    (hapart : ∀ i < b, i ≠ d → Disjoint (parts i) ns') :
    Children b (Owns b heap' h) p nd' (Function.update parts d ns') where
  count := hcount
  owned := by
    intro i hi
    rw [hslots]
    by_cases hid : i = d
    · rw [hid, Function.update_self, Function.update_self]
      exact ho
    · rw [Function.update_of_ne hid, Function.update_of_ne hid]
      exact (hc.owned i hi).congr (hsame i hi hid)
  apart := by
    intro i hi
    by_cases hid : i = d
    · rwa [hid, Function.update_self]
    · rw [Function.update_of_ne hid]
      exact hc.apart i hi
  disjoint := by
    intro i hi j hj hij
    by_cases hid : i = d
    · have hjd : j ≠ d := fun h => hij (hid.trans h.symm)
      rw [hid, Function.update_self, Function.update_of_ne hjd]
      exact (hapart j hj hjd).symm
    · rw [Function.update_of_ne hid]
      by_cases hjd : j = d
      · rw [hjd, Function.update_self]
        exact hapart i hi hid
      · rw [Function.update_of_ne hjd]
        exact hc.disjoint i hi j hj hij

/-- What is found then, if the key is one of that child's. -/
theorem get_set (hb : 0 < b) (hp : p ≠ 0) (hnode : heap p = some nd) (hnode' : heap' p = some nd')
    (hc : Children b (Owns b heap h) p nd parts)
    (hslots : nd'.slots = Function.update nd.slots (key / b ^ h % b) c')
    (hsame : ∀ i < b, i ≠ key / b ^ h % b → ∀ q ∈ parts i, heap' q = heap q)
    (hget : ∀ k, get b heap' h c' k =
      if k % b ^ h = key % b ^ h then v else get b heap h (nd.slots (key / b ^ h % b)) k)
    (k : Nat) :
    get b heap' (h + 1) p k =
      if k % b ^ (h + 1) = key % b ^ (h + 1) then v else get b heap (h + 1) p k := by
  rw [get_node hp hnode, get_node hp hnode', hslots]
  by_cases hd : k / b ^ h % b = key / b ^ h % b
  · rw [hd, Function.update_self, hget]
    simp only [mod_pow_succ_eq_iff hb, hd, true_and]
  · have hlt : k / b ^ h % b < b := Nat.mod_lt _ hb
    rw [Function.update_of_ne hd, get_congr (hc.owned _ hlt) hb (hsame _ hlt hd), if_neg]
    exact fun heq => hd ((mod_pow_succ_eq_iff hb).mp heq).1

end Child

/-! ## Growing -/

/-- A node above the trie, which becomes its child at digit 0. -/
theorem Owns.grow (ho : Owns b heap h p ns) (hb : 0 < b) (hp : p ≠ 0) (hq : q ≠ 0)
    (hfresh : heap q = none) (hnode : heap' q = some ⟨1, Function.update (fun _ => 0) 0 p⟩)
    (hsame : ∀ r, r ≠ q → heap' r = heap r) : Owns b heap' (h + 1) q (insert q ns) := by
  have hnot : q ∉ ns := fun hmem => by simpa [hfresh] using (ho.isSome hmem).2
  have hkeep : ∀ r ∈ ns, heap' r = heap r := fun r hr => hsame r fun heq => hnot (heq ▸ hr)
  have hcount : 1 + (holders b (Function.update (fun _ => 0) 0 p) 0).card = b := by
    rw [Nat.add_comm, card_holders_lose hb rfl hp]
    exact card_holders_of_forall fun _ _ => rfl
  rw [← footprint_update hb]
  refine Owns.node hq hnode ⟨hcount, fun i _ => ?_, fun i _ => ?_, fun i _ j _ hij => ?_⟩
    ⟨0, hb, by simpa using hp⟩
  · by_cases hi : i = 0
    · simpa [hi] using ho.congr hkeep
    · simpa [hi] using owns_empty b heap' h
  · by_cases hi : i = 0
    · simpa [hi] using hnot
    · simp [hi]
  · by_cases hi : i = 0
    · have hj : j ≠ 0 := fun hj => hij (hi.trans hj.symm)
      simp [hj]
    · simp [hi]

theorem get_grow (ho : Owns b heap h p ns) (hb : 0 < b) (hq : q ≠ 0) (hfresh : heap q = none)
    (hnode : heap' q = some ⟨1, Function.update (fun _ => 0) 0 p⟩)
    (hsame : ∀ r, r ≠ q → heap' r = heap r) (k : Nat) :
    get b heap' (h + 1) q k = if k / b ^ h % b = 0 then get b heap h p k else 0 := by
  have hnot : q ∉ ns := fun hmem => by simpa [hfresh] using (ho.isSome hmem).2
  rw [get_node hq hnode]
  split
  · next hd =>
      simp only [hd, Function.update_self]
      exact get_congr ho hb fun r hr => hsame r fun heq => hnot (heq ▸ hr)
  · next hd => simp [hd]

/-! ## Items in order -/

/-- The items at the keys from `a` to `c`, without `c`, in the order of the keys. -/
def items (f : Nat → Nat) (a c : Nat) : List Nat :=
  ((List.range' a (c - a)).map f).filter fun item => item ≠ 0

section Items

variable {f f' : Nat → Nat} {a c e : Nat}

theorem items_append (hac : a ≤ c) (hce : c ≤ e) : items f a c ++ items f c e = items f a e := by
  have hlen : e - a = (c - a) + (e - c) := by omega
  have hmid : a + (c - a) = c := by omega
  rw [items, items, items, hlen, ← List.range'_append_1, hmid, List.map_append, List.filter_append]

theorem items_congr (h : ∀ i, a ≤ i → i < c → f i = f' i) : items f a c = items f' a c := by
  rw [items, items]
  congr 1
  refine List.map_congr_left fun i hi => ?_
  obtain ⟨hai, hlt⟩ := List.mem_range'_1.mp hi
  exact h i hai (by omega)

theorem items_eq_nil (h : ∀ i, a ≤ i → i < c → f i = 0) : items f a c = [] := by
  rw [items_congr h, items, List.filter_eq_nil_iff]
  simp

@[simp] theorem items_self (f : Nat → Nat) (a : Nat) : items f a a = [] := by
  rw [items, Nat.sub_self]
  rfl

/-- One key, and those behind it. -/
theorem items_cons (hac : a < c) :
    items f a c = (if f a ≠ 0 then [f a] else []) ++ items f (a + 1) c := by
  rw [← items_append (Nat.le_succ a) hac]
  congr 1
  rw [items, Nat.succ_eq_add_one, Nat.add_sub_cancel_left]
  by_cases hf : f a = 0
  · simp [hf]
  · simp [hf]

theorem length_items_mono (hac : a ≤ c) (hce : c ≤ e) :
    (items f a c).length ≤ (items f a e).length := by
  rw [← items_append hac hce, List.length_append]
  exact Nat.le_add_right ..

end Items

end BlobTopFs.Trie
