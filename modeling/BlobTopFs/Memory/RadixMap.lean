import BlobTopFs.SpdkFs.RadixTree

/-!
# The radix tree is a finite map

Each walk goes down one digit of the key at a time, and what is below a slot is a trie of the
height that is left. So the three operations are followed by induction on that height: what is
said of a slot at height `h` is what the loops do from there on, whatever stands above it.
-/

namespace BlobTopFs.Radix

open Machine Trie

/-! ## Shifts and digits -/

theorem radixShift_succ {h : Nat} (hh : h ≤ 10) : radixShift (h + 1) = 6 * h := by
  unfold radixShift u32 radixTreeMapShift
  omega

theorem radixShift_step {h : Nat} (hh : h ≤ 10) :
    u32 (radixShift (h + 1) - radixTreeMapShift) = radixShift h := by
  rw [radixShift_succ hh]
  unfold radixShift u32 radixTreeMapShift
  omega

/-- The shift and the mask are a digit to the base 64. -/
theorem slotIndex_eq {h : Nat} (hh : h ≤ 10) (index : Nat) :
    slotIndex index (radixShift (h + 1)) = some (index / 64 ^ h % 64) := by
  have hbits : 6 * h < radixTreeIndexBits := by
    have : radixTreeIndexBits = 64 := rfl
    omega
  have hmask : radixTreeMapMask = 2 ^ 6 - 1 := rfl
  rw [radixShift_succ hh, slotIndex, if_pos hbits, Nat.shiftRight_eq_div_pow, hmask,
    Nat.and_two_pow_sub_one_eq_mod, Nat.pow_mul]

/-! ## Slots -/

/-- The slot is in the node at `q`. -/
def Slot.In (q : Addr) : Slot → Prop
  | .root => False
  | .node p _ => q = p

/-- The slot is there and holds `word`; `node` is the node it is in, NULL for the root's. -/
inductive Slot.At (m : RadixMem) : (node : Addr) → Slot → (word : Addr) → Prop
  | root : Slot.At m 0 .root m.root.rnode
  | node {p i : Nat} {nd : RadixTreeNode} (hp : p ≠ 0) (hnode : m.nodes p = some nd)
      (hcount : nd.count ≤ 64) : Slot.At m p (.node p i) (nd.slots i)

/-- The slot has got another word, and its node a count that is higher by `added`. -/
inductive Slot.Set (m m' : RadixMem) (added : Nat) (word : Addr) : Slot → Prop
  | root : m'.root = { m.root with rnode := word } → Slot.Set m m' added word .root
  | node {p i : Nat} {nd : RadixTreeNode} : m.nodes p = some nd →
      m'.nodes p = some ⟨nd.count + added, Function.update nd.slots i word⟩ →
      m'.root = m.root → Slot.Set m m' added word (.node p i)

section Slots

variable {m m' : RadixMem} {node word w : Addr} {slot : Slot}

theorem Slot.At.read (h : slot.At m node word) : readSlot m slot = some word := by
  cases h with
  | root => rfl
  | node hp hnode hcount =>
      rw [readSlot, hnode]
      rfl

/-- Nothing but the slot changes when it is filled. -/
structure Slot.Fills (m m' : RadixMem) (slot : Slot) (added : Nat) (word : Addr) : Prop where
  set : slot.Set m m' added word
  others : ∀ q, ¬ slot.In q → m'.nodes q = m.nodes q
  table : m'.heightToMaxindex = m.heightToMaxindex

/-- A slot is set, -/
theorem Slot.At.write (h : slot.At m node word) (w : Addr) :
    ∃ m', writeSlot m w slot = some m' ∧ slot.Fills m m' 0 w := by
  cases h with
  | root => exact ⟨_, rfl, .root rfl, fun _ _ => rfl, rfl⟩
  | @node _ i nd hp hnode hcount =>
      let nd' : RadixTreeNode := { nd with slots := Function.update nd.slots i w }
      refine ⟨{ m with nodes := Function.update m.nodes node (some nd') }, ?_,
        .node hnode (Function.update_self ..) rfl, fun q hq => ?_, rfl⟩
      · rw [writeSlot, hnode, Option.map_some]
      · exact Function.update_of_ne hq ..

/-- and filled, in either order of the two assignments. -/
theorem Slot.At.fill (h : slot.At m node word) (w : Addr) :
    ∃ m', ((writeSlot m w slot).bind fun m => countUp node m) = some m' ∧
      ((countUp node m).bind fun m => writeSlot m w slot) = some m' ∧ slot.Fills m m' 1 w := by
  cases h with
  | root => exact ⟨_, rfl, rfl, .root rfl, fun _ _ => rfl, rfl⟩
  | @node _ i nd hp hnode hcount =>
      have hu : u32 ((nd.count : Int) + 1) = nd.count + 1 := by
        unfold u32
        omega
      let nd' : RadixTreeNode := ⟨nd.count + 1, Function.update nd.slots i w⟩
      refine ⟨{ m with nodes := Function.update m.nodes node (some nd') }, ?_, ?_,
        .node hnode (Function.update_self ..) rfl, fun q hq => ?_, rfl⟩
      · simp [writeSlot, countUp, hnode, hp, hu, nd']
      · simp [writeSlot, countUp, hnode, hp, hu, nd']
      · exact Function.update_of_ne hq ..

/-- A slot that lies outside of what changes. -/
theorem Slot.At.same (h : slot.At m node word) (hroot : m'.root = m.root)
    (hin : ∀ q, slot.In q → m'.nodes q = m.nodes q) : slot.At m' node word := by
  cases h with
  | root => exact hroot ▸ Slot.At.root
  | node hp hnode hcount => exact .node hp ((hin _ rfl).trans hnode) hcount

theorem Slot.At.isSome (h : slot.At m node word) {q : Addr} (hq : slot.In q) :
    (m.nodes q).isSome = true := by
  cases h with
  | root => exact hq.elim
  | node hp hnode hcount =>
      cases hq
      rw [hnode]
      rfl

theorem Slot.At.set_same (h : slot.At m node word) (hroot : m'.root = m.root)
    (hin : ∀ q, slot.In q → m'.nodes q = m.nodes q) : slot.Set m m' 0 word := by
  cases h with
  | root => exact .root hroot
  | node hp hnode hcount =>
      refine .node hnode ?_ hroot
      rw [hin _ rfl, hnode, Function.update_eq_self]
      rfl

theorem Slot.Set.read {added : Nat} (h : slot.Set m m' added word) :
    readSlot m' slot = some word := by
  cases h with
  | root hroot =>
      rw [readSlot, hroot]
  | node hnode hnode' hroot =>
      simp [readSlot, hnode']

theorem Slot.Set.isSome {added : Nat} (h : slot.Set m m' added word) {q : Addr} (hq : slot.In q) :
    (m'.nodes q).isSome = true := by
  cases h with
  | root hroot => exact hq.elim
  | node hnode hnode' hroot =>
      cases hq
      rw [hnode']
      rfl

/-- No node comes or goes. -/
theorem Slot.Fills.isSome {added : Nat} (h : slot.Fills m m' added word) (hat : slot.At m node w)
    (q : Addr) : (m'.nodes q).isSome = (m.nodes q).isSome := by
  by_cases hq : slot.In q
  · rw [h.set.isSome hq, hat.isSome hq]
  · rw [h.others q hq]

/-- What happens elsewhere before and after does not matter. -/
theorem Slot.Set.congr {m₁ m₂ : RadixMem} {added : Nat} (h : slot.Set m₁ m₂ added word)
    (hroot : m₁.root = m.root) (hin : ∀ q, slot.In q → m₁.nodes q = m.nodes q)
    (hroot' : m'.root = m₂.root) (hin' : ∀ q, slot.In q → m'.nodes q = m₂.nodes q) :
    slot.Set m m' added word := by
  cases h with
  | root h => exact .root (by rw [hroot', h, hroot])
  | node hnode hnode' h =>
      exact .node ((hin _ rfl).symm.trans hnode) ((hin' _ rfl).trans hnode')
        (by rw [hroot', h, hroot])

end Slots

/-! ## Inserting -/

/-- The trie of height `h` below the slot has got an item. It has kept its nodes, and those that
were added were free. -/
structure Slot.Grown (m m' : RadixMem) (slot : Slot) (h : Nat) (word word' : Addr)
    (ns ns' : Finset Addr) (index : Nat) (item : Addr) : Prop where
  full : word' ≠ 0
  owns : Owns 64 m'.nodes h word' ns'
  sub : ns ⊆ ns'
  fresh : ∀ q ∈ ns', q ∉ ns → m.nodes q = none
  others : ∀ q, q ∉ ns' → ¬ slot.In q → m'.nodes q = m.nodes q
  table : m'.heightToMaxindex = m.heightToMaxindex
  get : ∀ k, get 64 m'.nodes h word' k =
    if k % 64 ^ h = index % 64 ^ h then item else get 64 m.nodes h word k

/-- The slot has been set, too, and counted if it was empty. -/
structure Slot.Grows (m m' : RadixMem) (slot : Slot) (h : Nat) (word word' : Addr)
    (ns ns' : Finset Addr) (index : Nat) (item : Addr) : Prop
    extends slot.Grown m m' h word word' ns ns' index item where
  set : slot.Set m m' (if word = 0 then 1 else 0) word'

section Insert

variable {m m' : RadixMem} {node word item index p c' : Addr} {slot : Slot} {h d : Nat}
  {ns ns' : Finset Addr} {nd : RadixTreeNode} {parts : Nat → Finset Addr}

theorem slot_node_set (hp : m.nodes p = some nd) {added : Nat}
    (h : (Slot.node p d).Set m m' added word) :
    m'.root = m.root ∧ m'.nodes p = some ⟨nd.count + added, Function.update nd.slots d word⟩ := by
  cases h with
  | node hnode hnode' hroot =>
      cases hp.symm.trans hnode
      exact ⟨hroot, hnode'⟩

/-- A node with a child that has grown. -/
theorem Slot.Grows.above (hp : p ≠ 0) (hnode : m.nodes p = some nd)
    (hc : Children 64 (Owns 64 m.nodes h) p nd parts)
    (hg : (Slot.node p (index / 64 ^ h % 64)).Grows m m' h (nd.slots (index / 64 ^ h % 64)) c'
      (parts (index / 64 ^ h % 64)) ns' index item) :
    Owns 64 m'.nodes (h + 1) p
        (footprint 64 p (Function.update parts (index / 64 ^ h % 64) ns')) ∧
      ∀ k, Trie.get 64 m'.nodes (h + 1) p k = if k % 64 ^ (h + 1) = index % 64 ^ (h + 1) then item
        else Trie.get 64 m.nodes (h + 1) p k := by
  have hd : index / 64 ^ h % 64 < 64 := Nat.mod_lt _ (by decide)
  generalize hdig : index / 64 ^ h % 64 = d at hg hd ⊢
  obtain ⟨-, hnode'⟩ := slot_node_set hnode hg.set
  -- the new nodes were free, so they are none of the others
  have hnew : ∀ q ∈ ns', (m.nodes q).isSome = true → q ∈ parts d := by
    intro q hq hsome
    by_contra hnot
    rw [hg.fresh q hq hnot] at hsome
    cases hsome
  have hpn : p ∉ ns' := by
    intro hmem
    exact hc.apart d hd (hnew p hmem (by rw [hnode]; rfl))
  have hapart : ∀ i < 64, i ≠ d → Disjoint (parts i) ns' := by
    intro i hi hid
    rw [Finset.disjoint_left]
    intro q hq hq'
    have hmem := hnew q hq' ((hc.owned i hi).isSome hq).2
    exact Finset.disjoint_left.mp (hc.disjoint i hi d hd hid) hq hmem
  -- nor does the walk reach what is below the other slots
  have hsame : ∀ i < 64, i ≠ d → ∀ q ∈ parts i, m'.nodes q = m.nodes q := by
    intro i hi hid q hq
    apply hg.others q (Finset.disjoint_left.mp (hapart i hi hid) hq)
    rintro rfl
    exact hc.apart i hi hq
  refine ⟨Owns.node hp hnode' (hc.set rfl ?_ hg.owns hsame hpn hapart) ⟨d, hd, ?_⟩, ?_⟩
  · -- the node counts one slot more if the slot was empty
    have hcount := hc.count
    by_cases hz : nd.slots d = 0
    · have hlose := card_holders_lose (m := nd.slots) hd hz hg.full
      simp only [hz, if_true]
      omega
    · have hother := card_holders_other (m := nd.slots) (i := d) (n := 64) hz hg.full
      simp only [hz, if_false]
      omega
  · simpa using hg.full
  · subst hdig
    exact get_set (by decide) hp hnode hnode' hc rfl hsame hg.get

/-- So has the trie that the node is the top of, and the slot above it stays. -/
theorem Slot.Grows.lift (hsome : ∀ q, slot.In q → (m.nodes q).isSome = true) (hw : word ≠ 0)
    (hnode : m.nodes word = some nd) (hc : Children 64 (Owns 64 m.nodes h) word nd parts)
    (hapart : ∀ q ∈ footprint 64 word parts, ¬ slot.In q)
    (hg : (Slot.node word (index / 64 ^ h % 64)).Grows m m' h (nd.slots (index / 64 ^ h % 64)) c'
      (parts (index / 64 ^ h % 64)) ns' index item) :
    slot.Grown m m' (h + 1) word word (footprint 64 word parts)
        (footprint 64 word (Function.update parts (index / 64 ^ h % 64) ns')) index item ∧
      m'.root = m.root ∧ ∀ q, slot.In q → m'.nodes q = m.nodes q := by
  have hd : index / 64 ^ h % 64 < 64 := Nat.mod_lt _ (by decide)
  obtain ⟨howns, hget⟩ := hg.above hw hnode hc
  obtain ⟨hroot, -⟩ := slot_node_set hnode hg.set
  generalize index / 64 ^ h % 64 = d at hg hd howns
  -- the node of the slot above is none of those that were added
  have hin : ∀ q, slot.In q → m'.nodes q = m.nodes q := by
    intro q hq
    refine hg.others q (fun hnew => ?_) ?_
    · by_cases hold : q ∈ parts d
      · exact hapart q (mem_footprint.mpr (Or.inr ⟨d, hd, hold⟩)) hq
      · have hold' := hsome q hq
        rw [hg.fresh q hnew hold] at hold'
        cases hold'
    · rintro rfl
      exact hapart q (mem_footprint.mpr (Or.inl rfl)) hq
  refine ⟨⟨hw, howns, ?_, ?_, ?_, hg.table, hget⟩, hroot, hin⟩
  · -- no node is lost
    intro q hq
    rw [mem_footprint_update hd]
    rcases mem_footprint.mp hq with rfl | ⟨i, hi, hq⟩
    · exact Or.inl rfl
    · by_cases hid : i = d
      · exact Or.inr (Or.inl (hg.sub (hid ▸ hq)))
      · exact Or.inr (Or.inr ⟨i, hi, hid, hq⟩)
  · -- a node that is new is new below the child
    intro q hq hnot
    rcases (mem_footprint_update hd).mp hq with rfl | hq | ⟨i, hi, -, hq⟩
    · exact absurd (mem_footprint.mpr (Or.inl rfl)) hnot
    · exact hg.fresh q hq fun hold => hnot (mem_footprint.mpr (Or.inr ⟨d, hd, hold⟩))
    · exact absurd (mem_footprint.mpr (Or.inr ⟨i, hi, hq⟩)) hnot
  · intro q hq _
    rw [mem_footprint_update hd, not_or, not_or] at hq
    exact hg.others q hq.2.1 hq.1

/-- A node without children. -/
theorem children_empty (nodes : Addr → Option RadixTreeNode) (h p : Nat) :
    Children 64 (Owns 64 nodes h) p ⟨0, fun _ => 0⟩ fun _ => ∅ where
  count := by
    rw [Nat.zero_add]
    exact card_holders_of_forall fun _ _ => rfl
  owned := fun _ _ => owns_empty ..
  apart := fun _ _ => Finset.notMem_empty p
  disjoint := fun _ _ _ _ _ => Finset.disjoint_empty_left _

/-- The loop of `radix_tree_insert` from a slot on, by induction on the height below it. -/
theorem insertWalk_spec {calloc : Calloc} (hcalloc : calloc.Succeeds)
    (hfin : {q | (m.nodes q).isSome = true}.Finite) (hitem : item ≠ 0) (hh : h ≤ 11)
    (hat : slot.At m node word) (ho : Owns 64 m.nodes h word ns)
    (hapart : ∀ q ∈ ns, ¬ slot.In q) :
    (Trie.get 64 m.nodes h word index ≠ 0 ∧
      (insertWalk calloc index h (radixShift h) node slot m).bind (insertItem item) =
        some (m, -EEXIST)) ∨
    (Trie.get 64 m.nodes h word index = 0 ∧ ∃ m' word' ns',
      (insertWalk calloc index h (radixShift h) node slot m).bind (insertItem item) =
        some (m', 0) ∧ slot.Grows m m' h word word' ns ns' index item) := by
  induction h generalizing m node slot word ns with
  | zero =>
      rw [insertWalk, Option.bind_some, insertItem, hat.read, Option.bind_some]
      -- the bottom: an empty slot is filled and counted, a full one refuses the item
      by_cases hw : word = 0
      · obtain ⟨m', -, hfill, hm'⟩ := hat.fill item
        refine Or.inr ⟨hw, m', item, ns, ?_, ?_⟩
        · rw [if_neg (not_not.mpr hw), hfill, Option.map_some]
        · refine ⟨⟨hitem, ho, Finset.Subset.refl _, fun q hq hnot => absurd hq hnot,
            fun q _ hq => hm'.others q hq, hm'.table, fun k => ?_⟩, ?_⟩
          · simp [Trie.get, Nat.mod_one]
          · rw [if_pos hw]
            exact hm'.set
      · exact Or.inl ⟨hw, if_pos hw⟩
  | succ h ih =>
      have hle : h ≤ 10 := by omega
      have hd : index / 64 ^ h % 64 < 64 := Nat.mod_lt _ (by decide)
      rw [insertWalk, hat.read, Option.bind_some]
      by_cases hw : word = 0
      · -- an empty slot on the way gets a node, and the walk goes on below that
        subst hw
        obtain rfl := ho.eq_empty
        have hq0 := hcalloc m.nodes hfin
        have hfree := calloc.fresh m.nodes hq0
        generalize hq : calloc.answer m.nodes = q at hfree hq0
        -- the new node, then the slot above it, and what is below the node
        let m₁ : RadixMem := { m with nodes := Function.update m.nodes q (some ⟨0, fun _ => 0⟩) }
        have halloc : radixTreeNodeAlloc calloc m = some (q, m₁) := by
          rw [radixTreeNodeAlloc, hq]
          exact if_neg hq0
        have hne : ∀ r, slot.In r → r ≠ q := by
          rintro r hr rfl
          have hsome := hat.isSome hr
          rw [hfree] at hsome
          cases hsome
        have hsame : ∀ r, r ≠ q → m₁.nodes r = m.nodes r := fun r hr => Function.update_of_ne hr ..
        have hat₁ : slot.At m₁ node 0 := hat.same rfl fun r hr => hsame r (hne r hr)
        obtain ⟨m₂, hfill, -, hm₂⟩ := hat₁.fill q
        have hnode : m₂.nodes q = some ⟨0, fun _ => 0⟩ := by
          rw [hm₂.others q fun hin => hne q hin rfl]
          exact Function.update_self ..
        have hchild : (Slot.node q (index / 64 ^ h % 64)).At m₂ q 0 :=
          .node hq0 hnode (Nat.zero_le _)
        -- the state the walk goes on in has one node more
        have hfin₂ : {r | (m₂.nodes r).isSome = true}.Finite := by
          refine (hfin.insert q).subset fun r hr => ?_
          by_cases hrq : r = q
          · exact Or.inl hrq
          · have hr : (m₂.nodes r).isSome = true := hr
            rw [hm₂.isSome hat₁, hsame r hrq] at hr
            exact Or.inr hr
        rw [if_pos rfl, halloc, Option.bind_some, hfill, Option.bind_some, hm₂.set.read,
          Option.bind_some, slotIndex_eq hle, Option.bind_some, radixShift_step hle]
        rcases ih hfin₂ (Nat.le_succ_of_le hle) hchild (owns_empty ..) (by simp) with
          ⟨hget, -⟩ | ⟨-, m', c', ns', hrun, hg⟩
        · -- below a new node nothing can be there already
          simp at hget
        · have hc := children_empty m₂.nodes h q
          have hfoot : footprint 64 q (fun _ => ∅) = {q} := by
            ext r
            simp
          have hapart₂ : ∀ r ∈ footprint 64 q (fun _ => ∅), ¬ slot.In r := by
            rw [hfoot]
            intro r hr hin
            exact hne r hin (Finset.mem_singleton.mp hr)
          have hsome₂ : ∀ r, slot.In r → (m₂.nodes r).isSome = true := fun r hr => hm₂.set.isSome hr
          obtain ⟨hgrown, hroot, hin⟩ := hg.lift hsome₂ hq0 hnode hc hapart₂
          rw [hfoot] at hgrown
          have hold : ∀ r, r ≠ q → ¬ slot.In r → m₂.nodes r = m.nodes r :=
            fun r hr hnot => (hm₂.others r hnot).trans (hsame r hr)
          refine Or.inr ⟨get_empty .., m', q, _, hrun, ⟨hq0, hgrown.owns, Finset.empty_subset _,
            fun r hr _ => ?_, fun r hr hnot => ?_, hgrown.table.trans hm₂.table, fun k => ?_⟩, ?_⟩
          · -- the added nodes were free before the node on the way was, too
            by_cases hrq : r = q
            · rw [hrq, hfree]
            · have hnone := hgrown.fresh r hr (by simpa using hrq)
              rw [← hold r hrq fun hin => ?_, hnone]
              have := hsome₂ r hin
              simp [hnone] at this
          · have hrq : r ≠ q := fun heq => hr (heq ▸ hgrown.sub (Finset.mem_singleton_self q))
            exact (hgrown.others r hr hnot).trans (hold r hrq hnot)
          · rw [hgrown.get, get_node hq0 hnode, get_empty, get_empty]
          · rw [if_pos rfl]
            exact hm₂.set.congr rfl (fun r hr => hsame r (hne r hr)) hroot hin
      · -- a full slot holds a node, and the walk goes on at the digit's slot in it
        rcases ho with ⟨rfl, -⟩ | ⟨-, nd, parts, hnode, hc, -, rfl⟩
        · exact absurd rfl hw
        have hcount : nd.count ≤ 64 := by
          have := hc.count
          omega
        have hchild : (Slot.node word (index / 64 ^ h % 64)).At m word
            (nd.slots (index / 64 ^ h % 64)) := .node hw hnode hcount
        have hbelow : ∀ q ∈ parts (index / 64 ^ h % 64),
            ¬ (Slot.node word (index / 64 ^ h % 64)).In q := by
          rintro q hq rfl
          exact hc.apart _ hd hq
        rw [if_neg hw, Option.bind_some, hat.read, Option.bind_some, slotIndex_eq hle,
          Option.bind_some, radixShift_step hle, get_node hw hnode]
        rcases ih hfin (Nat.le_succ_of_le hle) hchild (hc.owned _ hd) hbelow with
          ⟨hget, hrun⟩ | ⟨hget, m', c', ns', hrun, hg⟩
        · -- the key is there, and nothing has been written
          exact Or.inl ⟨hget, hrun⟩
        · obtain ⟨hgrown, hroot, hin⟩ := hg.lift (fun _ => hat.isSome) hw hnode hc hapart
          refine Or.inr ⟨hget, m', word, _, hrun, hgrown, ?_⟩
          rw [if_neg hw]
          exact hat.set_same hroot hin

end Insert

/-! ## Deleting -/

/-- The trie of height `h` below the slot has lost an item. The nodes it no longer has are free. -/
structure Slot.Shrunk (m m' : RadixMem) (slot : Slot) (h : Nat) (word word' : Addr)
    (ns ns' : Finset Addr) (index : Nat) : Prop where
  owns : Owns 64 m'.nodes h word' ns'
  sub : ns' ⊆ ns
  freed : ∀ q ∈ ns, q ∉ ns' → m'.nodes q = none
  others : ∀ q, q ∉ ns → ¬ slot.In q → m'.nodes q = m.nodes q
  table : m'.heightToMaxindex = m.heightToMaxindex
  get : ∀ k, get 64 m'.nodes h word' k =
    if k % 64 ^ h = index % 64 ^ h then 0 else get 64 m.nodes h word k

/-- The slot has been set, too; its node is not yet counted down. -/
structure Slot.Shrinks (m m' : RadixMem) (slot : Slot) (h : Nat) (word word' : Addr)
    (ns ns' : Finset Addr) (index : Nat) : Prop
    extends slot.Shrunk m m' h word word' ns ns' index where
  set : slot.Set m m' 0 word'

/-- `if (root->rnode == NULL) root->height = 0;` -/
def resetHeight (m : RadixMem) : RadixMem :=
  if m.root.rnode = 0 then { m with root := { m.root with height := 0 } } else m

section Delete

variable {m m₁ m₂ m' : RadixMem} {node word index p c' count : Addr} {slot : Slot} {h d : Nat}
  {ns ns' : Finset Addr} {nd : RadixTreeNode} {parts : Nat → Finset Addr}

/-- A node whose child has shrunk, once it counts its slots again. -/
theorem Slot.Shrinks.above (hp : p ≠ 0) (hnode : m.nodes p = some nd)
    (hc : Children 64 (Owns 64 m.nodes h) p nd parts)
    (hg : (Slot.node p (index / 64 ^ h % 64)).Shrinks m m₁ h (nd.slots (index / 64 ^ h % 64)) c'
      (parts (index / 64 ^ h % 64)) ns' index)
    (hnode₂ : m₂.nodes p =
      some ⟨count, Function.update nd.slots (index / 64 ^ h % 64) c'⟩)
    (hsame₂ : ∀ q, q ≠ p → m₂.nodes q = m₁.nodes q)
    (hcount :
      count + (holders 64 (Function.update nd.slots (index / 64 ^ h % 64) c') 0).card = 64) :
    Children 64 (Owns 64 m₂.nodes h) p
        ⟨count, Function.update nd.slots (index / 64 ^ h % 64) c'⟩
        (Function.update parts (index / 64 ^ h % 64) ns') ∧
      ∀ k, Trie.get 64 m₂.nodes (h + 1) p k = if k % 64 ^ (h + 1) = index % 64 ^ (h + 1) then 0
        else Trie.get 64 m.nodes (h + 1) p k := by
  have hd : index / 64 ^ h % 64 < 64 := Nat.mod_lt _ (by decide)
  generalize hdig : index / 64 ^ h % 64 = d at hg hd hnode₂ hcount ⊢
  -- what the child has kept it had before, so it is still apart from the others
  have hpn : p ∉ ns' := fun hmem => hc.apart d hd (hg.sub hmem)
  have hapart : ∀ i < 64, i ≠ d → Disjoint (parts i) ns' :=
    fun i hi hid => (hc.disjoint i hi d hd hid).mono_right hg.sub
  have hsame : ∀ i < 64, i ≠ d → ∀ q ∈ parts i, m₂.nodes q = m.nodes q := by
    intro i hi hid q hq
    have hqp : q ≠ p := fun heq => hc.apart i hi (heq ▸ hq)
    have hqd : q ∉ parts d := Finset.disjoint_left.mp (hc.disjoint i hi d hd hid) hq
    rw [hsame₂ q hqp, hg.others q hqd hqp]
  have hbelow : ∀ q ∈ ns', m₂.nodes q = m₁.nodes q :=
    fun q hq => hsame₂ q fun heq => hpn (heq ▸ hq)
  refine ⟨hc.set rfl hcount (hg.owns.congr hbelow) hsame hpn hapart, ?_⟩
  subst hdig
  refine get_set (by decide) hp hnode hnode₂ hc rfl hsame fun k => ?_
  rw [get_congr hg.owns (by decide) hbelow, hg.get]

/-- A node that still has a child stays, and the slot above it as well. -/
theorem Slot.Shrinks.keep (hw : word ≠ 0) (hnode : m.nodes word = some nd)
    (hc : Children 64 (Owns 64 m.nodes h) word nd parts)
    (hapart : ∀ q ∈ footprint 64 word parts, ¬ slot.In q)
    (hg : (Slot.node word (index / 64 ^ h % 64)).Shrinks m m₁ h (nd.slots (index / 64 ^ h % 64)) c'
      (parts (index / 64 ^ h % 64)) ns' index)
    (hnode₂ : m₂.nodes word =
      some ⟨count, Function.update nd.slots (index / 64 ^ h % 64) c'⟩)
    (hsame₂ : ∀ q, q ≠ word → m₂.nodes q = m₁.nodes q)
    (htable : m₂.heightToMaxindex = m₁.heightToMaxindex)
    (hcount : count + (holders 64 (Function.update nd.slots (index / 64 ^ h % 64) c') 0).card = 64)
    (hfull : ∃ i < 64, Function.update nd.slots (index / 64 ^ h % 64) c' i ≠ 0) :
    slot.Shrunk m m₂ (h + 1) word word (footprint 64 word parts)
        (footprint 64 word (Function.update parts (index / 64 ^ h % 64) ns')) index ∧
      ∀ q, slot.In q → m₂.nodes q = m.nodes q := by
  have hd : index / 64 ^ h % 64 < 64 := Nat.mod_lt _ (by decide)
  obtain ⟨hc₂, hget⟩ := hg.above hw hnode hc hnode₂ hsame₂ hcount
  generalize index / 64 ^ h % 64 = d at hg hd hnode₂ hcount hfull hc₂
  -- outside of the trie nothing has been written
  have hout : ∀ q, q ∉ footprint 64 word parts → m₂.nodes q = m.nodes q := by
    intro q hq
    rw [mem_footprint, not_or] at hq
    rw [hsame₂ q hq.1, hg.others q (fun hin => hq.2 ⟨d, hd, hin⟩) hq.1]
  refine ⟨⟨Owns.node hw hnode₂ hc₂ hfull, fun q hq => ?_, fun q hq hnot => ?_,
    fun q hq _ => hout q hq, htable.trans hg.table, hget⟩, fun q hq => hout q fun hin => ?_⟩
  · rcases (mem_footprint_update hd).mp hq with rfl | hq | ⟨i, hi, -, hq⟩
    · exact mem_footprint.mpr (Or.inl rfl)
    · exact mem_footprint.mpr (Or.inr ⟨d, hd, hg.sub hq⟩)
    · exact mem_footprint.mpr (Or.inr ⟨i, hi, hq⟩)
  · -- a node that is no longer in the trie was below the child
    rw [mem_footprint_update hd, not_or, not_or, not_exists] at hnot
    obtain ⟨hqw, hqns, hqi⟩ := hnot
    rcases mem_footprint.mp hq with rfl | ⟨i, hi, hq⟩
    · exact absurd rfl hqw
    · have hid : i = d := by
        by_contra hid
        exact hqi i ⟨hi, hid, hq⟩
      rw [hsame₂ q hqw]
      exact hg.freed q (hid ▸ hq) hqns
  · exact hapart q hin hq

/-- A node that has lost its last child goes, and the slot above it is cleared. -/
theorem Slot.Shrinks.drop {m₃ : RadixMem} (hw : word ≠ 0) (hnode : m.nodes word = some nd)
    (hc : Children 64 (Owns 64 m.nodes h) word nd parts)
    (hapart : ∀ q ∈ footprint 64 word parts, ¬ slot.In q)
    (hg : (Slot.node word (index / 64 ^ h % 64)).Shrinks m m₁ h (nd.slots (index / 64 ^ h % 64)) 0
      (parts (index / 64 ^ h % 64)) ns' index)
    (hnode₂ : m₂.nodes word =
      some ⟨0, Function.update nd.slots (index / 64 ^ h % 64) 0⟩)
    (hsame₂ : ∀ q, q ≠ word → m₂.nodes q = m₁.nodes q)
    (htable : m₂.heightToMaxindex = m₁.heightToMaxindex) (hroot₂ : m₂.root = m₁.root)
    (hcount : (holders 64 (Function.update nd.slots (index / 64 ^ h % 64) 0) 0).card = 64)
    (hfill : slot.Fills m₂ m₃ 0 0) :
    slot.Shrinks m (radixTreeNodeFree word m₃) (h + 1) word 0 (footprint 64 word parts) ∅
      index := by
  have hd : index / 64 ^ h % 64 < 64 := Nat.mod_lt _ (by decide)
  obtain ⟨hc₂, hget⟩ := hg.above hw hnode hc hnode₂ hsame₂ (by rwa [Nat.zero_add])
  obtain ⟨hroot, -⟩ : m₁.root = m.root ∧ _ := slot_node_set hnode hg.set
  -- a count of 0 means that every slot is empty, and so is the trie
  have hempty : ∀ i < 64, Function.update nd.slots (index / 64 ^ h % 64) 0 i = 0 := by
    intro i hi
    by_contra hne
    have := card_holders_lt hi hne
    omega
  have hnone : ∀ k, Trie.get 64 m₂.nodes (h + 1) word k = 0 := by
    intro k
    rw [get_node hw hnode₂]
    simp only [hempty _ (Nat.mod_lt _ (by decide : 0 < 64)), get_empty]
  generalize index / 64 ^ h % 64 = d at hg hd hnode₂ hcount hc₂ hempty
  have hns : ns' = ∅ := hg.owns.eq_empty
  have hout : ∀ q, q ∉ footprint 64 word parts → m₂.nodes q = m.nodes q := by
    intro q hq
    rw [mem_footprint, not_or] at hq
    rw [hsame₂ q hq.1, hg.others q (fun hin => hq.2 ⟨d, hd, hin⟩) hq.1]
  have hne : ∀ q, slot.In q → q ≠ word := by
    rintro q hq rfl
    exact hapart q (mem_footprint.mpr (Or.inl rfl)) hq
  have hfree : ∀ q, q ≠ word → (radixTreeNodeFree word m₃).nodes q = m₃.nodes q :=
    fun q hq => Function.update_of_ne hq ..
  refine ⟨⟨owns_empty .., Finset.empty_subset _, fun q hq _ => ?_, fun q hq hin => ?_,
    hfill.table.trans (htable.trans hg.table), fun k => ?_⟩, ?_⟩
  · -- the node is freed here, and what was below it has been before
    rcases mem_footprint.mp hq with rfl | ⟨i, hi, hq⟩
    · exact Function.update_self ..
    · have hqw : q ≠ word := fun heq => hc.apart i hi (heq ▸ hq)
      have hnot : ¬ slot.In q := hapart q (mem_footprint.mpr (Or.inr ⟨i, hi, hq⟩))
      rw [hfree q hqw, hfill.others q hnot, hsame₂ q hqw]
      by_cases hid : i = d
      · exact hg.freed q (hid ▸ hq) (by simp [hns])
      · -- the other children are empty already
        have hslot := hempty i hi
        rw [Function.update_of_ne hid] at hslot
        have hpart := hc.owned i hi
        rw [hslot] at hpart
        rw [hpart.eq_empty] at hq
        exact absurd hq (Finset.notMem_empty q)
  · have hqw : q ≠ word := fun heq => hq (mem_footprint.mpr (Or.inl heq))
    rw [hfree q hqw, hfill.others q hin, hout q hq]
  · rw [get_empty, ← hget, hnone]
  · refine hfill.set.congr (hroot₂.trans hroot) (fun q hq => ?_) rfl fun q hq => hfree q (hne q hq)
    exact hout q fun hin => hapart q hin hq

/-- The loops of `radix_tree_delete` from a slot on, by induction on the height below it. The
entries `above` come into it again when the slot has been emptied. -/
theorem deleteWalk_spec {above : List RadixTreePath} (hh : h ≤ 11)
    (habove : above.length + h < radixTreeMaxPath) (hat : slot.At m node word)
    (ho : Owns 64 m.nodes h word ns) (hapart : ∀ q ∈ ns, ¬ slot.In q) :
    (Trie.get 64 m.nodes h word index = 0 ∧
      (deleteWalk m index h (radixShift h) ⟨node, slot⟩ above).bind (deleteItem m) =
        some (m, 0)) ∨
    (Trie.get 64 m.nodes h word index ≠ 0 ∧ ∃ m' word' ns',
      (deleteWalk m index h (radixShift h) ⟨node, slot⟩ above).bind (deleteItem m) =
        (if word' = 0 then deleteUnwind node above m' else some m').map
          (fun m'' => (resetHeight m'', Trie.get 64 m.nodes h word index)) ∧
      slot.Shrinks m m' h word word' ns ns' index) := by
  induction h generalizing node slot word ns above with
  | zero =>
      rw [deleteWalk, Option.bind_some, deleteItem, hat.read, Option.bind_some]
      -- the bottom: a full slot is cleared
      by_cases hw : word = 0
      · exact Or.inl ⟨hw, if_pos hw⟩
      · obtain ⟨m', hwrite, hm'⟩ := hat.write 0
        refine Or.inr ⟨hw, m', 0, ∅, ?_, ⟨⟨rfl, Finset.empty_subset _, fun q hq _ => ?_,
          fun q _ hq => hm'.others q hq, hm'.table, fun k => ?_⟩, hm'.set⟩⟩
        · rw [if_neg hw, hwrite, Option.bind_some, if_pos rfl]
          rfl
        · rw [show ns = ∅ from ho] at hq
          exact absurd hq (Finset.notMem_empty q)
        · simp [Trie.get, Nat.mod_one]
  | succ h ih =>
      have hle : h ≤ 10 := by omega
      have hd : index / 64 ^ h % 64 < 64 := Nat.mod_lt _ (by decide)
      rw [deleteWalk, hat.read, Option.bind_some]
      -- an empty slot on the way: the key is not there
      rcases ho with ⟨rfl, -⟩ | ⟨hw, nd, parts, hnode, hc, -, rfl⟩
      · rw [if_pos rfl]
        exact Or.inl ⟨get_empty .., rfl⟩
      have hcount : nd.count ≤ 64 := by
        have := hc.count
        omega
      have hchild : (Slot.node word (index / 64 ^ h % 64)).At m word
          (nd.slots (index / 64 ^ h % 64)) := .node hw hnode hcount
      have hbelow : ∀ q ∈ parts (index / 64 ^ h % 64),
          ¬ (Slot.node word (index / 64 ^ h % 64)).In q := by
        rintro q hq rfl
        exact hc.apart _ hd hq
      -- the path array has an entry for every level that is left
      have hroom : (⟨node, slot⟩ :: above : List RadixTreePath).length + h < radixTreeMaxPath := by
        rw [List.length_cons]
        omega
      rw [if_neg hw, if_neg (by omega), slotIndex_eq hle, Option.bind_some, radixShift_step hle,
        get_node hw hnode]
      rcases ih (Nat.le_succ_of_le hle) hroom hchild (hc.owned _ hd) hbelow with
        ⟨hget, hrun⟩ | ⟨hget, m₁, c', ns', hrun, hg⟩
      · exact Or.inl ⟨hget, hrun⟩
      obtain ⟨hroot₁, hnode₁⟩ := slot_node_set hnode hg.set
      have hslot : nd.slots (index / 64 ^ h % 64) ≠ 0 := by
        intro hz
        rw [hz, get_empty] at hget
        exact hget rfl
      refine Or.inr ⟨hget, ?_⟩
      rw [hrun]
      -- what the unwinding does here depends on whether the child is gone
      by_cases hc' : c' = 0
      · subst hc'
        -- the node counts one slot less
        have hgain := card_holders_gain hd hslot
        have hlt := card_holders_lt hd hslot
        have hcounts := hc.count
        have hu : u32 ((nd.count : Int) - 1) = nd.count - 1 := by
          unfold u32
          omega
        generalize hslots : Function.update nd.slots (index / 64 ^ h % 64) 0 = slots at hgain hnode₁
        let m₂ : RadixMem :=
          { m₁ with nodes := Function.update m₁.nodes word (some ⟨nd.count - 1, slots⟩) }
        have hnode₂ : m₂.nodes word = some ⟨nd.count - 1, slots⟩ := Function.update_self ..
        have hsame₂ : ∀ q, q ≠ word → m₂.nodes q = m₁.nodes q :=
          fun q hq => Function.update_of_ne hq ..
        have hcount₂ : nd.count - 1 + (holders 64 slots 0).card = 64 := by omega
        have hunwind : deleteUnwind word (⟨node, slot⟩ :: above) m₁ =
            if nd.count - 1 ≠ 0 then some m₂
            else (writeSlot m₂ 0 slot).bind fun m =>
              deleteUnwind node above (radixTreeNodeFree word m) := by
          rw [deleteUnwind, if_neg hw, hnode₁, Option.bind_some]
          simp only [Nat.add_zero, hu]
          rfl
        rw [if_pos rfl, hunwind]
        subst hslots
        by_cases hlast : nd.count - 1 = 0
        · -- it was the last child: the node goes, and the unwinding goes on above
          rw [hlast] at hnode₂ hcount₂
          have hat₂ : slot.At m₂ node word := by
            refine hat.same hroot₁ fun q hq => ?_
            have hqw : q ≠ word := fun heq => hapart q (mem_footprint.mpr (Or.inl heq)) hq
            rw [hsame₂ q hqw]
            apply hg.others q _ hqw
            exact fun hin => hapart q (mem_footprint.mpr (Or.inr ⟨_, hd, hin⟩)) hq
          obtain ⟨m₃, hwrite, hfill⟩ := hat₂.write 0
          refine ⟨radixTreeNodeFree word m₃, 0, ∅, ?_,
            hg.drop hw hnode hc hapart hnode₂ hsame₂ rfl rfl (by omega) hfill⟩
          rw [if_neg (not_not.mpr hlast), hwrite, Option.bind_some, if_pos rfl]
        · -- others are left: the unwinding stops
          have hfull : ∃ i < 64, Function.update nd.slots (index / 64 ^ h % 64) 0 i ≠ 0 := by
            by_contra hall
            have hzero : ∀ i < 64, Function.update nd.slots (index / 64 ^ h % 64) 0 i = 0 :=
              fun i hi => not_not.mp fun hne => hall ⟨i, hi, hne⟩
            have := card_holders_of_forall hzero
            omega
          obtain ⟨hshrunk, hin⟩ := hg.keep hw hnode hc hapart hnode₂ hsame₂ rfl hcount₂ hfull
          refine ⟨m₂, word, _, ?_, hshrunk, hat.set_same hroot₁ hin⟩
          rw [if_pos hlast, if_neg hw]
      · -- the child has stayed, so nothing is counted down
        have hother : (holders 64 (Function.update nd.slots (index / 64 ^ h % 64) c') 0).card =
            (holders 64 nd.slots 0).card := card_holders_other hslot hc'
        have hcounts := hc.count
        rw [Nat.add_zero] at hnode₁
        have hfull : ∃ i < 64, Function.update nd.slots (index / 64 ^ h % 64) c' i ≠ 0 :=
          ⟨_, hd, by rwa [Function.update_self]⟩
        obtain ⟨hshrunk, hin⟩ :=
          hg.keep hw hnode hc hapart hnode₁ (fun _ _ => rfl) rfl (by rwa [hother]) hfull
        refine ⟨m₁, word, _, ?_, hshrunk, hat.set_same hroot₁ hin⟩
        rw [if_neg hc', if_neg hw]

end Delete

/-! ## The whole tree -/

/-- The tree is made of the nodes `ns`, and no other node is allocated. -/
structure RadixMem.Shape (m : RadixMem) (ns : Finset Addr) : Prop where
  table : ∀ i < radixTreeMaxPath, m.heightToMaxindex i = maxindex i
  height_le : m.root.height ≤ 11
  owns : Owns 64 m.nodes m.root.height m.root.rnode ns
  exact : ∀ q, (m.nodes q).isSome = true ↔ q ∈ ns

/-- Between two calls an empty tree has the height 0. -/
structure RadixMem.Tree (m : RadixMem) (ns : Finset Addr) : Prop extends m.Shape ns where
  reset : m.root.rnode = 0 → m.root.height = 0

/-- The item at the key, 0 if there is none. -/
def RadixMem.item (m : RadixMem) (k : Nat) : Addr :=
  if k < 64 ^ m.root.height then get 64 m.nodes m.root.height m.root.rnode k else 0

theorem maxindex_eq : ∀ h < radixTreeMaxPath, maxindex h = min (64 ^ h) (2 ^ 64) - 1 := by
  decide

section Tree

variable {m m' : RadixMem} {ns ns' : Finset Addr} {index k h : Nat}

theorem RadixMem.Shape.finite (hs : m.Shape ns) : {q | (m.nodes q).isSome = true}.Finite :=
  ns.finite_toSet.subset fun q hq => Finset.mem_coe.mpr ((hs.exact q).mp hq)

/-- The largest key a height has room for, as the table has it. -/
theorem RadixMem.Shape.maxindex (hs : m.Shape ns) (hh : h ≤ 11) :
    ∃ max, radixTreeMaxindex m h = some max ∧ ∀ k < 2 ^ 64, max < k ↔ 64 ^ h ≤ k := by
  have hlt : h < radixTreeMaxPath := Nat.lt_succ_of_le hh
  refine ⟨min (64 ^ h) (2 ^ 64) - 1, ?_, ?_⟩
  · rw [radixTreeMaxindex, if_pos hlt, hs.table h hlt, maxindex_eq h hlt]
  · intro k hk
    have hpow : 0 < 64 ^ h := Nat.pow_pos (by decide)
    omega

theorem RadixMem.item_of_empty (hroot : m.root.rnode = 0) (k : Nat) : m.item k = 0 := by
  unfold item
  rw [hroot, get_empty]
  exact ite_self 0

/-! ## Raising the root -/

/-- The height that `radix_tree_extend` figures out is the least that has room for the key. -/
theorem extendHeight_spec (hs : m.Shape ns) (hk : index < 2 ^ 64) {fuel height : Nat}
    (hheight : height ≤ 11) (hfuel : 11 - height < fuel) :
    ∃ h, extendHeight m index fuel height = some h ∧ height ≤ h ∧ h ≤ 11 ∧ index < 64 ^ h := by
  induction fuel generalizing height with
  | zero => omega
  | succ fuel ih =>
      obtain ⟨max, hmax, hiff⟩ := hs.maxindex hheight
      rw [extendHeight, hmax, Option.bind_some]
      by_cases hlt : max < index
      · have hbig := (hiff index hk).mp hlt
        -- eleven digits are enough for any key
        have hne : height ≠ 11 := by
          rintro rfl
          have : (2 : Nat) ^ 64 ≤ 64 ^ 11 := by decide
          omega
        have hnext : height + 1 ≤ 11 := by omega
        obtain ⟨h, hh, hge, hle, hroom⟩ := ih hnext (by omega)
        rw [if_pos hlt]
        exact ⟨h, hh, by omega, hle, hroom⟩
      · rw [if_neg hlt]
        refine ⟨height, rfl, Nat.le_refl _, hheight, not_le.mp fun hbig => ?_⟩
        exact hlt ((hiff index hk).mpr hbig)

/-- A key has no digit `h` if and only if it is below `64 ^ h`. -/
theorem digit_eq_zero_iff (hk : k < 64 ^ (h + 1)) : k / 64 ^ h % 64 = 0 ↔ k < 64 ^ h := by
  have hpow : 0 < 64 ^ h := Nat.pow_pos (by decide)
  have hlt : k / 64 ^ h < 64 := by
    rw [Nat.div_lt_iff_lt_mul hpow, Nat.mul_comm, ← Nat.pow_succ]
    exact hk
  rw [Nat.mod_eq_of_lt hlt, Nat.div_eq_zero_iff]
  omega

/-- One round of the `do` loop. -/
theorem extend_once {calloc : Calloc} (hcalloc : calloc.Succeeds) (hs : m.Shape ns)
    (hroot : m.root.rnode ≠ 0) (hheight : m.root.height < 11) :
    ∃ m₁, extendOnce calloc m = some m₁ ∧
      (∃ ns₁, m₁.Shape ns₁) ∧ m₁.root.rnode ≠ 0 ∧ m₁.root.height = m.root.height + 1 ∧
      ∀ k, m₁.item k = m.item k := by
  have hq0 := hcalloc m.nodes hs.finite
  have hfree := calloc.fresh m.nodes hq0
  generalize hq : calloc.answer m.nodes = q at hfree hq0
  have hu : u32 ((m.root.height : Int) + 1) = m.root.height + 1 := by
    unfold u32
    omega
  -- the new root has the old one in slot 0: a key's path is longer by a digit that is 0
  let nodes₁ := Function.update m.nodes q (some ⟨1, Function.update (fun _ => 0) 0 m.root.rnode⟩)
  have hnode : nodes₁ q = some ⟨1, Function.update (fun _ => 0) 0 m.root.rnode⟩ :=
    Function.update_self ..
  have hsame : ∀ r, r ≠ q → nodes₁ r = m.nodes r := fun r hr => Function.update_of_ne hr ..
  refine ⟨⟨⟨m.root.height + 1, q⟩, nodes₁, m.heightToMaxindex⟩, ?_, ⟨insert q ns, ?_⟩, hq0, rfl, ?_⟩
  · simp [extendOnce, radixTreeNodeAlloc, writeSlot, hq, hq0, hu, nodes₁]
  · refine ⟨hs.table, hheight, hs.owns.grow (by decide) hroot hq0 hfree hnode hsame, fun r => ?_⟩
    by_cases hr : r = q
    · simp [hr, hnode]
    · show (nodes₁ r).isSome = true ↔ _
      rw [hsame r hr, hs.exact, Finset.mem_insert]
      simp [hr]
  · intro k
    show (if k < 64 ^ (m.root.height + 1) then get 64 nodes₁ (m.root.height + 1) q k else 0) = _
    unfold RadixMem.item
    by_cases hk : k < 64 ^ (m.root.height + 1)
    · rw [if_pos hk, get_grow hs.owns (by decide) hq0 hfree hnode hsame]
      simp only [digit_eq_zero_iff hk]
    · have hpow : 64 ^ m.root.height ≤ 64 ^ (m.root.height + 1) :=
        Nat.pow_le_pow_right (by decide) (Nat.le_succ _)
      rw [if_neg hk, if_neg (by omega)]

theorem extendLoop_spec {calloc : Calloc} (hcalloc : calloc.Succeeds) {height fuel : Nat}
    (hheight : height ≤ 11) (hs : m.Shape ns) (hroot : m.root.rnode ≠ 0)
    (hlt : m.root.height < height) (hfuel : height - m.root.height ≤ fuel) :
    ∃ m', extendLoop calloc height fuel m = some m' ∧ (∃ ns', m'.Shape ns') ∧
      m'.root.height = height ∧ ∀ k, m'.item k = m.item k := by
  induction fuel generalizing m ns with
  | zero => omega
  | succ fuel ih =>
      obtain ⟨m₁, honce, ⟨ns₁, hs₁⟩, hroot₁, hh₁, hitem₁⟩ :=
        extend_once hcalloc hs hroot (by omega)
      rw [extendLoop, honce, Option.bind_some]
      by_cases hgo : height > m₁.root.height
      · obtain ⟨m', hloop, hs', hh', hitem'⟩ := ih hs₁ hroot₁ hgo (by omega)
        rw [if_pos hgo]
        exact ⟨m', hloop, hs', hh', fun k => (hitem' k).trans (hitem₁ k)⟩
      · rw [if_neg hgo]
        exact ⟨m₁, rfl, ⟨ns₁, hs₁⟩, by omega, hitem₁⟩

/-- A tree that is raised has room for the key, and the items it had. -/
theorem radixTreeExtend_spec {calloc : Calloc} (hcalloc : calloc.Succeeds) (ht : m.Tree ns)
    (hk : index < 2 ^ 64) (hbig : 64 ^ m.root.height ≤ index) :
    ∃ m', radixTreeExtend calloc index m = some m' ∧ (∃ ns', m'.Shape ns') ∧
      index < 64 ^ m'.root.height ∧ ∀ k, m'.item k = m.item k := by
  have hlow : m.root.height < 11 := by
    refine Nat.lt_of_le_of_ne ht.height_le fun heq => ?_
    have : (2 : Nat) ^ 64 ≤ 64 ^ 11 := by decide
    rw [heq] at hbig
    omega
  have hu : u32 ((m.root.height : Int) + 1) = m.root.height + 1 := by
    unfold u32
    omega
  have hfuel : 11 - (m.root.height + 1) < radixTreeMaxPath + 1 := by
    have : radixTreeMaxPath = 12 := rfl
    omega
  obtain ⟨height, hheight, hge, hle, hroom⟩ := extendHeight_spec ht.toShape hk hlow hfuel
  rw [radixTreeExtend, hu, hheight, Option.bind_some]
  -- an empty tree is only given the height
  by_cases hroot : m.root.rnode = 0
  · rw [if_neg (not_not.mpr hroot)]
    refine ⟨_, rfl, ⟨ns, ht.table, hle, ?_, ht.exact⟩, hroom, fun k => ?_⟩
    · have hns := ht.owns
      rw [hroot] at hns ⊢
      rw [hns.eq_empty]
      exact owns_empty ..
    · rw [RadixMem.item_of_empty (m := m) hroot]
      apply RadixMem.item_of_empty
      exact hroot
  · have hloop : height - m.root.height ≤ radixTreeMaxPath := by
      have : radixTreeMaxPath = 12 := rfl
      omega
    obtain ⟨m', hrun, hs', hh', hitem'⟩ :=
      extendLoop_spec hcalloc hle ht.toShape hroot hge hloop
    rw [if_pos hroot]
    exact ⟨m', hrun, hs', hh'.symm ▸ hroom, hitem'⟩

/-! ## The three operations -/

/-- An empty tree loses its height, and nothing else. -/
theorem RadixMem.Shape.resetHeight (hs : m.Shape ns) :
    ∃ ns', (resetHeight m).Tree ns' ∧ ∀ k, (Radix.resetHeight m).item k = m.item k := by
  unfold Radix.resetHeight
  by_cases hroot : m.root.rnode = 0
  · rw [if_pos hroot]
    have howns := hs.owns
    rw [hroot] at howns
    refine ⟨ns, ⟨⟨hs.table, Nat.zero_le _, ?_, hs.exact⟩, fun _ => rfl⟩, fun k => ?_⟩
    · rw [howns.eq_empty]
      rfl
    · rw [RadixMem.item_of_empty (m := m) hroot]
      apply RadixMem.item_of_empty
      exact hroot
  · rw [if_neg hroot]
    exact ⟨ns, ⟨hs, fun h => absurd h hroot⟩, fun _ => rfl⟩

/-- `radix_tree_insert` behind the test whether the tree has room for the key -/
theorem insert_at_root {calloc : Calloc} (hcalloc : calloc.Succeeds) {item : Addr}
    (hitem : item ≠ 0) (hs : m.Shape ns) (hroom : index < 64 ^ m.root.height) :
    (m.item index ≠ 0 ∧
      (insertWalk calloc index m.root.height (radixShift m.root.height) 0 .root m).bind
        (insertItem item) = some (m, -EEXIST)) ∨
    (m.item index = 0 ∧ ∃ m' ns',
      (insertWalk calloc index m.root.height (radixShift m.root.height) 0 .root m).bind
        (insertItem item) = some (m', 0) ∧
      m'.Tree ns' ∧ ∀ k, m'.item k = if k = index then item else m.item k) := by
  have hindex : m.item index = get 64 m.nodes m.root.height m.root.rnode index := if_pos hroom
  have hnone : ∀ q ∈ ns, ¬ Slot.root.In q := fun q _ hin => hin
  rw [hindex]
  rcases insertWalk_spec hcalloc hs.finite hitem hs.height_le Slot.At.root hs.owns hnone with
    hthere | ⟨hget, m', word', ns', hrun, hg⟩
  · exact Or.inl hthere
  · have hroot : m'.root = { m.root with rnode := word' } := by
      cases hg.set with
      | root h => exact h
    have howns := hg.owns
    refine Or.inr ⟨hget, m', ns', hrun, ⟨⟨fun i hi => ?_, ?_, ?_, fun q => ?_⟩, fun h => ?_⟩,
      fun k => ?_⟩
    · rw [hg.table, hs.table i hi]
    · rw [hroot]
      exact hs.height_le
    · rw [hroot]
      exact howns
    · -- no node is allocated outside of the tree
      refine ⟨fun hsome => ?_, fun hq => (howns.isSome hq).2⟩
      by_contra hq
      rw [hg.others q hq fun hin => hin, hs.exact] at hsome
      exact hq (hg.sub hsome)
    · rw [hroot] at h
      exact absurd h hg.full
    · unfold RadixMem.item
      rw [hroot]
      by_cases hk : k < 64 ^ m.root.height
      · rw [if_pos hk, if_pos hk, hg.get, Nat.mod_eq_of_lt hk, Nat.mod_eq_of_lt hroom]
      · have hne : k ≠ index := by
          rintro rfl
          exact hk hroom
        rw [if_neg hk, if_neg hk, if_neg hne]

/-- `radix_tree_insert`: a key that is there is refused, and another gets the item. -/
theorem radixTreeInsert_spec {calloc : Calloc} (hcalloc : calloc.Succeeds) {item : Addr}
    (hitem : item ≠ 0) (ht : m.Tree ns) (hk : index < 2 ^ 64) :
    (m.item index ≠ 0 ∧ radixTreeInsert calloc index item m = some (m, -EEXIST)) ∨
    (m.item index = 0 ∧ ∃ m' ns', radixTreeInsert calloc index item m = some (m', 0) ∧
      m'.Tree ns' ∧ ∀ k, m'.item k = if k = index then item else m.item k) := by
  obtain ⟨max, hmax, hiff⟩ := ht.maxindex ht.height_le
  rw [radixTreeInsert, hmax, Option.bind_some]
  by_cases hbig : index > max
  · have hout := (hiff index hk).mp hbig
    obtain ⟨m₁, hext, ⟨ns₁, hs₁⟩, hroom, hitem₁⟩ := radixTreeExtend_spec hcalloc ht hk hout
    have habsent : m.item index = 0 := if_neg (not_lt.mpr hout)
    rw [if_pos hbig, hext, Option.bind_some]
    rcases insert_at_root hcalloc hitem hs₁ hroom with
      ⟨hthere, -⟩ | ⟨-, m', ns', hrun, ht', hitem'⟩
    · exact absurd ((hitem₁ index).trans habsent) hthere
    · exact Or.inr ⟨habsent, m', ns', hrun, ht', fun k => by rw [hitem', hitem₁]⟩
  · have hroom : index < 64 ^ m.root.height := not_le.mp fun hout => hbig ((hiff index hk).mpr hout)
    rw [if_neg hbig, Option.bind_some]
    exact insert_at_root hcalloc hitem ht.toShape hroom

/-- `radix_tree_lookup` from a slot on, by induction on the height below it. -/
theorem lookupWalk_spec {node word : Addr} {slot : Slot} {ns : Finset Addr} (hh : h ≤ 11)
    (hat : slot.At m node word) (ho : Owns 64 m.nodes h word ns) :
    lookupWalk m index h (radixShift h) slot = some (get 64 m.nodes h word index) := by
  induction h generalizing node slot word ns with
  | zero => rw [lookupWalk, hat.read, Trie.get]
  | succ h ih =>
      have hle : h ≤ 10 := by omega
      have hd : index / 64 ^ h % 64 < 64 := Nat.mod_lt _ (by decide)
      rw [lookupWalk, hat.read, Option.bind_some]
      rcases ho with ⟨rfl, -⟩ | ⟨hw, nd, parts, hnode, hc, -, rfl⟩
      · rw [if_pos rfl, get_empty]
      · have hcount : nd.count ≤ 64 := by
          have := hc.count
          omega
        rw [if_neg hw, slotIndex_eq hle, Option.bind_some, radixShift_step hle, get_node hw hnode]
        exact ih (Nat.le_succ_of_le hle) (.node hw hnode hcount) (hc.owned _ hd)

/-- `radix_tree_lookup` finds the item. -/
theorem radixTreeLookup_spec (hs : m.Shape ns) (hk : index < 2 ^ 64) :
    radixTreeLookup m index = some (m.item index) := by
  obtain ⟨max, hmax, hiff⟩ := hs.maxindex hs.height_le
  rw [radixTreeLookup, hmax, Option.bind_some]
  unfold RadixMem.item
  by_cases hbig : index > max
  · have hout := (hiff index hk).mp hbig
    rw [if_pos hbig, if_neg (not_lt.mpr hout)]
  · have hroom : index < 64 ^ m.root.height := not_le.mp fun hout => hbig ((hiff index hk).mpr hout)
    rw [if_neg hbig, if_pos hroom]
    exact lookupWalk_spec hs.height_le Slot.At.root hs.owns

/-- `radix_tree_delete` takes the item out and returns it. -/
theorem radixTreeDelete_spec (ht : m.Tree ns) (hk : index < 2 ^ 64) :
    ∃ m' ns', radixTreeDelete index m = some (m', m.item index) ∧ m'.Tree ns' ∧
      ∀ k, m'.item k = if k = index then 0 else m.item k := by
  obtain ⟨max, hmax, hiff⟩ := ht.maxindex ht.height_le
  have hstay : m.item index = 0 → ∀ k, m.item k = if k = index then 0 else m.item k := by
    intro hzero k
    split
    · next heq => rw [heq, hzero]
    · rfl
  rw [radixTreeDelete, hmax, Option.bind_some]
  -- a key that the height has no room for is not there
  by_cases hbig : index > max
  · have habsent : m.item index = 0 := if_neg (not_lt.mpr ((hiff index hk).mp hbig))
    rw [if_pos hbig, habsent]
    exact ⟨m, ns, rfl, ht, hstay habsent⟩
  have hroom : index < 64 ^ m.root.height := not_le.mp fun hout => hbig ((hiff index hk).mpr hout)
  have hindex : m.item index = get 64 m.nodes m.root.height m.root.rnode index := if_pos hroom
  have hnone : ∀ q ∈ ns, ¬ Slot.root.In q := fun q _ hin => hin
  have hpath : ([] : List RadixTreePath).length + m.root.height < radixTreeMaxPath := by
    rw [List.length_nil, Nat.zero_add]
    exact Nat.lt_succ_of_le ht.height_le
  rw [if_neg hbig, hindex]
  rcases deleteWalk_spec ht.height_le hpath Slot.At.root ht.owns hnone with
    ⟨hget, hrun⟩ | ⟨hget, m₁, word', ns', hrun, hg⟩
  · rw [hrun, hget]
    exact ⟨m, ns, rfl, ht, hstay (hindex.trans hget)⟩
  have hroot : m₁.root = { m.root with rnode := word' } := by
    cases hg.set with
    | root h => exact h
  -- above the root's slot there is nothing to unwind
  have hend : (if word' = 0 then deleteUnwind 0 [] m₁ else some m₁) = some m₁ := by
    split
    · rw [deleteUnwind, if_pos rfl]
    · rfl
  have howns := hg.owns
  have hs₁ : m₁.Shape ns' := by
    refine ⟨fun i hi => by rw [hg.table, ht.table i hi], ?_, ?_, fun q => ?_⟩
    · rw [hroot]
      exact ht.height_le
    · rw [hroot]
      exact howns
    · refine ⟨fun hsome => ?_, fun hq => (howns.isSome hq).2⟩
      by_contra hq
      by_cases hold : q ∈ ns
      · rw [hg.freed q hold hq] at hsome
        cases hsome
      · rw [hg.others q hold fun hin => hin, ht.exact] at hsome
        exact hold hsome
  have hitem₁ : ∀ k, m₁.item k = if k = index then 0 else m.item k := by
    intro k
    unfold RadixMem.item
    rw [hroot]
    by_cases hk : k < 64 ^ m.root.height
    · rw [if_pos hk, if_pos hk, hg.get, Nat.mod_eq_of_lt hk, Nat.mod_eq_of_lt hroom]
    · rw [if_neg hk, if_neg hk, ite_self]
  rw [hrun, hend, Option.map_some]
  obtain ⟨ns₂, ht₂, hitem₂⟩ := hs₁.resetHeight
  exact ⟨_, ns₂, rfl, ht₂, fun k => (hitem₂ k).trans (hitem₁ k)⟩

end Tree

end BlobTopFs.Radix
