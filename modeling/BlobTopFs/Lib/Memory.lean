import Mathlib.Algebra.Group.Nat.Defs
import Mathlib.Data.List.GetD

/-!
# Byte memory

A stretch of memory is a function from offsets to bytes; how long it is is for its owner
to know. `Mem.write` is `memcpy`, `Mem.shift` is pointer arithmetic, `strEq` is
`strcmp(..) == 0` against a NUL-free string, and `le64`/`readLe64` are the eight bytes of
an unsigned 64-bit field in memory order.
-/

namespace BlobTopFs

abbrev Mem := Nat → UInt8

namespace Mem

/-- `memcpy(m + off, src, len)`. -/
def write (m : Mem) (off len : Nat) (src : Mem) : Mem :=
  fun q => if off ≤ q ∧ q < off + len then src (q - off) else m q

/-- The memory a pointer `m + off` points to. -/
def shift (m : Mem) (off : Nat) : Mem := fun k => m (off + k)

@[simp] theorem shift_apply (m : Mem) (off k : Nat) : m.shift off k = m (off + k) := rfl

theorem write_apply (m : Mem) (off len : Nat) (src : Mem) (q : Nat) :
    m.write off len src q = if off ≤ q ∧ q < off + len then src (q - off) else m q := rfl

theorem write_in {m src : Mem} {off len q : Nat} (h0 : off ≤ q) (h1 : q < off + len) :
    m.write off len src q = src (q - off) := if_pos ⟨h0, h1⟩

theorem write_out {m src : Mem} {off len q : Nat} (h : q < off ∨ off + len ≤ q) :
    m.write off len src q = m q := if_neg (by omega)

/-- Copying what is already there changes nothing. -/
theorem write_self {m src : Mem} {off len : Nat} (h : ∀ k < len, src k = m (off + k)) :
    m.write off len src = m := by
  funext q
  rw [write_apply]
  split
  · next hq =>
      rw [h (q - off) (by omega)]
      congr 1
      omega
  · rfl

/-- The `n` bytes from `off` on. -/
def bytes (m : Mem) (off n : Nat) : List UInt8 := (List.range n).map fun k => m (off + k)

@[simp] theorem bytes_length (m : Mem) (off n : Nat) : (m.bytes off n).length = n := by
  simp [bytes]

theorem bytes_add (m : Mem) (off a b : Nat) :
    m.bytes off (a + b) = m.bytes off a ++ m.bytes (off + a) b := by
  simp only [bytes, List.range_add, List.map_append, List.map_map, Nat.add_assoc]
  rfl

theorem bytes_congr {m m' : Mem} {off off' n : Nat} (h : ∀ k < n, m (off + k) = m' (off' + k)) :
    m.bytes off n = m'.bytes off' n :=
  List.map_congr_left fun k hk => h k (List.mem_range.mp hk)

end Mem

/-! ## NUL-terminated strings -/

/-- A C string: its bytes up to, and without, the terminator. -/
structure CStr where
  chars : List UInt8
  noNul : (0 : UInt8) ∉ chars
  deriving DecidableEq

namespace CStr

def strlen (s : CStr) : Nat := s.chars.length

/-- The string in memory, terminator included. -/
def mem (s : CStr) : Mem := fun k => s.chars.getD k 0

theorem mem_of_lt {s : CStr} {k : Nat} (h : k < s.strlen) : s.mem k = s.chars.get ⟨k, h⟩ := by
  exact List.getD_eq_getElem s.chars 0 h

theorem mem_ne_zero {s : CStr} {k : Nat} (h : k < s.strlen) : s.mem k ≠ 0 := by
  rw [mem_of_lt h]
  intro h0
  exact s.noNul (h0 ▸ List.getElem_mem h)

theorem mem_strlen (s : CStr) : s.mem s.strlen = 0 := by
  simp [mem, strlen]

theorem ext_chars {s t : CStr} (h : s.chars = t.chars) : s = t := by
  cases s
  cases t
  cases h
  rfl

theorem ext_mem {s t : CStr} (hlen : s.strlen = t.strlen)
    (h : ∀ k < s.strlen, s.mem k = t.mem k) : s = t := by
  apply ext_chars
  apply List.ext_getElem hlen
  intro k h1 h2
  have hk := h k h1
  rwa [mem_of_lt h1, mem_of_lt (s := t) h2] at hk

end CStr

/-- `strcmp(m + off, s) == 0`: the bytes at `off` spell `s` and then end. -/
def strEq (m : Mem) (off : Nat) : List UInt8 → Bool
  | [] => m off == 0
  | c :: cs => m off == c && strEq m (off + 1) cs

theorem strEq_iff {m : Mem} {off : Nat} {l : List UInt8} :
    strEq m off l = true ↔ (∀ k < l.length, m (off + k) = l.getD k 0) ∧ m (off + l.length) = 0 := by
  induction l generalizing off with
  | nil => simp [strEq]
  | cons c cs ih =>
      simp only [strEq, Bool.and_eq_true, beq_iff_eq, ih, List.length_cons]
      constructor
      · rintro ⟨h0, hk, hz⟩
        refine ⟨?_, ?_⟩
        · intro k hlt
          cases k with
          | zero => simpa using h0
          | succ k =>
              have := hk k (by omega)
              simpa [Nat.add_assoc, Nat.add_comm 1 k] using this
        · rw [← hz]
          congr 1
          omega
      · rintro ⟨hk, hz⟩
        refine ⟨by simpa using hk 0 (by omega), ?_, ?_⟩
        · intro k hlt
          have := hk (k + 1) (by omega)
          simpa [Nat.add_assoc, Nat.add_comm 1 k] using this
        · rw [← hz]
          congr 1
          omega

/-- The same, read against the string in memory. -/
theorem strEq_iff_mem {m : Mem} {off : Nat} {s : CStr} :
    strEq m off s.chars = true ↔ ∀ k ≤ s.strlen, m (off + k) = s.mem k := by
  rw [strEq_iff]
  constructor
  · rintro ⟨hk, hz⟩ k hle
    rcases Nat.lt_or_eq_of_le hle with h | rfl
    · exact hk k h
    · rw [CStr.mem_strlen]
      exact hz
  · intro h
    refine ⟨fun k hk => h k (Nat.le_of_lt hk), ?_⟩
    have hz := h s.strlen (Nat.le_refl _)
    rwa [CStr.mem_strlen] at hz

/-- Memory spells at most one string at an address. -/
theorem strEq_unique {m : Mem} {off : Nat} {s t : CStr}
    (hs : strEq m off s.chars = true) (ht : strEq m off t.chars = true) : s = t := by
  rw [strEq_iff_mem] at hs ht
  -- The shorter one's terminator would be a character of the longer one.
  have key : ∀ {a b : CStr}, (∀ k ≤ a.strlen, m (off + k) = a.mem k) →
      (∀ k ≤ b.strlen, m (off + k) = b.mem k) → ¬ a.strlen < b.strlen := by
    intro a b ha hb hlt
    apply CStr.mem_ne_zero hlt
    rw [← hb a.strlen (Nat.le_of_lt hlt), ha a.strlen (Nat.le_refl _), CStr.mem_strlen]
  have hlen : s.strlen = t.strlen := by
    have h1 := key hs ht
    have h2 := key ht hs
    omega
  apply CStr.ext_mem hlen
  intro k hk
  rw [← hs k (Nat.le_of_lt hk), ht k (by omega)]

/-- Equal bytes compare equal. -/
theorem strEq_congr {m m' : Mem} {off off' : Nat} {l : List UInt8}
    (h : ∀ k ≤ l.length, m (off + k) = m' (off' + k)) : strEq m off l = strEq m' off' l := by
  rw [Bool.eq_iff_iff, strEq_iff, strEq_iff, h l.length (Nat.le_refl _)]
  constructor
  · rintro ⟨hk, hz⟩
    exact ⟨fun k hlt => by rw [← h k (Nat.le_of_lt hlt), hk k hlt], hz⟩
  · rintro ⟨hk, hz⟩
    exact ⟨fun k hlt => by rw [h k (Nat.le_of_lt hlt), hk k hlt], hz⟩

/-! ## 64-bit fields -/

/-- The eight bytes of `x`, least significant first. -/
def le64 (x : UInt64) : Mem := fun k => UInt8.ofNat (x.toNat / 256 ^ k)

/-- The 64-bit value whose bytes stand at `off`. -/
def readLe64 (m : Mem) (off : Nat) : UInt64 :=
  UInt64.ofNat ((m off).toNat + (m (off + 1)).toNat * 256 + (m (off + 2)).toNat * 256 ^ 2 +
    (m (off + 3)).toNat * 256 ^ 3 + (m (off + 4)).toNat * 256 ^ 4 +
    (m (off + 5)).toNat * 256 ^ 5 + (m (off + 6)).toNat * 256 ^ 6 +
    (m (off + 7)).toNat * 256 ^ 7)

theorem readLe64_congr {m m' : Mem} {off off' : Nat}
    (h : ∀ k < 8, m (off + k) = m' (off' + k)) : readLe64 m off = readLe64 m' off' := by
  have h0 := h 0 (by omega)
  simp only [Nat.add_zero] at h0
  simp only [readLe64, h0, h 1 (by omega), h 2 (by omega), h 3 (by omega), h 4 (by omega),
    h 5 (by omega), h 6 (by omega), h 7 (by omega)]

/-- Eight bytes and back. -/
theorem readLe64_le64 (x : UInt64) : readLe64 (le64 x) 0 = x := by
  apply UInt64.toNat_inj.mp
  have hx := x.toNat_lt
  simp only [readLe64, le64, UInt8.toNat_ofNat', UInt64.toNat_ofNat', Nat.zero_add,
    Nat.reducePow, Nat.div_one]
  omega

end BlobTopFs
