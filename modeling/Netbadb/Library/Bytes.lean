import Mathlib.Tactic

/-!
Fixed-width little-endian fields inside byte strings. A record format is a
concatenation of fields, and its reader looks at fixed offsets. The lemmas
here say what such a read returns, on the whole string and on a prefix of it.
-/

namespace Bytes

open List

/-- The `width` little-endian bytes of a number. -/
def leBytes : Nat → Nat → List UInt8
  | 0, _ => []
  | width + 1, n => UInt8.ofNat (n % 256) :: leBytes width (n / 256)

def leNat : List UInt8 → Nat
  | [] => 0
  | b :: bs => b.toNat + 256 * leNat bs

@[simp] lemma length_leBytes (width n : Nat) : (leBytes width n).length = width := by
  induction width generalizing n with
  | zero => rfl
  | succ width ih => rw [leBytes, length_cons, ih]

lemma leNat_leBytes {width n : Nat} (h : n < 256 ^ width) : leNat (leBytes width n) = n := by
  induction width generalizing n with
  | zero =>
    have hn : n = 0 := by simpa using h
    rw [hn]
    rfl
  | succ width ih =>
    have hdiv : n / 256 < 256 ^ width := by
      apply Nat.div_lt_of_lt_mul
      rwa [pow_succ, mul_comm] at h
    have hbyte : (UInt8.ofNat (n % 256)).toNat = n % 256 := by
      rw [UInt8.toNat_ofNat']
      omega
    rw [leBytes, leNat, ih hdiv, hbyte]
    omega

/-- A fixed-width field in front of a rest determines both. -/
lemma leBytes_append_inj {width a b : Nat} {rest rest' : List UInt8} (ha : a < 256 ^ width)
    (hb : b < 256 ^ width) (h : leBytes width a ++ rest = leBytes width b ++ rest') :
    a = b ∧ rest = rest' := by
  obtain ⟨hfield, hrest⟩ := append_inj h (by simp)
  exact ⟨by rw [← leNat_leBytes ha, hfield, leNat_leBytes hb], hrest⟩

/-- The bytes at `offset`, `length` of them where the string is long enough. -/
def slice (bytes : List UInt8) (offset length : Nat) : List UInt8 :=
  (bytes.drop offset).take length

/-- The bytes with those at `offset` replaced. -/
def patch (bytes : List UInt8) (offset : Nat) (new : List UInt8) : List UInt8 :=
  bytes.take offset ++ new ++ bytes.drop (offset + new.length)

variable {offset length : Nat}

lemma slice_append_right {a b : List UInt8} (h : a.length ≤ offset) :
    slice (a ++ b) offset length = slice b (offset - a.length) length := by
  unfold slice
  rw [drop_append, drop_eq_nil_of_le h, nil_append]

lemma slice_cons {b : UInt8} {bytes : List UInt8} (h : 0 < offset) :
    slice (b :: bytes) offset length = slice bytes (offset - 1) length := by
  obtain ⟨n, rfl⟩ : ∃ n, offset = n + 1 := ⟨offset - 1, by omega⟩
  rfl

lemma slice_append_left {a b : List UInt8} (h : a.length = length) :
    slice (a ++ b) 0 length = a := by
  unfold slice
  rw [drop_zero, ← h, take_left]

lemma slice_self {a : List UInt8} (h : a.length = length) : slice a 0 length = a := by
  unfold slice
  rw [drop_zero, take_of_length_le h.le]

/-- A field that lies inside a prefix is read the same there. -/
lemma slice_take {bytes : List UInt8} {n : Nat} (h : offset + length ≤ n) :
    slice (bytes.take n) offset length = slice bytes offset length := by
  unfold slice
  rw [drop_take, take_take, min_eq_left (by omega)]

lemma patch_field {a old new b : List UInt8} (h : old.length = new.length) :
    patch (a ++ old ++ b) a.length new = a ++ new ++ b := by
  have hfront : (a ++ old ++ b).take a.length = a := by rw [append_assoc, take_left]
  have hback : (a ++ old ++ b).drop (a.length + new.length) = b := by
    rw [← h, ← length_append, drop_left]
  rw [patch, hfront, hback]

/-- Writing at the end of the bytes appends. -/
lemma patch_length (bytes new : List UInt8) : patch bytes bytes.length new = bytes ++ new := by
  rw [patch, take_length, drop_eq_nil_of_le (by omega), append_nil]

variable {bytes new : List UInt8} {start : Nat}

lemma length_patch (h : offset + new.length ≤ bytes.length) :
    (patch bytes offset new).length = bytes.length := by
  simp only [patch, length_append, length_take, length_drop]
  omega

lemma slice_patch_self (h : offset ≤ bytes.length) :
    slice (patch bytes offset new) offset new.length = new := by
  have htake : (bytes.take offset).length = offset := by
    rw [length_take]
    omega
  rw [patch, append_assoc, slice_append_right htake.le, htake, Nat.sub_self, slice_append_left rfl]

lemma slice_patch_before (h : start + length ≤ offset) (hoffset : offset ≤ bytes.length) :
    slice (patch bytes offset new) start length = slice bytes start length := by
  have htake : (bytes.take offset).length = offset := by
    rw [length_take]
    omega
  have hprefix : (patch bytes offset new).take offset = bytes.take offset := by
    rw [patch, append_assoc, take_append_of_le_length htake.ge, take_take, min_self]
  rw [← slice_take h, hprefix, slice_take h]

lemma slice_patch_after (h : offset + new.length ≤ start) (hoffset : offset ≤ bytes.length) :
    slice (patch bytes offset new) start length = slice bytes start length := by
  have hfront : (bytes.take offset ++ new).length = offset + new.length := by
    rw [length_append, length_take]
    omega
  rw [patch, slice_append_right (by omega), hfront]
  unfold slice
  rw [drop_drop]
  congr 2
  omega

lemma leNat_lt (bytes : List UInt8) : leNat bytes < 256 ^ bytes.length := by
  induction bytes with
  | nil => simp [leNat]
  | cons b bytes ih =>
    have hb := b.toNat_lt
    rw [leNat, length_cons, pow_succ]
    omega

end Bytes
