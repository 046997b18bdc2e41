import ArrayEngine.Lane.Bytes
import Mathlib.Tactic.Ring

/-!
# Bytes that are written and read

A write changes the bytes it covers and no others, as far as the buffer goes; a buffer keeps its
size. The bytes of a number in either order, read in the same order, are that number.

## Main results

* `Bytes.getElem?_write`: every byte after a write
* `Bytes.window_write`, `Bytes.readLane_writeLane`: what has been written is read
* `Bytes.writeLane_readLane`: what has been read is written back without a change
* `Bytes.window_congr`, `Bytes.readLane_congr`: a lane is read from its own bytes only
-/

namespace ArrayEngine

/-! ### Bytes of a number -/

@[simp] theorem length_littleEndian (width n : Nat) : (littleEndian width n).length = width := by
  induction width generalizing n with
  | zero => rfl
  | succ width ih => rw [littleEndian, List.length_cons, ih]

theorem ofLittleEndian_littleEndian (width n : Nat) :
    ofLittleEndian (littleEndian width n) = n % 256 ^ width := by
  induction width generalizing n with
  | zero => rw [pow_zero, Nat.mod_one]; rfl
  | succ width ih =>
    have hsplit : n % 256 ^ (width + 1) = n % 256 + 256 * (n / 256 % 256 ^ width) := by
      rw [pow_succ', Nat.mod_mul]
    rw [littleEndian, ofLittleEndian, ih, hsplit]
    rfl

theorem ofLittleEndian_lt (bytes : List UInt8) : ofLittleEndian bytes < 256 ^ bytes.length := by
  induction bytes with
  | nil => exact Nat.one_pos
  | cons b rest ih =>
    have hb := b.toNat_lt
    rw [ofLittleEndian, List.length_cons, pow_succ']
    omega

/-- Bytes are those of the number that they make up. -/
theorem littleEndian_ofLittleEndian (bytes : List UInt8) :
    littleEndian bytes.length (ofLittleEndian bytes) = bytes := by
  induction bytes with
  | nil => rfl
  | cons b rest ih =>
    have hb : b.toNat < 256 := b.toNat_lt
    have hhead : UInt8.ofNat (b.toNat + 256 * ofLittleEndian rest) = b := by
      refine UInt8.toNat_inj.mp ?_
      rw [UInt8.toNat_ofNat']
      omega
    have hrest : (b.toNat + 256 * ofLittleEndian rest) / 256 = ofLittleEndian rest := by omega
    rw [ofLittleEndian, List.length_cons, littleEndian, hhead, hrest, ih]

theorem ofLittleEndian_append (a b : List UInt8) :
    ofLittleEndian (a ++ b) = ofLittleEndian a + 256 ^ a.length * ofLittleEndian b := by
  induction a with
  | nil => simp [ofLittleEndian]
  | cons byte a ih =>
    rw [List.cons_append, ofLittleEndian, ofLittleEndian, ih, List.length_cons, pow_succ]
    ring

theorem ofLittleEndian_replicate_zero (count : Nat) :
    ofLittleEndian (List.replicate count 0) = 0 := by
  induction count with
  | zero => rfl
  | succ count ih => rw [List.replicate_succ, ofLittleEndian, ih]; rfl

theorem ofLittleEndian_replicate_full (count : Nat) :
    ofLittleEndian (List.replicate count 0xff) + 1 = 256 ^ count := by
  induction count with
  | zero => rfl
  | succ count ih =>
    have hbyte : UInt8.toNat 0xff = 255 := rfl
    rw [List.replicate_succ, ofLittleEndian, hbyte, pow_succ, ← ih]
    ring

/-- The first bytes of a number are its residue. -/
theorem ofLittleEndian_take (bytes : List UInt8) {count : Nat} (h : count ≤ bytes.length) :
    ofLittleEndian (bytes.take count) = ofLittleEndian bytes % 256 ^ count := by
  have hlength : (bytes.take count).length = count := List.length_take_of_le h
  have hlt := ofLittleEndian_lt (bytes.take count)
  have happend := ofLittleEndian_append (bytes.take count) (bytes.drop count)
  rw [List.take_append_drop, hlength] at happend
  rw [hlength] at hlt
  rw [happend, Nat.add_mul_mod_self_left, Nat.mod_eq_of_lt hlt]

namespace ByteOrder

@[simp] theorem length_bytes (order : ByteOrder) (width n : Nat) :
    (order.bytes width n).length = width := by
  cases order <;> simp [bytes]

theorem number_bytes (order : ByteOrder) (width n : Nat) :
    order.number (order.bytes width n) = n % 256 ^ width := by
  cases order with
  | little => exact ofLittleEndian_littleEndian width n
  | big =>
    rw [number, bytes, List.reverse_reverse]
    exact ofLittleEndian_littleEndian width n

theorem bytes_number (order : ByteOrder) (bytes : List UInt8) :
    order.bytes bytes.length (order.number bytes) = bytes := by
  cases order with
  | little => exact littleEndian_ofLittleEndian bytes
  | big =>
    have h := littleEndian_ofLittleEndian bytes.reverse
    rw [List.length_reverse] at h
    rw [ByteOrder.bytes, number, h, List.reverse_reverse]

theorem number_lt (order : ByteOrder) (bytes : List UInt8) :
    order.number bytes < 256 ^ bytes.length := by
  cases order with
  | little => exact ofLittleEndian_lt bytes
  | big => simpa [number] using ofLittleEndian_lt bytes.reverse

end ByteOrder

namespace Bytes

variable {data data' : Bytes} {offset count : Nat}

/-! ### Reading -/

@[simp] theorem length_window (data : Bytes) (start count : Nat) :
    (data.window start count).length = count := by
  simp [window]

theorem getElem?_window (data : Bytes) (start : Nat) {i : Nat} (hi : i < count) :
    (data.window start count)[i]? = some (data.getD (start + i) 0) := by
  simp [window, hi]

theorem toArray_window {start : Nat} (h : start + count ≤ data.size) :
    (data.window start count).toArray = data.extract start (start + count) := by
  refine Array.ext ?_ ?_
  · simp
    omega
  · intro i hi _
    have hlt : start + i < data.size := by simp at hi; omega
    simp [window, hlt]

/-- A part of a window is a window. -/
theorem take_drop_window (data : Bytes) (start : Nat) {n k : Nat} (h : k + count ≤ n) :
    ((data.window start n).drop k).take count = data.window (start + k) count := by
  refine List.ext_getElem? fun i => ?_
  rcases Nat.lt_or_ge i count with hi | hi
  · rw [List.getElem?_take_of_lt hi, List.getElem?_drop, getElem?_window _ _ (by omega),
      getElem?_window _ _ hi, Nat.add_assoc]
  · rw [List.getElem?_eq_none (by simp; omega), List.getElem?_eq_none (by simpa using hi)]

/-- A window is read from its own bytes only. -/
theorem window_congr (h : ∀ i, offset ≤ i → i < offset + count → data[i]? = data'[i]?) :
    data.window offset count = data'.window offset count := by
  refine List.map_congr_left fun i hi => ?_
  have hi := List.mem_range'_1.mp hi
  rw [Array.getD_eq_getD_getElem?, Array.getD_eq_getD_getElem?, h i hi.1 hi.2]

theorem readLane_congr {width : Nat}
    (h : ∀ i, offset ≤ i → i < offset + width → data[i]? = data'[i]?) (order : ByteOrder) :
    data.readLane offset width order = data'.readLane offset width order :=
  congrArg order.number (window_congr h)

theorem readLane_lt (data : Bytes) (offset width : Nat) (order : ByteOrder) :
    data.readLane offset width order < 256 ^ width := by
  simpa [readLane] using order.number_lt (data.window offset width)

/-! ### Writing -/

theorem size_write (data : Bytes) (offset : Nat) (bytes : List UInt8) :
    (data.write offset bytes).size = data.size := by
  induction bytes generalizing data offset with
  | nil => rfl
  | cons b rest ih => rw [Bytes.write, ih, Array.size_setIfInBounds]

/-- Every byte after a write: the written ones as far as the buffer goes, and all others as they
were. -/
theorem getElem?_write (data : Bytes) (offset : Nat) (bytes : List UInt8) (i : Nat) :
    (data.write offset bytes)[i]? =
      if offset ≤ i ∧ i < offset + bytes.length ∧ i < data.size then bytes[i - offset]?
      else data[i]? := by
  induction bytes generalizing data offset with
  | nil => rw [write, if_neg (by simp only [List.length_nil]; omega)]
  | cons b rest ih =>
    rw [write, ih, Array.size_setIfInBounds, List.length_cons, Array.getElem?_setIfInBounds]
    rcases Nat.lt_trichotomy i offset with hlt | rfl | hgt
    · rw [if_neg (by omega), if_neg (by omega), if_neg (by omega)]
    · rw [if_neg (by omega), if_pos rfl, Nat.sub_self, List.getElem?_cons_zero]
      by_cases hi : i < data.size
      · rw [if_pos hi, if_pos (by omega)]
      · rw [if_neg hi, if_neg (by omega), Array.getElem?_eq_none (by omega)]
    · rw [if_neg (show ¬offset = i by omega)]
      refine if_congr (by omega) ?_ rfl
      rw [show i - offset = i - (offset + 1) + 1 by omega, List.getElem?_cons_succ]

/-- A write leaves the bytes outside its range as they were. -/
theorem getElem?_write_of_outside {bytes : List UInt8} {i : Nat}
    (h : i < offset ∨ offset + bytes.length ≤ i) : (data.write offset bytes)[i]? = data[i]? := by
  rw [getElem?_write, if_neg (by omega)]

/-- Any part of what has been written is read as it was written. -/
theorem window_write {bytes : List UInt8} (h : offset + bytes.length ≤ data.size) {k : Nat}
    (hk : k + count ≤ bytes.length) :
    (data.write offset bytes).window (offset + k) count = (bytes.drop k).take count := by
  refine List.ext_getElem? fun i => ?_
  rcases Nat.lt_or_ge i count with hi | hi
  · rw [getElem?_window _ _ hi, Array.getD_eq_getD_getElem?, getElem?_write, if_pos (by omega),
      List.getElem?_take_of_lt hi, List.getElem?_drop, List.getElem?_eq_getElem (by omega),
      List.getElem?_eq_getElem (by omega), Option.getD_some]
    congr 2
    omega
  · rw [List.getElem?_eq_none (by simpa using hi), List.getElem?_eq_none (by simp; omega)]

/-- Bytes that are written where they were read change nothing. -/
theorem write_window (data : Bytes) (offset count : Nat) :
    data.write offset (data.window offset count) = data := by
  refine Array.ext_getElem? fun i => ?_
  rw [getElem?_write, length_window]
  split
  case isTrue hi =>
    rw [getElem?_window _ _ (by omega), show offset + (i - offset) = i by omega,
      Array.getD_eq_getD_getElem?, Array.getElem?_eq_getElem hi.2.2, Option.getD_some]
  case isFalse => rfl

/-- So does a number that is written to the lane that it was read from. -/
theorem writeLane_readLane (data : Bytes) (offset width : Nat) (order : ByteOrder) :
    data.writeLane offset width order (data.readLane offset width order) = data := by
  have hbytes := order.bytes_number (data.window offset width)
  rw [length_window] at hbytes
  rw [writeLane, readLane, hbytes, write_window]

/-- A lane that has been written holds the bytes of its number. -/
theorem window_writeLane_self {width : Nat} (h : offset + width ≤ data.size) (order : ByteOrder)
    (n : Nat) :
    (data.writeLane offset width order n).window offset width = order.bytes width n := by
  have hwindow : (data.write offset (order.bytes width n)).window (offset + 0) width
      = ((order.bytes width n).drop 0).take width :=
    window_write (by simpa using h) (by simp)
  rwa [Nat.add_zero, List.drop_zero, List.take_of_length_le (by simp)] at hwindow

theorem readLane_writeLane {width : Nat} (h : offset + width ≤ data.size) (order : ByteOrder)
    (n : Nat) :
    (data.writeLane offset width order n).readLane offset width order = n % 256 ^ width := by
  rw [readLane, window_writeLane_self h, order.number_bytes]

end Bytes

end ArrayEngine
