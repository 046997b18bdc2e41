import ArrayEngine.Proofs.Binary.Half
import ArrayEngine.Proofs.View.Alias

/-!
# Values that are written back

A value that has been read from a lane and is written to the same lane leaves every byte of the
buffer as it was. The NaNs of two kinds of lanes are the only exception. Half precision has a single
NaN for values, which takes the place of any other, and in single precision a signalling NaN becomes
a quiet one. Double precision keeps all its NaNs.

## Main definitions

* `LaneKind.isNaN`: whether a pattern is a NaN of a floating-point lane
* `LaneKind.settled`: pattern as which the value of a pattern is written back

## Main results

* `LaneKind.encode_decode_eq_settled`: every pattern of every kind
* `Half.narrow_widen`: half precision, field by field
* `Accessor.writeBack_exact`: lanes of all views, in either byte order
-/

namespace ArrayEngine

open Binary (Double Format binary16 binary32 binary64)

/-! ### Patterns -/

namespace LaneKind

variable {kind : LaneKind} {bits : Nat}

/-- Format of the numbers of a floating-point lane. -/
def format? : LaneKind → Option Format
  | float16 => some binary16
  | float32 => some binary32
  | float64 => some binary64
  | _ => none

/-- Whether a pattern is a NaN: its exponent field is full and its fraction field is not zero. -/
def isNaN (kind : LaneKind) (bits : Nat) : Bool :=
  kind.format?.any fun format => format.infinity < format.magnitude bits

/-- Pattern as which the value of a pattern is written back. -/
def settled (kind : LaneKind) (bits : Nat) : Nat :=
  if kind.isNaN bits then
    match kind with
    | float16 => binary16.defaultNaN
    | float32 => binary32.quieted bits
    | _ => bits
  else bits

theorem settled_of_not_isNaN (hnan : kind.isNaN bits = false) : kind.settled bits = bits :=
  if_neg (Bool.eq_false_iff.mp hnan)

/-- The NaNs among the patterns are those that are read as one. -/
theorem isNaN_decode (h : bits < 256 ^ kind.size) : (kind.decode bits).isNaN = kind.isNaN bits := by
  cases hformat : kind.format? with
  | none =>
    rw [isNaN, hformat, Option.any_none, Bool.eq_false_iff]
    intro hnan
    rcases float_of_isNaN h hnan with rfl | rfl | rfl <;> cases hformat
  | some format =>
    cases kind with
    | float16 | float32 => exact isNaN_widened _ bits
    | float64 =>
      have htoNat : (UInt64.ofNat bits).toNat = bits := UInt64.toNat_ofNat_of_lt' h
      rw [decode, Value.isNaN, Double.isNaN, Double.magnitude, htoNat]
      rfl
    | _ => cases hformat

/-- A NaN that has been read is written as the NaN that its lane settles for. -/
theorem encode_decode_of_isNaN (h : bits < 256 ^ kind.size) (hnan : kind.isNaN bits) :
    kind.encode (kind.decode bits) = .ok (kind.settled bits) := by
  have hread := (isNaN_decode h).trans hnan
  cases kind with
  | float16 =>
    have hwritten : halfBits (widened binary16 bits) = binary16.defaultNaN := if_pos hread
    rw [show float16.settled bits = binary16.defaultNaN from if_pos hnan, ← hwritten]
    rfl
  | float32 =>
    have hwritten : binary64.convert binary32 (widened binary32 bits).bits.toNat
        = binary32.quieted bits := by
      rw [toNat_widened]
      exact Format.convert_convert_of_infinity_lt (by decide) (by decide) h (of_decide_eq_true hnan)
    rw [show float32.settled bits = binary32.quieted bits from if_pos hnan, ← hwritten]
    rfl
  | float64 =>
    have hwritten : (UInt64.ofNat bits).toNat = bits := UInt64.toNat_ofNat_of_lt' h
    rw [show float64.settled bits = bits from if_pos hnan]
    exact congrArg Except.ok hwritten
  | _ => cases hnan

/-- What is read from a lane is written back as its settled pattern. -/
theorem encode_decode_eq_settled (h : bits < 256 ^ kind.size) :
    kind.encode (kind.decode bits) = .ok (kind.settled bits) := by
  cases hnan : kind.isNaN bits with
  | false => rw [settled_of_not_isNaN hnan, encode_decode h ((isNaN_decode h).trans hnan)]
  | true => exact encode_decode_of_isNaN h hnan

theorem settled_lt (h : bits < 256 ^ kind.size) : kind.settled bits < 256 ^ kind.size :=
  encode_lt (encode_decode_eq_settled h)

end LaneKind

/-- Half precision, field by field: what is no NaN is widened and narrowed to itself. -/
theorem Half.narrow_widen {half : Nat} (h : half < 2 ^ 16)
    (hnan : LaneKind.float16.isNaN half = false) :
    Half.narrow ⟨UInt64.ofNat (Half.widen half)⟩ = half := by
  have hread : (LaneKind.float16.decode half).isNaN = false := (LaneKind.isNaN_decode h).trans hnan
  have hwritten : LaneKind.float16.encode (LaneKind.float16.decode half) = .ok half :=
    LaneKind.encode_decode h hread
  rw [narrow_eq, widen_eq]
  exact Except.ok.inj hwritten

/-! ### Lanes -/

namespace Accessor

variable {a : Accessor} {memory : Memory} {start : Nat}

/-- Pattern in the lane that starts at a byte of the buffer. -/
def patternAt (a : Accessor) (memory : Memory) (start : Nat) : Nat :=
  (memory.bytes a.buffer).readLane start a.kind.size a.order

theorem patternAt_lt (a : Accessor) (memory : Memory) (start : Nat) :
    a.patternAt memory start < 256 ^ a.kind.size := Bytes.readLane_lt ..

/-- The value of a lane is written back as the settled pattern. -/
theorem perform_set_decode (hlane : a.lane? = some start) (memory : Memory) :
    (a.set (a.kind.decode (a.patternAt memory start))).perform memory
      = (.ok (), memory.modify a.buffer
          (·.writeLane start a.kind.size a.order (a.kind.settled (a.patternAt memory start)))) :=
  perform_set_of_lane? (LaneKind.encode_decode_eq_settled (a.patternAt_lt memory start)) hlane
    memory

/-- A pattern that is written to the lane which holds it changes nothing. -/
theorem modify_writeLane_patternAt (a : Accessor) (memory : Memory) (start : Nat) :
    memory.modify a.buffer (·.writeLane start a.kind.size a.order (a.patternAt memory start))
      = memory :=
  Memory.modify_eq_self (Bytes.writeLane_readLane ..)

/-- **Every lane reads back to itself.** A pattern that is no NaN is read as a value that is written
as this pattern, also where halves are converted field by field. So whatever lane of a typed view or
a data view is read and written back, in either byte order, the memory is as it was, unless the
lane holds a NaN that its kind settles otherwise; that lane then holds the settled NaN, and all
other bytes are as they were. -/
theorem writeBack_exact :
    (∀ (kind : LaneKind) (bits : Nat), bits < 2 ^ kind.width → kind.isNaN bits = false →
      kind.encode (kind.decode bits) = .ok bits) ∧
    (∀ half < 2 ^ 16, LaneKind.float16.isNaN half = false →
      Half.narrow ⟨UInt64.ofNat (Half.widen half)⟩ = half) ∧
    ∀ (a : Accessor) (memory : Memory) (start : Nat), a.lane? = some start →
      let bits := a.patternAt memory start
      a.get memory = .ok (some (a.kind.decode bits)) ∧
      (a.kind.settled bits = bits →
        (a.set (a.kind.decode bits)).perform memory = (.ok (), memory)) ∧
      (a.InBuffer memory → ∃ after, (a.set (a.kind.decode bits)).perform memory = (.ok (), after) ∧
        a.patternAt after start = a.kind.settled bits ∧
        memory.SameOutside after a.buffer start (start + a.kind.size)) := by
  refine ⟨?_, fun _ => Half.narrow_widen, ?_⟩
  · intro kind bits hbits hnan
    have hlt : bits < 256 ^ kind.size := by rwa [← LaneKind.two_pow_width]
    rw [LaneKind.encode_decode_eq_settled hlt, LaneKind.settled_of_not_isNaN hnan]
  · intro a memory start hlane bits
    have hset := perform_set_decode hlane memory
    refine ⟨get_of_lane? hlane memory, ?_, ?_⟩
    · intro hsettled
      rw [hset, hsettled, modify_writeLane_patternAt]
    · intro hbuffer
      have hlt : a.kind.settled bits < 256 ^ a.kind.size :=
        LaneKind.settled_lt (a.patternAt_lt memory start)
      exact ⟨_, hset, Memory.readLane_writeLane_self (hbuffer start hlane) a.order hlt,
        memory.sameOutside_writeLane a.buffer start a.kind.size a.order (a.kind.settled bits)⟩

/-- The least subnormal half, most significant byte first, at an odd byte of the buffer. -/
theorem writeBack_exact_of_subnormal :
    let memory : Memory := ⟨#[#[7, 0, 1, 9]]⟩
    let a := bytes ⟨0, 1, 3⟩ 0 .float16 .big
    let value := LaneKind.float16.decode 1
    LaneKind.float16.encode value = .ok 1 ∧
      Half.narrow ⟨UInt64.ofNat (Half.widen 1)⟩ = 1 ∧
      a.get memory = .ok (some value) ∧ (a.set value).perform memory = (.ok (), memory) ∧
      ∃ after, (a.set value).perform memory = (.ok (), after) ∧
        a.patternAt after 1 = 1 ∧ memory.SameOutside after 0 1 3 := by
  intro memory a value
  have hview : DataView.Obtained ⟨0, 1, 3⟩ memory :=
    ⟨memory, fun _ _ => rfl, 0, 1, none, rfl⟩
  have hbuffer : a.InBuffer memory := inBuffer_of_dataView hview 0 .float16 .big
  obtain ⟨hpatterns, hfields, hlanes⟩ := writeBack_exact
  obtain ⟨hget, hsame, hafter⟩ := hlanes a memory 1 rfl
  exact ⟨hpatterns .float16 1 (by decide) (by decide), hfields 1 (by decide) (by decide), hget,
    hsame (by decide), hafter hbuffer⟩

/-- A half that is a NaN is written back as the one with the quiet bit alone, and a signalling NaN
of single precision as a quiet one: a byte changes. -/
theorem writeBack_ne_of_nan :
    (∃ (view : View) (value : Value),
      let memory : Memory := ⟨#[#[0x01, 0x7e]]⟩
      let after : Memory := ⟨#[#[0x00, 0x7e]]⟩
      View.ofBuffer memory 0 .float16 0 none = .ok view ∧ view.get? memory 0 = some value ∧
        (view.set 0 value).perform memory = (.ok (), after) ∧ after ≠ memory) ∧
    ∃ (view : View) (value : Value),
      let memory : Memory := ⟨#[#[0x01, 0x00, 0x80, 0x7f]]⟩
      let after : Memory := ⟨#[#[0x01, 0x00, 0xc0, 0x7f]]⟩
      View.ofBuffer memory 0 .float32 0 none = .ok view ∧ view.get? memory 0 = some value ∧
        (view.set 0 value).perform memory = (.ok (), after) ∧ after ≠ memory := by
  refine ⟨⟨⟨0, .float16, 0, 1⟩, .number ⟨0x7ff8040000000000⟩, ?_⟩,
    ⟨⟨0, .float32, 0, 1⟩, .number ⟨0x7ff8000020000000⟩, ?_⟩⟩
  · decide +kernel
  · decide +kernel

end Accessor

end ArrayEngine
