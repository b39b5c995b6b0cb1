import SlotClock.Fault

/-!
Checked arithmetic on 64-bit words.

An operation of `Word` returns the exact result, or the fault of the check that
fails.  `Signed` holds the same for the two's complement range, whose members are
written as `Int`.  The casts between the two readings of a word never fail.
-/

namespace SlotClock

namespace Word

/-- The word of value `n`, unless `n` needs more than 64 bits. -/
def fit (otherwise : Fault) (n : Nat) : Except Fault UInt64 :=
  if n < 0x10000000000000000 then .ok (UInt64.ofNat n) else .error otherwise

def add (a b : UInt64) : Except Fault UInt64 :=
  fit .addOverflow (a.toNat + b.toNat)

def mul (a b : UInt64) : Except Fault UInt64 :=
  fit .multiplyOverflow (a.toNat * b.toNat)

def sub (a b : UInt64) : Except Fault UInt64 :=
  if b ≤ a then .ok (a - b) else .error .subtractOverflow

def rem (a b : UInt64) : Except Fault UInt64 :=
  if b = 0 then .error .zeroDivisor else .ok (a % b)

/-- The shift amount is checked; bits that leave the word are lost. -/
def shiftLeft (a : UInt64) (shift : Nat) : Except Fault UInt64 :=
  if shift < 64 then .ok (UInt64.ofNat (a.toNat <<< shift)) else .error .shiftOverflow

def toSigned (w : UInt64) : Int :=
  if w.toNat < 0x8000000000000000 then w.toNat else w.toNat - 0x10000000000000000

def ofSigned (z : Int) : UInt64 :=
  UInt64.ofNat (z % 0x10000000000000000).toNat

theorem fit_of_lt {otherwise : Fault} {n : Nat} (h : n < 0x10000000000000000) :
    fit otherwise n = .ok (UInt64.ofNat n) :=
  if_pos h

theorem sub_of_le {a b : UInt64} (h : b ≤ a) : sub a b = .ok (a - b) :=
  if_pos h

theorem rem_of_ne_zero {a b : UInt64} (h : b ≠ 0) : rem a b = .ok (a % b) :=
  if_neg h

theorem toSigned_of_lt {w : UInt64} (h : w.toNat < 0x8000000000000000) :
    toSigned w = w.toNat :=
  if_pos h

end Word

namespace Signed

def fit (otherwise : Fault) (z : Int) : Except Fault Int :=
  if -0x8000000000000000 ≤ z ∧ z < 0x8000000000000000 then .ok z else .error otherwise

def add (a b : Int) : Except Fault Int :=
  fit .addOverflow (a + b)

def sub (a b : Int) : Except Fault Int :=
  fit .subtractOverflow (a - b)

def low32 (z : Int) : UInt32 :=
  UInt32.ofNat (z % 0x100000000).toNat

theorem fit_of_mem {otherwise : Fault} {z : Int} (lo : -0x8000000000000000 ≤ z)
    (hi : z < 0x8000000000000000) : fit otherwise z = .ok z :=
  if_pos ⟨lo, hi⟩

end Signed

end SlotClock
