import Mathlib.Tactic

/-! Sixteen-bit integers in network byte order, as they stand on the wire. A `u16`
is a natural number below `2 ^ 16`. -/
namespace VtMuxer

/-- The two bytes of a `u16`, most significant first. -/
@[ext] structure NetworkOrderU16 where
  hi : UInt8
  lo : UInt8
  deriving DecidableEq, Repr

namespace NetworkOrderU16

def new (x : ℕ) : NetworkOrderU16 := ⟨UInt8.ofNat (x / 256), UInt8.ofNat (x % 256)⟩

def get (x : NetworkOrderU16) : ℕ := x.hi.toNat * 256 + x.lo.toNat

def bytes (x : NetworkOrderU16) : List UInt8 := [x.hi, x.lo]

def cmp (x y : NetworkOrderU16) : Ordering := compare x.get y.get

/-- `PartialOrd::partial_cmp`, which compares its argument with itself. -/
def partialCmp (_x y : NetworkOrderU16) : Option Ordering := some (cmp y y)

@[simp] theorem length_bytes (x : NetworkOrderU16) : x.bytes.length = 2 := rfl

theorem get_lt (x : NetworkOrderU16) : x.get < 65536 := by
  have hh := x.hi.toNat_lt
  have hl := x.lo.toNat_lt
  unfold get
  omega

theorem hi_new {x : ℕ} (hx : x < 65536) : (new x).hi.toNat = x / 256 :=
  UInt8.toNat_ofNat_of_lt' (show x / 256 < 256 by omega)

theorem lo_new (x : ℕ) : (new x).lo.toNat = x % 256 :=
  UInt8.toNat_ofNat_of_lt' (show x % 256 < 256 by omega)

@[simp] theorem get_new {x : ℕ} (hx : x < 65536) : (new x).get = x := by
  rw [get, hi_new hx, lo_new]
  omega

@[simp] theorem get_new_zero : (new 0).get = 0 := rfl

@[simp] theorem new_get (x : NetworkOrderU16) : new x.get = x := by
  have hl := x.lo.toNat_lt
  have hd : (x.hi.toNat * 256 + x.lo.toNat) / 256 = x.hi.toNat := by omega
  have hm : (x.hi.toNat * 256 + x.lo.toNat) % 256 = x.lo.toNat := by omega
  simp [new, get, hd, hm]

theorem hi_new_eq_iff {x y : ℕ} (hx : x < 65536) (hy : y < 65536) :
    (new x).hi = (new y).hi ↔ x / 256 = y / 256 := by
  rw [← UInt8.toNat_inj, hi_new hx, hi_new hy]

end NetworkOrderU16

end VtMuxer
