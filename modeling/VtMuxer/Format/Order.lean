import VtMuxer.Format.ThinAddr

/-! The order of socket addresses, which is the order of their bytes on the wire. -/
namespace VtMuxer

/-- Two pairs of strings compare part by part when their first parts are equally long. -/
theorem compare_append {α : Type*} [Ord α] (m m' : List α) :
    ∀ {l l' : List α}, l.length = l'.length → compare (l ++ m) (l' ++ m') = (compare l l').then (compare m m') := by
  intro l
  induction l with
  | nil =>
    intro l' h
    obtain rfl : l' = [] := List.length_eq_zero_iff.mp h.symm
    simp
  | cons x l ih =>
    intro l' h
    cases l' with
    | nil => cases h
    | cons y l' =>
      rw [List.cons_append, List.cons_append, List.compare_cons_cons, List.compare_cons_cons, Ordering.then_assoc,
        ih (Nat.succ.inj h)]

namespace NetworkOrderU16

theorem cmp_eq_bytes (x y : NetworkOrderU16) : x.cmp y = compare x.bytes y.bytes := by
  have hx := x.lo.toNat_lt
  have hy := y.lo.toNat_lt
  simp only [bytes, List.compare_cons_cons, List.compare_nil_nil, Ordering.then_eq,
    UInt8.compare_eq_toNat_compare_toNat]
  unfold cmp get
  rcases lt_trichotomy x.hi.toNat y.hi.toNat with hlt | heq | hgt
  · rw [Nat.compare_eq_lt.mpr hlt, Nat.compare_eq_lt.mpr (by omega)]
    rfl
  · rw [heq, Nat.compare_eq_eq.mpr rfl, Ordering.eq_then]
    simp only [compare, compareOfLessAndEq, Nat.add_lt_add_iff_left, Nat.add_left_cancel_iff]
  · rw [Nat.compare_eq_gt.mpr hgt, Nat.compare_eq_gt.mpr (by omega)]
    rfl

theorem cmp_eq_eq_iff {x y : NetworkOrderU16} : x.cmp y = .eq ↔ x = y := by
  unfold cmp
  rw [Nat.compare_eq_eq]
  constructor
  · intro h
    rw [← new_get x, h, new_get]
  · exact congrArg _

/-- The partial order of ports sees no difference between them. No address is compared by it. -/
theorem partialCmp_eq_cmp_iff {x y : NetworkOrderU16} : x.partialCmp y = some (x.cmp y) ↔ x = y := by
  rw [partialCmp, Option.some_inj, cmp_eq_eq_iff.mpr rfl, ← cmp_eq_eq_iff, eq_comm]

end NetworkOrderU16

namespace SocketAddr

theorem cmp_eq_then (a b : SocketAddr) : a.cmp b = (a.ip.cmp b.ip).then (a.port.cmp b.port) := by
  unfold cmp
  cases a.ip.cmp b.ip <;> rfl

theorem cmp_eq_bytes (a b : SocketAddr) : a.cmp b = compare a.bytes b.bytes := by
  rw [cmp_eq_then, NetworkOrderU16.cmp_eq_bytes, IpAddr.cmp, bytes, bytes,
    compare_append _ _ (a.ip.length_octets.trans b.ip.length_octets.symm)]

theorem cmp_eq_eq_iff {a b : SocketAddr} : a.cmp b = .eq ↔ a = b := by
  rw [cmp_eq_bytes, Std.LawfulEqOrd.compare_eq_iff_eq, bytes_injective.eq_iff]

theorem cmp_swap (a b : SocketAddr) : b.cmp a = (a.cmp b).swap := by
  rw [cmp_eq_bytes, cmp_eq_bytes]
  exact Std.OrientedCmp.eq_swap

theorem cmp_isLE_trans {a b c : SocketAddr} (hab : (a.cmp b).isLE) (hbc : (b.cmp c).isLE) : (a.cmp c).isLE := by
  rw [cmp_eq_bytes] at hab hbc ⊢
  exact Std.TransCmp.isLE_trans hab hbc

/-- What the two orders owe to each other and to the wire. -/
structure OrdersAgree : Prop where
  partial_eq : ∀ a b : SocketAddr, a.partialCmp b = some (a.cmp b)
  wire : ∀ a b : SocketAddr, a.cmp b = compare a.bytes b.bytes ∧
    a.partialCmp b = some (compare a.bytes b.bytes)
  equal : ∀ a b : SocketAddr, (a.cmp b = .eq ↔ a = b) ∧ (a.partialCmp b = some .eq ↔ a = b)
  swap : ∀ a b : SocketAddr, b.cmp a = (a.cmp b).swap ∧ b.partialCmp a = (a.partialCmp b).map Ordering.swap
  total : ∀ a b : SocketAddr, ((a.cmp b).isLE ∨ (b.cmp a).isLE) ∧ (a.le b ∨ b.le a)
  trans : ∀ a b c : SocketAddr,
    ((a.cmp b).isLE → (b.cmp c).isLE → (a.cmp c).isLE) ∧ (a.le b → b.le c → a.le c)
  operators : ∀ a b : SocketAddr, a.lt b = (a.cmp b).isLT ∧ a.le b = (a.cmp b).isLE ∧ a.gt b = (a.cmp b).isGT ∧
    a.ge b = (a.cmp b).isGE

theorem le_eq (a b : SocketAddr) : a.le b = (a.cmp b).isLE := Option.any_some

theorem cmp_isLE_total (a b : SocketAddr) : (a.cmp b).isLE ∨ (b.cmp a).isLE := by
  rw [cmp_swap a b]
  cases a.cmp b <;> simp

/-- The addresses are in one total order, for sorting, for ordered maps and for the operators, and
that is the lexicographic order of their eighteen bytes. -/
theorem orders_agree : OrdersAgree := by
  constructor
  case partial_eq => exact fun _ _ => rfl
  case wire => exact fun a b => ⟨cmp_eq_bytes a b, congrArg some (cmp_eq_bytes a b)⟩
  case equal =>
    intro a b
    rw [partialCmp, Option.some_inj]
    exact ⟨cmp_eq_eq_iff, cmp_eq_eq_iff⟩
  case swap =>
    intro a b
    rw [partialCmp, partialCmp, Option.map_some, cmp_swap]
    exact ⟨rfl, rfl⟩
  case total =>
    intro a b
    rw [le_eq, le_eq]
    exact ⟨cmp_isLE_total a b, cmp_isLE_total a b⟩
  case trans =>
    intro a b c
    rw [le_eq, le_eq, le_eq]
    exact ⟨cmp_isLE_trans, cmp_isLE_trans⟩
  case operators =>
    intro a b
    rw [lt, le, gt, ge, partialCmp]
    simp

/-- The first byte of the port counts first. -/
example : (⟨unspecified.ip, .new 255⟩ : SocketAddr).lt ⟨unspecified.ip, .new 256⟩ = true := by decide

end SocketAddr

end VtMuxer
