import VtMuxer.Format.Order

/-! The addresses of `std::net` and what becomes of them on the wire. An IPv4 address travels as the
IPv6 address it is mapped to, and flow labels and scopes do not travel. -/
namespace VtMuxer

/-- `u128::from_be_bytes`, and what it does to fewer or more bytes. -/
def fromBeBytes (l : List UInt8) : ℕ := l.foldl (fun n b => n * 256 + b.toNat) 0

def toBeBytes : ℕ → ℕ → List UInt8
  | 0, _ => []
  | k + 1, n => toBeBytes k (n / 256) ++ [UInt8.ofNat (n % 256)]

@[simp] theorem length_toBeBytes (k n : ℕ) : (toBeBytes k n).length = k := by
  induction k generalizing n with
  | zero => rfl
  | succ k ih => simp [toBeBytes, ih]

@[simp] theorem toBeBytes_fromBeBytes (l : List UInt8) : toBeBytes l.length (fromBeBytes l) = l := by
  induction l using List.reverseRecOn with
  | nil => rfl
  | append_singleton l b ih =>
    have hb := b.toNat_lt
    have hd : (fromBeBytes l * 256 + b.toNat) / 256 = fromBeBytes l := by omega
    have hm : (fromBeBytes l * 256 + b.toNat) % 256 = b.toNat := by omega
    have hcat : fromBeBytes (l ++ [b]) = fromBeBytes l * 256 + b.toNat := by simp [fromBeBytes]
    rw [hcat, List.length_append, List.length_singleton, toBeBytes, hd, hm, ih, UInt8.ofNat_toNat]

structure Ipv4Addr where
  octets : List UInt8
  length_octets : octets.length = 4
  deriving Repr

@[ext] structure Ipv6Addr where
  octets : List UInt8
  length_octets : octets.length = 16
  deriving Repr

/-- `std::net::IpAddr`. -/
inductive StdIpAddr where
  | v4 (ip : Ipv4Addr)
  | v6 (ip : Ipv6Addr)
  deriving Repr

/-- `std::net::SocketAddr`. -/
inductive StdSocketAddr where
  | v4 (ip : Ipv4Addr) (port : UInt16)
  | v6 (ip : Ipv6Addr) (port : UInt16) (flowinfo scopeId : UInt32)
  deriving Repr

/-- The first twelve bytes of `::ffff:a.b.c.d`. -/
def MAPPED : List UInt8 := [0, 0, 0, 0, 0, 0, 0, 0, 0, 0, 255, 255]

namespace Ipv4Addr

def toIpv6Mapped (a : Ipv4Addr) : Ipv6Addr := ⟨MAPPED ++ a.octets, by simp [MAPPED, a.length_octets]⟩

def cmp (a b : Ipv4Addr) : Ordering := compare a.octets b.octets

end Ipv4Addr

namespace Ipv6Addr

def fromBits (n : ℕ) : Ipv6Addr := ⟨toBeBytes 16 n, length_toBeBytes 16 n⟩

def toIpv4Mapped (a : Ipv6Addr) : Option Ipv4Addr :=
  if a.octets.take 12 = MAPPED then some ⟨a.octets.drop 12, by simp [a.length_octets]⟩ else none

def toCanonical (a : Ipv6Addr) : StdIpAddr :=
  match a.toIpv4Mapped with
  | some mapped => .v4 mapped
  | none => .v6 a

/-- The eight `u16` of the address. -/
def segments (a : Ipv6Addr) : List ℕ := go a.octets
where
  go : List UInt8 → List ℕ
    | hi :: lo :: l => (NetworkOrderU16.mk hi lo).get :: go l
    | _ => []

def cmp (a b : Ipv6Addr) : Ordering := compare a.segments b.segments

end Ipv6Addr

def StdIpAddr.toCanonical : StdIpAddr → StdIpAddr
  | .v4 a => .v4 a
  | .v6 a => a.toCanonical

namespace StdSocketAddr

def new (ip : StdIpAddr) (port : UInt16) : StdSocketAddr :=
  match ip with
  | .v4 a => .v4 a port
  | .v6 a => .v6 a port 0 0

def ip : StdSocketAddr → StdIpAddr
  | .v4 a _ => .v4 a
  | .v6 a _ _ _ => .v6 a

def port : StdSocketAddr → UInt16
  | .v4 _ p => p
  | .v6 _ p _ _ => p

def cmp : StdSocketAddr → StdSocketAddr → Ordering
  | .v4 a p, .v4 b q => (a.cmp b).then (compare p q)
  | .v4 .., .v6 .. => .lt
  | .v6 .., .v4 .. => .gt
  | .v6 a p f s, .v6 b q g t => (((a.cmp b).then (compare p q)).then (compare f g)).then (compare s t)

end StdSocketAddr

namespace IpAddr

def toStd (a : IpAddr) : StdIpAddr := (Ipv6Addr.fromBits (fromBeBytes a.octets)).toCanonical

def fromStd (ip : StdIpAddr) : IpAddr :=
  let v6 := match ip with
    | .v4 a => a.toIpv6Mapped
    | .v6 a => a
  ⟨v6.octets, v6.length_octets⟩

end IpAddr

namespace SocketAddr

def toStd (a : SocketAddr) : StdSocketAddr := .new a.ip.toStd (UInt16.ofNat a.port.get)

def fromStd (a : StdSocketAddr) : SocketAddr := ⟨.fromStd a.ip, .new a.port.toNat⟩

end SocketAddr

theorem Ipv6Addr.compare_go (n : ℕ) : ∀ l m : List UInt8, l.length = 2 * n → m.length = 2 * n →
    compare (segments.go l) (segments.go m) = compare l m := by
  induction n with
  | zero =>
    intro l m hl hm
    obtain rfl : l = [] := List.length_eq_zero_iff.mp hl
    obtain rfl : m = [] := List.length_eq_zero_iff.mp hm
    rfl
  | succ n ih =>
    intro l m hl hm
    rcases l with _ | ⟨hi, _ | ⟨lo, l⟩⟩
    · simp at hl
    · simp only [List.length_cons, List.length_nil] at hl
      omega
    rcases m with _ | ⟨hi', _ | ⟨lo', m⟩⟩
    · simp at hm
    · simp only [List.length_cons, List.length_nil] at hm
      omega
    simp only [List.length_cons] at hl hm
    have hrest := ih l m (by omega) (by omega)
    have hpair := NetworkOrderU16.cmp_eq_bytes ⟨hi, lo⟩ ⟨hi', lo'⟩
    have hcat := compare_append l m (show [hi, lo].length = [hi', lo'].length from rfl)
    rw [segments.go, segments.go, List.compare_cons_cons, hrest]
    exact (congrArg (·.then (compare l m)) hpair).trans hcat.symm

theorem Ipv6Addr.cmp_eq_octets (a b : Ipv6Addr) : a.cmp b = compare a.octets b.octets :=
  compare_go 8 _ _ a.length_octets b.length_octets

theorem Ipv6Addr.fromBits_fromBeBytes {l : List UInt8} (hl : l.length = 16) : fromBits (fromBeBytes l) = ⟨l, hl⟩ := by
  ext1
  have h := toBeBytes_fromBeBytes l
  rwa [hl] at h

namespace IpAddr

def Mapped (a : IpAddr) : Prop := a.octets.take 12 = MAPPED

/-- The address is sorted before those that stand for an IPv4 address. -/
def Below (a : IpAddr) : Prop := compare (a.octets.take 12) MAPPED = .lt

theorem toStd_of_mapped {a : IpAddr} (h : a.Mapped) :
    a.toStd = .v4 ⟨a.octets.drop 12, by simp [a.length_octets]⟩ := by
  unfold Mapped at h
  rw [toStd, Ipv6Addr.fromBits_fromBeBytes a.length_octets]
  simp [Ipv6Addr.toCanonical, Ipv6Addr.toIpv4Mapped, h]

theorem toStd_of_not_mapped {a : IpAddr} (h : ¬ a.Mapped) : a.toStd = .v6 ⟨a.octets, a.length_octets⟩ := by
  unfold Mapped at h
  rw [toStd, Ipv6Addr.fromBits_fromBeBytes a.length_octets]
  simp [Ipv6Addr.toCanonical, Ipv6Addr.toIpv4Mapped, h]

@[simp] theorem fromStd_toStd (a : IpAddr) : fromStd a.toStd = a := by
  by_cases h : a.Mapped
  · have hcat : MAPPED ++ a.octets.drop 12 = a.octets := by rw [← h, List.take_append_drop]
    rw [toStd_of_mapped h]
    simp [fromStd, Ipv4Addr.toIpv6Mapped, hcat]
  · rw [toStd_of_not_mapped h]
    rfl

@[simp] theorem toStd_fromStd (ip : StdIpAddr) : (fromStd ip).toStd = ip.toCanonical := by
  cases ip with
  | v4 a =>
    have hm : (fromStd (.v4 a)).Mapped := List.take_left' rfl
    rw [toStd_of_mapped hm]
    simp [StdIpAddr.toCanonical, fromStd, Ipv4Addr.toIpv6Mapped, MAPPED]
  | v6 a =>
    rw [toStd, fromStd, Ipv6Addr.fromBits_fromBeBytes a.length_octets]
    rfl

end IpAddr

namespace StdSocketAddr

/-- The address in its canonical form, with neither flow label nor scope. -/
def canonical (a : StdSocketAddr) : StdSocketAddr := .new a.ip.toCanonical a.port

end StdSocketAddr

namespace SocketAddr

theorem toNat_port (x : NetworkOrderU16) : (UInt16.ofNat x.get).toNat = x.get :=
  UInt16.toNat_ofNat_of_lt' x.get_lt

theorem cmp_port (x y : NetworkOrderU16) : compare (UInt16.ofNat x.get) (UInt16.ofNat y.get) = x.cmp y := by
  rw [UInt16.compare_eq_toNat_compare_toNat, toNat_port, toNat_port]
  rfl

@[simp] theorem ip_new (ip : StdIpAddr) (port : UInt16) : (StdSocketAddr.new ip port).ip = ip := by
  cases ip <;> rfl

@[simp] theorem port_new (ip : StdIpAddr) (port : UInt16) : (StdSocketAddr.new ip port).port = port := by
  cases ip <;> rfl

@[simp] theorem fromStd_toStd (a : SocketAddr) : fromStd a.toStd = a := by
  rw [fromStd, toStd, ip_new, port_new, toNat_port, IpAddr.fromStd_toStd, NetworkOrderU16.new_get]

@[simp] theorem toStd_fromStd (a : StdSocketAddr) : (fromStd a).toStd = a.canonical := by
  simp [fromStd, toStd, StdSocketAddr.canonical, a.port.toNat_lt]

/-- Two addresses of `std` are one on the wire when their canonical forms are one. -/
theorem fromStd_eq_iff (a b : StdSocketAddr) : fromStd a = fromStd b ↔ a.canonical = b.canonical := by
  constructor
  · intro h
    rw [← toStd_fromStd, h, toStd_fromStd]
  · intro h
    rw [← fromStd_toStd (fromStd a), toStd_fromStd, h, ← toStd_fromStd, fromStd_toStd]

theorem cmp_split (a b : IpAddr) : a.cmp b =
    (compare (a.octets.take 12) (b.octets.take 12)).then (compare (a.octets.drop 12) (b.octets.drop 12)) := by
  have hlen : (a.octets.take 12).length = (b.octets.take 12).length := by simp [a.length_octets, b.length_octets]
  rw [← compare_append _ _ hlen, List.take_append_drop, List.take_append_drop]
  rfl

/-- A mapped address comes before another one unless the other is below. -/
theorem cmp_eq_lt_iff {x y : SocketAddr} (hx : x.ip.Mapped) (hy : ¬ y.ip.Mapped) : x.cmp y = .lt ↔ ¬ y.ip.Below := by
  have hne : compare (y.ip.octets.take 12) MAPPED ≠ .eq := fun heq => hy (Std.LawfulEqOrd.compare_eq_iff_eq.mp heq)
  have hswap : compare MAPPED (y.ip.octets.take 12) = (compare (y.ip.octets.take 12) MAPPED).swap :=
    Std.OrientedCmp.eq_swap
  unfold IpAddr.Mapped at hx
  unfold IpAddr.Below
  rw [cmp_eq_then, cmp_split, hx, hswap]
  cases hc : compare (y.ip.octets.take 12) MAPPED with
  | lt => simp
  | eq => exact absurd hc hne
  | gt => simp

/-- Below the mapped addresses the order is not that of `std`, for which IPv4 comes first. -/
theorem cmp_eq_std_iff (x y : SocketAddr) : x.cmp y = x.toStd.cmp y.toStd ↔
    ¬ (x.ip.Mapped ∧ y.ip.Below ∨ x.ip.Below ∧ y.ip.Mapped) := by
  have hlt : ∀ {a : IpAddr}, a.Mapped → ¬ a.Below := by
    intro a h hb
    unfold IpAddr.Below at hb
    rw [h] at hb
    cases hb
  by_cases hx : x.ip.Mapped
  · by_cases hy : y.ip.Mapped
    · have heq : x.cmp y = x.toStd.cmp y.toStd := by
        rw [cmp_eq_then, cmp_split, toStd, toStd, IpAddr.toStd_of_mapped hx, IpAddr.toStd_of_mapped hy, hx, hy,
          ← cmp_port]
        rfl
      simp [heq, hlt hx, hlt hy]
    · have hstd : x.toStd.cmp y.toStd = .lt := by
        rw [toStd, toStd, IpAddr.toStd_of_mapped hx, IpAddr.toStd_of_not_mapped hy]
        rfl
      rw [hstd, cmp_eq_lt_iff hx hy]
      simp [hx, hy]
  · by_cases hy : y.ip.Mapped
    · have hstd : x.toStd.cmp y.toStd = .gt := by
        rw [toStd, toStd, IpAddr.toStd_of_not_mapped hx, IpAddr.toStd_of_mapped hy]
        rfl
      rw [hstd, cmp_swap y x, ← Ordering.swap_lt, Ordering.swap_inj, cmp_eq_lt_iff hy hx]
      simp [hx, hy]
    · have hzero : compare (0 : UInt32) 0 = .eq := rfl
      have heq : x.cmp y = x.toStd.cmp y.toStd := by
        rw [cmp_eq_then, toStd, toStd, IpAddr.toStd_of_not_mapped hx, IpAddr.toStd_of_not_mapped hy, ← cmp_port]
        simp only [StdSocketAddr.new, StdSocketAddr.cmp, Ipv6Addr.cmp_eq_octets, hzero, Ordering.then_eq, IpAddr.cmp]
      simp [heq, hx, hy]

/-- What the wire keeps of an address of `std`: its canonical form, whole, without flow label and scope,
and its place in the order but for the addresses below the mapped ones. -/
theorem std_up_to_canonical :
    (∀ x : SocketAddr, fromStd x.toStd = x) ∧ (∀ a, (fromStd a).toStd = a.canonical) ∧
    (∀ a b, (fromStd a).bytes = (fromStd b).bytes ↔ a.canonical = b.canonical) ∧
    (∀ x y : SocketAddr, x.cmp y = x.toStd.cmp y.toStd ↔
      ¬ (x.ip.Mapped ∧ y.ip.Below ∨ x.ip.Below ∧ y.ip.Mapped)) := by
  refine ⟨fromStd_toStd, toStd_fromStd, ?_, cmp_eq_std_iff⟩
  intro a b
  rw [bytes_injective.eq_iff, fromStd_eq_iff]

end SocketAddr

end VtMuxer
