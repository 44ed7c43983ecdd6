import VtMuxer.Format.Integers

/-! Socket addresses: an IPv6 address and a port, eighteen bytes on the wire. -/
namespace VtMuxer

structure IpAddr where
  octets : List UInt8
  length_octets : octets.length = 16
  deriving DecidableEq, Repr

namespace IpAddr

/-- `Ord::cmp`, derived: arrays compare from their first element on. -/
def cmp (a b : IpAddr) : Ordering := compare a.octets b.octets

end IpAddr

structure SocketAddr where
  ip : IpAddr
  port : NetworkOrderU16
  deriving DecidableEq, Repr

namespace SocketAddr

def bytes (a : SocketAddr) : List UInt8 := a.ip.octets ++ a.port.bytes

@[simp] theorem length_bytes (a : SocketAddr) : a.bytes.length = 18 := by
  simp [bytes, a.ip.length_octets]

def cmp (a b : SocketAddr) : Ordering :=
  match a.ip.cmp b.ip with
  | .eq => a.port.cmp b.port
  | c => c

/-- `PartialOrd::partial_cmp`, derived beside `Ord`: it is `cmp`, and does not go through the
fields. The operators are the provided methods. -/
def partialCmp (a b : SocketAddr) : Option Ordering := some (a.cmp b)

def lt (a b : SocketAddr) : Bool := (a.partialCmp b).any Ordering.isLT
def le (a b : SocketAddr) : Bool := (a.partialCmp b).any Ordering.isLE
def gt (a b : SocketAddr) : Bool := (a.partialCmp b).any Ordering.isGT
def ge (a b : SocketAddr) : Bool := (a.partialCmp b).any Ordering.isGE

/-- The address whose memory is a given run of eighteen bytes. -/
def ofBytes (l : List UInt8) (h : l.length = 18) : SocketAddr where
  ip := ⟨l.take 16, by simp [h]⟩
  port := ⟨l[16], l[17]⟩

@[simp] theorem ofBytes_bytes (a : SocketAddr) : ofBytes a.bytes a.length_bytes = a := by
  obtain ⟨⟨octets, ho⟩, ⟨hi, lo⟩⟩ := a
  simp [ofBytes, bytes, NetworkOrderU16.bytes, ho]

@[simp] theorem bytes_ofBytes (l : List UInt8) (h : l.length = 18) : (ofBytes l h).bytes = l := by
  have hd : l.drop 16 = [l[16], l[17]] := by
    rw [List.drop_eq_getElem_cons (by omega), List.drop_eq_getElem_cons (by omega),
      List.drop_of_length_le (by omega)]
  show l.take 16 ++ [l[16], l[17]] = l
  rw [← hd, List.take_append_drop]

def unspecified : SocketAddr := ⟨⟨List.replicate 16 0, rfl⟩, .new 0⟩

theorem bytes_injective : Function.Injective bytes := by
  intro a b h
  rw [← ofBytes_bytes a, ← ofBytes_bytes b]
  congr

end SocketAddr

end VtMuxer
