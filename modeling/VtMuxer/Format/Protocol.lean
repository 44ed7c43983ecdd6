import VtMuxer.Format.ThinAddr

/-! The mux frame: a twenty-byte header (address and payload length) and the payload.
A frame without payload opens a connection or closes it. -/
namespace VtMuxer

structure MuxFrameHeader where
  socket : SocketAddr
  lenField : NetworkOrderU16
  deriving DecidableEq, Repr

namespace MuxFrameHeader

def empty (socket : SocketAddr) : MuxFrameHeader := ⟨socket, .new 0⟩

def addr (h : MuxFrameHeader) : SocketAddr := h.socket

def len (h : MuxFrameHeader) : ℕ := h.lenField.get

def bytes (h : MuxFrameHeader) : List UInt8 := h.socket.bytes ++ h.lenField.bytes

/-- `size_of::<MuxFrameHeader>()`. -/
def size : ℕ := 20

@[simp] theorem length_bytes (h : MuxFrameHeader) : h.bytes.length = 20 := by simp [bytes]

/-- The header whose memory is a given run of twenty bytes (`assume_init`). -/
def ofBytes (l : List UInt8) (h : l.length = 20) : MuxFrameHeader where
  socket := .ofBytes (l.take 18) (by simp [h])
  lenField := ⟨l[18], l[19]⟩

theorem len_lt (h : MuxFrameHeader) : h.len < 65536 := h.lenField.get_lt

theorem ofBytes_congr {l m : List UInt8} (h : l = m) (hl : l.length = 20) (hm : m.length = 20) :
    ofBytes l hl = ofBytes m hm := by
  subst h
  rfl

@[simp] theorem ofBytes_bytes (h : MuxFrameHeader) : ofBytes h.bytes h.length_bytes = h := by
  obtain ⟨socket, ⟨hi, lo⟩⟩ := h
  have ht : (bytes ⟨socket, ⟨hi, lo⟩⟩).take 18 = socket.bytes := by simp [bytes]
  simp only [ofBytes, ht, SocketAddr.ofBytes_bytes]
  simp [bytes, NetworkOrderU16.bytes]

end MuxFrameHeader

def frame (a : SocketAddr) (payload : List UInt8) : List UInt8 :=
  (MuxFrameHeader.mk a (.new payload.length)).bytes ++ payload

@[simp] theorem length_frame (a : SocketAddr) (p : List UInt8) :
    (frame a p).length = 20 + p.length := by simp [frame]

theorem frame_nil (a : SocketAddr) : frame a [] = (MuxFrameHeader.empty a).bytes := by
  simp [frame, MuxFrameHeader.empty]

@[simp] theorem drop_frame (a : SocketAddr) (p : List UInt8) : (frame a p).drop 20 = p := by
  simp [frame]

theorem frame_ne_nil (a : SocketAddr) (p : List UInt8) : frame a p ≠ [] := by
  refine List.ne_nil_of_length_pos ?_
  rw [length_frame]
  omega

end VtMuxer
