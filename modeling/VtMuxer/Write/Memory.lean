import VtMuxer.Read.Memory
import VtMuxer.Write.PacketBuffer

/-! The memory under a packet buffer: a struct of which `init` writes the address and the length
only, and whose bytes are sent from its first one on as far as the length says. Undefined
behaviour is `none`. -/
namespace VtMuxer

/-- The bytes of the struct: the address, the length field and `data: [MaybeUninit<u8>; PACKET_SIZE]`. -/
structure RawPacketBuffer where
  memory : List (Option UInt8)

theorem take_store_within {memory : List (Option UInt8)} {start n : ℕ} {bs : List UInt8} (hn : start + bs.length ≤ n)
    (hle : n ≤ memory.length) : (store memory start bs).take n =
      memory.take start ++ bs.map some ++ (memory.take n).drop (start + bs.length) := by
  have hlen : (memory.take start ++ bs.map some).length = start + bs.length := by
    simp only [List.length_append, List.length_take, List.length_map]
    omega
  rw [store, List.take_append, hlen, List.take_of_length_le (by rw [hlen]; exact hn), List.drop_take]

namespace RawPacketBuffer
open PacketBuffer

def uninit : RawPacketBuffer := ⟨List.replicate (20 + PACKET_SIZE) none⟩

/-- Bytes are written inside the struct only. -/
def write (r : RawPacketBuffer) (start : ℕ) (bs : List UInt8) : Option RawPacketBuffer :=
  if start + bs.length ≤ r.memory.length then some ⟨store r.memory start bs⟩ else none

/-- Bytes are read inside the struct and after they were written. -/
def view (r : RawPacketBuffer) (start n : ℕ) : Option (List UInt8) :=
  if start + n ≤ r.memory.length then ((r.memory.drop start).take n).mapM id else none

def init (r : RawPacketBuffer) (socket : SocketAddr) : Option RawPacketBuffer := do
  let r ← r.write 0 socket.bytes
  r.write 18 (NetworkOrderU16.new 0).bytes

def boxNew (socket : SocketAddr) : Option RawPacketBuffer := uninit.init socket

def addr (r : RawPacketBuffer) : Option SocketAddr := do
  let l ← r.view 0 18
  if h : l.length = 18 then some (.ofBytes l h) else none

def len (r : RawPacketBuffer) : Option NetworkOrderU16 := do
  match ← r.view 18 2 with
  | [hi, lo] => some ⟨hi, lo⟩
  | _ => none

def packetSize (r : RawPacketBuffer) : Option ℕ := do return (← r.len).get

def isFull (r : RawPacketBuffer) : Option Bool := do return (← r.packetSize) == PACKET_SIZE

def mustFlushFor (r : RawPacketBuffer) (written : ℕ) : Option Bool :=
  match compare written LEN_FIELD_CUTOFF with
  | .lt => r.isFull
  | .eq => do return (← r.len).lo.toNat == 255
  | .gt => some true

def isEmpty (r : RawPacketBuffer) : Option Bool := do return (← r.packetSize) == 0

def clear (r : RawPacketBuffer) : Option RawPacketBuffer := r.write 18 (NetworkOrderU16.new 0).bytes

def push (r : RawPacketBuffer) (d : List UInt8) (written : ℕ) : Option (ℕ × RawPacketBuffer) :=
  match compare written LEN_FIELD_CUTOFF with
  | .lt => do append d (PACKET_SIZE - (← r.len).get)
  | .eq => do append d (255 - (← r.len).lo.toNat)
  | .gt => some (0, r)
where
  append (d : List UInt8) (maxLen : ℕ) : Option (ℕ × RawPacketBuffer) := do
    let len := if d.length > maxLen then maxLen else d.length
    let lastLen := (← r.len).get
    -- `unchecked_add`
    if len + lastLen < 65536 then
      let r ← r.write 18 (NetworkOrderU16.new (len + lastLen)).bytes
      -- `copy_nonoverlapping`
      let r ← r.write (20 + lastLen) (d.take len)
      return (len, r)
    else none

/-- `slice::from_raw_parts` over the struct. -/
def bytes (r : RawPacketBuffer) : Option (List UInt8) := do r.view 0 (20 + (← r.len).get)

/-- `&self.bytes()[written..]`, which panics past the end. -/
def bytesFrom? (r : RawPacketBuffer) (written : ℕ) : Option (Option (List UInt8)) := do
  let bytes ← r.bytes
  return if written ≤ bytes.length then some (bytes.drop written) else none

/-- The struct holds the buffer `b`; what stands behind its data is left over or not written. -/
structure Stores (r : RawPacketBuffer) (b : PacketBuffer) : Prop where
  size : r.memory.length = 20 + PACKET_SIZE
  content : r.memory.take (20 + b.data.length) = b.bytes.map some

section
variable {r : RawPacketBuffer} {b : PacketBuffer}

theorem view_of_take {l : List UInt8} {m start n : ℕ} (h : r.memory.take m = l.map some) (hm : m ≤ r.memory.length)
    (hn : start + n ≤ m) : r.view start n = some ((l.drop start).take n) := by
  have hcells : (r.memory.drop start).take n = ((l.drop start).take n).map some := by
    have hsub : (r.memory.drop start).take n = ((r.memory.take m).drop start).take n := by
      rw [List.drop_take, List.take_take, min_eq_left (by omega)]
    rw [hsub, h, ← List.map_drop, ← List.map_take]
  rw [view, if_pos (by omega), hcells, List.mapM_map]
  exact (List.mapM_pure (f := id)).trans (congrArg some (List.map_id _))

namespace Stores

theorem le_size (h : r.Stores b) : 20 + b.data.length ≤ r.memory.length := by
  rw [h.size, PACKET_SIZE]
  exact Nat.add_le_add_left b.length_data 20

theorem view (h : r.Stores b) {start n : ℕ} (hn : start + n ≤ 20 + b.data.length) :
    r.view start n = some ((b.bytes.drop start).take n) := view_of_take h.content h.le_size hn

theorem addr (h : r.Stores b) : r.addr = some b.addr := by
  have hview : r.view 0 18 = some b.addr.bytes := by
    rw [h.view (by omega), List.drop_zero, PacketBuffer.bytes, List.append_assoc, ← b.socketAddr.length_bytes,
      List.take_left]
    rfl
  simp [RawPacketBuffer.addr, hview]

theorem len (h : r.Stores b) : r.len = some b.len := by
  have hview : r.view 18 2 = some b.len.bytes := by
    rw [h.view (by omega), PacketBuffer.bytes, List.append_assoc, ← b.socketAddr.length_bytes, List.drop_left,
      ← b.len.length_bytes, List.take_left]
  simp [RawPacketBuffer.len, hview, NetworkOrderU16.bytes]

theorem bytes (h : r.Stores b) : r.bytes = some b.bytes := by
  have hview : r.view 0 (20 + b.data.length) = some b.bytes := by
    rw [h.view (by omega), List.drop_zero, ← b.length_bytes, List.take_length]
  simp [RawPacketBuffer.bytes, h.len, b.get_len, hview]

theorem isFull (h : r.Stores b) : r.isFull = some b.isFull := by
  simp [RawPacketBuffer.isFull, RawPacketBuffer.packetSize, h.len, PacketBuffer.isFull, PacketBuffer.packetSize]

theorem isEmpty (h : r.Stores b) : r.isEmpty = some b.isEmpty := by
  simp [RawPacketBuffer.isEmpty, RawPacketBuffer.packetSize, h.len, PacketBuffer.isEmpty, PacketBuffer.packetSize]

theorem mustFlushFor (h : r.Stores b) (written : ℕ) : r.mustFlushFor written = some (b.mustFlushFor written) := by
  unfold RawPacketBuffer.mustFlushFor PacketBuffer.mustFlushFor
  cases compare written LEN_FIELD_CUTOFF with
  | lt => exact h.isFull
  | eq => simp [h.len]
  | gt => rfl

theorem bytesFrom? (h : r.Stores b) (written : ℕ) : r.bytesFrom? written = some (b.bytesFrom? written) := by
  simp [RawPacketBuffer.bytesFrom?, h.bytes, PacketBuffer.bytesFrom?]

theorem writeLen (h : r.Stores b) (l : NetworkOrderU16) :
    ∃ r', r.write 18 l.bytes = some r' ∧ r'.memory.length = 20 + PACKET_SIZE ∧
      r'.memory.take (20 + b.data.length) = (b.addr.bytes ++ l.bytes ++ b.data).map some := by
  have hsize := h.le_size
  have hlen := l.length_bytes
  have hle : 18 + l.bytes.length ≤ r.memory.length := by omega
  refine ⟨⟨store r.memory 18 l.bytes⟩, by rw [RawPacketBuffer.write, if_pos hle], ?_, ?_⟩
  · rw [length_store hle, h.size]
  · have haddr : r.memory.take 18 = b.addr.bytes.map some := by
      have htake := congrArg (List.take 18) h.content
      rw [List.take_take, min_eq_left (by omega), ← List.map_take, PacketBuffer.bytes, List.append_assoc,
        ← b.socketAddr.length_bytes, List.take_left, b.socketAddr.length_bytes] at htake
      exact htake
    have hdata : (r.memory.take (20 + b.data.length)).drop 20 = b.data.map some := by
      rw [h.content, ← List.map_drop, PacketBuffer.bytes_eq_frame, drop_frame]
    rw [take_store_within (by omega) hsize, haddr, hlen, hdata, List.map_append, List.map_append]

theorem clear (h : r.Stores b) : ∃ r', r.clear = some r' ∧ r'.Stores b.clear := by
  obtain ⟨r', hw, hsize, htake⟩ := h.writeLen (.new 0)
  refine ⟨r', hw, hsize, ?_⟩
  have hhead := congrArg (List.take 20) htake
  rw [List.take_take, min_eq_left (by omega), ← List.map_take] at hhead
  have hbytes : (b.addr.bytes ++ (NetworkOrderU16.new 0).bytes ++ b.data).take 20 = b.clear.bytes := by
    rw [List.take_left' (by rw [List.length_append, SocketAddr.length_bytes, NetworkOrderU16.length_bytes])]
    exact (List.append_nil _).symm
  rw [PacketBuffer.data_clear, List.length_nil, hhead, hbytes]

theorem append (h : r.Stores b) {d : List UInt8} {maxLen n : ℕ} (hn : min d.length maxLen = n)
    (hmax : b.data.length + n ≤ 65535) {b' : PacketBuffer} (haddr : b'.addr = b.addr)
    (hdata : b'.data = b.data ++ d.take n) : ∃ r', push.append r d maxLen = some (n, r') ∧ r'.Stores b' := by
  have hlen : (if d.length > maxLen then maxLen else d.length) = n := by split <;> omega
  have htaken : (d.take n).length = n := by rw [List.length_take]; omega
  have hlen' : b'.data.length = b.data.length + n := by rw [hdata, List.length_append, htaken]
  obtain ⟨r₁, hw, hsize, htake⟩ := h.writeLen (.new (n + b.data.length))
  have hle : 20 + b.data.length + (d.take n).length ≤ r₁.memory.length := by
    rw [hsize, PACKET_SIZE]
    omega
  have hcopy : r₁.write (20 + b.data.length) (d.take n) =
      some ⟨store r₁.memory (20 + b.data.length) (d.take n)⟩ := by rw [RawPacketBuffer.write, if_pos hle]
  refine ⟨⟨store r₁.memory (20 + b.data.length) (d.take n)⟩, ?_, ?_, ?_⟩
  · have hlt : n + b.data.length < 65536 := by omega
    simp [push.append, hlen, h.len, b.get_len, hlt, hw, hcopy]
  · rw [length_store hle, hsize]
  · have hcells : (store r₁.memory (20 + b.data.length) (d.take n)).take (20 + b.data.length + (d.take n).length) =
        r₁.memory.take (20 + b.data.length) ++ (d.take n).map some := take_store_add (by omega)
    rw [htaken, htake, ← List.map_append, Nat.add_assoc, ← hlen'] at hcells
    rw [hcells, PacketBuffer.bytes, PacketBuffer.len, hlen', hdata, Nat.add_comm b.data.length n, ← List.append_assoc]
    exact congrArg (fun a => (SocketAddr.bytes a ++ _ ++ _ ++ _).map some) haddr.symm

theorem push (h : r.Stores b) (d : List UInt8) (written : ℕ) :
    ∃ r', r.push d written = some ((b.push d written).1, r') ∧ r'.Stores (b.push d written).2 := by
  have hfst := b.push_fst d written
  have hfits : b.data.length + (b.push d written).1 ≤ 65535 := by
    have hle := (b.push d written).2.length_data
    rw [push_data, List.length_append, List.length_take, min_eq_left (b.push_fst_le d written)] at hle
    exact hle
  unfold RawPacketBuffer.push
  unfold maxLen? at hfst
  cases hc : compare written LEN_FIELD_CUTOFF with
  | lt =>
    rw [hc] at hfst
    simpa [h.len] using h.append hfst.symm hfits (b.push_addr d written) (b.push_data d written)
  | eq =>
    rw [hc] at hfst
    simpa [h.len] using h.append hfst.symm hfits (b.push_addr d written) (b.push_data d written)
  | gt =>
    have hnone : b.maxLen? written = none := by simp [maxLen?, hc]
    rw [push_of_none hnone]
    exact ⟨r, rfl, h⟩

end Stores

theorem stores_boxNew (socket : SocketAddr) : ∃ r, boxNew socket = some r ∧ r.Stores (.init socket) := by
  have hsize : uninit.memory.length = 20 + PACKET_SIZE := List.length_replicate
  have haddr : 0 + socket.bytes.length ≤ uninit.memory.length := by
    rw [hsize, socket.length_bytes]
    omega
  have hlen : 18 + (NetworkOrderU16.new 0).bytes.length ≤ (store uninit.memory 0 socket.bytes).length := by
    rw [length_store haddr, hsize, NetworkOrderU16.length_bytes]
    omega
  refine ⟨⟨store (store uninit.memory 0 socket.bytes) 18 (NetworkOrderU16.new 0).bytes⟩, ?_, ?_, ?_⟩
  · have hfirst : uninit.write 0 socket.bytes = some ⟨store uninit.memory 0 socket.bytes⟩ := if_pos haddr
    rw [boxNew, RawPacketBuffer.init, hfirst]
    exact if_pos hlen
  · rw [length_store hlen, length_store haddr, hsize]
  · have hfirst : (store uninit.memory 0 socket.bytes).take (0 + socket.bytes.length) =
        uninit.memory.take 0 ++ socket.bytes.map some := take_store_add (Nat.zero_le _)
    rw [Nat.zero_add, List.take_zero, List.nil_append, socket.length_bytes] at hfirst
    have hboth : (store (store uninit.memory 0 socket.bytes) 18 (NetworkOrderU16.new 0).bytes).take
          (18 + (NetworkOrderU16.new 0).bytes.length) =
        (store uninit.memory 0 socket.bytes).take 18 ++ (NetworkOrderU16.new 0).bytes.map some :=
      take_store_add (by omega)
    rw [hfirst, NetworkOrderU16.length_bytes, ← List.map_append] at hboth
    exact hboth.trans (congrArg (List.map some) (List.append_nil _).symm)

end

end RawPacketBuffer

/-- What the write half of a connection does with its buffer. -/
inductive PacketCall where
  | addr
  | isFull
  | isEmpty
  | mustFlushFor (written : ℕ)
  | push (d : List UInt8) (written : ℕ)
  | clear
  | bytesFrom (written : ℕ)

/-- What it sees of it. -/
inductive PacketAnswer where
  | addr (a : SocketAddr)
  | flag (b : Bool)
  | pushed (n : ℕ)
  | cleared
  | bytes (l : Option (List UInt8))

def PacketBuffer.perform (b : PacketBuffer) : PacketCall → PacketAnswer × PacketBuffer
  | .addr => (.addr b.addr, b)
  | .isFull => (.flag b.isFull, b)
  | .isEmpty => (.flag b.isEmpty, b)
  | .mustFlushFor written => (.flag (b.mustFlushFor written), b)
  | .push d written => (.pushed (b.push d written).1, (b.push d written).2)
  | .clear => (.cleared, b.clear)
  | .bytesFrom written => (.bytes (b.bytesFrom? written), b)

def RawPacketBuffer.perform (r : RawPacketBuffer) : PacketCall → Option (PacketAnswer × RawPacketBuffer)
  | .addr => do return (.addr (← r.addr), r)
  | .isFull => do return (.flag (← r.isFull), r)
  | .isEmpty => do return (.flag (← r.isEmpty), r)
  | .mustFlushFor written => do return (.flag (← r.mustFlushFor written), r)
  | .push d written => do
    let (n, r) ← r.push d written
    return (.pushed n, r)
  | .clear => do return (.cleared, ← r.clear)
  | .bytesFrom written => do return (.bytes (← r.bytesFrom? written), r)

def PacketBuffer.session (b : PacketBuffer) : List PacketCall → List PacketAnswer
  | [] => []
  | call :: calls => (b.perform call).1 :: (b.perform call).2.session calls

def RawPacketBuffer.session (r : RawPacketBuffer) : List PacketCall → Option (List PacketAnswer)
  | [] => some []
  | call :: calls => do
    let (answer, r) ← r.perform call
    return answer :: (← r.session calls)

theorem RawPacketBuffer.Stores.perform {r : RawPacketBuffer} {b : PacketBuffer} (h : r.Stores b) (call : PacketCall) :
    ∃ r', r.perform call = some ((b.perform call).1, r') ∧ r'.Stores (b.perform call).2 := by
  cases call with
  | addr => exact ⟨r, by simp [RawPacketBuffer.perform, h.addr, PacketBuffer.perform], h⟩
  | isFull => exact ⟨r, by simp [RawPacketBuffer.perform, h.isFull, PacketBuffer.perform], h⟩
  | isEmpty => exact ⟨r, by simp [RawPacketBuffer.perform, h.isEmpty, PacketBuffer.perform], h⟩
  | mustFlushFor written => exact ⟨r, by simp [RawPacketBuffer.perform, h.mustFlushFor, PacketBuffer.perform], h⟩
  | push d written =>
    obtain ⟨r', hr, hs⟩ := h.push d written
    exact ⟨r', by simp [RawPacketBuffer.perform, hr, PacketBuffer.perform], hs⟩
  | clear =>
    obtain ⟨r', hr, hs⟩ := h.clear
    exact ⟨r', by simp [RawPacketBuffer.perform, hr, PacketBuffer.perform], hs⟩
  | bytesFrom written => exact ⟨r, by simp [RawPacketBuffer.perform, h.bytesFrom?, PacketBuffer.perform], h⟩

theorem RawPacketBuffer.Stores.session {r : RawPacketBuffer} {b : PacketBuffer} (h : r.Stores b)
    (calls : List PacketCall) : r.session calls = some (b.session calls) := by
  induction calls generalizing r b with
  | nil => rfl
  | cons call calls ih =>
    obtain ⟨r', hr, hs⟩ := h.perform call
    simp [RawPacketBuffer.session, hr, ih hs, PacketBuffer.session]

/-- Whatever is done with a packet buffer, nothing is read from its memory that was not written there,
nothing is written outside of it, the sum of two lengths does not wrap, and what is seen of it is
what the list of pushed bytes says. -/
theorem packet_memory (socket : SocketAddr) (calls : List PacketCall) :
    ((RawPacketBuffer.boxNew socket).bind fun r => r.session calls) =
      some ((PacketBuffer.init socket).session calls) := by
  obtain ⟨r, hr, hs⟩ := RawPacketBuffer.stores_boxNew socket
  rw [hr, Option.bind_some, hs.session calls]

end VtMuxer
