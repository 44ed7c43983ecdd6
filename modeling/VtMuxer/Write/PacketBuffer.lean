import VtMuxer.Format.Protocol

/-! The write buffer of a connection: one frame that may still grow while its first
bytes are on the wire, as long as no length byte already sent would change. -/
namespace VtMuxer

/-- The payload is the initialised part of `data: [MaybeUninit<u8>; PACKET_SIZE]`;
the length field of the source is determined by it. -/
structure PacketBuffer where
  socketAddr : SocketAddr
  data : List UInt8
  length_data : data.length ≤ 65535
  deriving DecidableEq, Repr

namespace PacketBuffer

def PACKET_SIZE : ℕ := 65535

/-- `size_of::<SocketAddr>() + 1`: the address and the first length byte are sent. -/
def LEN_FIELD_CUTOFF : ℕ := 19

def init (socket : SocketAddr) : PacketBuffer := ⟨socket, [], by simp⟩

def addr (b : PacketBuffer) : SocketAddr := b.socketAddr

def len (b : PacketBuffer) : NetworkOrderU16 := .new b.data.length

def packetSize (b : PacketBuffer) : ℕ := b.len.get

def isFull (b : PacketBuffer) : Bool := b.packetSize == PACKET_SIZE

def mustFlushFor (b : PacketBuffer) (written : ℕ) : Bool :=
  match compare written LEN_FIELD_CUTOFF with
  | .lt => b.isFull
  | .eq => b.len.lo.toNat == 255
  | .gt => true

def isEmpty (b : PacketBuffer) : Bool := b.packetSize == 0

def clear (b : PacketBuffer) : PacketBuffer := ⟨b.socketAddr, [], by simp⟩

/-- The bound `max_len` of `push`; `none` is its early `return 0`. -/
def maxLen? (b : PacketBuffer) (written : ℕ) : Option ℕ :=
  match compare written LEN_FIELD_CUTOFF with
  | .lt => some (PACKET_SIZE - b.len.get)
  | .eq => some (255 - b.len.lo.toNat)
  | .gt => none

theorem get_len (b : PacketBuffer) : b.len.get = b.data.length :=
  NetworkOrderU16.get_new (by have := b.length_data; omega)

theorem lo_len (b : PacketBuffer) : b.len.lo.toNat = b.data.length % 256 :=
  NetworkOrderU16.lo_new _

/-- `unchecked_add` cannot overflow: what may be pushed fits beside what is there. -/
theorem maxLen?_le {b : PacketBuffer} {written m : ℕ} (h : b.maxLen? written = some m) :
    b.data.length + m ≤ 65535 := by
  have hb := b.length_data
  unfold maxLen? at h
  split at h
  · obtain rfl := Option.some.inj h
    rw [get_len, PACKET_SIZE]
    omega
  · obtain rfl := Option.some.inj h
    rw [lo_len]
    omega
  · cases h

def push (b : PacketBuffer) (d : List UInt8) (written : ℕ) : ℕ × PacketBuffer :=
  match h : b.maxLen? written with
  | none => (0, b)
  | some m =>
    let len := if d.length > m then m else d.length
    (len, ⟨b.socketAddr, b.data ++ d.take len, by
      have := maxLen?_le h
      simp only [List.length_append, List.length_take, len]
      split <;> omega⟩)

def bytes (b : PacketBuffer) : List UInt8 := b.socketAddr.bytes ++ b.len.bytes ++ b.data

/-- `&self.bytes()[written..]`, which panics past the end. -/
def bytesFrom? (b : PacketBuffer) (written : ℕ) : Option (List UInt8) :=
  if written ≤ b.bytes.length then some (b.bytes.drop written) else none

@[simp] theorem addr_init (a : SocketAddr) : (init a).addr = a := rfl
@[simp] theorem data_init (a : SocketAddr) : (init a).data = [] := rfl
@[simp] theorem data_clear (b : PacketBuffer) : b.clear.data = [] := rfl
@[simp] theorem addr_clear (b : PacketBuffer) : b.clear.addr = b.addr := rfl

theorem bytes_eq_frame (b : PacketBuffer) : b.bytes = frame b.addr b.data := rfl

@[simp] theorem length_bytes (b : PacketBuffer) : b.bytes.length = 20 + b.data.length := by
  simp [bytes_eq_frame]

theorem isEmpty_iff (b : PacketBuffer) : b.isEmpty = true ↔ b.data = [] := by
  simp [isEmpty, packetSize, get_len]

theorem isFull_iff (b : PacketBuffer) : b.isFull = true ↔ b.data.length = 65535 := by
  simp [isFull, packetSize, get_len, PACKET_SIZE]

theorem bytesFrom?_eq_some {b : PacketBuffer} {written : ℕ} {l : List UInt8} :
    b.bytesFrom? written = some l ↔ written ≤ 20 + b.data.length ∧ l = b.bytes.drop written := by
  unfold bytesFrom?
  rw [length_bytes]
  split_ifs with h
  · simp [h, eq_comm]
  · simp [h]

theorem mustFlushFor_iff (b : PacketBuffer) (written : ℕ) :
    b.mustFlushFor written = true ↔ b.maxLen? written = none ∨ b.maxLen? written = some 0 := by
  have hb := b.length_data
  unfold mustFlushFor maxLen?
  cases compare written LEN_FIELD_CUTOFF <;> dsimp only
  · rw [isFull_iff, get_len, PACKET_SIZE]
    simp
    omega
  · rw [lo_len]
    simp
    omega
  · simp

theorem push_of_none {b : PacketBuffer} {written : ℕ} (h : b.maxLen? written = none)
    (d : List UInt8) : b.push d written = (0, b) := by
  unfold push
  split
  · rfl
  · simp_all

theorem push_fst (b : PacketBuffer) (d : List UInt8) (written : ℕ) :
    (b.push d written).1 = min d.length ((b.maxLen? written).getD 0) := by
  unfold push
  split
  · simp_all
  · rename_i m h
    simp only [h, Option.getD_some]
    split <;> omega

@[simp] theorem push_addr (b : PacketBuffer) (d : List UInt8) (written : ℕ) :
    (b.push d written).2.addr = b.addr := by
  unfold push
  split <;> rfl

@[simp] theorem push_data (b : PacketBuffer) (d : List UInt8) (written : ℕ) :
    (b.push d written).2.data = b.data ++ d.take (b.push d written).1 := by
  unfold push
  split <;> simp

theorem push_fst_le (b : PacketBuffer) (d : List UInt8) (written : ℕ) :
    (b.push d written).1 ≤ d.length := by
  rw [push_fst]
  exact min_le_left _ _

/-- `push` takes something whenever it is offered something and need not flush first. -/
theorem push_fst_pos {b : PacketBuffer} {d : List UInt8} {written : ℕ} (hd : d ≠ [])
    (hf : b.mustFlushFor written = false) : 0 < (b.push d written).1 := by
  have hl : 0 < d.length := List.length_pos_iff.mpr hd
  have hm : ¬ (b.maxLen? written = none ∨ b.maxLen? written = some 0) := by
    rw [← mustFlushFor_iff, hf]
    simp
  rw [push_fst]
  cases h : b.maxLen? written with
  | none => exact absurd (Or.inl h) hm
  | some m =>
    have : m ≠ 0 := fun h0 => hm (Or.inr (h0 ▸ h))
    simp only [Option.getD_some]
    omega

theorem mustFlushFor_zero (b : PacketBuffer) : b.mustFlushFor 0 = b.isFull := rfl

/-- Only the last byte of the length may still change once the first is sent. -/
private theorem div_push_cutoff (b : PacketBuffer) (d : List UInt8) :
    (b.push d LEN_FIELD_CUTOFF).2.data.length / 256 = b.data.length / 256 := by
  have hm : b.maxLen? LEN_FIELD_CUTOFF = some (255 - b.data.length % 256) := by
    simp [maxLen?, lo_len]
  simp only [push_data, push_fst, hm, Option.getD_some, List.length_append, List.length_take]
  omega

/-- What is already on the wire stays true of the frame after a `push`. -/
theorem take_bytes_push (b : PacketBuffer) (d : List UInt8) (written : ℕ) :
    (b.push d written).2.bytes.take written = b.bytes.take written := by
  rcases lt_trichotomy written LEN_FIELD_CUTOFF with h | h | h
  · have hw : written ≤ b.addr.bytes.length := by
      rw [SocketAddr.length_bytes]
      exact Nat.lt_succ_iff.mp h
    have ha : (b.push d written).2.socketAddr = b.addr := push_addr b d written
    simp only [bytes, ha, List.append_assoc]
    rw [List.take_append_of_le_length hw]
    exact (List.take_append_of_le_length hw).symm
  · subst h
    have ha : (b.push d LEN_FIELD_CUTOFF).2.socketAddr = b.addr := push_addr b d _
    have hh : (b.push d LEN_FIELD_CUTOFF).2.len.hi = b.len.hi := by
      refine (NetworkOrderU16.hi_new_eq_iff ?_ ?_).mpr (div_push_cutoff b d)
      · have := (b.push d LEN_FIELD_CUTOFF).2.length_data
        omega
      · have := b.length_data
        omega
    have ht : ∀ c : PacketBuffer, c.bytes.take LEN_FIELD_CUTOFF = c.addr.bytes ++ [c.len.hi] := by
      intro c
      simp only [bytes, NetworkOrderU16.bytes, LEN_FIELD_CUTOFF, List.append_assoc]
      simp [List.take_append, addr]
    rw [ht, ht, hh]
    exact congrArg (fun a => SocketAddr.bytes a ++ _) ha
  · have hn : b.maxLen? written = none := by
      simp [maxLen?, compare_gt_iff_gt.mpr h]
    rw [push_of_none hn]

/-- The payload may grow by `e` bytes: the length still fits its field, and of the length
bytes already sent none would be another. -/
def Extends (b : PacketBuffer) (written e : ℕ) : Prop :=
  b.data.length + e ≤ 65535 ∧
    (NetworkOrderU16.new (b.data.length + e)).bytes.take (written - 18) = b.len.bytes.take (written - 18)

theorem extends_of_lt {b : PacketBuffer} {written : ℕ} (h : written < LEN_FIELD_CUTOFF) (e : ℕ) :
    b.Extends written e ↔ b.data.length + e ≤ 65535 := by
  have hnone : written - 18 = 0 := by
    rw [LEN_FIELD_CUTOFF] at h
    omega
  simp [Extends, hnone]

theorem extends_cutoff (b : PacketBuffer) (e : ℕ) :
    b.Extends LEN_FIELD_CUTOFF e ↔
      b.data.length + e ≤ 65535 ∧ (b.data.length + e) / 256 = b.data.length / 256 := by
  have hb := b.length_data
  have hone : ∀ x : NetworkOrderU16, x.bytes.take (LEN_FIELD_CUTOFF - 18) = [x.hi] := fun _ => rfl
  unfold Extends
  rw [hone, hone, List.singleton_inj]
  refine and_congr_right fun he => ?_
  exact NetworkOrderU16.hi_new_eq_iff (by omega) (by omega)

theorem extends_of_gt {b : PacketBuffer} {written : ℕ} (h : LEN_FIELD_CUTOFF < written) (e : ℕ) :
    b.Extends written e ↔ e = 0 := by
  have hb := b.length_data
  have hall : ∀ x : NetworkOrderU16, x.bytes.take (written - 18) = x.bytes := by
    intro x
    refine List.take_of_length_le ?_
    rw [NetworkOrderU16.length_bytes]
    rw [LEN_FIELD_CUTOFF] at h
    omega
  unfold Extends
  rw [hall, hall]
  constructor
  · rintro ⟨hfit, heq⟩
    have hlen : NetworkOrderU16.new (b.data.length + e) = b.len := by
      simpa [NetworkOrderU16.bytes, NetworkOrderU16.ext_iff] using heq
    have hget := congrArg NetworkOrderU16.get hlen
    rw [get_len, NetworkOrderU16.get_new (by omega)] at hget
    omega
  · rintro rfl
    exact ⟨hb, rfl⟩

/-- The bound of `push` is the best one. -/
theorem isGreatest_maxLen? (b : PacketBuffer) (written : ℕ) :
    IsGreatest {e | b.Extends written e} ((b.maxLen? written).getD 0) := by
  have hb := b.length_data
  rcases lt_trichotomy written LEN_FIELD_CUTOFF with h | rfl | h
  · have hm : b.maxLen? written = some (65535 - b.data.length) := by
      simp [maxLen?, compare_lt_iff_lt.mpr h, get_len, PACKET_SIZE]
    rw [hm, Option.getD_some]
    constructor
    · rw [Set.mem_ofPred_eq, extends_of_lt h]
      omega
    · intro e he
      rw [Set.mem_ofPred_eq, extends_of_lt h] at he
      omega
  · have hm : b.maxLen? LEN_FIELD_CUTOFF = some (255 - b.data.length % 256) := by
      simp [maxLen?, lo_len]
    rw [hm, Option.getD_some]
    constructor
    · rw [Set.mem_ofPred_eq, extends_cutoff]
      omega
    · intro e he
      rw [Set.mem_ofPred_eq, extends_cutoff] at he
      omega
  · have hm : b.maxLen? written = none := by
      simp [maxLen?, compare_gt_iff_gt.mpr h]
    rw [hm, Option.getD_none]
    constructor
    · rw [Set.mem_ofPred_eq, extends_of_gt h]
    · intro e he
      rw [Set.mem_ofPred_eq, extends_of_gt h] at he
      exact he.le

theorem mustFlushFor_iff_push (b : PacketBuffer) (written : ℕ) :
    b.mustFlushFor written = true ↔ ∀ d, d ≠ [] → (b.push d written).1 = 0 := by
  constructor
  · intro hf d _
    have hzero : (b.maxLen? written).getD 0 = 0 := by
      rcases (b.mustFlushFor_iff written).mp hf with h | h
      · rw [h, Option.getD_none]
      · rw [h, Option.getD_some]
    rw [push_fst, hzero, Nat.min_zero]
  · intro h
    by_contra hf
    have hpos := push_fst_pos (List.cons_ne_nil 0 []) (Bool.eq_false_of_not_eq_true hf)
    have hnone := h [0] (List.cons_ne_nil 0 [])
    omega

/-- `push` takes as much as it may and keeps what was sent true, and `must_flush_for` says when
that is nothing. -/
theorem push_takes_most (b : PacketBuffer) (d : List UInt8) (written : ℕ) :
    (b.push d written).2.bytes =
        b.addr.bytes ++ (NetworkOrderU16.new (b.data.length + (b.push d written).1)).bytes ++ b.data ++
          d.take (b.push d written).1 ∧
      (b.push d written).2.bytes.take written = b.bytes.take written ∧
      b.data.length + (b.push d written).1 ≤ 65535 ∧
      (∃ m, IsGreatest {e | b.Extends written e} m ∧ (b.push d written).1 = min d.length m) ∧
      (b.mustFlushFor written = true ↔ ∀ d', d' ≠ [] → (b.push d' written).1 = 0) := by
  have hk := push_fst_le b d written
  have hlen : (b.push d written).2.data.length = b.data.length + (b.push d written).1 := by
    rw [push_data, List.length_append, List.length_take, min_eq_left hk]
  refine ⟨?_, take_bytes_push b d written, ?_, ⟨_, isGreatest_maxLen? b written, push_fst b d written⟩,
    mustFlushFor_iff_push b written⟩
  · have ha : (b.push d written).2.socketAddr = b.addr := push_addr b d written
    rw [bytes, len, hlen, ha, push_data, List.append_assoc, List.append_assoc, List.append_assoc]
  · rw [← hlen]
    exact (b.push d written).2.length_data

end PacketBuffer

end VtMuxer
