import VtMuxer.Read.ReadBuffer

/-! The memory under a read buffer: an allocation whose bytes may not be initialised yet, and
three marks that only the code keeps in order. Undefined behaviour is `none`. -/
namespace VtMuxer

/-- `bs` written over the cells from `start` on. -/
def store (memory : List (Option UInt8)) (start : ℕ) (bs : List UInt8) : List (Option UInt8) :=
  memory.take start ++ bs.map some ++ memory.drop (start + bs.length)

/-- The first `n` cells can be read. -/
def Initialized (memory : List (Option UInt8)) (n : ℕ) : Prop := ∀ x ∈ memory.take n, x.isSome = true

instance (memory : List (Option UInt8)) (n : ℕ) : Decidable (Initialized memory n) :=
  inferInstanceAs (Decidable (∀ x ∈ memory.take n, x.isSome = true))

section Store

variable {memory : List (Option UInt8)} {start n : ℕ} {bs : List UInt8}

theorem length_store (h : start + bs.length ≤ memory.length) : (store memory start bs).length = memory.length := by
  simp only [store, List.length_append, List.length_take, List.length_map, List.length_drop]
  omega

theorem take_store (h : start ≤ memory.length) : (store memory start bs).take start = memory.take start := by
  unfold store
  rw [List.append_assoc, List.take_append_of_le_length (by simp [h]), List.take_take, min_self]

theorem take_store_add (h : start ≤ memory.length) :
    (store memory start bs).take (start + bs.length) = memory.take start ++ bs.map some := by
  have hlen : start + bs.length = (memory.take start ++ bs.map some).length := by simp [h]
  unfold store
  rw [hlen, List.take_left]

theorem Initialized.mono {m : ℕ} (h : Initialized memory n) (hm : m ≤ n) : Initialized memory m := by
  intro x hx
  apply h
  rw [← min_eq_left hm, ← List.take_take] at hx
  exact List.mem_of_mem_take hx

theorem Initialized.store (h : Initialized memory n) (hs : start ≤ n) (hl : start + bs.length ≤ memory.length) :
    Initialized (store memory start bs) (max n (start + bs.length)) := by
  have hlen : (memory.take start ++ bs.map some).length = start + bs.length := by simp; omega
  intro x hx
  unfold VtMuxer.store at hx
  rw [List.take_append, List.mem_append, hlen] at hx
  rcases hx with hx | hx
  · rcases List.mem_append.mp (List.mem_of_mem_take hx) with hx | hx
    · exact h.mono hs x hx
    · obtain ⟨b, -, rfl⟩ := List.mem_map.mp hx
      rfl
  · rcases le_total n (start + bs.length) with hn | hn
    · simp [max_eq_right hn] at hx
    · rw [max_eq_left hn, ← List.drop_take] at hx
      exact h x (List.mem_of_mem_drop hx)

end Store

/-- `ReadBuf`. -/
structure ReadBuf where
  memory : List (Option UInt8)
  filled : ℕ
  initialized : ℕ

namespace ReadBuf

def remaining (b : ReadBuf) : ℕ := b.memory.length - b.filled

/-- As much of `bs` as there is room for is left in the unfilled part. -/
def leave (b : ReadBuf) (bs : List UInt8) : ReadBuf where
  memory := store b.memory b.filled (bs.take b.remaining)
  filled := b.filled
  initialized := max b.initialized (b.filled + (bs.take b.remaining).length)

def put (b : ReadBuf) (bs : List UInt8) : ReadBuf :=
  { b.leave bs with filled := b.filled + (bs.take b.remaining).length }

end ReadBuf

/-- What a reader does when it is polled. The bytes of `spare` are only left behind the filled
ones, where they count as initialised. -/
inductive ReaderAnswer where
  | filled (bs spare : List UInt8)
  | failed (e : IoError) (spare : List UInt8)
  | pending (spare : List UInt8)

/-- A reader is the answers it still has to give. -/
def pollRead : List ReaderAnswer → ReadBuf → Poll (Except IoError Unit) × List ReaderAnswer × ReadBuf
  | [], b => (.pending, [], b)
  | .filled bs spare :: reader, b => (.ready (.ok ()), reader, (b.put bs).leave spare)
  | .failed e spare :: reader, b => (.ready (.error e), reader, b.leave spare)
  | .pending spare :: reader, b => (.pending, reader, b.leave spare)

/-- What a reader answers next, less the bytes it only leaves behind. -/
def nextAnswer : List ReaderAnswer → Poll (Except IoError (List UInt8))
  | .filled bs _ :: _ => .ready (.ok bs)
  | .failed e _ :: _ => .ready (.error e)
  | _ => .pending

/-- The fields of `ReadBuffer` in the source; its capacity is the length of the allocation. -/
structure RawReadBuffer where
  memory : List (Option UInt8)
  pos : ℕ
  filled : ℕ
  initialized : ℕ

namespace RawReadBuffer

def new (capacity : ℕ) : RawReadBuffer := ⟨List.replicate capacity none, 0, 0, 0⟩

def capacity (b : RawReadBuffer) : ℕ := b.memory.length

/-- `from_raw_parts` needs a length that does not wrap and bytes that were written. -/
def bytes (b : RawReadBuffer) : Option (List UInt8) :=
  if b.pos ≤ b.filled ∧ b.filled ≤ b.capacity then ((b.memory.take b.filled).drop b.pos).mapM id
  else none

def fillBuffer (b : RawReadBuffer) (reader : List ReaderAnswer) :
    Option (Poll (Except IoError (Option ℕ)) × List ReaderAnswer × RawReadBuffer) :=
  -- `assert_unchecked` twice, then `assume_init`
  if b.filled ≤ b.initialized ∧ b.initialized ≤ b.capacity ∧ Initialized b.memory b.initialized then
    let buffer : ReadBuf := ⟨b.memory, b.filled, b.initialized⟩
    if buffer.remaining = 0 then some (.ready (.ok none), reader, b)
    else
      match pollRead reader buffer with
      | (.ready (.ok ()), reader', buffer') =>
        some (.ready (.ok (some (buffer'.filled - b.filled))), reader',
          { b with memory := buffer'.memory, filled := buffer'.filled, initialized := buffer'.initialized })
      | (.ready (.error e), reader', buffer') => some (.ready (.error e), reader', { b with memory := buffer'.memory })
      | (.pending, reader', buffer') => some (.pending, reader', { b with memory := buffer'.memory })
  else none

def read (b : RawReadBuffer) (remaining : ℕ) : Option (List UInt8 × RawReadBuffer) := do
  let bytes ← b.bytes
  let len := min remaining bytes.length
  if len = 0 then return ([], b)
  let pos := b.pos + len
  -- `assert_unchecked`
  if pos ≤ b.filled then
    if pos = b.filled then return (bytes.take len, { b with pos := 0, filled := 0 })
    return (bytes.take len, { b with pos := pos })
  else none

/-- The memory of a buffer whose marks are in order: the filled part holds its content. -/
structure Stores (r : RawReadBuffer) (b : ReadBuffer) : Prop where
  capacity : r.capacity = b.capacity
  pos : r.pos = b.pos
  filled : r.filled = b.filled
  content : r.memory.take r.filled = b.content.map some
  filled_le : r.filled ≤ r.initialized
  initialized_le : r.initialized ≤ r.capacity
  readable : Initialized r.memory r.initialized

theorem stores_new {n : ℕ} (h : 0 < n) : (new n).Stores (ReadBuffer.new n h) := by
  constructor
  case capacity => exact List.length_replicate
  case readable => simp [Initialized, new]
  all_goals simp [new, ReadBuffer.new, ReadBuffer.filled]

namespace Stores

variable {r : RawReadBuffer} {b : ReadBuffer}

theorem filled_le_capacity (h : r.Stores b) : r.filled ≤ r.capacity := h.filled_le.trans h.initialized_le

theorem bytes (h : r.Stores b) : r.bytes = some b.bytes := by
  have hp : r.pos ≤ r.filled := by
    rw [h.pos, h.filled]
    exact b.pos_le
  unfold RawReadBuffer.bytes
  rw [if_pos ⟨hp, h.filled_le_capacity⟩, h.content, h.pos, ← List.map_drop, List.mapM_map]
  exact (List.mapM_pure (f := id)).trans (congrArg some (List.map_id _))

/-- Bytes left behind the filled ones change nothing for the reader of the buffer. -/
theorem leave (h : r.Stores b) {bs : List UInt8} (hl : r.filled + bs.length ≤ r.capacity) :
    RawReadBuffer.Stores { r with memory := store r.memory r.filled bs,
                                  initialized := max r.initialized (r.filled + bs.length) } b := by
  have hlen := length_store hl
  constructor
  case capacity => exact hlen.trans h.capacity
  case pos => exact h.pos
  case filled => exact h.filled
  case content => exact (take_store h.filled_le_capacity).trans h.content
  case filled_le => exact h.filled_le.trans (le_max_left _ _)
  case initialized_le => exact (max_le h.initialized_le hl).trans_eq hlen.symm
  case readable => exact h.readable.store h.filled_le hl

/-- The mark of what is initialised may be forgotten, not what is filled. -/
theorem forget (h : r.Stores b) {n : ℕ} (hn : r.filled ≤ n) (hle : n ≤ r.initialized) :
    RawReadBuffer.Stores { r with initialized := n } b where
  capacity := h.capacity
  pos := h.pos
  filled := h.filled
  content := h.content
  filled_le := hn
  initialized_le := hle.trans h.initialized_le
  readable := h.readable.mono hle

theorem add_take_le (h : r.Stores b) (bs : List UInt8) : r.filled + (bs.take b.room).length ≤ r.capacity := by
  have hf := b.filled_le_capacity
  rw [h.filled, h.capacity, List.length_take, ReadBuffer.room]
  omega

theorem put (h : r.Stores b) (bs : List UInt8) :
    RawReadBuffer.Stores { r with memory := store r.memory r.filled (bs.take b.room),
                                  filled := r.filled + (bs.take b.room).length,
                                  initialized := max r.initialized (r.filled + (bs.take b.room).length) }
      (b.fill bs) := by
  have hl := h.add_take_le bs
  have hlen := length_store hl
  constructor
  case capacity => exact hlen.trans h.capacity
  case pos => exact h.pos
  case filled => rw [h.filled, ReadBuffer.filled, ReadBuffer.filled, ReadBuffer.fill, List.length_append]
  case content => rw [take_store_add h.filled_le_capacity, h.content, ReadBuffer.fill, List.map_append]
  case filled_le => exact le_max_right _ _
  case initialized_le => exact (max_le h.initialized_le hl).trans_eq hlen.symm
  case readable => exact h.readable.store h.filled_le hl

theorem rewind (h : r.Stores b) {n : ℕ} (hn : b.pos + n = b.filled) :
    RawReadBuffer.Stores { r with pos := 0, filled := 0 } (b.advance n hn.le) := by
  unfold ReadBuffer.advance
  rw [dif_pos hn]
  constructor
  case capacity => exact h.capacity
  case filled_le => exact Nat.zero_le _
  case initialized_le => exact h.initialized_le
  case readable => exact h.readable
  all_goals rfl

theorem advance (h : r.Stores b) {n : ℕ} (hn : b.pos + n ≤ b.filled) (hne : b.pos + n ≠ b.filled) :
    RawReadBuffer.Stores { r with pos := r.pos + n } (b.advance n hn) := by
  unfold ReadBuffer.advance
  rw [dif_neg hne]
  exact { h with pos := congrArg (· + n) h.pos }

/-- Without a byte to copy the buffer stays as it is, for an empty one is rewound already. -/
theorem advance_zero (h : r.Stores b) (hn : b.pos + 0 ≤ b.filled) : r.Stores (b.advance 0 hn) := by
  by_cases he : b.pos + 0 = b.filled
  · have hnil := b.rewound he
    have hf : r.filled = 0 := by rw [h.filled, ReadBuffer.filled, hnil, List.length_nil]
    have hp : r.pos = 0 := by rw [h.pos, ← hf, h.filled]; exact he
    have hr : r = { r with pos := 0, filled := 0 } := by
      cases r
      simp_all
    rw [hr]
    exact h.rewind he
  · exact h.advance hn he

theorem read (h : r.Stores b) (n : ℕ) :
    ∃ r', r.read n = some ((b.read n).1, r') ∧ r'.Stores (b.read n).2 := by
  have hlen : (b.bytes.take n).length = min n b.bytes.length := List.length_take
  have htake : b.bytes.take (b.bytes.take n).length = b.bytes.take n := by
    rw [hlen, ← List.take_take, List.take_length]
  have hpos : b.pos + (b.bytes.take n).length ≤ b.filled := by
    have hp := b.pos_le
    rw [hlen, ReadBuffer.bytes, List.length_drop, ReadBuffer.filled]
    omega
  have hle : r.pos + (b.bytes.take n).length ≤ r.filled := by rwa [h.pos, h.filled]
  unfold RawReadBuffer.read ReadBuffer.read
  simp only [h.bytes, Option.bind_eq_bind, Option.bind_some, ← hlen, htake]
  by_cases hz : (b.bytes.take n).length = 0
  · have hnil : b.bytes.take n = [] := List.length_eq_zero_iff.mp hz
    refine ⟨r, by simp [hnil], ?_⟩
    simp only [hnil]
    exact h.advance_zero _
  · rw [if_neg hz, if_pos hle]
    by_cases he : b.pos + (b.bytes.take n).length = b.filled
    · rw [if_pos (by rwa [h.pos, h.filled])]
      exact ⟨_, rfl, h.rewind he⟩
    · rw [if_neg (by rwa [h.pos, h.filled])]
      exact ⟨_, rfl, h.advance hpos he⟩

theorem remaining (h : r.Stores b) : (ReadBuf.mk r.memory r.filled r.initialized).remaining = b.room := by
  rw [ReadBuf.remaining, ReadBuffer.room, h.filled, ← h.capacity, RawReadBuffer.capacity]

theorem fillBuffer (h : r.Stores b) (reader : List ReaderAnswer) :
    ∃ r', r.fillBuffer reader =
        some ((b.fillBuffer (nextAnswer reader)).1, if b.room = 0 then reader else reader.tail, r') ∧
      r'.Stores (b.fillBuffer (nextAnswer reader)).2 := by
  unfold RawReadBuffer.fillBuffer ReadBuffer.fillBuffer
  rw [if_pos ⟨h.filled_le, h.initialized_le, h.readable⟩]
  simp only [h.remaining]
  by_cases hz : b.room = 0
  · simp only [if_pos hz]
    exact ⟨r, rfl, h⟩
  · simp only [if_neg hz]
    cases reader with
    | nil => exact ⟨r, rfl, h⟩
    | cons a reader =>
      cases a with
      | filled bs spare =>
        refine ⟨_, ?_, (h.put bs).leave ((h.put bs).add_take_le spare)⟩
        simp only [pollRead, nextAnswer, ReadBuf.put, ReadBuf.leave, h.remaining, (h.put bs).remaining,
          Nat.add_sub_cancel_left, List.tail_cons]
      | failed e spare =>
        refine ⟨_, ?_, (h.leave (h.add_take_le spare)).forget h.filled_le (le_max_left _ _)⟩
        simp only [pollRead, nextAnswer, ReadBuf.leave, h.remaining, List.tail_cons]
      | pending spare =>
        refine ⟨_, ?_, (h.leave (h.add_take_le spare)).forget h.filled_le (le_max_left _ _)⟩
        simp only [pollRead, nextAnswer, ReadBuf.leave, h.remaining, List.tail_cons]

end Stores

end RawReadBuffer

inductive BufferCall where
  | fillBuffer
  | read (remaining : ℕ)

/-- A buffer in use: `taken` is all that its reader has filled in, `handed` all that was read. -/
structure BufferRun where
  buffer : RawReadBuffer
  reader : List ReaderAnswer
  taken : List UInt8
  handed : List UInt8

def nextBytes (reader : List ReaderAnswer) (room : ℕ) : List UInt8 :=
  match reader with
  | .filled bs _ :: _ => bs.take room
  | _ => []

namespace BufferRun

def start (capacity : ℕ) (reader : List ReaderAnswer) : BufferRun := ⟨.new capacity, reader, [], []⟩

def step (s : BufferRun) : BufferCall → Option BufferRun
  | .fillBuffer => (s.buffer.fillBuffer s.reader).map fun res =>
    { s with buffer := res.2.2, reader := res.2.1,
             taken := s.taken ++ nextBytes s.reader (s.buffer.capacity - s.buffer.filled) }
  | .read n => (s.buffer.read n).map fun res => { s with buffer := res.2, handed := s.handed ++ res.1 }

def run (s : BufferRun) (calls : List BufferCall) : Option BufferRun := calls.foldlM step s

/-- The memory is that of a buffer that holds what was taken and not handed out. -/
def Holds (s : BufferRun) (b : ReadBuffer) : Prop := s.buffer.Stores b ∧ s.handed ++ b.bytes = s.taken

variable {s : BufferRun} {b : ReadBuffer}

theorem bytes_fillBuffer (b : ReadBuffer) (reader : List ReaderAnswer) :
    (b.fillBuffer (nextAnswer reader)).2.bytes = b.bytes ++ nextBytes reader b.room := by
  unfold ReadBuffer.fillBuffer
  rcases reader with _ | ⟨a, reader⟩
  · split <;> simp [nextAnswer, nextBytes]
  · by_cases hz : b.room = 0
    · cases a <;> simp [nextBytes, hz]
    · cases a <;> simp [nextAnswer, nextBytes, hz]

theorem capacity_fillBuffer (b : ReadBuffer) (answer : Poll (Except IoError (List UInt8))) :
    (b.fillBuffer answer).2.capacity = b.capacity := by
  unfold ReadBuffer.fillBuffer
  split
  · rfl
  · split <;> rfl

theorem capacity_read (b : ReadBuffer) (n : ℕ) : (b.read n).2.capacity = b.capacity := by
  unfold ReadBuffer.read ReadBuffer.advance
  split <;> rfl

theorem Holds.step (h : s.Holds b) (c : BufferCall) :
    ∃ s' b', s.step c = some s' ∧ s'.Holds b' ∧ b'.capacity = b.capacity := by
  cases c with
  | fillBuffer =>
    obtain ⟨r', hr, hs⟩ := h.1.fillBuffer s.reader
    refine ⟨_, _, by rw [BufferRun.step, hr]; rfl, ⟨hs, ?_⟩, capacity_fillBuffer b _⟩
    rw [bytes_fillBuffer, ← List.append_assoc, h.2, ReadBuffer.room, h.1.filled, h.1.capacity]
  | read n =>
    obtain ⟨r', hr, hs⟩ := h.1.read n
    refine ⟨_, _, by rw [BufferRun.step, hr]; rfl, ⟨hs, ?_⟩, capacity_read b n⟩
    rw [List.append_assoc, b.read_append, h.2]

theorem Holds.run (h : s.Holds b) (calls : List BufferCall) :
    ∃ s' b', s.run calls = some s' ∧ s'.Holds b' ∧ b'.capacity = b.capacity := by
  induction calls generalizing s b with
  | nil => exact ⟨s, b, rfl, h, rfl⟩
  | cons c calls ih =>
    obtain ⟨s₁, b₁, hstep, h₁, hc₁⟩ := h.step c
    obtain ⟨s', b', hrun, h', hc'⟩ := ih h₁
    refine ⟨s', b', ?_, h', hc'.trans hc₁⟩
    unfold BufferRun.run at hrun ⊢
    rw [List.foldlM_cons, hstep]
    exact hrun

/-- What is true of a buffer between two calls. -/
structure Fifo (capacity : ℕ) (s : BufferRun) (unread : List UInt8) : Prop where
  pos_le : s.buffer.pos ≤ s.buffer.filled
  filled_le : s.buffer.filled ≤ s.buffer.initialized
  initialized_le : s.buffer.initialized ≤ capacity
  capacity_eq : s.buffer.capacity = capacity
  rewound : s.buffer.pos = s.buffer.filled → s.buffer.pos = 0 ∧ s.buffer.filled = 0
  bytes : s.buffer.bytes = some unread
  ordered : s.handed ++ unread = s.taken
  read : ∀ n, ∃ out b, s.buffer.read n = some (out, b) ∧ out.length = min n unread.length
  fillBuffer : ∀ reader, ∃ res reader' b, s.buffer.fillBuffer reader = some (res, reader', b) ∧
    (res = .ready (.ok none) ↔ s.buffer.filled = capacity)
  full : s.buffer.filled = capacity → unread ≠ [] ∧
    ∀ reader, s.buffer.fillBuffer reader = some (.ready (.ok none), reader, s.buffer)

theorem Holds.fifo (h : s.Holds b) : s.Fifo b.capacity b.bytes := by
  obtain ⟨hs, ho⟩ := h
  have hroom : b.room = 0 ↔ s.buffer.filled = b.capacity := by
    have hf := b.filled_le_capacity
    rw [hs.filled, ReadBuffer.room]
    omega
  constructor
  case pos_le =>
    rw [hs.pos, hs.filled]
    exact b.pos_le
  case filled_le => exact hs.filled_le
  case initialized_le => exact hs.initialized_le.trans_eq hs.capacity
  case capacity_eq => exact hs.capacity
  case rewound =>
    intro he
    rw [hs.pos, hs.filled] at he
    have hnil := b.rewound he
    have hf : b.filled = 0 := by rw [ReadBuffer.filled, hnil, List.length_nil]
    rw [hs.pos, hs.filled]
    exact ⟨he.trans hf, hf⟩
  case bytes => exact hs.bytes
  case ordered => exact ho
  case read =>
    intro n
    obtain ⟨r', hr, -⟩ := hs.read n
    exact ⟨_, r', hr, List.length_take⟩
  case fillBuffer =>
    intro reader
    obtain ⟨r', hr, -⟩ := hs.fillBuffer reader
    refine ⟨_, _, r', hr, ?_⟩
    rw [← hroom]
    unfold ReadBuffer.fillBuffer
    by_cases hz : b.room = 0
    · simp [hz]
    · rw [if_neg hz]
      cases nextAnswer reader with
      | pending => simp [hz]
      | ready r => cases r <;> simp [hz]
  case full =>
    intro hf
    refine ⟨ReadBuffer.bytes_ne_nil_of_full (hroom.mpr hf), fun reader => ?_⟩
    unfold RawReadBuffer.fillBuffer
    rw [if_pos ⟨hs.filled_le, hs.initialized_le, hs.readable⟩]
    simp only [hs.remaining, hroom.mpr hf, if_true]

/-- However a buffer is filled and read, its marks stay in order and its bytes come out as they
went in. -/
theorem read_buffer_fifo {capacity : ℕ} (h : 0 < capacity) (reader : List ReaderAnswer) (calls : List BufferCall) :
    ∃ s unread, (start capacity reader).run calls = some s ∧ s.Fifo capacity unread := by
  have hstart : (start capacity reader).Holds (ReadBuffer.new capacity h) :=
    ⟨RawReadBuffer.stores_new h, by simp [start]⟩
  obtain ⟨s, b, hrun, hs, hc⟩ := hstart.run calls
  obtain rfl : b.capacity = capacity := hc
  exact ⟨s, b.bytes, hrun, hs.fifo⟩

/-- Four bytes of room: a reader that writes past what it fills, a wait, a fill up to the brim,
a full buffer, and reads of all sizes between. -/
theorem read_buffer_fifo_four :
    let reader : List ReaderAnswer := [.filled [1, 2, 3] [9], .pending [7], .filled [4, 5, 6] [], .filled [8] []]
    let calls : List BufferCall := [.fillBuffer, .read 2, .fillBuffer, .fillBuffer, .fillBuffer, .read 0, .read 5]
    ((start 4 reader).run calls).map (fun s => (s.handed, s.taken, s.buffer.pos, s.buffer.filled, s.reader.length)) =
        some ([1, 2, 3, 4], [1, 2, 3, 4], 0, 0, 1) ∧
      ∃ s unread, (start 4 reader).run calls = some s ∧ s.Fifo 4 unread :=
  ⟨by decide +kernel, read_buffer_fifo (by decide) _ _⟩

end BufferRun

end VtMuxer
