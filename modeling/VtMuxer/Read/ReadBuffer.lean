import VtMuxer.Async.Basic

/-! The read buffer of a connection: filled from the shared stream, emptied by its reader,
and rewound whenever everything in it has been read. -/
namespace VtMuxer

/-- `content` is what lies before `filled` in the allocation. -/
structure ReadBuffer where
  capacity : ℕ
  content : List UInt8
  pos : ℕ
  initialized : ℕ
  capacity_pos : 0 < capacity
  pos_le : pos ≤ content.length
  filled_le : content.length ≤ initialized
  initialized_le : initialized ≤ capacity
  rewound : pos = content.length → content = []
  deriving DecidableEq, Repr

namespace ReadBuffer

def new (capacity : ℕ) (h : 0 < capacity) : ReadBuffer where
  capacity := capacity
  content := []
  pos := 0
  initialized := 0
  capacity_pos := h
  pos_le := le_rfl
  filled_le := le_rfl
  initialized_le := Nat.zero_le _
  rewound _ := rfl

def filled (b : ReadBuffer) : ℕ := b.content.length

def bytes (b : ReadBuffer) : List UInt8 := b.content.drop b.pos

/-- `ReadBuf::remaining` of the part that is not filled. -/
def room (b : ReadBuffer) : ℕ := b.capacity - b.filled

theorem filled_le_capacity (b : ReadBuffer) : b.filled ≤ b.capacity :=
  b.filled_le.trans b.initialized_le

/-- What a reader put into the unfilled part, which holds no more than `room` bytes. -/
def fill (b : ReadBuffer) (bs : List UInt8) : ReadBuffer where
  capacity := b.capacity
  content := b.content ++ bs.take b.room
  pos := b.pos
  initialized := max b.initialized (b.content ++ bs.take b.room).length
  capacity_pos := b.capacity_pos
  pos_le := by
    have := b.pos_le
    simp only [List.length_append]
    omega
  filled_le := le_max_right _ _
  initialized_le := by
    have hi := b.initialized_le
    have hf := b.filled_le_capacity
    have hl : (bs.take b.room).length ≤ b.room := List.length_take_le _ _
    unfold room filled at *
    simp only [List.length_append, max_le_iff]
    omega
  rewound h := by
    have hp := b.pos_le
    have hnil : (bs.take b.room).length = 0 := by
      simp only [List.length_append] at h
      omega
    rw [List.length_eq_zero_iff] at hnil
    rw [hnil, List.append_nil] at h ⊢
    exact b.rewound h

/-- A full buffer is not offered to the reader at all. -/
def fillBuffer (b : ReadBuffer) (answer : Poll (Except IoError (List UInt8))) :
    Poll (Except IoError (Option ℕ)) × ReadBuffer :=
  if b.room = 0 then (.ready (.ok none), b)
  else
    match answer with
    | .ready (.ok bs) => (.ready (.ok (some (bs.take b.room).length)), b.fill bs)
    | .ready (.error e) => (.ready (.error e), b)
    | .pending => (.pending, b)

def advance (b : ReadBuffer) (n : ℕ) (h : b.pos + n ≤ b.filled) : ReadBuffer :=
  if hf : b.pos + n = b.filled then
    { b with content := [], pos := 0, pos_le := le_rfl, filled_le := Nat.zero_le _,
             rewound := fun _ => rfl }
  else { b with pos := b.pos + n, pos_le := h, rewound := fun he => absurd he hf }

def read (b : ReadBuffer) (n : ℕ) : List UInt8 × ReadBuffer :=
  (b.bytes.take n, b.advance (b.bytes.take n).length (by
    have := b.pos_le
    simp only [bytes, filled, List.length_take, List.length_drop]
    omega))

@[simp] theorem bytes_new (n : ℕ) (h : 0 < n) : (new n h).bytes = [] := rfl

@[simp] theorem bytes_fill (b : ReadBuffer) (bs : List UInt8) :
    (b.fill bs).bytes = b.bytes ++ bs.take b.room := by
  unfold bytes fill
  exact List.drop_append_of_le_length b.pos_le

theorem bytes_advance (b : ReadBuffer) (n : ℕ) (h : b.pos + n ≤ b.filled) :
    (b.advance n h).bytes = b.bytes.drop n := by
  have hd : b.bytes.drop n = b.content.drop (b.pos + n) := List.drop_drop
  rw [hd]
  unfold advance
  split
  · rename_i hf
    have hnil : b.content.drop (b.pos + n) = [] := List.drop_of_length_le hf.ge
    exact hnil.symm
  · rfl

theorem read_fst (b : ReadBuffer) (n : ℕ) : (b.read n).1 = b.bytes.take n := rfl

theorem bytes_read (b : ReadBuffer) (n : ℕ) : (b.read n).2.bytes = b.bytes.drop n := by
  have hb : (b.read n).2.bytes = b.bytes.drop (b.bytes.take n).length := bytes_advance _ _ _
  rw [hb, List.length_take]
  rcases le_total n b.bytes.length with hn | hn
  · rw [min_eq_left hn]
  · rw [min_eq_right hn, List.drop_of_length_le hn, List.drop_length]

theorem read_append (b : ReadBuffer) (n : ℕ) : (b.read n).1 ++ (b.read n).2.bytes = b.bytes := by
  rw [read_fst, bytes_read, List.take_append_drop]

/-- There is no more room until everything has been read. -/
theorem room_read {b : ReadBuffer} {n : ℕ} (h : n < b.bytes.length) : (b.read n).2.room = b.room := by
  have hn : (b.bytes.take n).length = n := List.length_take_of_le h.le
  have hlen : b.bytes.length = b.content.length - b.pos := List.length_drop
  have hne : b.pos + (b.bytes.take n).length ≠ b.filled := by
    rw [hn]
    unfold filled
    omega
  unfold read advance
  rw [dif_neg hne]
  rfl

theorem room_read_of_le {b : ReadBuffer} {n : ℕ} (h : b.bytes.length ≤ n) : (b.read n).2.room = b.capacity := by
  have hle := b.pos_le
  have heq : b.pos + (b.bytes.take n).length = b.filled := by
    rw [List.length_take, min_eq_right h, bytes, List.length_drop]
    unfold filled
    omega
  unfold read advance
  rw [dif_pos heq]
  rfl

@[simp] theorem read_zero (b : ReadBuffer) : (b.read 0).1 = [] := rfl

theorem bytes_ne_nil_of_full {b : ReadBuffer} (h : b.room = 0) : b.bytes ≠ [] := by
  intro hb
  have hp := b.pos_le
  have hc := b.capacity_pos
  have hf := b.filled_le_capacity
  have he : b.pos = b.content.length := by
    unfold bytes at hb
    rw [List.drop_eq_nil_iff] at hb
    omega
  have hnil := b.rewound he
  unfold room filled at *
  simp only [hnil, List.length_nil] at *
  omega

end ReadBuffer

end VtMuxer
