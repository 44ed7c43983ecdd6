import VtMuxer.Read.Tracks
import VtMuxer.Read.Turn

/-! What a stream says byte by byte, whoever listens: which payload belongs to which address,
and where frames without payload stand. -/
namespace VtMuxer

inductive Signal where
  | data (addr : SocketAddr) (byte : UInt8)
  /-- A frame without payload. -/
  | zero (addr : SocketAddr)
  deriving DecidableEq, Repr

def Signal.addr : Signal → SocketAddr
  | data a _ => a
  | zero a => a

namespace Position

def next : Position → UInt8 → Position × List Signal
  | header filled, b =>
    if filled.length + 1 < 20 then (header (filled ++ [b]), [])
    else
      let h := MuxFrameHeader.assumeInit (filled ++ [b])
      if h.len = 0 then (header [], [.zero h.addr]) else (payload h.addr h.len, [])
  | payload owner left, b =>
    (if left - 1 = 0 then header [] else payload owner (left - 1), [.data owner b])

/-- Where the bytes lead, and what they say on the way. -/
def scan (p : Position) : List UInt8 → Position × List Signal
  | [] => (p, [])
  | b :: bs => (((p.next b).1.scan bs).1, (p.next b).2 ++ ((p.next b).1.scan bs).2)

@[simp] theorem scan_nil (p : Position) : p.scan [] = (p, []) := rfl

theorem scan_append (p : Position) (xs ys : List UInt8) :
    p.scan (xs ++ ys) = (((p.scan xs).1.scan ys).1, (p.scan xs).2 ++ ((p.scan xs).1.scan ys).2) := by
  induction xs generalizing p with
  | nil => rfl
  | cons x xs ih => simp only [List.cons_append, scan, ih, List.append_assoc]

theorem scan_short {filled bs : List UInt8} (h : filled.length + bs.length < 20) :
    (header filled).scan bs = (header (filled ++ bs), []) := by
  induction bs generalizing filled with
  | nil => simp
  | cons b bs ih =>
    have hlt : filled.length + 1 < 20 := by
      rw [List.length_cons] at h
      omega
    have hrest : (filled ++ [b]).length + bs.length < 20 := by
      simp only [List.length_append, List.length_cons, List.length_nil] at h ⊢
      omega
    have hn : (header filled).next b = (header (filled ++ [b]), []) := by simp [next, hlt]
    rw [scan, hn, ih hrest]
    simp

theorem scan_header {filled bs : List UInt8} (h0 : bs ≠ []) (h : filled.length + bs.length = 20) :
    (header filled).scan bs =
      if (SharedReader.headerBy filled bs).len = 0 then
        (header [], [.zero (SharedReader.headerBy filled bs).addr])
      else (payload (SharedReader.headerBy filled bs).addr (SharedReader.headerBy filled bs).len, []) := by
  induction bs generalizing filled with
  | nil => exact absurd rfl h0
  | cons b bs ih =>
    have hsame : SharedReader.headerBy (filled ++ [b]) bs = SharedReader.headerBy filled (b :: bs) := by
      simp [SharedReader.headerBy]
    rcases eq_or_ne bs [] with rfl | hne
    · have hlt : ¬ filled.length + 1 < 20 := by
        simp only [List.length_cons, List.length_nil] at h
        omega
      have htake : (filled ++ [b]).take 20 = filled ++ [b] := List.take_of_length_le (by simpa using h.le)
      have hdef : SharedReader.headerBy filled [b] = .assumeInit (filled ++ [b]) := by
        rw [SharedReader.headerBy, htake]
      rw [hdef, scan, next, if_neg hlt]
      by_cases hl : (MuxFrameHeader.assumeInit (filled ++ [b])).len = 0
      · simp [hl]
      · simp [hl]
    · have hlen : 0 < bs.length := List.length_pos_iff.mpr hne
      have hlt : filled.length + 1 < 20 := by
        rw [List.length_cons] at h
        omega
      have hrest : (filled ++ [b]).length + bs.length = 20 := by
        simp only [List.length_append, List.length_cons, List.length_nil] at h ⊢
        omega
      have hn : (header filled).next b = (header (filled ++ [b]), []) := by simp [next, hlt]
      rw [scan, hn, ih hne hrest, hsame]
      split <;> simp

theorem scan_payload {owner : SocketAddr} {left : ℕ} {bs : List UInt8} (h0 : 0 < left)
    (hle : bs.length ≤ left) :
    (payload owner left).scan bs =
      (if left - bs.length = 0 then header [] else payload owner (left - bs.length),
        bs.map (.data owner)) := by
  induction bs generalizing left with
  | nil =>
    have hne : left - 0 ≠ 0 := by omega
    simp [scan, h0.ne']
  | cons b bs ih =>
    rw [List.length_cons] at hle
    by_cases h1 : left - 1 = 0
    · have hnil : bs = [] := List.length_eq_zero_iff.mp (by omega)
      subst hnil
      simp [scan, next, h1]
    · have hsub : left - 1 - bs.length = left - (bs.length + 1) := by omega
      have hn : (payload owner left).next b = (payload owner (left - 1), [.data owner b]) := by
        simp [next, h1]
      rw [scan, hn, ih (by omega) (by omega), hsub]
      simp

end Position

namespace SharedReader

def Within (s : SharedReader) (t : Tick) : Prop :=
  ∀ n bs, s.requested = some n → t.read = .ready (.ok bs) → bs.length ≤ n

theorem position_payloadLeft (owner : SocketAddr) (n : ℕ) (s : SharedReader) :
    (s.setState (payloadLeft owner n)).position =
      some (if n = 0 then .header [] else .payload owner n) := by
  unfold payloadLeft
  split <;> rfl

theorem filledBy_eq {header bs : List UInt8} (hv : header.length < 20) (hb : bs.length ≤ 20 - header.length) :
    filledBy header bs = header.length + bs.length := by
  unfold filledBy
  omega

section
variable {cx : Waker} {t : Tick} {s s' : SharedReader} {p : Position}

theorem Within.silent {t : Tick} (h : s.requested = none) : s.Within t := by
  intro m cs hm
  rw [h] at hm
  cases hm

theorem Within.bytes {n : ℕ} {bs : List UInt8} (h : s.requested = some n) (hle : bs.length ≤ n) :
    s.Within (.bytes bs) := by
  intro m cs hm hr
  have hcs : Poll.ready (Except.ok bs) = Poll.ready (Except.ok cs) := hr
  rw [h] at hm
  cases hm
  cases hcs
  exact hle

theorem Within.header (hw : s.Within t) {header bs : List UInt8} (hs : s.state = .nextPacket header)
    (hr : t.read = .ready (.ok bs)) : bs.length ≤ 20 - header.length :=
  hw _ bs (by simp [requested, hs]) hr

theorem Within.discard (hw : s.Within t) {owner : SocketAddr} {left : ℕ} {bs : List UInt8}
    (hs : s.state = .read owner left) (hu : s.upgrade owner = none) (hr : t.read = .ready (.ok bs)) :
    bs.length ≤ left :=
  hw _ bs (by simp [requested, hs, hu]) hr

theorem Within.fill (hw : s.Within t) {owner : SocketAddr} {left id : ℕ} {bs : List UInt8}
    (hs : s.state = .read owner left) (hu : s.upgrade owner = some id)
    (hroom : (s.entries id).buffer.room ≠ 0) (hr : t.read = .ready (.ok bs)) :
    bs.take (s.entries id).buffer.room = bs ∧ bs.length ≤ left := by
  have hle : bs.length ≤ min (s.entries id).buffer.room left :=
    hw _ bs (by simp [requested, hs, hu, hroom]) hr
  exact ⟨List.take_of_length_le (by omega), by omega⟩

theorem room_ne_zero_of_take {b : ReadBuffer} {bs : List UInt8} (h : bs.take b.room ≠ []) : b.room ≠ 0 := by
  intro h0
  rw [h0] at h
  simp at h

/-- What a successful turn took from the stream, and what that says. -/
structure Heard (s s' : SharedReader) (p : Position) (bs : List UInt8) (signals : List Signal) : Prop where
  consumed : s'.consumed = s.consumed ++ bs
  signals : (p.scan bs).2 = signals
  position : s'.position = some (p.scan bs).1
  valid : (p.scan bs).1.Valid

theorem Heard.header (hw : s.Within t) {header bs : List UInt8} (hs : s.state = .nextPacket header)
    (hv : header.length < 20) (hr : t.read = .ready (.ok bs)) (h0 : bs ≠ []) (h20 : filledBy header bs = 20) :
    (Position.header header).scan bs =
      if (headerBy header bs).len = 0 then (.header [], [.zero (headerBy header bs).addr])
      else (.payload (headerBy header bs).addr (headerBy header bs).len, []) := by
  have hle := hw.header hs hr
  have hlen : header.length + bs.length = 20 := by
    rw [← filledBy_eq hv hle]
    exact h20
  exact Position.scan_header h0 hlen

theorem Heard.zero (hw : s.Within t) {header bs : List UInt8} (hs : s.state = .nextPacket header)
    (hv : header.length < 20) (hr : t.read = .ready (.ok bs)) (h0 : bs ≠ []) (h20 : filledBy header bs = 20)
    (hl : (headerBy header bs).len = 0) (hc : s'.consumed = s.consumed ++ bs)
    (hp : s'.position = some (.header [])) :
    Heard s s' (.header header) bs [.zero (headerBy header bs).addr] := by
  have hscan := Heard.header hw hs hv hr h0 h20
  rw [if_pos hl] at hscan
  constructor
  case consumed => exact hc
  case signals => rw [hscan]
  case position => rw [hscan, hp]
  case valid =>
    rw [hscan]
    simp [Position.Valid]

theorem Heard.payload (hw : s.Within t) {header bs : List UInt8} (hs : s.state = .nextPacket header)
    (hv : header.length < 20) (hr : t.read = .ready (.ok bs)) (h0 : bs ≠ []) (h20 : filledBy header bs = 20)
    (hl : (headerBy header bs).len ≠ 0) :
    Heard s ((s.consume bs).setState (.read (headerBy header bs).addr (headerBy header bs).len))
      (.header header) bs [] := by
  have hscan := Heard.header hw hs hv hr h0 h20
  rw [if_neg hl] at hscan
  constructor
  case consumed => rfl
  case signals => rw [hscan]
  case position =>
    rw [hscan]
    rfl
  case valid =>
    rw [hscan]
    exact ⟨Nat.pos_of_ne_zero hl, MuxFrameHeader.len_lt _⟩

theorem Heard.data {owner : SocketAddr} {left : ℕ} {bs : List UInt8} {s₁ : SharedReader}
    (hv : (Position.payload owner left).Valid) (hle : bs.length ≤ left) (hc : s₁.consumed = s.consumed ++ bs) :
    Heard s (s₁.setState (payloadLeft owner (left - bs.length))) (.payload owner left) bs
      (bs.map (.data owner)) := by
  have hlt := hv.2
  have hscan : (Position.payload owner left).scan bs = _ := Position.scan_payload hv.1 hle
  constructor
  case consumed => exact hc
  case signals => rw [hscan]
  case position =>
    rw [hscan]
    exact position_payloadLeft owner _ s₁
  case valid =>
    rw [hscan]
    dsimp only
    split
    · simp [Position.Valid]
    · refine ⟨?_, ?_⟩ <;> omega

theorem Heard.silent (hc : s'.consumed = s.consumed) (hp : s'.position = some (.header [])) :
    Heard s s' (.header []) [] [] := by
  constructor
  case consumed => rw [hc, List.append_nil]
  case signals => rfl
  case position => exact hp
  case valid => simp [Position.Valid]

end

end SharedReader

end VtMuxer
