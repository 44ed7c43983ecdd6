import VtMuxer.Read.Shared

/-! The reference demultiplexer: it reads a whole byte string frame by frame, and says what
an incremental reader of the same bytes has to have done, however they were cut. -/
namespace VtMuxer

/-- What is known of the connections: which entry an address has, what was opened and
closed, and which bytes each entry got. -/
structure Demux where
  map : SocketAddr → Option ℕ
  next : ℕ
  events : List Event
  appended : ℕ → List UInt8

/-- Where the string stopped: inside a header, or inside a payload. -/
inductive Position where
  | header (filled : List UInt8)
  | payload (owner : SocketAddr) (left : ℕ)
  deriving DecidableEq, Repr

namespace Demux
section
variable (live : ℕ → Bool) (connected : Bool)

/-- Payload goes to the entry of its address, if that has a living reader. -/
def deliver (addr : SocketAddr) (bs : List UInt8) (d : Demux) : Demux :=
  match d.map addr with
  | some id =>
    if live id then { d with appended := Function.update d.appended id (d.appended id ++ bs) } else d
  | none => d

/-- A frame without payload closes a known address and opens an unknown one. -/
def toggle (addr : SocketAddr) (d : Demux) : Demux :=
  match d.map addr with
  | some id =>
    { d with map := Function.update d.map addr none, events := d.events ++ [.closed addr id] }
  | none =>
    if connected then
      { map := Function.update d.map addr (some d.next)
        next := d.next + 1
        events := d.events ++ [.opened addr d.next]
        appended := Function.update d.appended d.next [] }
    else d

def run (d : Demux) (bytes : List UInt8) : Demux × Position :=
  if h : 20 ≤ bytes.length then
    let header := MuxFrameHeader.ofBytes (bytes.take 20) (by simp [h])
    let rest := bytes.drop 20
    if header.len = 0 then run (d.toggle connected header.addr) rest
    else if header.len ≤ rest.length then
      run (d.deliver live header.addr (rest.take header.len)) (rest.drop header.len)
    else (d.deliver live header.addr rest, .payload header.addr (header.len - rest.length))
  else (d, .header bytes)
termination_by bytes.length
decreasing_by all_goals simp only [List.length_drop]; omega

/-- Go on from where an earlier string stopped. -/
def resume (d : Demux) (bytes : List UInt8) : Position → Demux × Position
  | .header filled => d.run live connected (filled ++ bytes)
  | .payload owner left =>
    if left ≤ bytes.length then
      (d.deliver live owner (bytes.take left)).run live connected (bytes.drop left)
    else (d.deliver live owner bytes, .payload owner (left - bytes.length))

variable {live connected}

@[simp] theorem deliver_nil (addr : SocketAddr) (d : Demux) : d.deliver live addr [] = d := by
  unfold deliver
  split
  · split
    · simp
    · rfl
  · rfl

theorem deliver_map (addr : SocketAddr) (bs : List UInt8) (d : Demux) :
    (d.deliver live addr bs).map = d.map := by
  unfold deliver
  split
  · split <;> rfl
  · rfl

theorem deliver_append (addr : SocketAddr) (xs ys : List UInt8) (d : Demux) :
    d.deliver live addr (xs ++ ys) = (d.deliver live addr xs).deliver live addr ys := by
  have hm : (d.deliver live addr xs).map = d.map := deliver_map addr xs d
  unfold deliver at hm ⊢
  rw [hm]
  cases hd : d.map addr with
  | none => rfl
  | some id =>
    by_cases hl : live id = true
    · simp [hl]
    · simp [hl]

theorem run_of_lt {d : Demux} {bytes : List UInt8} (h : bytes.length < 20) :
    d.run live connected bytes = (d, .header bytes) := by
  rw [run, dif_neg (by omega)]

@[simp] theorem run_nil (d : Demux) : d.run live connected [] = (d, .header []) :=
  run_of_lt (by simp)

theorem run_of_ge {d : Demux} {bytes : List UInt8} (h : 20 ≤ bytes.length)
    (hl : (bytes.take 20).length = 20) :
    d.run live connected bytes =
      if (MuxFrameHeader.ofBytes (bytes.take 20) hl).len = 0 then
        (d.toggle connected (MuxFrameHeader.ofBytes (bytes.take 20) hl).addr).run live connected
          (bytes.drop 20)
      else
        d.resume live connected (bytes.drop 20)
          (.payload (MuxFrameHeader.ofBytes (bytes.take 20) hl).addr
            (MuxFrameHeader.ofBytes (bytes.take 20) hl).len) := by
  rw [run, dif_pos h]
  rfl

/-- Cutting a payload does not matter if cutting what follows it does not. -/
theorem resume_payload_append {d : Demux} {owner : SocketAddr} {left : ℕ} {xs : List UInt8}
    (ih : ∀ (d : Demux) (zs : List UInt8), zs.length ≤ xs.length → ∀ ys,
      d.run live connected (zs ++ ys) =
        (d.run live connected zs).1.resume live connected ys (d.run live connected zs).2)
    (ys : List UInt8) :
    d.resume live connected (xs ++ ys) (.payload owner left) =
      (d.resume live connected xs (.payload owner left)).1.resume live connected ys
        (d.resume live connected xs (.payload owner left)).2 := by
  unfold resume
  by_cases hx : left ≤ xs.length
  · have hxy : left ≤ (xs ++ ys).length := by
      rw [List.length_append]
      omega
    have hz : (xs.drop left).length ≤ xs.length := by simp
    simp only [hx, hxy, if_true, List.take_append_of_le_length hx, List.drop_append_of_le_length hx]
    exact ih _ _ hz ys
  · have htake : (xs ++ ys).take left = xs ++ ys.take (left - xs.length) := by
      rw [List.take_append, List.take_of_length_le (by omega)]
    have hdrop : (xs ++ ys).drop left = ys.drop (left - xs.length) := by
      rw [List.drop_append, List.drop_of_length_le (by omega), List.nil_append]
    by_cases hy : left - xs.length ≤ ys.length
    · have hxy : left ≤ (xs ++ ys).length := by
        rw [List.length_append]
        omega
      simp only [hx, hxy, hy, if_true, if_false, htake, hdrop, deliver_append]
    · have hxy : ¬ left ≤ xs.length + ys.length := by omega
      simp only [hx, hxy, hy, if_false, deliver_append, List.length_append, Nat.sub_sub]

theorem run_append (n : ℕ) : ∀ (d : Demux) (xs : List UInt8), xs.length ≤ n → ∀ ys,
    d.run live connected (xs ++ ys) =
      (d.run live connected xs).1.resume live connected ys (d.run live connected xs).2 := by
  induction n with
  | zero =>
    intro d xs hx ys
    have hnil : xs = [] := List.length_eq_zero_iff.mp (by omega)
    rw [hnil, run_nil]
    rfl
  | succ n ih =>
    intro d xs hx ys
    by_cases h : 20 ≤ xs.length
    · have hl : (xs.take 20).length = 20 := by simp [h]
      have ht : (xs ++ ys).take 20 = xs.take 20 := List.take_append_of_le_length h
      have hd : (xs ++ ys).drop 20 = xs.drop 20 ++ ys := List.drop_append_of_le_length h
      have hxy : 20 ≤ (xs ++ ys).length := by
        rw [List.length_append]
        omega
      have hle : (xs.drop 20).length ≤ n := by
        rw [List.length_drop]
        omega
      have hh : MuxFrameHeader.ofBytes ((xs ++ ys).take 20) (ht ▸ hl) = .ofBytes (xs.take 20) hl :=
        MuxFrameHeader.ofBytes_congr ht _ _
      rw [run_of_ge hxy (ht ▸ hl), run_of_ge h hl, hh, hd]
      split
      · exact ih _ _ hle ys
      · exact resume_payload_append (fun d zs hz => ih d zs (hz.trans hle)) ys
    · have hshort : d.run live connected xs = (d, .header xs) := run_of_lt (by omega)
      rw [hshort]
      rfl

/-- The reference may stop anywhere and go on. -/
theorem resume_append (d : Demux) (p : Position) (xs ys : List UInt8) :
    d.resume live connected (xs ++ ys) p =
      (d.resume live connected xs p).1.resume live connected ys (d.resume live connected xs p).2 := by
  cases p with
  | header filled =>
    have happ : d.run live connected (filled ++ xs ++ ys) =
        (d.run live connected (filled ++ xs)).1.resume live connected ys
          (d.run live connected (filled ++ xs)).2 := run_append _ d (filled ++ xs) le_rfl ys
    rw [List.append_assoc] at happ
    exact happ
  | payload owner left => exact resume_payload_append (fun d zs _ => run_append _ d zs le_rfl) ys

end
end Demux

end VtMuxer
