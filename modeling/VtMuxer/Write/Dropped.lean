import VtMuxer.Write.Shared

/-! What a dropped connection leaves on the shared stream. `Drop` finishes the frame that was
begun and sends the final one, except in the middle of a shutdown: there it returns at once
and gives the lock back, whatever was sent so far. -/
namespace VtMuxer
open Interaction

/-- The bytes of connection `i` on the stream are the messages `msgs`, each of them
uninterrupted by bytes of any other connection. -/
inductive Intact {ι : Type} (i : ι) : List (List UInt8) → List (Mark ι) → Prop where
  | nil : Intact i [] []
  | other {msgs : List (List UInt8)} {w : List (Mark ι)} (b : Mark ι) (hb : b.1 ≠ i)
      (h : Intact i msgs w) : Intact i msgs (w ++ [b])
  | message {msgs : List (List UInt8)} {w : List (Mark ι)} (m : List (Mark ι)) (hm : ∀ b ∈ m, b.1 = i)
      (h : Intact i msgs w) : Intact i (msgs ++ [m.map fun b => b.2.2]) (w ++ m)

section
variable {ι : Type} {i : ι} {msgs : List (List UInt8)} {w : List (Mark ι)}

theorem Intact.others (h : Intact i msgs w) {v : List (Mark ι)} (hv : ∀ b ∈ v, b.1 ≠ i) :
    Intact i msgs (w ++ v) := by
  induction v using List.reverseRecOn with
  | nil => simpa using h
  | append_singleton v b ih =>
    rw [← List.append_assoc]
    exact .other b (hv b (by simp)) (ih fun x hx => hv x (by simp [hx]))

theorem mem_stamp {j : ι} {o : Origin} {bytes : List UInt8} {b : Mark ι} (h : b ∈ stamp j o bytes) :
    b.1 = j := by
  obtain ⟨x, -, rfl⟩ := List.mem_map.mp h
  rfl

variable [DecidableEq ι]

theorem Intact.bytesOf (h : Intact i msgs w) : VtMuxer.bytesOf i w = msgs.flatten := by
  induction h with
  | nil => rfl
  | other b hb _ ih =>
    rw [bytesOf_append, ih]
    simp [VtMuxer.bytesOf, hb]
  | message m hm _ ih =>
    have hall : m.filter (fun b => b.1 = i) = m := List.filter_eq_self.mpr (by simpa using hm)
    rw [bytesOf_append, ih, VtMuxer.bytesOf, hall]
    simp

theorem Intact.stamps (i : ι) (segs : List (ι × Origin × List UInt8)) :
    Intact i ((messagesOf i segs).map Prod.snd) (VtMuxer.stamps segs) := by
  induction segs using List.reverseRecOn with
  | nil => exact .nil
  | append_singleton segs s ih =>
    obtain ⟨j, o, bytes⟩ := s
    rw [stamps_append, messagesOf_append, stamps_singleton]
    rcases eq_or_ne i j with rfl | hij
    · have hm := Intact.message (stamp i o bytes) (fun b hb => mem_stamp hb) ih
      simpa [stamp, Function.comp_def] using hm
    · rw [messagesOf_ne hij, List.append_nil]
      exact ih.others fun b hb => by rw [mem_stamp hb]; exact hij.symm

end

section
variable {ι : Type} [DecidableEq ι] {sockets : ι → SocketAddr} {P : Writers ι} {ops : WriteOp → Prop}
  {i : ι} {c : Conn}

/-- A message that is begun is the lock holder's. -/
theorem Laid.tail_other {w : List (Mark ι)} {m : ι → Conn} {g : ι → Sent} {segs : List (ι × Origin × List UInt8)}
    {tail : List (Mark ι)} (hl : Laid sockets w m g segs tail) (hfree : (m i).holds = false) :
    ∀ b ∈ tail, b.1 ≠ i := by
  by_cases hex : ∃ j, (m j).holds = true
  · obtain ⟨j, hj⟩ := hex
    intro b hb hbi
    rw [hl.held j hj] at hb
    rw [← hbi, mem_stamp hb, hj] at hfree
    cases hfree
  · rw [hl.free fun j => by simpa using fun hh => hex ⟨j, hh⟩]
    simp

end

end VtMuxer
