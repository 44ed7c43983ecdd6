import VtMuxer.Write.Dropped
import VtMuxer.Read.Scan

/-! The stream that finished connections leave, as a listener hears it: each address opens,
says what was pushed, and closes. -/
namespace VtMuxer
open Interaction

/-- How far one address has come. -/
inductive Phase where
  | silent
  | talking (said : List UInt8)
  | closed (said : List UInt8)
  deriving DecidableEq, Repr

namespace Phase

def said : Phase → List UInt8
  | silent => []
  | talking said => said
  | closed said => said

/-- One more signal, where an address opens and closes at most once. -/
def hear (a : SocketAddr) (ph : Phase) (g : Signal) : Option Phase :=
  if g.addr = a then
    match ph, g with
    | silent, .zero _ => some (talking [])
    | talking said, .data _ b => some (talking (said ++ [b]))
    | talking said, .zero _ => some (closed said)
    | _, _ => none
  else some ph

def hears (a : SocketAddr) (ph : Phase) : List Signal → Option Phase
  | [] => some ph
  | g :: rest => (ph.hear a g).bind fun ph' => ph'.hears a rest

section
variable {a : SocketAddr} {ph ph' : Phase}

theorem hears_append (ph : Phase) (xs ys : List Signal) :
    ph.hears a (xs ++ ys) = (ph.hears a xs).bind fun ph' => ph'.hears a ys := by
  induction xs generalizing ph with
  | nil => rfl
  | cons x xs ih =>
    simp only [List.cons_append, hears, ih]
    cases ph.hear a x <;> rfl

theorem hears_filter (ph : Phase) (l : List Signal) :
    (ph.hears a (l.filter fun g => g.addr = a)) = ph.hears a l := by
  induction l generalizing ph with
  | nil => rfl
  | cons g l ih =>
    by_cases hg : g.addr = a
    · simp only [List.filter_cons, hg, decide_true, if_true, hears, ih]
    · have hstep : ph.hear a g = some ph := by simp [hear, hg]
      simp only [List.filter_cons, hg, decide_false, Bool.false_eq_true, if_false, hears, hstep,
        Option.bind_some, ih]

theorem hears_data (said bs : List UInt8) :
    (talking said).hears a (bs.map (.data a)) = some (talking (said ++ bs)) := by
  induction bs generalizing said with
  | nil => simp [hears]
  | cons b bs ih =>
    have hstep : (talking said).hear a (.data a b) = some (talking (said ++ [b])) := by
      simp [hear, Signal.addr]
    rw [List.map_cons, hears, hstep, Option.bind_some, ih]
    simp

theorem hear_said {g : Signal} (h : ph.hear a g = some ph') : ph.said <+: ph'.said := by
  unfold hear at h
  split at h
  · split at h
    · exact List.nil_prefix
    · obtain rfl := Option.some.inj h
      exact List.prefix_append _ _
    · obtain rfl := Option.some.inj h
      exact List.prefix_rfl
    · cases h
  · obtain rfl := Option.some.inj h
    exact List.prefix_rfl

theorem hears_said {l : List Signal} (h : ph.hears a l = some ph') : ph.said <+: ph'.said := by
  induction l generalizing ph with
  | nil =>
    obtain rfl := Option.some.inj h
    exact List.prefix_rfl
  | cons g l ih =>
    obtain ⟨ph₁, hg, hl⟩ := Option.bind_eq_some_iff.mp h
    exact (hear_said hg).trans (ih hl)

theorem hears_closed {w : List UInt8} {l : List Signal} (h : (closed w).hears a l = some ph') :
    ph' = closed w := by
  induction l with
  | nil => exact (Option.some.inj h).symm
  | cons g l ih =>
    obtain ⟨ph₁, hg, hl⟩ := Option.bind_eq_some_iff.mp h
    have hsame : ph₁ = closed w := by
      unfold hear at hg
      split at hg
      · cases hg
      · exact (Option.some.inj hg).symm
    rw [hsame] at hl
    exact ih hl

theorem hears_silent {l : List Signal} (h : ph.hears a l = some silent) : ph = silent := by
  induction l generalizing ph with
  | nil => exact Option.some.inj h
  | cons g l ih =>
    obtain ⟨ph₁, hg, hl⟩ := Option.bind_eq_some_iff.mp h
    obtain rfl := ih hl
    unfold hear at hg
    split at hg
    · split at hg <;> simp at hg
    · exact Option.some.inj hg

end

end Phase

/-- What a frame says. -/
def spoken (a : SocketAddr) (p : List UInt8) : List Signal :=
  if p = [] then [.zero a] else p.map (.data a)

theorem addr_of_mem_spoken {a : SocketAddr} {p : List UInt8} {g : Signal} (h : g ∈ spoken a p) :
    g.addr = a := by
  unfold spoken at h
  split at h
  · rw [List.mem_singleton.mp h]
    rfl
  · obtain ⟨b, -, rfl⟩ := List.mem_map.mp h
    rfl

theorem headerBy_frame (a : SocketAddr) (p : List UInt8) :
    SharedReader.headerBy [] (MuxFrameHeader.mk a (.new p.length)).bytes = ⟨a, .new p.length⟩ := by
  have htake : ([] ++ (MuxFrameHeader.mk a (.new p.length)).bytes).take 20 =
      (MuxFrameHeader.mk a (.new p.length)).bytes := by
    rw [List.nil_append]
    exact List.take_of_length_le (by simp)
  rw [SharedReader.headerBy, htake, MuxFrameHeader.assumeInit, dif_pos (by simp)]
  exact MuxFrameHeader.ofBytes_bytes _

/-- A frame leads from one header to the next. -/
theorem scan_frame (a : SocketAddr) {p : List UInt8} (hp : p.length ≤ 65535) :
    (Position.header []).scan (frame a p) = (.header [], spoken a p) := by
  have hlen : (MuxFrameHeader.mk a (.new p.length)).len = p.length :=
    NetworkOrderU16.get_new (by omega)
  have hhead : (Position.header []).scan (MuxFrameHeader.mk a (.new p.length)).bytes =
      if p.length = 0 then (.header [], [.zero a]) else (.payload a p.length, []) := by
    have hne : (MuxFrameHeader.mk a (.new p.length)).bytes ≠ [] :=
      List.ne_nil_of_length_pos (by simp)
    rw [Position.scan_header hne (by simp), headerBy_frame, hlen]
    rfl
  rw [frame, Position.scan_append, hhead]
  unfold spoken
  by_cases hnil : p = []
  · simp [hnil]
  · have h0 : 0 < p.length := List.length_pos_iff.mpr hnil
    rw [if_neg h0.ne', if_neg hnil, Position.scan_payload h0 le_rfl]
    simp

variable {ι : Type}

def plain (w : List (Mark ι)) : List UInt8 := w.map fun b => b.2.2

theorem plain_stamps (segs : List (ι × Origin × List UInt8)) :
    plain (stamps segs) = segs.flatMap fun s => s.2.2 := by
  simp [plain, stamps, stamp, List.map_flatMap, Function.comp_def]

theorem scan_frames {sockets : ι → SocketAddr} {segs : List (ι × Origin × List UInt8)}
    (h : ∀ s ∈ segs, ∃ p : List UInt8, p.length ≤ 65535 ∧ s.2.2 = frame (sockets s.1) p) :
    (Position.header []).scan (segs.flatMap fun s => s.2.2) =
      (.header [], segs.flatMap fun s => spoken (sockets s.1) (s.2.2.drop 20)) := by
  induction segs with
  | nil => rfl
  | cons s segs ih =>
    obtain ⟨p, hp, hs⟩ := h s (by simp)
    have hrest := ih fun x hx => h x (by simp [hx])
    rw [List.flatMap_cons, List.flatMap_cons, Position.scan_append, hs, scan_frame _ hp]
    simp only [hrest, drop_frame]

section
variable [DecidableEq ι] {sockets : ι → SocketAddr} {P : Writers ι}

/-- What the messages of a stream say of one connection. -/
theorem filter_spoken (hinj : Function.Injective sockets) (i : ι)
    (segs : List (ι × Origin × List UInt8)) :
    ((segs.flatMap fun s => spoken (sockets s.1) (s.2.2.drop 20)).filter fun g => g.addr = sockets i) =
      (messagesOf i segs).flatMap fun m => spoken (sockets i) (m.2.drop 20) := by
  induction segs with
  | nil => rfl
  | cons s segs ih =>
    have hcons : messagesOf i (s :: segs) = messagesOf i [s] ++ messagesOf i segs :=
      messagesOf_append i [s] segs
    rw [List.flatMap_cons, List.filter_append, ih, hcons, List.flatMap_append]
    congr 1
    obtain ⟨j, m⟩ := s
    rcases eq_or_ne j i with rfl | hji
    · rw [messagesOf_self, List.filter_eq_self.mpr]
      · simp
      · intro g hg
        simpa using addr_of_mem_spoken hg
    · rw [messagesOf_ne hji.symm, List.filter_eq_nil_iff.mpr]
      · rfl
      · intro g hg
        have hne : sockets j ≠ sockets i := fun he => hji (hinj he)
        simpa [addr_of_mem_spoken hg] using hne

/-- What a finished connection says, from first to last. -/
theorem hears_history (a : SocketAddr) {ps : List (List UInt8)} (hps : ∀ p ∈ ps, p ≠ []) :
    Phase.silent.hears a ((history a true true ps).flatMap fun m => spoken a (m.2.drop 20)) =
      some (.closed ps.flatten) := by
  have hopen : Phase.silent.hear a (.zero a) = some (.talking []) := by simp [Phase.hear, Signal.addr]
  have hclose : ∀ w, (Phase.talking w).hears a [.zero a] = some (.closed w) := by
    intro w
    simp [Phase.hears, Phase.hear, Signal.addr]
  have hdata : (ps.flatMap fun p => spoken a p) = ps.flatten.map (.data a) := by
    rw [List.map_flatten, ← List.flatMap_def]
    refine List.flatMap_congr fun p hp => ?_
    rw [spoken, if_neg (hps p hp)]
  have hwords : ((history a true true ps).flatMap fun m => spoken a (m.2.drop 20)) =
      .zero a :: (ps.flatten.map (.data a) ++ [.zero a]) := by
    have hzero : spoken a [] = [.zero a] := rfl
    rw [← hdata]
    simp [history, hzero, List.flatMap_map]
  rw [hwords, Phase.hears, hopen, Option.bind_some, Phase.hears_append, Phase.hears_data,
    Option.bind_some, hclose, List.nil_append]

/-- Every connection had its handshake, and its last call was a shutdown that is complete. -/
def Finished (P : Writers ι) : Prop :=
  ∀ i, ∃ c, P.threads i = .ret c (.shutdown (.ready (.ok ()))) ∧ c.opened = true

/-- A byte string in which every connection opens, says its words and closes, and nobody
else says anything. -/
structure Speaks (sockets : ι → SocketAddr) (words : ι → List UInt8) (wire : List UInt8) : Prop where
  own : ∀ i, Phase.silent.hears (sockets i) ((Position.header []).scan wire).2 = some (.closed (words i))
  others : ∀ a, (∀ i, sockets i ≠ a) →
    Phase.silent.hears a ((Position.header []).scan wire).2 = some .silent

/-- A complete shutdown leaves a connection with everything it sent. -/
theorem shutdown_sends {drops : Prop} {c : Conn} {g : Sent}
    (h : Idle drops c (.shutdown (.ready (.ok ()))) g) :
    c.holds = false ∧ g.part = [] ∧ ∃ ps, Sends c g true ps ∧ ps.flatten = c.pushed := by
  obtain ⟨⟨ht, -, -, closed, ps, hse, hpu, hst⟩, hs⟩ := h
  rw [hs] at hst
  obtain ⟨rfl, hd, hp⟩ := hst
  refine ⟨by simp [Conn.holds, ht, hs, WritePipeState.guarded], hp, ps, hse, ?_⟩
  simpa [hd] using hpu

/-- Whatever the interleaving was, the stream of finished connections says for each of them
what was pushed on it. -/
theorem finished_speaks (hinj : Function.Injective sockets)
    (h : (writers ι (· ≠ .drop)).Reaches (Writers.init sockets) P) (hf : Finished P) :
    Speaks sockets (fun i => (P.mems i).pushed) (plain P.world) := by
  obtain ⟨g, hwp, segs, tail, hl⟩ := writers_hold h
  have hend : ∀ i, (P.mems i).opened = true ∧ (P.mems i).holds = false ∧ (g i).part = [] ∧
      ∃ ps, Sends (P.mems i) (g i) true ps ∧ ps.flatten = (P.mems i).pushed := by
    intro i
    obtain ⟨c, hd, ho⟩ := hf i
    have hmem : P.mems i = c := by simp [Pool.mems, hd, Prog.mem]
    have hg := hwp i
    rw [hd] at hg
    rw [hmem]
    exact ⟨ho, shutdown_sends hg.1⟩
  choose ho hn hp ps hse hpu using hend
  have hmsg : ∀ i, messagesOf i segs = history (sockets i) true true (ps i) := by
    intro i
    have hsock : (P.mems i).addr = sockets i := (hse i).socket.trans (hl.socket i)
    rw [hl.shown i, shown, if_pos (Or.inr (hp i)), (hse i).done, hsock, ho i]
  have htail : tail = [] := hl.free hn
  have hseg : ∀ s ∈ segs, ∃ p : List UInt8, p.length ≤ 65535 ∧ s.2.2 = frame (sockets s.1) p := by
    intro s hs
    have hmem := mem_messagesOf hs
    rw [hmsg] at hmem
    obtain ⟨p, hp, ⟨hin, -⟩ | ⟨rfl, -⟩⟩ := mem_history hmem
    · exact ⟨p, ((hse s.1).sizes p hin).2, hp⟩
    · exact ⟨[], by simp, hp⟩
  have hscan : ((Position.header []).scan (plain P.world)).2 =
      segs.flatMap fun s => spoken (sockets s.1) (s.2.2.drop 20) := by
    rw [hl.wire, htail, List.append_nil, plain_stamps, scan_frames hseg]
  constructor
  case own =>
    intro i
    rw [hscan, ← Phase.hears_filter, filter_spoken hinj, hmsg, ← hpu i]
    exact hears_history _ fun p hin => ((hse i).sizes p hin).1
  case others =>
    intro a ha
    have hnone : ((segs.flatMap fun s => spoken (sockets s.1) (s.2.2.drop 20)).filter
        fun g => g.addr = a) = [] := by
      rw [List.filter_eq_nil_iff]
      intro g hg
      obtain ⟨s, -, hgs⟩ := List.mem_flatMap.mp hg
      simpa [addr_of_mem_spoken hgs] using ha s.1
    rw [hscan, ← Phase.hears_filter, hnone]
    rfl

end

end VtMuxer
