import VtMuxer.Write.Calls

/-! The connections of a pipe share one stream under one mutex. Their calls interleave at
every answer of the mutex and of the socket, and each byte on the stream carries the
connection that wrote it and what it was written for. -/
namespace VtMuxer
open Interaction

variable {ι : Type}

/-- A byte of the stream, with the connection and the purpose it comes from. -/
abbrev Mark (ι : Type) := ι × Origin × UInt8

def stamp (i : ι) (o : Origin) (bytes : List UInt8) : List (Mark ι) := bytes.map fun b => (i, o, b)

def stamps (segs : List (ι × Origin × List UInt8)) : List (Mark ι) :=
  segs.flatMap fun s => stamp s.1 s.2.1 s.2.2

/-- The bytes that an answer puts on the stream. -/
def delivered : (q : WriteQuery) → WriteResp q → List UInt8
  | .write bytes, .ready (.ok n) => bytes.take n
  | .awaitWrite bytes, .ok n => bytes.take n
  | _, _ => []

/-- Connections that may be called to do `ops`, over a socket that does not fail and a
mutex that is granted to nobody while it is held. -/
def writers (ι : Type) (ops : WriteOp → Prop) :
    Machine ι WriteQuery WriteResp Conn Outcome WriteOp (List (Mark ι)) where
  body := WriteOp.body
  may a op := a.may op ∧ ops op
  allow m _ q r := Smooth q r ∧ (granted ⟨q, r⟩ = true → ∀ j, (m j).holds = false)
  emit w i c q r := w ++ stamp i c.origin (delivered q r)

abbrev Writers (ι : Type) := Pool ι WriteQuery WriteResp Conn Outcome (List (Mark ι))

def Writers.init (sockets : ι → SocketAddr) : Writers ι :=
  ⟨fun i => .ret (.init (sockets i)) .new, []⟩

@[simp] theorem stamps_nil : stamps ([] : List (ι × Origin × List UInt8)) = [] := rfl

@[simp] theorem stamps_append (a b : List (ι × Origin × List UInt8)) :
    stamps (a ++ b) = stamps a ++ stamps b := by simp [stamps]

@[simp] theorem stamps_singleton (i : ι) (o : Origin) (bytes : List UInt8) :
    stamps [(i, o, bytes)] = stamp i o bytes := by simp [stamps]

@[simp] theorem stamp_nil (i : ι) (o : Origin) : stamp i o [] = [] := rfl

theorem stamp_append (i : ι) (o : Origin) (a b : List UInt8) :
    stamp i o (a ++ b) = stamp i o a ++ stamp i o b := by simp [stamp]

section
variable [DecidableEq ι]

def messagesOf (i : ι) (segs : List (ι × Origin × List UInt8)) : List (Origin × List UInt8) :=
  (segs.filter fun s => s.1 = i).map Prod.snd

@[simp] theorem messagesOf_append (i : ι) (a b : List (ι × Origin × List UInt8)) :
    messagesOf i (a ++ b) = messagesOf i a ++ messagesOf i b := by simp [messagesOf]

@[simp] theorem messagesOf_self (i : ι) (s : Origin × List UInt8) :
    messagesOf i [(i, s)] = [s] := by simp [messagesOf]

theorem messagesOf_ne {i j : ι} (h : j ≠ i) (s : Origin × List UInt8) :
    messagesOf j [(i, s)] = [] := by simp [messagesOf, h.symm]

/-- The messages of a connection that stand finished, or given up, on the stream. -/
def shown (c : Conn) (g : Sent) : List (Origin × List UInt8) :=
  if c.holds = true ∨ g.part = [] then g.done else g.done ++ [(g.kind, g.part)]

/-- The stream is the messages `segs` and, if the lock is held, the message its holder has
begun. -/
structure Laid (sockets : ι → SocketAddr) (w : List (Mark ι)) (m : ι → Conn) (g : ι → Sent)
    (segs : List (ι × Origin × List UInt8)) (tail : List (Mark ι)) : Prop where
  wire : w = stamps segs ++ tail
  socket : ∀ i, (g i).socket = sockets i
  excl : ∀ i j, (m i).holds = true → (m j).holds = true → i = j
  shown : ∀ i, messagesOf i segs = shown (m i) (g i)
  held : ∀ i, (m i).holds = true → tail = stamp i (g i).kind (g i).part
  free : (∀ i, (m i).holds = false) → tail = []

def LaidOut (sockets : ι → SocketAddr) (w : List (Mark ι)) (m : ι → Conn) (g : ι → Sent) : Prop :=
  ∃ segs tail, Laid sockets w m g segs tail

section
variable {sockets : ι → SocketAddr} {w : List (Mark ι)} {m : ι → Conn} {g : ι → Sent}
  {segs : List (ι × Origin × List UInt8)} {tail : List (Mark ι)}

theorem LaidOut.move (h : LaidOut sockets w m g) (i : ι) (s' : Conn) (g' : Sent)
    (hso : g'.socket = (g i).socket) (hd : g'.done = (g i).done) (hp : g'.part = (g i).part)
    (hk : g'.kind = (g i).kind)
    (hh : s'.holds = true → (m i).holds = true ∨ (∀ j, (m j).holds = false) ∧ (g i).part = []) :
    LaidOut sockets w (Function.update m i s') (Function.update g i g') := by
  obtain ⟨segs, tail, h⟩ := h
  have hsock : ∀ j, (Function.update g i g' j).socket = sockets j := by
    intro j
    rcases eq_or_ne j i with rfl | hj
    · simpa [hso] using h.socket j
    · simpa [hj] using h.socket j
  by_cases heq : s'.holds = (m i).holds
  · have hsame : ∀ j, (Function.update m i s' j).holds = (m j).holds := by
      intro j
      rcases eq_or_ne j i with rfl | hj
      · simpa using heq
      · simp [hj]
    refine ⟨segs, tail, h.wire, hsock, ?_, ?_, ?_, ?_⟩
    · intro j k hj hk
      exact h.excl j k (hsame j ▸ hj) (hsame k ▸ hk)
    · intro j
      rw [h.shown j]
      rcases eq_or_ne j i with rfl | hj
      · simp [VtMuxer.shown, heq, hd, hp, hk]
      · simp [hj]
    · intro j hj
      rw [h.held j (hsame j ▸ hj)]
      rcases eq_or_ne j i with rfl | hj
      · simp [hk, hp]
      · simp [hj]
    · exact fun hn => h.free fun j => hsame j ▸ hn j
  cases hs' : s'.holds with
  | true =>
    obtain ⟨hfree, hpart⟩ := (hh hs').resolve_left fun hi => heq (hs'.trans hi.symm)
    have hheld : ∀ j, (Function.update m i s' j).holds = true → j = i := by
      intro j hj
      by_contra hne
      rw [Function.update_of_ne hne, hfree j] at hj
      cases hj
    refine ⟨segs, tail, h.wire, hsock, fun j k hj hk => (hheld j hj).trans (hheld k hk).symm, ?_, ?_, ?_⟩
    · intro j
      rw [h.shown j]
      rcases eq_or_ne j i with rfl | hj
      · simp [VtMuxer.shown, hpart, hp, hd]
      · simp [hj]
    · intro j hj
      obtain rfl := hheld j hj
      simp [h.free hfree, hp, hpart]
    · intro hn
      have := hn i
      simp [hs'] at this
  | false =>
    have hi : (m i).holds = true := by simpa [hs'] using heq
    have hfree : ∀ j, (Function.update m i s' j).holds = false := by
      intro j
      rcases eq_or_ne j i with rfl | hj
      · simpa using hs'
      · rw [Function.update_of_ne hj, Bool.eq_false_iff]
        exact fun hj' => hj (h.excl j i hj' hi)
    refine ⟨segs ++ (if (g i).part = [] then [] else [(i, (g i).kind, (g i).part)]), [], ?_, hsock,
      ?_, ?_, ?_, fun _ => rfl⟩
    · rw [h.wire, h.held i hi]
      by_cases hpart : (g i).part = []
      · simp [hpart]
      · simp [hpart]
    · intro j k hj
      simp [hfree j] at hj
    · intro j
      rw [messagesOf_append, h.shown j]
      rcases eq_or_ne j i with rfl | hj
      · by_cases hpart : (g j).part = []
        · simp [VtMuxer.shown, hi, hpart, hp, hd, messagesOf]
        · simp [VtMuxer.shown, hi, hpart, hp, hd, hk, hs']
      · by_cases hpart : (g i).part = []
        · simp [hj, hpart, messagesOf]
        · simp [hj, hpart, messagesOf_ne hj]
    · intro j hj
      simp [hfree j] at hj

theorem LaidOut.put (h : LaidOut sockets w m g) {i : ι} {o : Origin} (bytes : List UInt8) (n : ℕ)
    (hi : (m i).holds = true) (hk : (g i).part ≠ [] → (g i).kind = o) :
    LaidOut sockets (w ++ stamp i o (bytes.take n)) m (Function.update g i ((g i).put o bytes n)) := by
  obtain ⟨segs, tail, h⟩ := h
  have hsock : ∀ j, (Function.update g i ((g i).put o bytes n) j).socket = sockets j := by
    intro j
    rcases eq_or_ne j i with rfl | hj
    · simpa using h.socket j
    · simpa [hj] using h.socket j
  have htail : tail = stamp i o (g i).part := by
    rw [h.held i hi]
    by_cases hp : (g i).part = []
    · simp [hp]
    · rw [hk hp]
  have hshown : ∀ j, j ≠ i → messagesOf j segs =
      VtMuxer.shown (m j) (Function.update g i ((g i).put o bytes n) j) := by
    intro j hj
    rw [h.shown j, Function.update_of_ne hj]
  have hfree : (∀ j, (m j).holds = false) → False := by
    intro hn
    rw [hn i] at hi
    cases hi
  by_cases hn : n < bytes.length
  · refine ⟨segs, tail ++ stamp i o (bytes.take n), ?_, hsock, h.excl, ?_, ?_, fun hf => (hfree hf).elim⟩
    · rw [h.wire, List.append_assoc]
    · intro j
      rcases eq_or_ne j i with rfl | hj
      · rw [h.shown j]
        simp [VtMuxer.shown, hi, Sent.put, hn]
      · exact hshown j hj
    · intro j hj
      obtain rfl := h.excl j i hj hi
      simp [Sent.put, hn, htail, stamp_append]
  · refine ⟨segs ++ [(i, o, (g i).part ++ bytes)], [], ?_, hsock, h.excl, ?_, ?_, fun _ => rfl⟩
    · rw [h.wire, htail, stamps_append, stamps_singleton, stamp_append,
        List.take_of_length_le (by omega)]
      simp
    · intro j
      rw [messagesOf_append]
      rcases eq_or_ne j i with rfl | hj
      · rw [h.shown j]
        simp [VtMuxer.shown, hi, Sent.put, hn]
      · rw [messagesOf_ne hj, List.append_nil]
        exact hshown j hj
    · intro j hj
      obtain rfl := h.excl j i hj hi
      simp [Sent.put, hn]

end

section
variable {drops : Prop} {c : Conn} {g : Sent}

theorem Alive.socket (h : Alive c g) : c.addr = g.socket := by
  obtain ⟨-, -, -, _, _, hse, -⟩ := h
  exact hse.socket

/-- Wherever a connection stands, it keeps its address and holds the lock only if it was
granted. -/
theorem placed (h : Machine.At (framing drops) (Leaves drops) c g) :
    c.addr = g.socket ∧ (c.holds = true → g.held = true) := by
  have hal : Alive c g → c.addr = g.socket ∧ (c.holds = true → g.held = true) :=
    fun ha => ⟨ha.socket, ha.2.1⟩
  have hout : c.task = none → c.inner.state = .poisoned → c.holds = true → g.held = true := by
    intro ht hs hh
    simp [Conn.holds, ht, hs, WritePipeState.guarded] at hh
  rcases h with ⟨a, h, -⟩ | ⟨q, h⟩ | ⟨e, h⟩
  · unfold Idle at h
    split at h
    · exact hal h.1
    · obtain ⟨-, ht, hs, _, _, hse, -⟩ := h
      exact ⟨hse.socket, hout ht hs⟩
    · exact hal h.1
    · exact hal h.1
    · exact hal h
  · cases q with
    | tryLock => exact hal h
    | pollFut => exact hal h
    | write bytes => exact hal h.1
    | flush =>
      obtain ⟨-, -, hh, -, -, _, hse, -⟩ := h
      exact ⟨hse.socket, fun _ => hh⟩
    | awaitLock queued =>
      rcases h with ⟨ht, ⟨k, hs⟩, -, -, -, hso, -⟩ | ⟨-, ht, hs, -, -, _, hse⟩
      · exact ⟨hso, fun hh => by simp [Conn.holds, ht, hs, WritePipeState.guarded] at hh⟩
      · exact ⟨hse.socket, hout ht hs⟩
    | awaitWrite bytes =>
      rcases h with ⟨⟨_, -, -, -, hh, -⟩, -, -, -, -, -, hso, -⟩ |
        ⟨-, -, -, ⟨_, hse⟩, ⟨_, -, -, _, -, -, -, hh, -⟩ | ⟨_, -, -, -, hh, -⟩⟩
      · exact ⟨hso, fun _ => hh⟩
      · exact ⟨hse.socket, fun _ => hh⟩
      · exact ⟨hse.socket, fun _ => hh⟩
  · exact h.elim

/-- Bytes are offered under the lock, as the rest of the message begun. -/
theorem offers {bytes : List UInt8} {q : WriteQuery} (hq : q = .write bytes ∨ q = .awaitWrite bytes)
    (h : (framing drops).inv c q g) : c.holds = true ∧ (g.part ≠ [] → g.kind = c.origin) := by
  rcases hq with rfl | rfl
  · exact ⟨h.2, h.1.2.2.1⟩
  · have htask : ∀ {o : Origin} {l : List UInt8}, Awaits c g o l →
        c.holds = true ∧ (g.part ≠ [] → g.kind = c.origin) := by
      rintro o l ⟨rest, ht, -, -, -, hk⟩
      exact ⟨by simp [Conn.holds, ht], by simpa [Conn.origin, ht] using hk⟩
    rcases h with ⟨ha, -⟩ | ⟨-, -, -, -, ⟨_, -, -, ha⟩ | ha⟩
    · exact htask ha
    · exact htask ha
    · exact htask ha

/-- The lock is asked for between two messages. -/
theorem begins {q : WriteQuery} {r : WriteResp q} (hg : granted ⟨q, r⟩ = true)
    (h : (framing drops).inv c q g) (hn : c.holds = false) : g.part = [] := by
  have hal : Alive c g → g.part = [] := by
    intro ha
    rcases ha.between_or_inside with ⟨-, hp, -⟩ | ⟨hh, -⟩
    · exact hp
    · rw [hn] at hh
      cases hh
  cases q with
  | tryLock => exact hal h
  | pollFut => exact hal h
  | awaitLock queued =>
    rcases h with ⟨-, -, -, -, -, -, -, hp⟩ | ⟨-, -, -, -, hp, -⟩
    · exact hp
    · exact hp
  | _ => simp [granted] at hg

end

section
variable {sockets : ι → SocketAddr} {w : List (Mark ι)} {m : ι → Conn} {g : ι → Sent} {i : ι}
  {drops : Prop}

theorem LaidOut.quiet (h : LaidOut sockets w m g) {s' : Conn} {q : WriteQuery} {r : WriteResp q}
    (hinv : (framing drops).inv (m i) q (g i))
    (ha : granted ⟨q, r⟩ = true → ∀ j, (m j).holds = false)
    (hs : s'.holds = true → ((m i).holds || granted ⟨q, r⟩) = true) :
    LaidOut sockets (w ++ stamp i (m i).origin []) (Function.update m i s')
      (Function.update g i { g i with held := (m i).holds || granted ⟨q, r⟩ }) := by
  rw [stamp_nil, List.append_nil]
  refine h.move i s' _ rfl rfl rfl rfl fun hh => ?_
  by_cases hold : (m i).holds = true
  · exact Or.inl hold
  · have hgr : granted ⟨q, r⟩ = true := by simpa [hold] using hs hh
    exact Or.inr ⟨ha hgr, begins hgr hinv (by simpa using hold)⟩

theorem LaidOut.sent (h : LaidOut sockets w m g) (s' : Conn) (bytes : List UInt8) (n : ℕ)
    (hh : (m i).holds = true) (hk : (g i).part ≠ [] → (g i).kind = (m i).origin) :
    LaidOut sockets (w ++ stamp i (m i).origin (bytes.take n)) (Function.update m i s')
      (Function.update g i ({ g i with held := true }.put (m i).origin bytes n)) := by
  have hmark : LaidOut sockets w m (Function.update g i { g i with held := true }) := by
    simpa using h.move i (m i) { g i with held := true } rfl rfl rfl rfl Or.inl
  have hput : LaidOut sockets (w ++ stamp i (m i).origin (bytes.take n)) m
      (Function.update g i ({ g i with held := true }.put (m i).origin bytes n)) := by
    have hkind : (Function.update g i { g i with held := true } i).part ≠ [] →
        (Function.update g i { g i with held := true } i).kind = (m i).origin := by simpa using hk
    simpa using hmark.put bytes n hh hkind
  simpa using hput.move i s' ({ g i with held := true }.put (m i).origin bytes n) (by simp) (by simp)
    (by simp) (by simp) (fun _ => Or.inl hh)

end

theorem writers_sound (ops : WriteOp → Prop) (sockets : ι → SocketAddr) :
    (writers ι ops).Sound (framing (ops .drop)) (Leaves (ops .drop)) (LaidOut sockets) where
  call m i op a g hi hm := hi.1.wp_body hm.1 fun hd => hd ▸ hm.2
  ok _ _ _ _ ha := ha.1
  globCall w m g i s' hg _ hat := by
    refine hg.move i s' _ rfl rfl rfl rfl fun hh => Or.inl ?_
    simpa [framing] using (placed hat).2 hh
  globAnswer w m g i q r s' hg hinv ha hat := by
    have hheld := (placed hat).2
    cases q with
    | tryLock => exact hg.quiet hinv ha.2 hheld
    | pollFut => exact hg.quiet hinv ha.2 hheld
    | awaitLock _ => exact hg.quiet hinv ha.2 hheld
    | flush => exact hg.quiet hinv ha.2 hheld
    | write bytes =>
      rcases r with (e | n) | _
      · exact ha.1.elim
      · obtain ⟨hold, hk⟩ := offers (Or.inl rfl) hinv
        simpa [writers, framing, Sent.answer, delivered, hold] using hg.sent s' bytes n hold hk
      · exact hg.quiet hinv ha.2 hheld
    | awaitWrite bytes =>
      rcases r with e | n
      · exact ha.1.elim
      · obtain ⟨hold, hk⟩ := offers (Or.inr rfl) hinv
        simpa [writers, framing, Sent.answer, delivered, hold] using hg.sent s' bytes n hold hk

end

end VtMuxer
