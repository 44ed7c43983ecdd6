import VtMuxer.Mux.Receiver
import VtMuxer.Read.EndOfStream
import VtMuxer.Write.Failing

/-! One side of a pipe: the shared reader, and a writer for every connection that was added or
accepted. An address is free again when the other side has closed its direction, whatever the
writer of the connection is doing. -/
namespace VtMuxer
open Interaction

/-- A `WriteInner` made by `make_writer`, and where the call on it stands. -/
structure Writer where
  addr : SocketAddr
  prog : Prog WriteQuery WriteResp Conn Outcome

namespace Writer

def accepted (addr : SocketAddr) : Writer := ⟨addr, .ret (.init addr) .new⟩

/-- The writer of `add_connection`, which begins with its handshake. -/
def dialed (addr : SocketAddr) : Writer := ⟨addr, WriteOp.handshake.body (.init addr)⟩

/-- Neither shut down to `Done` nor dropped. -/
def Live (w : Writer) : Prop := w.prog.mem.inner.state ≠ .shutdown .done ∧ w.prog.mem.last = none

/-- Shut down to `Done`, or dropped and the task spawned by that has ended. -/
def Spent (w : Writer) : Prop :=
  ∃ c r, w.prog = .ret c r ∧ (c.inner.state = .shutdown .done ∨ r = .dropped ∧ c.last ≠ none)

end Writer

/-- The calls on a connection that `add_connection` or `accept` has returned, and the drop of
one whose handshake has failed. -/
def Outcome.permits (r : Outcome) (op : WriteOp) : Prop :=
  r.may op ∧ op ≠ .handshake ∧ ∀ e, r = .handshake (.error e) → op = .drop

/-- The writers are kept under the numbers of their entries. -/
structure Endpoint where
  reader : Watched
  writers : ℕ → Option Writer
  wire : List (Mark ℕ)

namespace SharedReader

def received (s : SharedReader) : Move → Option (SocketAddr × ℕ)
  | .accept k hooked cx => (s.recvEntry k hooked cx).1
  | _ => none

/-- The writer that a move makes, and the number of its entry. -/
def made (s : SharedReader) : Move → Option (ℕ × Writer)
  | .add addr alloc =>
    match s.insert addr .noop .held alloc with
    | (.ok id, _) => some (id, .dialed addr)
    | (.error _, _) => none
  | m => (s.received m).map fun x => (x.2, .accepted x.1)

def Permits (s : SharedReader) (m : Move) : Prop :=
  s.Sane m ∧ (s.received m ≠ none → s.connected = true)

end SharedReader

namespace Endpoint

def init (connected : Bool) : Endpoint := ⟨.init connected, fun _ => none, []⟩

def shared (E : Endpoint) : SharedReader := E.reader.shared

def setWriter (E : Endpoint) (i : ℕ) (w : Writer) : Endpoint :=
  { E with writers := Function.update E.writers i (some w) }

/-- A move of the reader, with the writer that is made then. -/
def after (E : Endpoint) (m : Move) : Endpoint :=
  match E.shared.made m with
  | none => { E with reader := E.reader.after m }
  | some (id, w) => setWriter { E with reader := E.reader.after m } id w

/-- The writer of entry `i` goes on and sends the bytes. -/
def advance (E : Endpoint) (i : ℕ) (w : Writer) (o : Origin) (bytes : List UInt8) : Endpoint :=
  { E.setWriter i w with wire := E.wire ++ stamp i o bytes }

def Unlocked (E : Endpoint) : Prop := ∀ i w, E.writers i = some w → w.prog.mem.holds = false

/-- Everything that can happen at an endpoint, whatever its peer sends. -/
inductive Step (E : Endpoint) : Endpoint → Prop where
  | move (m : Move) (hm : E.shared.Permits m) : Step E (E.after m)
  | call (i : ℕ) (op : WriteOp) {a : SocketAddr} {c : Conn} {r : Outcome} (h : E.writers i = some ⟨a, .ret c r⟩)
      (hop : r.permits op) : Step E (E.setWriter i ⟨a, op.body c⟩)
  | answer (i : ℕ) {a : SocketAddr} {c : Conn} {q : WriteQuery} {k : WriteResp q → Prog WriteQuery WriteResp Conn Outcome}
      (h : E.writers i = some ⟨a, .ask c q k⟩) (r : WriteResp q) (hr : Fallible q r)
      (hl : granted ⟨q, r⟩ = true → E.Unlocked) : Step E (E.advance i ⟨a, k r⟩ c.origin (delivered q r))
  /-- The future of `add_connection` is dropped while its handshake waits. -/
  | cancel (i : ℕ) {a : SocketAddr} {c : Conn} {q : WriteQuery} {k : WriteResp q → Prog WriteQuery WriteResp Conn Outcome}
      (h : E.writers i = some ⟨a, .ask c q k⟩) (hq : (∃ b, q = .awaitLock b) ∨ ∃ bytes, q = .awaitWrite bytes)
      (hc : c.last = none) : Step E (E.setWriter i ⟨a, WriteOp.drop.body (c.setTask none)⟩)

def Reaches : Endpoint → Endpoint → Prop := Relation.ReflTransGen Step

def sent (E : Endpoint) (i : ℕ) : List (Mark ℕ) := E.wire.filter fun b => b.1 = i

/-- The connection of entry `i` sends nothing any more: its writer is spent, or there is none
and nobody can accept the connection. -/
def Over (E : Endpoint) (i : ℕ) : Prop :=
  i < E.shared.next ∧
    ((∃ w, E.writers i = some w ∧ w.Spent) ∨ E.writers i = none ∧ E.shared.connected = false)

/-- A step that makes no writer under an address while an earlier connection of the address goes on
here. -/
def Careful (E E' : Endpoint) : Prop :=
  E.Step E' ∧ ∀ i j w b, i < j → E.writers j = none → E'.writers j = some w →
    E.reader.since i = some (w.addr, b) → E.Over i

end Endpoint

theorem Writer.Spent.call {a : SocketAddr} {c : Conn} {r : Outcome} {op : WriteOp} (h : Writer.Spent ⟨a, .ret c r⟩)
    (hop : r.permits op) : Writer.Spent ⟨a, op.body c⟩ := by
  obtain ⟨c', r', heq, hsp⟩ := h
  obtain ⟨rfl, rfl⟩ : c = c' ∧ r = r' := by simpa using heq
  obtain ⟨hmay, hhand, -⟩ := hop
  have hdone : c.inner.state = .shutdown .done := by
    refine hsp.resolve_right fun hd => ?_
    rw [hd.1] at hmay
    exact hmay
  cases op with
  | handshake => exact absurd rfl hhand
  | write cx buf =>
    refine ⟨c, .write (.ready (.error (.ofKind .brokenPipe))), ?_, Or.inl hdone⟩
    simp [WriteOp.body, pollWrite, poisonOnPanic, hdone, Prog.onFault]
  | flush cx =>
    refine ⟨c, .flush (.ready (.error (.ofKind .brokenPipe))), ?_, Or.inl hdone⟩
    simp [WriteOp.body, pollFlush, poisonOnPanic, hdone, Prog.onFault]
  | shutdown cx =>
    refine ⟨c, .shutdown (.ready (.ok ())), ?_, Or.inl hdone⟩
    simp [WriteOp.body, pollShutdown, shutdownLoop, poisonOnPanic, hdone, Prog.onFault]
  | drop =>
    refine ⟨c.retire.setFut false, .dropped, ?_, Or.inr ⟨rfl, by simp⟩⟩
    simp [WriteOp.body, VtMuxer.drop, hdone]

theorem Writer.Spent.not_live {w : Writer} (h : w.Spent) : ¬ w.Live := by
  obtain ⟨c, r, hw, hsp⟩ := h
  rintro ⟨hne, hnone⟩
  rw [hw] at hne hnone
  rcases hsp with hd | ⟨-, hl⟩
  · exact hne hd
  · exact hl hnone

namespace SharedReader
section
variable {s : SharedReader} {m : Move}

theorem Turn.connected {cx : Waker} {t : Tick} {r : Poll (Except IoError Unit)} {s' : SharedReader}
    (h : Turn cx t s r s') : s'.connected = s.connected := by
  cases h with
  | @sending addr id polled => cases polled <;> simp [SharedReader.emit, SharedReader.setState, offer]
  | close => exact remove_connected _ _
  | @sent addr id polled => cases polled <;> simp [SharedReader.setState, offer]
  | unsent =>
    split
    · rfl
    · rfl
  | _ => rfl

theorem dropReceiver_connected (k : ℕ) (hooked : Bool) : (s.dropReceiver k hooked).connected = s.connected := by
  unfold dropReceiver
  split
  · rfl
  split
  · simp
  · rfl

theorem connected_perform (h : m ≠ .disconnect) : (s.perform m).connected = s.connected := by
  cases m with
  | once cx t => exact (s.pollOnce_turn cx t).connected
  | yield cx => rfl
  | read cx id n =>
    show (s.readEntry cx id n).2.connected = s.connected
    unfold readEntry
    dsimp only
    split
    · rfl
    split
    · rfl
    split <;> rfl
  | accept k hooked cx =>
    show (s.recvEntry k hooked cx).2.connected = s.connected
    unfold recvEntry
    split
    · unfold awaitItem
      split <;> rfl
    · exact dropReceiver_connected k hooked
  | leave k hooked => exact dropReceiver_connected k hooked
  | add addr alloc =>
    rcases s.perform_add addr alloc with heq | ⟨-, heq⟩
    · rw [heq]
    · rw [heq]
      rfl
  | release id => rfl
  | disconnect => exact absurd rfl h

theorem perform_connected (h : (s.perform m).connected = true) : s.connected = true := by
  by_cases hd : m = .disconnect
  · subst hd
    cases h
  · rw [← connected_perform hd]
    exact h

theorem perform_queue (hc : s.connected = true) :
    ∃ new, (s.received m).toList ++ ((s.perform m).chan ++ (s.perform m).unsent) = s.chan ++ s.unsent ++ new ∧
      Newest s (s.perform m) new ∧ (new = [] ∨ s.made m = none) ∧ (s.perform m).openings = s.openings ++ new := by
  have hopen : (s.perform m).traffic = s.traffic → (s.perform m).openings = s.openings ++ [] := by
    intro ht
    rw [openings_eq_traffic, openings_eq_traffic, ht, List.append_nil]
  have hstay : s.received m = none → (s.perform m).chan = s.chan → (s.perform m).state = s.state →
      (s.perform m).traffic = s.traffic →
      ∃ new, (s.received m).toList ++ ((s.perform m).chan ++ (s.perform m).unsent) = s.chan ++ s.unsent ++ new ∧
        Newest s (s.perform m) new ∧ (new = [] ∨ s.made m = none) ∧ (s.perform m).openings = s.openings ++ new := by
    intro hr hch hst ht
    exact ⟨[], by simp [hr, hch, SharedReader.unsent, hst], Or.inl rfl, Or.inl rfl, hopen ht⟩
  cases m with
  | once cx t =>
    obtain ⟨new, ho, hq, hn⟩ := (s.pollOnce_turn cx t).opens hc
    exact ⟨new, hq, hn, Or.inr rfl, ho⟩
  | yield cx => exact hstay rfl rfl rfl (emit_traffic rfl s)
  | read cx id n =>
    have hcalm := Calm.readEntry s cx id n
    exact hstay rfl (s.readEntry_frame cx id n).2.2.1 hcalm.state hcalm.traffic
  | accept k hooked cx =>
    obtain ⟨-, -, hch, -⟩ := s.recvEntry_frame k hooked cx
    have hcalm := Calm.recvEntry s k hooked cx
    refine ⟨[], ?_, Or.inl rfl, Or.inl rfl, hopen hcalm.traffic⟩
    have hun : (s.recvEntry k hooked cx).2.unsent = s.unsent := by simp only [SharedReader.unsent, hcalm.state]
    rw [List.append_nil, ← hch, List.append_assoc, ← hun]
    rfl
  | leave k hooked =>
    have hcalm := Calm.dropReceiver s k hooked
    exact hstay rfl (s.dropReceiver_frame k hooked).2.2.1 hcalm.state hcalm.traffic
  | add addr alloc =>
    rcases s.perform_add addr alloc with heq | ⟨-, heq⟩
    · exact hstay rfl (by rw [heq]) (by rw [heq]) (by rw [heq])
    · exact hstay rfl (by rw [heq]; rfl) (by rw [heq]; rfl) (by rw [heq]; rfl)
  | release id => exact hstay rfl rfl rfl rfl
  | disconnect => exact hstay rfl rfl rfl rfl

theorem mem_chan_of_received {x : SocketAddr × ℕ} (h : s.received m = some x) : x ∈ s.chan := by
  cases m with
  | accept k hooked cx =>
    obtain ⟨-, -, hch, -⟩ := s.recvEntry_frame k hooked cx
    have hr : (s.recvEntry k hooked cx).1 = some x := h
    rw [hr] at hch
    rw [← hch]
    exact List.mem_cons_self
  | _ => cases h

theorem made_add {addr : SocketAddr} {alloc : Bool} {id : ℕ} {w : Writer}
    (h : s.made (.add addr alloc) = some (id, w)) :
    id = s.next ∧ w = .dialed addr ∧ s.perform (.add addr alloc) = s.add addr .noop .held := by
  unfold made insert at h
  unfold perform insert
  cases hm : s.socketMap addr with
  | some j => simp [hm] at h
  | none =>
    cases alloc with
    | false => simp [hm] at h
    | true =>
      simp only [hm, if_true, Option.some.injEq, Prod.mk.injEq] at h
      exact ⟨h.1.symm, h.2.symm, by simp [hm]⟩

/-- A writer is made for a new entry, or for one that comes from the channel. -/
theorem made_cases {id : ℕ} {w : Writer} (h : s.made m = some (id, w)) :
    (∃ addr alloc, m = .add addr alloc ∧ id = s.next ∧ w = .dialed addr ∧
      s.perform (.add addr alloc) = s.add addr .noop .held) ∨
    ∃ a, s.received m = some (a, id) ∧ w = .accepted a := by
  cases m with
  | add addr alloc => exact Or.inl ⟨addr, alloc, rfl, made_add h⟩
  | accept k hooked cx =>
    obtain ⟨⟨a, j⟩, hr, heq⟩ := Option.map_eq_some_iff.mp h
    obtain ⟨rfl, rfl⟩ := Prod.mk.inj heq
    exact Or.inr ⟨a, hr, rfl⟩
  | _ => cases h

end
end SharedReader

namespace Watched
section
variable {W : Watched} {m : Move} {i : ℕ} {a : SocketAddr} {b : Bool}

theorem since_after (h : W.since i = some (a, b)) (hi : i < W.shared.next) :
    (W.after m).since i = some (a, b || decide (Signal.zero a ∈ W.shared.said m)) := by
  simp [after, h, hi.ne]

theorem since_of_after (hi : i < W.shared.next) (h : (W.after m).since i = some (a, b)) :
    ∃ c, W.since i = some (a, c) := by
  have hne : i ≠ W.shared.next := hi.ne
  have hold : (W.since i).map (fun x => (x.1, x.2 || decide (Signal.zero x.1 ∈ W.shared.said m))) = some (a, b) := by
    simpa [after, hne] using h
  obtain ⟨⟨a', c⟩, hc, heq⟩ := Option.map_eq_some_iff.mp hold
  obtain ⟨rfl, -⟩ := Prod.mk.inj heq
  exact ⟨c, hc⟩

/-- A move adds at most one entry, and that under an address that was free. -/
theorem Exact.grows (h : W.Exact) (hs : W.shared.Sane m) :
    (W.shared.perform m).next = W.shared.next ∨
      ∃ a, W.shared.socketMap a = none ∧ (W.shared.perform m).next = W.shared.next + 1 ∧
        (W.after m).since W.shared.next = some (a, false) := by
  cases h.coherent.account hs with
  | silent hn => exact Or.inl hn
  | closed _ _ hn => exact Or.inl hn
  | unheard _ _ hn => exact Or.inl hn
  | opened hsaid hsub hk hn => exact Or.inr ⟨_, hk, hn, by simp [Watched.after, hn, hsub]⟩
  | added hadd hsaid hk hn =>
    refine Or.inr ⟨_, hk, hn, ?_⟩
    subst hadd
    simp [Watched.after, hn, SharedReader.subject]

theorem Exact.since_of_map (h : W.Exact) (hm : W.shared.socketMap a = some i) : W.since i = some (a, false) := by
  have hi := W.shared.allocated a i hm
  obtain ⟨⟨a', c⟩, hc⟩ := Option.ne_none_iff_exists'.mp (h.recorded i hi)
  obtain ⟨-, hopen, hclosed⟩ := h.known i a' c hc
  cases c with
  | true => exact absurd hm (hclosed rfl a)
  | false =>
    rw [hc, W.shared.distinct a' a i (hopen rfl) hm]

end
end Watched

namespace Endpoint
section
variable {E E' : Endpoint} {i : ℕ}

/-- Every writer is kept under an entry of its address. New sockets wait in the channel, each
once, and have none. -/
structure Tidy (E : Endpoint) : Prop where
  exact : E.reader.Exact
  owner : ∀ i w, E.writers i = some w → ∃ b, E.reader.since i = some (w.addr, b)
  queue : E.shared.connected = true → ((E.shared.chan ++ E.shared.unsent).map Prod.snd).Nodup ∧
    ∀ x ∈ E.shared.chan ++ E.shared.unsent, E.writers x.2 = none ∧ ∃ b, E.reader.since x.2 = some (x.1, b)

theorem Tidy.init (connected : Bool) : (Endpoint.init connected).Tidy where
  exact := .init connected
  owner _ _ h := by cases h
  queue _ := ⟨List.nodup_nil, fun _ h => by cases h⟩

theorem Tidy.lt (h : E.Tidy) {w : Writer} (hw : E.writers i = some w) : i < E.shared.next := by
  obtain ⟨b, hb⟩ := h.owner i w hw
  exact (h.exact.known i _ b hb).1

theorem Tidy.fresh (h : E.Tidy) : E.writers E.shared.next = none := by
  by_contra hne
  obtain ⟨w, hw⟩ := Option.ne_none_iff_exists'.mp hne
  exact absurd (h.lt hw) (lt_irrefl _)

theorem Step.move_or_advance (h : E.Step E') :
    (∃ m, E.shared.Permits m ∧ E' = E.after m) ∨
      ∃ i w w' o bytes, E.writers i = some w ∧ w'.addr = w.addr ∧ (w.Spent → w'.Spent ∧ bytes = []) ∧
        E' = E.advance i w' o bytes := by
  have hstill : ∀ j w, E.setWriter j w = E.advance j w .data [] := by
    intro j w
    simp [advance, Endpoint.setWriter]
  have hask : ∀ {a : SocketAddr} {c : Conn} {q : WriteQuery} {k : WriteResp q → Prog WriteQuery WriteResp Conn Outcome},
      ¬ Writer.Spent ⟨a, .ask c q k⟩ := by
    rintro a c q k ⟨c', r, hw, -⟩
    cases hw
  cases h with
  | move m hm => exact Or.inl ⟨m, hm, rfl⟩
  | @call i op a c r hi hop =>
    exact Or.inr ⟨i, _, ⟨a, op.body c⟩, _, _, hi, rfl, fun hs => ⟨hs.call hop, rfl⟩, hstill _ _⟩
  | @answer i a c q k hi r hr hl =>
    exact Or.inr ⟨i, _, ⟨a, k r⟩, _, _, hi, rfl, fun hs => absurd hs hask, rfl⟩
  | @cancel i a c q k hi hq hc =>
    exact Or.inr ⟨i, _, ⟨a, WriteOp.drop.body (c.setTask none)⟩, _, _, hi, rfl, fun hs => absurd hs hask, hstill _ _⟩

theorem Tidy.advance (h : E.Tidy) {w w' : Writer} (hw : E.writers i = some w) (ha : w'.addr = w.addr)
    (o : Origin) (bytes : List UInt8) : (E.advance i w' o bytes).Tidy where
  exact := h.exact
  owner j v hv := by
    rcases eq_or_ne j i with rfl | hne
    · obtain rfl : w' = v := by simpa [Endpoint.advance, Endpoint.setWriter] using hv
      rw [ha]
      exact h.owner j w hw
    · exact h.owner j v (by simpa [Endpoint.advance, Endpoint.setWriter, hne] using hv)
  queue hc := by
    refine ⟨(h.queue hc).1, fun x hx => ?_⟩
    obtain ⟨hnone, hs⟩ := (h.queue hc).2 x hx
    refine ⟨?_, hs⟩
    have hne : x.2 ≠ i := by
      intro heq
      rw [heq, hw] at hnone
      cases hnone
    simpa [Endpoint.advance, Endpoint.setWriter, hne] using hnone

section
variable {m : Move}

@[simp] theorem after_reader : (E.after m).reader = E.reader.after m := by
  unfold Endpoint.after
  split <;> rfl

@[simp] theorem after_shared : (E.after m).shared = E.shared.perform m := by
  unfold shared
  rw [after_reader]
  rfl

@[simp] theorem after_wire : (E.after m).wire = E.wire := by
  unfold Endpoint.after
  split <;> rfl

theorem after_writers_of_ne (h : ∀ j w, E.shared.made m = some (j, w) → i ≠ j) :
    (E.after m).writers i = E.writers i := by
  unfold Endpoint.after
  split
  · rfl
  · rename_i j w hm
    simp [Endpoint.setWriter, h j w hm]

theorem after_writers_made {w : Writer} (h : E.shared.made m = some (i, w)) : (E.after m).writers i = some w := by
  simp [Endpoint.after, h, Endpoint.setWriter]

theorem writers_after {w : Writer} (h : (E.after m).writers i = some w) :
    E.shared.made m = some (i, w) ∨ E.writers i = some w := by
  unfold Endpoint.after at h
  split at h
  · exact Or.inr h
  · rename_i j v hm
    rcases eq_or_ne i j with rfl | hne
    · obtain rfl : v = w := by simpa [Endpoint.setWriter] using h
      exact Or.inl hm
    · exact Or.inr (by simpa [Endpoint.setWriter, hne] using h)

/-- A writer is never made for an entry that has one. -/
theorem Tidy.made (h : E.Tidy) (hm : E.shared.Permits m) {w : Writer} (hi : E.shared.made m = some (i, w)) :
    E.writers i = none ∧ ∃ b, (E.after m).reader.since i = some (w.addr, b) := by
  have hx : (E.reader.after m).Exact := h.exact.after hm.1
  rw [after_reader]
  rcases SharedReader.made_cases hi with ⟨addr, alloc, rfl, rfl, rfl, hadd⟩ | ⟨a, hr, rfl⟩
  · refine ⟨h.fresh, false, hx.since_of_map ?_⟩
    show (E.shared.perform (.add addr alloc)).socketMap addr = some E.shared.next
    rw [hadd]
    exact Function.update_self _ _ _
  · have hc := hm.2 (by simp [hr])
    have hmem := List.mem_append_left E.shared.unsent (SharedReader.mem_chan_of_received hr)
    obtain ⟨hnone, b, hb⟩ := (h.queue hc).2 _ hmem
    exact ⟨hnone, _, Watched.since_after hb (h.exact.known _ _ _ hb).1⟩

theorem Tidy.after (h : E.Tidy) (hm : E.shared.Permits m) : (E.after m).Tidy where
  exact := by
    rw [after_reader]
    exact h.exact.after hm.1
  owner j w hw := by
    rcases writers_after hw with hmade | hold
    · exact (h.made hm hmade).2
    · obtain ⟨b, hb⟩ := h.owner j w hold
      rw [after_reader]
      exact ⟨_, Watched.since_after hb (h.lt hold)⟩
  queue hc' := by
    rw [after_shared] at hc' ⊢
    have hc := SharedReader.perform_connected hc'
    obtain ⟨new, hq, hnew, hmade, -⟩ := SharedReader.perform_queue (m := m) hc
    obtain ⟨hnodup, hold⟩ := h.queue hc
    have hlt : ∀ x ∈ E.shared.chan ++ E.shared.unsent, x.2 < E.shared.next := by
      intro x hx
      obtain ⟨-, b, hb⟩ := hold x hx
      exact (h.exact.known _ _ _ hb).1
    have hall : (((E.shared.received m).toList ++ ((E.shared.perform m).chan ++ (E.shared.perform m).unsent)).map
        Prod.snd).Nodup := by
      rw [hq, List.map_append]
      rcases hnew with rfl | ⟨a, rfl, -, -⟩
      · simpa using hnodup
      · refine List.nodup_append.mpr ⟨hnodup, by simp, ?_⟩
        intro j hj k hk
        obtain ⟨x, hx, rfl⟩ := List.mem_map.mp hj
        obtain rfl : k = E.shared.next := by simpa using hk
        exact (hlt x hx).ne
    rw [List.map_append] at hall
    obtain ⟨-, hstay, hapart⟩ := List.nodup_append.mp hall
    refine ⟨hstay, fun x hx => ?_⟩
    have hx' : x ∈ E.shared.chan ++ E.shared.unsent ++ new := by
      rw [← hq]
      exact List.mem_append_right _ hx
    rcases List.mem_append.mp hx' with hin | hin
    · obtain ⟨hnone, b, hb⟩ := hold x hin
      rw [after_reader]
      refine ⟨?_, _, Watched.since_after hb (hlt x hin)⟩
      rw [after_writers_of_ne, hnone]
      intro j w hj
      rcases SharedReader.made_cases hj with ⟨-, -, -, rfl, -⟩ | ⟨a, hr, -⟩
      · exact (hlt x hin).ne
      · refine (hapart j ?_ x.2 (List.mem_map_of_mem hx)).symm
        simp [hr]
    · rcases hnew with rfl | ⟨a, rfl, hn, hmap⟩
      · cases hin
      · have hnone : E.shared.made m = none := hmade.resolve_left (by simp)
        obtain rfl : x = (a, E.shared.next) := by simpa using hin
        rw [after_writers_of_ne (by simp [hnone]), after_reader]
        exact ⟨h.fresh, false, (h.exact.after hm.1).since_of_map hmap⟩

end

theorem Tidy.step (h : E.Tidy) (hs : E.Step E') : E'.Tidy := by
  rcases hs.move_or_advance with ⟨m, hm, rfl⟩ | ⟨j, w, w', o, bytes, hj, ha, -, rfl⟩
  · exact h.after hm
  · exact h.advance hj ha o bytes

/-- A connection that is over stays so and sends nothing. -/
theorem Over.step (h : E.Over i) (ht : E.Tidy) (hs : E.Step E') : E'.Over i ∧ E'.sent i = E.sent i := by
  obtain ⟨hlt, hover⟩ := h
  rcases hs.move_or_advance with ⟨m, hm, rfl⟩ | ⟨j, w, w', o, bytes, hj, -, hsp, rfl⟩
  · have hnext : E.shared.next ≤ (E.shared.perform m).next := by
      rcases ht.exact.grows hm.1 with hn | ⟨-, -, hn, -⟩
      · exact hn.ge
      · exact hn.ge.trans' (Nat.le_succ _)
    refine ⟨⟨?_, ?_⟩, ?_⟩
    · rw [after_shared]
      omega
    · rcases hover with ⟨w, hw, hsp⟩ | ⟨hnone, hc⟩
      · left
        refine ⟨w, ?_, hsp⟩
        rw [after_writers_of_ne, hw]
        rintro j v hj rfl
        rw [(ht.made hm hj).1] at hw
        cases hw
      · right
        have hc' : (E.shared.perform m).connected = false := by
          by_contra hne
          rw [SharedReader.perform_connected (by simpa using hne)] at hc
          cases hc
        rw [after_shared]
        refine ⟨?_, hc'⟩
        rw [after_writers_of_ne, hnone]
        rintro j v hj rfl
        rcases SharedReader.made_cases hj with ⟨-, -, -, rfl, -⟩ | ⟨a, hr, -⟩
        · exact lt_irrefl _ hlt
        · rw [hm.2 (by simp [hr])] at hc
          cases hc
    · simp [sent]
  · rcases eq_or_ne i j with rfl | hne
    · obtain ⟨v, hv, hvs⟩ : ∃ v, E.writers i = some v ∧ v.Spent := by
        refine hover.resolve_right fun hn => ?_
        rw [hn.1] at hj
        cases hj
      obtain rfl : w = v := Option.some.inj (hj.symm.trans hv)
      obtain ⟨hw', rfl⟩ := hsp hvs
      refine ⟨⟨hlt, Or.inl ⟨w', by simp [Endpoint.advance, Endpoint.setWriter], hw'⟩⟩, ?_⟩
      simp [sent, Endpoint.advance]
    · have hsame : (E.advance j w' o bytes).writers i = E.writers i := by
        simp [Endpoint.advance, Endpoint.setWriter, hne]
      refine ⟨⟨hlt, by rw [hsame]; exact hover⟩, ?_⟩
      simp [sent, Endpoint.advance, stamp, List.filter_map, Function.comp_def, hne.symm]

theorem Tidy.reaches (h : E.Tidy) (hr : E.Reaches E') : E'.Tidy := by
  induction hr with
  | refl => exact h
  | tail _ hs ih => exact ih.step hs

theorem Over.reaches (h : E.Over i) (ht : E.Tidy) (hr : E.Reaches E') : E'.Over i ∧ E'.sent i = E.sent i := by
  induction hr with
  | refl => exact ⟨h, rfl⟩
  | tail hr hs ih =>
    obtain ⟨hover, hsent⟩ := ih
    obtain ⟨hover', hsent'⟩ := hover.step (ht.reaches hr) hs
    exact ⟨hover', hsent'.trans hsent⟩

/-- Of the connections of an address that have a writer all but the newest are over. -/
def Sole (E : Endpoint) : Prop :=
  ∀ i j w b, i < j → E.writers j = some w → E.reader.since i = some (w.addr, b) → E.Over i

/-- What was there before a step: a writer of the same address, or none, and the entries below it. -/
theorem Tidy.before (h : E.Tidy) (hs : E.Step E') {j : ℕ} {w : Writer} (hw : E'.writers j = some w) :
    (∀ v, E.writers j = some v → v.addr = w.addr) ∧
      ∀ i a b, i < j → E'.reader.since i = some (a, b) → ∃ c, E.reader.since i = some (a, c) := by
  rcases hs.move_or_advance with ⟨m, hm, rfl⟩ | ⟨k, v, v', o, bytes, hk, ha, -, rfl⟩
  · rw [after_reader]
    rcases writers_after hw with hmade | hold
    · have hj : j ≤ E.shared.next := by
        rcases SharedReader.made_cases hmade with ⟨-, -, -, rfl, -⟩ | ⟨a, hr, -⟩
        · exact le_rfl
        · have hmem := List.mem_append_left E.shared.unsent (SharedReader.mem_chan_of_received hr)
          obtain ⟨-, b, hb⟩ := (h.queue (hm.2 (by simp [hr]))).2 _ hmem
          exact (h.exact.known _ _ _ hb).1.le
      refine ⟨fun v hv => ?_, fun i a b hij hi => Watched.since_of_after (hij.trans_le hj) hi⟩
      rw [(h.made hm hmade).1] at hv
      cases hv
    · refine ⟨fun v hv => ?_, fun i a b hij hi => Watched.since_of_after (hij.trans (h.lt hold)) hi⟩
      rw [Option.some.inj (hv.symm.trans hold)]
  · refine ⟨fun u hu => ?_, fun i a b _ hi => ⟨b, hi⟩⟩
    rcases eq_or_ne j k with rfl | hne
    · obtain rfl : v' = w := by simpa [Endpoint.advance, Endpoint.setWriter] using hw
      rw [ha, Option.some.inj (hu.symm.trans hk)]
    · have hold : E.writers j = some w := by simpa [Endpoint.advance, Endpoint.setWriter, hne] using hw
      rw [Option.some.inj (hu.symm.trans hold)]

theorem Sole.step (h : E.Sole) (ht : E.Tidy) (hs : E.Careful E') : E'.Sole := by
  obtain ⟨hstep, hcareful⟩ := hs
  intro i j w b hij hw hi
  obtain ⟨haddr, hentry⟩ := ht.before hstep hw
  obtain ⟨c, hc⟩ := hentry i w.addr b hij hi
  have hover : E.Over i := by
    cases hj : E.writers j with
    | none => exact hcareful i j w c hij hj hw hc
    | some v =>
      rw [← haddr v hj] at hc
      exact h i j v c hij hj hc
  exact (hover.step ht hstep).1

/-- In every run in which no writer is made under an address while an earlier connection of the address
goes on here, no two writers of one address are live, and as soon as a connection has a writer
nothing is sent on an earlier one of its address, whatever happens then. -/
theorem one_live_writer {connected : Bool} (h : Relation.ReflTransGen Careful (init connected) E) :
    (∀ i j w v, E.writers i = some w → E.writers j = some v → w.addr = v.addr → w.Live → v.Live → i = j) ∧
    ∀ i j w b, i < j → E.writers j = some w → E.reader.since i = some (w.addr, b) →
      ∀ E', E.Reaches E' → E'.sent i = E.sent i := by
  have hall : E.Tidy ∧ E.Sole := by
    induction h with
    | refl => exact ⟨.init connected, fun i j w b _ hw => by cases hw⟩
    | tail _ hs ih => exact ⟨ih.1.step hs.1, ih.2.step ih.1 hs⟩
  obtain ⟨ht, hsole⟩ := hall
  have hone : ∀ i j w v, E.writers i = some w → E.writers j = some v → w.addr = v.addr → w.Live → ¬ i < j := by
    intro i j w v hi hj ha hlive hij
    obtain ⟨b, hb⟩ := ht.owner i w hi
    rw [ha] at hb
    rcases (hsole i j v b hij hj hb).2 with ⟨w', hw', hsp⟩ | ⟨hnone, -⟩
    · obtain rfl : w = w' := Option.some.inj (hi.symm.trans hw')
      exact hsp.not_live hlive
    · rw [hi] at hnone
      cases hnone
  refine ⟨?_, ?_⟩
  · intro i j w v hi hj ha hw hv
    have hle := hone i j w v hi hj ha hw
    have hge := hone j i v w hj hi ha.symm hv
    omega
  · intro i j w b hij hj hi E' hr
    exact ((hsole i j w b hij hj hi).reaches ht hr).2

end

section
variable {E : Endpoint}

theorem Careful.advance (i : ℕ) {w w' : Writer} (hi : E.writers i = some w) {o : Origin} {bytes : List UInt8}
    (hs : E.Step (E.advance i w' o bytes)) : E.Careful (E.advance i w' o bytes) := by
  refine ⟨hs, fun _ j v _ _ hnone hj _ => ?_⟩
  rcases eq_or_ne j i with rfl | hne
  · rw [hi] at hnone
    cases hnone
  · have hold : E.writers j = some v := by simpa [Endpoint.advance, Endpoint.setWriter, hne] using hj
    rw [hnone] at hold
    cases hold

theorem Careful.call (i : ℕ) (op : WriteOp) {a : SocketAddr} {c : Conn} {r : Outcome}
    (h : E.writers i = some ⟨a, .ret c r⟩) (hop : r.permits op) : E.Careful (E.setWriter i ⟨a, op.body c⟩) := by
  have hstill : E.setWriter i ⟨a, op.body c⟩ = E.advance i ⟨a, op.body c⟩ .data [] := by
    simp [Endpoint.advance, Endpoint.setWriter]
  have hstep := Step.call i op h hop
  rw [hstill] at hstep ⊢
  exact .advance i h hstep

theorem Careful.answer (i : ℕ) (x : Sigma WriteResp) {a : SocketAddr} {c : Conn}
    {k : WriteResp x.1 → Prog WriteQuery WriteResp Conn Outcome} (h : E.writers i = some ⟨a, .ask c x.1 k⟩)
    (hr : Fallible x.1 x.2) (hl : granted x = true → E.Unlocked) :
    E.Careful (E.advance i ⟨a, k x.2⟩ c.origin (delivered x.1 x.2)) := .advance i h (.answer i h x.2 hr hl)

theorem Careful.idle (m : Move) (hm : E.shared.Permits m) (h : E.shared.made m = none) : E.Careful (E.after m) := by
  refine ⟨.move m hm, fun _ j v _ _ hnone hj _ => ?_⟩
  rw [after_writers_of_ne (by simp [h]), hnone] at hj
  cases hj

theorem Careful.make (m : Move) (hm : E.shared.Permits m) {j : ℕ} {w : Writer} (h : E.shared.made m = some (j, w))
    (hover : ∀ i b, i < j → E.reader.since i = some (w.addr, b) → E.Over i) : E.Careful (E.after m) := by
  refine ⟨.move m hm, fun i k v b hik hnone hk hi => ?_⟩
  rcases writers_after hk with hmade | hold
  · obtain ⟨rfl, rfl⟩ := Prod.mk.inj (Option.some.inj (h.symm.trans hmade))
    exact hover i b hik hi
  · rw [hnone] at hold
    cases hold

end

theorem unlocked_of_two {E : Endpoint} (h0 : ((E.writers 0).all fun w => !w.prog.mem.holds) = true)
    (h1 : ((E.writers 1).all fun w => !w.prog.mem.holds) = true) (h2 : ∀ i, E.writers (i + 2) = none) :
    E.Unlocked := by
  intro i w hw
  match i with
  | 0 => simpa [hw] using h0
  | 1 => simpa [hw] using h1
  | i + 2 =>
    rw [h2 i] at hw
    cases hw

/-- The peer has opened a connection, which was accepted, and has closed it. -/
def halfClosed : Endpoint :=
  ((((init true).after (.once .noop (.bytes (frame .unspecified [])))).after (.once .noop (.bytes []))).after
    (.accept 0 false .noop)).after (.once .noop (.bytes (frame .unspecified [])))

theorem careful_halfClosed : Relation.ReflTransGen Careful (init true) halfClosed := by
  have hwithin : ∀ s : SharedReader, s.requested = some 20 → s.Within (.bytes (frame .unspecified [])) :=
    fun s hs => .bytes hs (by decide)
  exact .head (.idle (.once .noop (.bytes (frame .unspecified []))) ⟨hwithin _ rfl, nofun⟩ rfl) <|
    .head (.idle (.once .noop (.bytes [])) ⟨nofun, nofun⟩ rfl) <|
    .head (.make (.accept 0 false .noop) ⟨trivial, fun _ => rfl⟩ rfl fun i _ hi => absurd hi (Nat.not_lt_zero i)) <|
    .head (.idle (.once .noop (.bytes (frame .unspecified []))) ⟨hwithin _ rfl, nofun⟩ rfl) .refl

theorem reaches_halfClosed : (init true).Reaches halfClosed :=
  careful_halfClosed.lift id fun _ _ h => h.1

/-- The peer opens the address again while its writer is live, which is then shut down before the new
connection is accepted. -/
theorem one_live_writer_again :
    ∃ E w v, Relation.ReflTransGen Careful (init true) E ∧ E.writers 0 = some w ∧ E.writers 1 = some v ∧
      w.addr = v.addr ∧ v.Live ∧ ∀ E', E.Reaches E' → E'.sent 0 = E.sent 0 := by
  have hrun : ∃ E w v, Relation.ReflTransGen Careful (init true) E ∧ E.writers 0 = some w ∧ E.writers 1 = some v ∧
      w.addr = v.addr ∧ v.Live ∧ E.reader.since 0 = some (.unspecified, true) ∧ v.addr = .unspecified := by
    refine ⟨_, _, _, careful_halfClosed.trans <|
      .head (.idle (.once .noop (.bytes (frame .unspecified []))) ⟨.bytes (n := 20) rfl (by decide), nofun⟩ rfl) <|
      .head (.idle (.once .noop (.bytes [])) ⟨nofun, nofun⟩ rfl) <|
      .head (.call 0 (.shutdown .noop) rfl ⟨trivial, nofun, nofun⟩) <|
      .head (.answer 0 ⟨.tryLock, true⟩ rfl trivial fun _ => unlocked_of_two rfl rfl fun _ => rfl) <|
      .head (.answer 0 ⟨.write (frame .unspecified []), .ready (.ok 20)⟩ rfl ?_ nofun) <|
      .head (.make (.accept 0 false .noop) ⟨trivial, fun _ => rfl⟩ rfl ?_) .refl, rfl, rfl, rfl, ⟨nofun, rfl⟩, rfl, rfl⟩
    · exact (by decide : 20 ≤ 20)
    · intro i b hi _
      obtain rfl : i = 0 := Nat.lt_one_iff.mp hi
      exact ⟨by decide, Or.inl ⟨_, rfl, _, _, rfl, Or.inl rfl⟩⟩
  obtain ⟨E, w, v, hE, hw, hv, ha, hlive, h0, h1⟩ := hrun
  exact ⟨E, w, v, hE, hw, hv, ha, hlive, (one_live_writer hE).2 0 1 v _ Nat.zero_lt_one hv (h1 ▸ h0)⟩

/-- The peer opens and closes a connection, and the address is added here while the writer of that
connection is live: the call returns `Ok`, and then the first writer sends its final frame. -/
theorem two_live_writers :
    ∃ E E' w v c, (init true).Reaches E ∧ E.writers 0 = some w ∧ E.writers 1 = some v ∧ w.addr = v.addr ∧
      w.Live ∧ v.Live ∧ v.prog = .ret c (.handshake (.ok ())) ∧ E.Reaches E' ∧ E'.sent 0 ≠ E.sent 0 ∧
      ∃ P : Writers Unit, (VtMuxer.writers Unit fun _ => True).Reaches (Writers.init fun _ => .unspecified) P ∧
        plain P.world = E.shared.consumed := by
  refine ⟨_, _, _, _, _, reaches_halfClosed.trans <|
    .head (.move (.add .unspecified true) ⟨trivial, nofun⟩) <|
    .head (Careful.answer 1 ⟨.awaitLock false, ()⟩ rfl trivial fun _ => unlocked_of_two rfl rfl fun _ => rfl).1 <|
    .head (Careful.answer 1 ⟨.awaitWrite (frame .unspecified []), .ok 20⟩ rfl ?_ nofun).1 .refl,
    rfl, rfl, rfl, ⟨nofun, rfl⟩, ⟨nofun, rfl⟩, rfl,
    .head (.call 0 (.shutdown .noop) rfl ⟨trivial, nofun, nofun⟩) <|
    .head (Careful.answer 0 ⟨.tryLock, true⟩ rfl trivial fun _ => unlocked_of_two rfl rfl fun _ => rfl).1 <|
    .head (Careful.answer 0 ⟨.write (frame .unspecified []), .ready (.ok 20)⟩ rfl ?_ nofun).1 .refl, ?_, ?_⟩
  · exact (by decide : 20 ≤ 20)
  · exact (by decide : 20 ≤ 20)
  · decide +kernel
  · refine ⟨_, .call () .handshake rfl ⟨trivial, trivial⟩ <|
      .answer () ⟨.awaitLock false, ()⟩ rfl ⟨trivial, fun _ _ => rfl⟩ <|
      .answer () ⟨.awaitWrite (frame .unspecified []), .ok 20⟩ rfl ⟨⟨by decide, by decide⟩, nofun⟩ <|
      .call () (.shutdown .noop) rfl ⟨nofun, trivial⟩ <|
      .answer () ⟨.tryLock, true⟩ rfl ⟨trivial, fun _ _ => rfl⟩ <|
      .answer () ⟨.write (frame .unspecified []), .ready (.ok 20)⟩ rfl ⟨⟨by decide, by decide⟩, nofun⟩ .refl, rfl⟩

end Endpoint

end VtMuxer
