import VtMuxer.Read.Race
import VtMuxer.Write.Wire

/-! One call of `add_connection`. The entry of its reader is in the map before the first await,
and nobody takes it out again when the handshake does not come to its end. -/
namespace VtMuxer
open Interaction

def sentBy (answers : List (Sigma WriteResp)) : List UInt8 := answers.flatMap fun x => delivered x.1 x.2

/-- A write of an async body that takes nothing. -/
def declined : Sigma WriteResp → Bool
  | ⟨.awaitWrite _, .ok 0⟩ => true
  | ⟨.awaitWrite _, .error _⟩ => true
  | _ => false

/-- What the surroundings do with one call: whether there is memory for it, what its handshake
is answered and whether its future is dropped then, what others send before the task spawned by
`drop` gets the lock, and what that task is answered. -/
structure Attempt where
  alloc : Bool
  answers : List (Sigma WriteResp)
  cancelled : Bool
  between : List UInt8
  task : List (Sigma WriteResp)

/-- What comes of a call: whether it returned `Ok`, the reader afterwards, and what is on the
stream since the call began. -/
structure Attempted where
  ok : Bool
  reader : SharedReader
  wire : List UInt8

namespace SharedReader

/-- What other tasks do with the reader while no frame without payload comes for the address. -/
def Meanwhile (addr : SocketAddr) : SharedReader → SharedReader → Prop :=
  Plays fun s m => ∀ cx t header bs id, m = .once cx t → ¬ s.Removes t header bs addr id

end SharedReader

/-- `MuxPipe::add_connection`. A call that does not return `Ok` drops its writer, and is judged
when the task spawned by that has finished, if the peer has not touched the address meanwhile. -/
inductive AddConnection (s : SharedReader) (addr : SocketAddr) (t : Attempt) : Attempted → Prop where
  | refused {s' : SharedReader} {e : IoError} (h : s.insert addr .noop .held t.alloc = (.error e, s')) :
      AddConnection s addr t ⟨false, s', []⟩
  | opened {s' s₁ : SharedReader} {id : ℕ} {c : Conn} (h : s.insert addr .noop .held t.alloc = (.ok id, s'))
      (hw : SharedReader.Plays (fun _ _ => True) s' s₁) (hc : t.cancelled = false)
      (hr : (handshake (.init addr)).Runs t.answers c (.ok ())) :
      AddConnection s addr t ⟨true, s₁, sentBy t.answers⟩
  | failed {s' s₁ s₂ : SharedReader} {id : ℕ} {c c' : Conn} {e : IoError}
      (h : s.insert addr .noop .held t.alloc = (.ok id, s')) (hw : s'.Meanwhile addr s₁) (hc : t.cancelled = false)
      (hr : (handshake (.init addr)).Runs t.answers c (.error e)) (hd : (drop c).Runs t.task c' ())
      (hw' : (s₁.release id).Meanwhile addr s₂) :
      AddConnection s addr t ⟨false, s₂, sentBy t.answers ++ t.between ++ sentBy t.task⟩
  | cancelled {s' s₁ s₂ : SharedReader} {id : ℕ} {c c' : Conn}
      (h : s.insert addr .noop .held t.alloc = (.ok id, s')) (hw : s'.Meanwhile addr s₁) (hc : t.cancelled = true)
      (hr : (handshake (.init addr)).Waits t.answers c) (hd : (drop (c.setTask none)).Runs t.task c' ())
      (hw' : (s₁.release id).Meanwhile addr s₂) :
      AddConnection s addr t ⟨false, s₂, sentBy t.answers ++ t.between ++ sentBy t.task⟩

/-- The call returned `Ok` and its handshake is on the stream, or nothing is left of it: the
address is in the map as it was before, the stream is in frames, and no frame without payload
opens the address at a peer that knows the addresses `known`. -/
def AllOrNothing (s : SharedReader) (addr : SocketAddr) (known : SocketAddr → Bool) (r : Attempted) : Prop :=
  r.ok = true ∧ r.wire = frame addr [] ∨
    r.ok = false ∧ r.reader.socketMap addr = s.socketMap addr ∧
      ((Position.header []).scan r.wire).1 = .header [] ∧
      SharedReader.opens known (((Position.header []).scan r.wire).2.filter fun g => g.addr = addr) = false

namespace SharedReader

section
variable {s s' : SharedReader} {addr : SocketAddr} {id : ℕ}

theorem Turn.known {cx : Waker} {t : Tick} {r : Poll (Except IoError Unit)} (h : Turn cx t s r s')
    (hm : s.socketMap addr = some id) (hnot : ∀ header bs j, ¬ s.Removes t header bs addr j) :
    s'.socketMap addr = some id := by
  cases h with
  | parked => exact hm
  | full => exact hm
  | short => exact hm
  | @sending a j polled => cases polled <;> simpa [SharedReader.emit, SharedReader.setState, offer] using hm
  | failed => exact hm
  | broken => exact hm
  | discardCut => exact hm
  | fillCut => exact hm
  | headerCut => exact hm
  | noMemory => exact hm
  | discard => exact hm
  | fill => exact hm
  | payload => exact hm
  | @close header bs j hs hr h0 h20 hl hk =>
    have hne : addr ≠ (headerBy header bs).addr := by
      rintro rfl
      exact hnot header bs j ⟨hs, hr, h0, h20, hl, rfl, hk⟩
    show ((s.consume bs).remove (headerBy header bs).addr).socketMap addr = some id
    rw [remove_socketMap, Function.update_of_ne hne]
    exact hm
  | ignore => exact hm
  | @opening header bs hs hr h0 h20 hl hk =>
    have hne : addr ≠ (headerBy header bs).addr := by
      rintro rfl
      rw [hk] at hm
      cases hm
    show Function.update (s.consume bs).socketMap (headerBy header bs).addr (some (s.consume bs).next) addr = some id
    rw [Function.update_of_ne hne]
    exact hm
  | @sent a j polled => cases polled <;> simpa [SharedReader.setState, offer] using hm
  | unsent =>
    split
    · exact hm
    · exact hm

theorem Meanwhile.known (h : s.Meanwhile addr s') (hm : s.socketMap addr = some id) :
    s'.socketMap addr = some id := by
  induction h with
  | refl => exact hm
  | @tail s₁ s₂ _ hstep ih =>
    obtain ⟨m, -, hok, rfl⟩ := hstep
    rcases s₁.perform_calm m with ⟨cx, t, rfl⟩ | ⟨a, alloc, rfl⟩ | hcalm
    · exact (s₁.pollOnce_turn cx t).known ih fun header bs j => hok cx t header bs j rfl
    · rcases s₁.perform_add a alloc with heq | ⟨hnone, heq⟩
      · rw [heq]
        exact ih
      · have hne : addr ≠ a := by
          rintro rfl
          rw [ih] at hnone
          cases hnone
        rw [heq]
        show Function.update s₁.socketMap a (some s₁.next) addr = some id
        rw [Function.update_of_ne hne]
        exact ih
    · rw [hcalm.socketMap]
      exact ih

theorem insert_ok {alloc : Bool} (h : s.insert addr .noop .held alloc = (.ok id, s')) :
    s.socketMap addr = none ∧ alloc = true ∧ s'.socketMap addr = some id := by
  unfold insert at h
  cases hm : s.socketMap addr with
  | some j => simp [hm] at h
  | none =>
    cases alloc with
    | false => simp [hm] at h
    | true =>
      simp only [hm, if_true, Prod.mk.injEq, Except.ok.injEq] at h
      obtain ⟨rfl, rfl⟩ := h
      exact ⟨rfl, rfl, Function.update_self _ _ _⟩

theorem insert_error {alloc : Bool} {e : IoError} (h : s.insert addr .noop .held alloc = (.error e, s')) :
    (s.socketMap addr ≠ none ∨ alloc = false) ∧ s' = s := by
  unfold insert at h
  cases hm : s.socketMap addr with
  | some j =>
    simp only [hm, Prod.mk.injEq] at h
    exact ⟨Or.inl (by simp), h.2.symm⟩
  | none =>
    cases alloc with
    | false =>
      simp only [hm, Bool.false_eq_true, if_false, Prod.mk.injEq] at h
      exact ⟨Or.inr rfl, h.2.symm⟩
    | true => simp [hm] at h

end

end SharedReader

/-- What a body that writes `bytes` has been answered. -/
def Written (bytes : List UInt8) (res : Except IoError Unit) (answers : List (Sigma WriteResp)) : Prop :=
  (res = .ok () ∧ sentBy answers = bytes ∧ ∀ x ∈ answers, declined x = false) ∨
    ∃ e, res = .error e ∧ ∃ x ∈ answers, declined x = true

theorem sentBy_append (a b : List (Sigma WriteResp)) : sentBy (a ++ b) = sentBy a ++ sentBy b :=
  List.flatMap_append

theorem wp_writeAllLoop_tracing {c : Conn} {o : Origin} {bytes : List UInt8} : ∀ fuel rest g,
    sentBy g ++ rest = bytes → (∀ x ∈ g, declined x = false) →
    (writeAllLoop fuel (c.setTask (some (o, rest)))).wp (tracing Conn fun _ _ => True)
      (fun _ res g => Written bytes res g) g := by
  intro fuel
  induction fuel with
  | zero => exact fun _ _ _ _ => trivial
  | succ fuel ih =>
    intro rest g hsent hall
    cases rest with
    | nil =>
      simp only [writeAllLoop, Proc.bind_apply, Proc.get_apply, Prog.bind_ret, Conn.setTask_task]
      exact Or.inl ⟨rfl, by simpa using hsent, hall⟩
    | cons b bs =>
      simp only [writeAllLoop, Proc.bind_apply, Proc.get_apply, Prog.bind_ret, Conn.setTask_task, Proc.ask_apply,
        Prog.bind_ask, Prog.wp_ask]
      refine ⟨trivial, fun r _ => ?_⟩
      match r with
      | .error e => exact Or.inr ⟨_, rfl, ⟨.awaitWrite (b :: bs), .error e⟩, by simp [tracing], rfl⟩
      | .ok 0 => exact Or.inr ⟨_, rfl, ⟨.awaitWrite (b :: bs), .ok 0⟩, by simp [tracing], rfl⟩
      | .ok (n + 1) =>
        by_cases hle : n ≤ bs.length
        · simp only [Prog.bind_ret, hle, if_true, Proc.bind_apply, Proc.modify_apply, Conn.setTask_setTask]
          refine ih _ _ ?_ ?_
          · have hone : sentBy [⟨.awaitWrite (b :: bs), .ok (n + 1)⟩] = b :: bs.take n := by
              simp [sentBy, delivered]
            simp only [tracing]
            rw [sentBy_append, hone, List.append_assoc, List.cons_append, List.take_append_drop, hsent]
          · intro x hx
            rcases List.mem_append.mp hx with hx | hx
            · exact hall x hx
            · rw [List.mem_singleton.mp hx]
              rfl
        · simp only [hle, if_false]
          trivial

/-- The handshake sends the header of its connection, or a write has taken nothing. -/
theorem handshake_written {addr : SocketAddr} {answers : List (Sigma WriteResp)} {c : Conn} {res : Except IoError Unit}
    (h : (handshake (.init addr)).Runs answers c res) : Written (frame addr []) res answers := by
  have hwp : (handshake (.init addr)).wp (tracing Conn fun _ _ => True)
      (fun _ res g => Written (frame addr []) res g) [] := by
    have he : (Conn.init addr).inner.buffer.isEmpty = true := (PacketBuffer.isEmpty_iff _).mpr rfl
    have hs : (Conn.init addr).inner.state = .writing .noop .buffering := rfl
    have hb : (Conn.init addr).inner.buffer.bytes = frame addr [] := PacketBuffer.bytes_eq_frame _
    simp only [handshake, lock, Proc.bind_apply, Proc.get_apply, Prog.bind_ret, hs, he, Proc.modify_apply,
      Proc.ask_apply, Prog.bind_ask, Prog.wp_ask]
    refine ⟨trivial, fun r _ => ?_⟩
    rw [Prog.wp_bind, hb]
    have hloop : (writeAll .handshake (frame addr []) ((Conn.init addr).setFut false)).wp
        (tracing Conn fun _ _ => True) (fun _ res g => Written (frame addr []) res g) [⟨.awaitLock false, r⟩] := by
      refine wp_writeAllLoop_tracing _ _ _ rfl fun x hx => ?_
      rw [List.mem_singleton.mp hx]
      rfl
    refine Prog.wp_mono ?_ hloop
    rintro s (e | ⟨⟩) g hw
    · exact hw
    · exact hw
  exact h.of_tracing (fun _ _ => trivial) hwp

/-- A call is all or nothing exactly if it is refused at once, or none of its writes takes nothing
and its future is not dropped before it is finished. -/
theorem addConnection_allOrNothing_iff {s : SharedReader} {addr : SocketAddr} {known : SocketAddr → Bool} {t : Attempt}
    {r : Attempted} (h : AddConnection s addr t r) :
    AllOrNothing s addr known r ↔
      s.socketMap addr ≠ none ∨ t.alloc = false ∨
        t.cancelled = false ∧ ∀ x ∈ t.answers, declined x = false := by
  have hleft : ∀ {s' s₁ s₂ : SharedReader} {id : ℕ} {wire : List UInt8},
      s.insert addr .noop .held t.alloc = (.ok id, s') → s'.Meanwhile addr s₁ → (s₁.release id).Meanwhile addr s₂ →
      ¬ AllOrNothing s addr known ⟨false, s₂, wire⟩ := by
    intro s' s₁ s₂ id wire hi hw hw' hall
    obtain ⟨hnone, -, hs'⟩ := SharedReader.insert_ok hi
    have hlast : s₂.socketMap addr = some id := hw'.known (hw.known hs')
    rcases hall with ⟨hok, -⟩ | ⟨-, hmap, -⟩
    · cases hok
    · have hmap' : s₂.socketMap addr = s.socketMap addr := hmap
      rw [hlast, hnone] at hmap'
      cases hmap'
  have hgone : ∀ {s' : SharedReader} {id : ℕ}, s.insert addr .noop .held t.alloc = (.ok id, s') →
      ¬ (s.socketMap addr ≠ none ∨ t.alloc = false) := by
    intro s' id hi href
    obtain ⟨hnone, halloc, -⟩ := SharedReader.insert_ok hi
    rcases href with hne | hf
    · exact hne hnone
    · rw [halloc] at hf
      cases hf
  cases h with
  | refused hi =>
    obtain ⟨href, rfl⟩ := SharedReader.insert_error hi
    exact iff_of_true (Or.inr ⟨rfl, rfl, rfl, rfl⟩) (href.imp_right Or.inl)
  | opened hi hw hc hr =>
    rcases handshake_written hr with ⟨-, hsent, hall⟩ | ⟨e, he, -⟩
    · exact iff_of_true (Or.inl ⟨rfl, hsent⟩) (Or.inr (Or.inr ⟨hc, hall⟩))
    · cases he
  | failed hi hw hc hr hd hw' =>
    refine iff_of_false (hleft hi hw hw') ?_
    rintro (hne | hf | ⟨-, hall⟩)
    · exact hgone hi (Or.inl hne)
    · exact hgone hi (Or.inr hf)
    · rcases handshake_written hr with ⟨hok, -⟩ | ⟨-, -, x, hx, hdec⟩
      · cases hok
      · rw [hall x hx] at hdec
        cases hdec
  | cancelled hi hw hc hr hd hw' =>
    refine iff_of_false (hleft hi hw hw') ?_
    rintro (hne | hf | ⟨hc', -⟩)
    · exact hgone hi (Or.inl hne)
    · exact hgone hi (Or.inr hf)
    · rw [hc] at hc'
      cases hc'

/-- The handshake is answered without delay. -/
theorem addConnection_opens :
    ∃ r, AddConnection (.init true) .unspecified
        ⟨true, [⟨.awaitLock false, ()⟩, ⟨.awaitWrite (frame .unspecified []), .ok 20⟩], false, [], []⟩ r ∧
      AllOrNothing (.init true) .unspecified (fun _ => false) r := by
  have hr : AddConnection (.init true) .unspecified
      ⟨true, [⟨.awaitLock false, ()⟩, ⟨.awaitWrite (frame .unspecified []), .ok 20⟩], false, [], []⟩ _ :=
    .opened rfl .refl rfl (Prog.runs_of_run rfl)
  exact ⟨_, hr, (addConnection_allOrNothing_iff hr).mpr (Or.inr (Or.inr ⟨rfl, by simp [declined]⟩))⟩

/-- The future is dropped while it waits for the lock: the address stays in the map, so that it
cannot be added again, and the task sends the frame that opens it at the other side. -/
theorem addConnection_left_behind :
    ∃ r, AddConnection (.init true) .unspecified
        ⟨true, [], true, [], [⟨.awaitLock false, ()⟩, ⟨.awaitWrite (frame .unspecified []), .ok 20⟩]⟩ r ∧
      (∃ e, (r.reader.insert .unspecified .noop .held true).1 = .error e ∧ e.kind = .addrInUse) ∧
      SharedReader.opens (fun _ => false) ((Position.header []).scan r.wire).2 = true ∧
      ¬ AllOrNothing (.init true) .unspecified (fun _ => false) r := by
  have hr : AddConnection (.init true) .unspecified
      ⟨true, [], true, [], [⟨.awaitLock false, ()⟩, ⟨.awaitWrite (frame .unspecified []), .ok 20⟩]⟩ _ :=
    .cancelled rfl .refl rfl (.here _ _ _) (Prog.runs_of_run rfl) .refl
  refine ⟨_, hr, ⟨_, rfl, rfl⟩, by decide +kernel, ?_⟩
  rintro (⟨hok, -⟩ | ⟨-, hmap, -⟩)
  · cases hok
  · cases hmap

end VtMuxer
