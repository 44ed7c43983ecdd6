import VtMuxer.Write.Failing
import VtMuxer.Write.Registered

/-! What follows on the stream when a poll call returns an error with part of a frame out. As
long as no write fails inside a frame and no connection is dropped there, the rest of the
frame is next. -/
namespace VtMuxer
open Interaction

variable {ι : Type}

@[simp] theorem tag_append (i : ι) (a b : List UInt8) : tag i (a ++ b) = tag i a ++ tag i b := by
  simp [tag]

/-- The lock has one holder, and what is recorded of the connections is what is out. -/
structure Alone (w : Line ι) (m : ι → Conn) (g : ι → Trail) : Prop where
  excl : ∀ i j, (m i).holds = true → (m j).holds = true → i = j
  out : ∀ i, w.out i = (g i).out

/-- What has come of the frame that connection `i` has begun, of which `rest` was left when the
stream was `wire`. -/
inductive Course (i : ι) (wire : List (ι × UInt8)) (rest : List UInt8) (w : Line ι) (c : Conn) (g : Trail) : Prop where
  | going {u : ℕ} (hst : Steady c g) (hsh : c.shut) (h0 : g.out ≠ 0)
      (hrest : c.inner.buffer.bytes.drop g.out = rest.drop u) (hw : w.wire = wire ++ tag i (rest.take u))
  | whole (h : wire ++ tag i rest <+: w.wire)
  | dropped {st : ShutDownState} (hl : c.last = some (.shutdown st))
      (hw : (WritePipeState.shutdown st).written ≠ 0)

section
variable {w : Line ι} {i : ι} {s' : Conn}

theorem Steady.guarded {c : Conn} {g : Trail} (h : Steady c g) (hsh : c.shut) (h0 : g.out ≠ 0) :
    c.inner.state.guarded = true := by
  have hst := h.stays
  obtain ⟨st, hs⟩ := hsh
  rw [hs] at hst ⊢
  cases st with
  | waitingLock => exact absurd hst h0
  | flushing w => rfl
  | writing w => rfl
  | done => exact absurd hst h0
  | error => exact absurd hst h0

theorem Steady.written {c : Conn} {g : Trail} (h : Steady c g) (hsh : c.shut) (h0 : g.out ≠ 0) :
    c.inner.state.written = g.out ∧ c.holds = true := by
  have hg := h.guarded hsh h0
  refine ⟨(h.stays.out hg).1.symm, ?_⟩
  unfold Conn.holds
  rw [hg, Bool.or_true]

variable {wire : List (ι × UInt8)} {rest : List UInt8}

theorem Course.still {c : Conn} {g g' : Trail} {w' : Line ι} (h : Course i wire rest w c g) (hp : g'.prev = c)
    (hout : g'.out = g.out) (hw : w'.wire = w.wire) (hat : Machine.At failing Rests s' g') :
    Course i wire rest w' s' g' := by
  cases h with
  | @going u hst hsh h0 hrest hwire =>
    have h0' : g'.out ≠ 0 := by rwa [hout]
    rcases follows_of_at hat (by rw [hp, hst.live]) (by rwa [hp]) h0' with hst' | hl
    · obtain ⟨hsh', hb⟩ := hst'.follows (by rwa [hp]) h0'
      rw [hp] at hb
      exact .going hst' hsh' h0' (by rw [hb, hout, hrest]) (hw.trans hwire)
    · obtain ⟨st, hs⟩ := hsh
      have hwr := (hst.written ⟨st, hs⟩ h0).1
      rw [hp, hs] at hl
      rw [hs] at hwr
      exact .dropped hl (by rwa [hwr])
  | whole hpre => exact .whole (by rwa [hw])
  | dropped hl hwr =>
    refine .dropped ?_ hwr
    rw [last_of_at hat (by rw [hp, hl]; simp), hp, hl]

theorem Course.other {c : Conn} {g : Trail} {w' : Line ι} (h : Course i wire rest w c g)
    (hpre : w.wire <+: w'.wire) (hw : c.holds = true → w'.wire = w.wire) : Course i wire rest w' c g := by
  cases h with
  | going hst hsh h0 hrest hwire => exact .going hst hsh h0 hrest ((hw (hst.written hsh h0).2).trans hwire)
  | whole hwhole => exact .whole (hwhole.trans hpre)
  | dropped hl hwr => exact .dropped hl hwr

theorem Course.put {c : Conn} {g : Trail} {w' : Line ι} {n : ℕ} {bytes : List UInt8} (h : Course i wire rest w c g)
    (hinv : failing.inv c (.write bytes) g) (hok : failing.ok c (.write bytes) (.ready (.ok n)))
    (hw : w'.wire = w.wire ++ tag i (bytes.take n))
    (hat : Machine.At failing Rests s' (failing.upd c (.write bytes) (.ready (.ok n)) g)) :
    Course i wire rest w' s' (failing.upd c (.write bytes) (.ready (.ok n)) g) := by
  obtain ⟨hsteady, -, hbytes⟩ := hinv
  cases h with
  | @going u hst hsh h0 hrest hwire =>
    rw [hrest] at hbytes
    have hwr := (hst.written hsh h0).1
    have hn : n ≠ 0 := by
      rintro rfl
      have hzero : c.inner.state.written = 0 := hok.2
      exact h0 (hwr.symm.trans hzero)
    by_cases hlt : n < bytes.length
    · have hout : (failing.upd c (.write bytes) (.ready (.ok n)) g).out = g.out + n := if_pos hlt
      have h0' : (failing.upd c (.write bytes) (.ready (.ok n)) g).out ≠ 0 := by omega
      rcases follows_of_at hat hst.live hsh h0' with hst' | hl
      · obtain ⟨hsh', hb⟩ := hst'.follows hsh h0'
        have hb' : s'.inner.buffer = c.inner.buffer := hb
        refine .going (u := u + n) hst' hsh' h0' ?_ ?_
        · rw [hb', hout, ← List.drop_drop, hrest, List.drop_drop]
        · rw [hw, hwire, hbytes, List.append_assoc, ← tag_append, ← List.take_add]
      · obtain ⟨st, hs⟩ := hsh
        have hl' : s'.last = some c.inner.state := hl
        rw [hs] at hl' hwr
        exact .dropped hl' (by rwa [hwr])
    · refine .whole ?_
      have hall : bytes.take n = rest.drop u := by
        rw [List.take_of_length_le (by omega), hbytes]
      rw [hw, hwire, hall, List.append_assoc, ← tag_append, List.take_append_drop]
  | whole hpre => exact .whole (hpre.trans (by rw [hw]; exact List.prefix_append _ _))
  | dropped hl =>
    rw [hsteady.live] at hl
    cases hl

theorem holds_of_offer {c : Conn} {g : Trail} {q : WriteQuery} {r : WriteResp q} (hinv : failing.inv c q g)
    (hd : delivered q r ≠ []) : c.holds = true := by
  cases q with
  | write bytes => exact hinv.2.1
  | awaitWrite bytes =>
    have htask : c.task ≠ none := hinv.2
    unfold Conn.holds
    rw [Option.isSome_iff_ne_none.mpr htask, Bool.true_or]
  | _ => exact absurd rfl hd

theorem Course.answer {c : Conn} {g : Trail} {q : WriteQuery} {r : WriteResp q} {w' : Line ι}
    (h : Course i wire rest w c g) (hinv : failing.inv c q g) (hok : failing.ok c q r)
    (hw : w'.wire = w.wire ++ tag i (delivered q r))
    (hat : Machine.At failing Rests s' (failing.upd c q r g)) :
    Course i wire rest w' s' (failing.upd c q r g) := by
  have hquiet : outAfter g.out q r = g.out → delivered q r = [] → Course i wire rest w' s' (failing.upd c q r g) := by
    intro hout hd
    refine h.still rfl hout ?_ hat
    rw [hw, hd]
    exact List.append_nil _
  match q, r with
  | .tryLock, r => exact hquiet rfl rfl
  | .pollFut, r => exact hquiet rfl rfl
  | .awaitLock _, r => exact hquiet rfl rfl
  | .flush, r => exact hquiet rfl rfl
  | .write bytes, .pending => exact hquiet rfl rfl
  | .write bytes, .ready (.error e) => exact hquiet rfl rfl
  | .awaitWrite bytes, .error e => exact hquiet rfl rfl
  | .write bytes, .ready (.ok n) => exact h.put hinv hok hw hat
  | .awaitWrite bytes, .ok n =>
    cases h with
    | going hst =>
      rcases hinv with ⟨-, htask⟩
      exact absurd hst.task htask
    | whole hpre => exact .whole (hpre.trans (by rw [hw]; exact List.prefix_append _ _))
    | dropped hl hwr =>
      refine .dropped ?_ hwr
      have hprev : (failing.upd c (.awaitWrite bytes) (.ok n) g).prev.last = some (.shutdown _) := hl
      rw [last_of_at hat (by rw [hprev]; simp), hprev]

theorem alone_init (sockets : ι → SocketAddr) : Machine.Holds failing Rests Alone (Faulty.init sockets) := by
  refine ⟨fun i => ⟨0, false, .init (sockets i)⟩, fun i => ⟨?_, ⟨_, rfl⟩, rfl⟩, ?_, fun _ => rfl⟩
  · exact ⟨rfl, (fun hh => nomatch hh), rfl, rfl, rfl, fun _ h0 => absurd rfl h0⟩
  · intro i j hh
    cases hh

end

section
variable [DecidableEq ι] {w : Line ι} {m : ι → Conn} {g : ι → Trail} {i : ι} {s' : Conn}

theorem Alone.call (h : Alone w m g) (hat : Machine.At failing Rests s' (failing.start (m i) (g i))) :
    Alone w (Function.update m i s') (Function.update g i (failing.start (m i) (g i))) := by
  have hkeep : ∀ j, (Function.update m i s' j).holds = true → (m j).holds = true := by
    intro j hj
    rcases eq_or_ne j i with rfl | hne
    · rw [Function.update_self] at hj
      exact held_of_at hat hj
    · rwa [Function.update_of_ne hne] at hj
  constructor
  case excl => exact fun j k hj hk => h.excl j k (hkeep j hj) (hkeep k hk)
  case out =>
    intro j
    rcases eq_or_ne j i with rfl | hne
    · simpa [failing] using h.out j
    · simpa [hne] using h.out j

theorem Alone.answer {ok : Conn → (q : WriteQuery) → WriteResp q → Prop} {q : WriteQuery} {r : WriteResp q}
    (h : Alone w m g) (ha : (faulty ι ok).allow m i q r)
    (hat : Machine.At failing Rests s' (failing.upd (m i) q r (g i))) :
    Alone ((faulty ι ok).emit w i (m i) q r) (Function.update m i s')
      (Function.update g i (failing.upd (m i) q r (g i))) := by
  have hkeep : ∀ j, (Function.update m i s' j).holds = true →
      (m j).holds = true ∨ j = i ∧ ∀ k, (m k).holds = false := by
    intro j hj
    rcases eq_or_ne j i with rfl | hne
    · rw [Function.update_self] at hj
      have hheld := held_of_at hat hj
      have hor : (m j).holds = true ∨ granted ⟨q, r⟩ = true := by simpa [failing] using hheld
      exact hor.imp_right fun hgr => ⟨rfl, ha.2.2 hgr⟩
    · rw [Function.update_of_ne hne] at hj
      exact Or.inl hj
  constructor
  case excl =>
    intro j k hj hk
    rcases hkeep j hj with hj' | ⟨rfl, hfree⟩
    · rcases hkeep k hk with hk' | ⟨rfl, hfree⟩
      · exact h.excl j k hj' hk'
      · rw [hfree j] at hj'
        cases hj'
    · rcases hkeep k hk with hk' | ⟨rfl, -⟩
      · rw [hfree k] at hk'
        cases hk'
      · rfl
  case out =>
    intro j
    rcases eq_or_ne j i with rfl | hne
    · simp [faulty, failing, h.out j]
    · simpa [faulty, hne] using h.out j

theorem faulty_sound : (faulty ι Harmless).Sound failing Rests Alone where
  call _ _ _ _ _ hi hm := hi.wp_body hm.1 hm.2
  ok _ _ _ _ ha := ⟨ha.1, ha.2.1⟩
  globCall _ _ _ _ _ hg _ hat := hg.call hat
  globAnswer _ _ _ _ _ _ _ hg _ ha hat := hg.answer ha hat

theorem course_sound (i : ι) (wire : List (ι × UInt8)) (rest : List UInt8) :
    (faulty ι Harmless).Sound failing Rests fun w m g => Alone w m g ∧ Course i wire rest w (m i) (g i) where
  call := faulty_sound.call
  ok := faulty_sound.ok
  globCall w m g j s' hg hidle hat := by
    refine ⟨hg.1.call hat, ?_⟩
    rcases eq_or_ne i j with rfl | hne
    · rw [Function.update_self, Function.update_self]
      exact hg.2.still rfl rfl rfl hat
    · rw [Function.update_of_ne hne, Function.update_of_ne hne]
      exact hg.2
  globAnswer w m g j q r s' hg hinv ha hat := by
    refine ⟨hg.1.answer ha hat, ?_⟩
    rcases eq_or_ne i j with rfl | hne
    · rw [Function.update_self, Function.update_self]
      exact hg.2.answer hinv ⟨ha.1, ha.2.1⟩ rfl hat
    · rw [Function.update_of_ne hne, Function.update_of_ne hne]
      refine hg.2.other (List.prefix_append _ _) fun hh => ?_
      have hnone : delivered q r = [] := by
        by_contra hd
        exact hne (hg.1.excl i j hh (holds_of_offer hinv hd))
      simp [faulty, hnone, tag]

/-- After `P`, in which a call on connection `i` has left memory `c`, the stream goes on with the
rest of the frame of which part is out. -/
def Continued (i : ι) (c : Conn) (P P' : Faulty ι) : Prop :=
  ∃ more, P'.world.wire = P.world.wire ++ more ∧
    (more <+: tag i (c.inner.buffer.bytes.drop (P.world.out i)) ∨
      tag i (c.inner.buffer.bytes.drop (P.world.out i)) <+: more)

/-- A poll call that fails with part of a frame out has found a shutdown. -/
theorem Rests.shut {c : Conn} {a : Outcome} {g : Trail} (h : Rests c a g) (ha : a.failed) (h0 : g.out ≠ 0) :
    Steady c g ∧ c.shut := by
  have hrest : Steady c g ∧ (a.failed → ∀ k st, c.inner.state = .writing k st → st = .buffering) := by
    cases a with
    | write res => exact h
    | flush res => exact h
    | shutdown res => exact h
    | _ => exact ha.elim
  obtain ⟨hst, hfail⟩ := hrest
  refine ⟨hst, ?_⟩
  match hs : c.inner.state with
  | .poisoned => exact absurd hs hst.not_poisoned
  | .shutdown st => exact ⟨st, hs⟩
  | .writing k st =>
    obtain rfl := hfail ha k st hs
    exact absurd (hst.out_eq_zero hs) h0

/-- In every run in which the writes of poll calls fail only between frames, and in which the
connection is not dropped in the middle of a frame of its shutdown, a frame of which part is
out when a poll call returns an error is what comes next, until it is complete. -/
theorem failed_write_continues {sockets : ι → SocketAddr} {P P' : Faulty ι} {c : Conn} {a : Outcome}
    (h : (faulty ι Harmless).Reaches (Faulty.init sockets) P) (hi : P.threads i = .ret c a) (ha : a.failed)
    (hout : 0 < P.world.out i) (h' : (faulty ι Harmless).Reaches P P')
    (hd : ∀ st, (P'.mems i).last = some (.shutdown st) → (WritePipeState.shutdown st).written = 0) :
    Continued i c P P' := by
  obtain ⟨g, hwp, hal⟩ := faulty_sound.reaches (alone_init sockets) h
  have hmem : P.mems i = c := by simp [Pool.mems, hi, Prog.mem]
  have h0 : (g i).out ≠ 0 := by
    rw [← hal.out i]
    omega
  have hrest : Rests c a (g i) := by
    have hwpi := hwp i
    rwa [hi] at hwpi
  obtain ⟨hst, hsh⟩ := hrest.shut ha h0
  have hgoing : Course i P.world.wire (c.inner.buffer.bytes.drop (P.world.out i)) P.world (P.mems i) (g i) := by
    rw [hmem]
    refine .going (u := 0) hst hsh h0 ?_ ?_
    · rw [hal.out i, List.drop_zero]
    · simp [tag]
  obtain ⟨g', -, -, hcourse⟩ := (course_sound i P.world.wire _).reaches ⟨g, hwp, hal, hgoing⟩ h'
  cases hcourse with
  | @going u _ _ _ _ hwire =>
    refine ⟨_, hwire, Or.inl ?_⟩
    exact (List.take_prefix _ _).map _
  | whole hpre =>
    obtain ⟨more, hmore⟩ := hpre
    refine ⟨_, by rw [← hmore, List.append_assoc], Or.inr (List.prefix_append _ _)⟩
  | dropped hl hwr => exact absurd (hd _ hl) hwr

end

/-- A shutdown is inside its data frame when a write is refused, and goes on. -/
theorem failed_write_continues_shutdown :
    ∃ (P P' : Faulty Bool) (c : Conn) (a : Outcome),
      (faulty Bool Harmless).Reaches (Faulty.init fun _ => .unspecified) P ∧ P.threads true = .ret c a ∧
      a.failed ∧ P.world.out true = 5 ∧ (faulty Bool Harmless).Reaches P P' ∧ P'.world.wire.length = 21 ∧
      Continued true c P P' := by
  have hrun : ∃ (P P' : Faulty Bool) (c : Conn) (a : Outcome),
      (faulty Bool Harmless).Reaches (Faulty.init fun _ => .unspecified) P ∧ P.threads true = .ret c a ∧
      a.failed ∧ P.world.out true = 5 ∧ (faulty Bool Harmless).Reaches P P' ∧ P'.world.wire.length = 21 ∧
      (P'.mems true).last = none := by
    refine ⟨_, _, _, _, .call true (.write .noop [1]) rfl ⟨trivial, nofun⟩ <|
      .call true (.shutdown .noop) rfl ⟨nofun, nofun⟩ <|
      .answer true ⟨.tryLock, true⟩ rfl ⟨trivial, trivial, fun _ j => ?_⟩ <|
      .answer true ⟨.write (frame .unspecified [1]), .ready (.ok 5)⟩ rfl ⟨?_, trivial, nofun⟩ <|
      .answer true ⟨.write ((frame .unspecified [1]).drop 5), .pending⟩ rfl ⟨trivial, trivial, nofun⟩ <|
      .call true (.write .noop [2]) rfl ⟨nofun, nofun⟩ .refl, rfl, trivial, rfl,
      .call true (.shutdown .noop) rfl ⟨nofun, nofun⟩ <|
      .answer true ⟨.write ((frame .unspecified [1]).drop 5), .ready (.ok 16)⟩ rfl ⟨?_, trivial, nofun⟩ .refl, rfl, rfl⟩
    · cases j <;> rfl
    · exact (by decide : 5 ≤ 21)
    · exact (by decide : 16 ≤ 16)
  obtain ⟨P, P', c, a, hP, hi, ha, hout, hP', hlen, hlast⟩ := hrun
  refine ⟨P, P', c, a, hP, hi, ha, hout, hP', hlen, failed_write_continues hP hi ha (by omega) hP' ?_⟩
  intro st hst
  rw [hlast] at hst
  cases hst

section
variable [DecidableEq ι] {ok : Conn → (q : WriteQuery) → WriteResp q → Prop} {sockets : ι → SocketAddr} {P : Faulty ι} {i : ι}

theorem Fallible.answers {q : WriteQuery} {r : WriteResp q} (h : Fallible q r) : Answers true q r := by
  cases q with
  | flush =>
    obtain rfl : r = .ready (.ok ()) := h
    exact ⟨trivial, fun _ => trivial⟩
  | _ => exact ⟨h, fun _ => trivial⟩

theorem faulty_governed (h : (faulty ι ok).Reaches (Faulty.init sockets) P) (i : ι) :
    (P.threads i).wp (governed true) (fun c a _ => Remains true c a) () := by
  have hsound : (faulty ι ok).Sound (governed true) (fun c a _ => Remains true c a) fun _ _ _ => True :=
    ⟨fun _ _ _ _ _ hrem hm => hrem.wp_body hm.1, fun _ _ _ _ ha => ha.1.answers, fun _ _ _ _ _ _ _ _ => trivial,
      fun _ _ _ _ _ _ _ _ _ _ _ => trivial⟩
  have hinit : Machine.Holds (governed true) (fun c a _ => Remains true c a) (fun _ _ _ => True)
      (Faulty.init sockets) := by
    refine ⟨fun _ => (), fun j => ⟨?_, ⟨_, rfl⟩, rfl⟩, trivial⟩
    exact ⟨rfl, rfl, by simp [Conn.init], by simp [Conn.init], by simp [Conn.init], fun _ => rfl⟩
  obtain ⟨g, hwp, -⟩ := hsound.reaches hinit h
  exact hwp i

/-- A write of a poll call that fails ends the call, whatever of the frame is out by then. The guard and
the counter are gone, so nobody continues the frame from there. -/
theorem failed_write_gives_up (h : (faulty ι ok).Reaches (Faulty.init sockets) P) {c : Conn} {bytes : List UInt8}
    {k : WriteResp (.write bytes) → Prog WriteQuery WriteResp Conn Outcome} (hi : P.threads i = .ask c (.write bytes) k)
    {r : WriteResp (.write bytes)} (hr : Fails ⟨.write bytes, r⟩) (hok : Fallible (.write bytes) r) :
    ∃ c' a, k r = .ret c' a ∧ a.failed ∧ c'.inner.state.guarded = false ∧ c'.inner.state.written = 0 := by
  rcases Machine.Reaches.called (i := i) rfl h with hnew | ⟨c₀, op, answers, hcomes⟩
  · rw [hi] at hnew
    cases hnew
  rw [hi] at hcomes
  have hfail : ¬ Unfailed (answers ++ [⟨.write bytes, r⟩]) := fun hu => hu _ (by simp) hr
  have hheard := (hcomes.answer r).of_tracing (fun _ _ => trivial) (wp_body_settles op c₀)
  have hgov := faulty_governed h i
  rw [hi] at hgov
  have hnext := hgov.2 r hok.answers
  cases hk : k r with
  | ret c' a =>
    rw [hk] at hheard
    obtain ⟨-, hfailed, hguard⟩ := hheard.2.resolve_left hfail
    exact ⟨c', a, rfl, hfailed, hguard, WritePipeState.written_of_not_guarded hguard⟩
  | ask c' q k' =>
    rw [hk] at hheard
    exact absurd hheard.1 hfail
  | fault c' e =>
    rw [hk] at hnext
    cases hnext.1

end

def twoPorts (b : Bool) : SocketAddr := ⟨SocketAddr.unspecified.ip, .new (if b then 0 else 1)⟩

/-- A flush fails after five bytes of its frame: the lock is free, and the handshake of another
connection goes out in the middle of the frame. -/
theorem failed_write_tears :
    ∃ (P P' : Faulty Bool) (c : Conn) (a : Outcome),
      (faulty Bool fun _ _ _ => True).Reaches (Faulty.init twoPorts) P ∧ P.threads true = .ret c a ∧
      a.failed ∧ P.world.out true = 5 ∧ (faulty Bool fun _ _ _ => True).Reaches P P' ∧ (P'.mems true).last = none ∧
      ¬ Continued true c P P' := by
  refine ⟨_, _, _, _, .call true (.write .noop [1]) rfl ⟨trivial, nofun⟩ <|
    .call true (.flush .noop) rfl ⟨nofun, nofun⟩ <|
    .answer true ⟨.tryLock, true⟩ rfl ⟨trivial, trivial, fun _ j => ?_⟩ <|
    .answer true ⟨.write (frame (twoPorts true) [1]), .ready (.ok 5)⟩ rfl ⟨?_, trivial, nofun⟩ <|
    .answer true ⟨.write ((frame (twoPorts true) [1]).drop 5), .ready (.error (.ofKind .other))⟩ rfl
      ⟨trivial, trivial, nofun⟩ .refl, rfl, trivial, rfl,
    .call false .handshake rfl ⟨trivial, nofun⟩ <|
    .answer false ⟨.awaitLock false, ()⟩ rfl ⟨trivial, trivial, fun _ j => ?_⟩ <|
    .answer false ⟨.awaitWrite (frame (twoPorts false) []), .ok 20⟩ rfl ⟨?_, trivial, nofun⟩ .refl, rfl, ?_⟩
  · cases j <;> rfl
  · exact (by decide : 5 ≤ 21)
  · cases j <;> rfl
  · exact (by decide : 20 ≤ 20)
  · rintro ⟨more, hw, hpre⟩
    obtain rfl : tag false (frame (twoPorts false) []) = more := List.append_cancel_left hw
    revert hpre
    decide +kernel

end VtMuxer
