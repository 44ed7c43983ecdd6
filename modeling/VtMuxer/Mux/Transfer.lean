import VtMuxer.Write.Dialers
import VtMuxer.Write.Torn
import VtMuxer.Mux.RoundTrip
import VtMuxer.Mux.Completes

/-! Both ends of a pipe at once: wherever the connections of the sender and the reader of the receiver
stand, they can go on until everything that was taken in at one end is returned at the other. -/
namespace VtMuxer
open Interaction

namespace Receiver
variable {wire wire' : List UInt8} {r r' : Receiver}

theorem Step.mono (h : Step wire r r') (hw : wire <+: wire') : Step wire' r r' := by
  cases h with
  | once cx t hf hc => exact .once cx t hf (hc.trans hw)
  | yield cx => exact .yield cx
  | read cx a id n ha => exact .read cx a id n ha
  | accept k hooked cx => exact .accept k hooked cx
  | leave k hooked => exact .leave k hooked

/-- What was done on a part of the stream may be done on all of it. -/
theorem Runs.mono (h : Runs wire r) (hw : wire <+: wire') : Runs wire' r := by
  induction h with
  | refl => exact .refl
  | tail _ hs ih => exact ih.tail (hs.mono hw)

end Receiver

section
variable {ι : Type} [DecidableEq ι] {sockets : ι → SocketAddr} {S S' : Turns ι}

theorem world_grows {who : ι → Prop} (h : (dialers ι).Plays writeLock who S S') : S.pool.world <+: S'.pool.world := by
  induction h with
  | refl => exact List.prefix_rfl
  | tail _ hstep ih =>
    obtain ⟨i, -, hmove⟩ := hstep
    refine ih.trans ?_
    cases hmove with
    | call => exact List.prefix_rfl
    | wait => exact List.prefix_rfl
    | answer => exact List.prefix_append _ _

/-- From everywhere the two ends can go on until every connection has been opened, shut down and
accepted, and has returned everything that it has taken in and then its end. The channel to the
listener may be of any capacity. -/
theorem everything_arrives [Fintype ι] (cap : ℕ) (hinj : Function.Injective sockets)
    (hS : (dialers ι).Plays writeLock (fun _ => True) (Turns.init sockets) S) {r : Receiver}
    (hr : Receiver.Runs (plain S.pool.world) r) :
    ∃ S' r', (dialers ι).Plays writeLock (fun _ => True) S S' ∧ Receiver.Reaches cap (plain S'.pool.world) r r' ∧
      Finished S'.pool ∧ ∀ i,
        (S.pool.mems i).pushed <+: (S'.pool.mems i).pushed ∧
        (∀ c a, S.pool.threads i = .ret c a → (S'.pool.mems i).pushed = c.pushed) ∧
        ∃ id, (sockets i, id) ∈ r'.accepted ∧ beforeEof (r'.calls id) = (S'.pool.mems i).pushed ∧
          ∀ cx n, n ≠ 0 → (r'.shared.readEntry cx id n).1 = some [] := by
  have hdial : Dialing sockets S := (Dialing.init sockets).plays hS
  obtain ⟨S', hplay, hend⟩ := hdial.finishes
  have hfin : Finished S'.pool := by
    intro i
    obtain ⟨c', hret, hopen, -⟩ := hend i
    exact ⟨c', hret, hopen⟩
  have hspeaks := finished_speaks hinj (hdial.plays hplay).written hfin
  have hruns : Receiver.Runs (plain S'.pool.world) r := hr.mono ((world_grows hplay).map _)
  obtain ⟨r', hreach, hcons, hchan, -, hempty⟩ := Receiver.finishes cap _ r hruns le_rfl
  have hkeeps := (hruns.reaches hreach).keeps
  refine ⟨S', r', hplay, hreach, hfin, fun i => ?_⟩
  obtain ⟨c', hret, -, hgrown, hsame⟩ := hend i
  have hmem : S'.pool.mems i = c' := by simp [Pool.mems, hret, Prog.mem]
  obtain ⟨id, hacc, hread⟩ := hkeeps.complete hspeaks hcons hchan i
  have hopen : (sockets i, id) ∈ r'.shared.openings := by
    rw [← hkeeps.known]
    exact List.mem_append_left _ hacc
  obtain ⟨hbytes, heof⟩ := hread (hempty id (hkeeps.allocated _ hopen))
  rw [hmem]
  exact ⟨hgrown, hsame, id, hacc, hmem ▸ hbytes, heof⟩

end

/-- One handshake has five bytes out, which the other end has read, and another one is queued behind
it. -/
theorem everything_arrives_midway :
    ∃ (S S' : Turns Bool) (r r' : Receiver),
      (dialers Bool).Plays writeLock (fun _ => True) (Turns.init twoPorts) S ∧ S.order = [false, true] ∧
      Receiver.Runs (plain S.pool.world) r ∧ r.shared.consumed.length = 5 ∧
      (dialers Bool).Plays writeLock (fun _ => True) S S' ∧ Receiver.Reaches 1 (plain S'.pool.world) r r' ∧
      Finished S'.pool := by
  have hrun : ∃ S, (dialers Bool).Plays writeLock (fun _ => True) (Turns.init twoPorts) S ∧ S.order = [false, true] ∧
      plain S.pool.world = (frame (twoPorts false) []).take 5 :=
    ⟨_, .call false .handshake trivial rfl ⟨trivial, by simp, fun _ => rfl⟩ <|
      .answer false ⟨.awaitLock false, ()⟩ trivial rfl ⟨⟨trivial, fun _ => trivial⟩, fun _ => trivial⟩ (fun _ => Or.inl rfl) <|
      .answer false ⟨.awaitWrite (frame (twoPorts false) []), .ok 5⟩ trivial rfl
        ⟨⟨Nat.le_of_ble_eq_true rfl, fun _ => trivial⟩, fun _ => ⟨by decide, by decide⟩⟩ nofun <|
      .call true .handshake trivial rfl ⟨trivial, by simp, fun _ => rfl⟩ <|
      .single ⟨true, trivial, .wait _ rfl rfl (by decide)⟩, rfl, rfl⟩
  obtain ⟨S, hS, ho, hw⟩ := hrun
  have hread : Receiver.Runs (plain S.pool.world) { Receiver.init with
      shared := (Receiver.init.shared.pollOnce .noop (.bytes ((frame (twoPorts false) []).take 5))).2 } := by
    rw [hw]
    exact Receiver.Runs.bytes .refl _ (n := 20) rfl (by decide) (by decide) List.prefix_rfl
  have hinj : Function.Injective twoPorts := by
    unfold Function.Injective
    decide
  obtain ⟨S', r', hplay, hreach, hfin, -⟩ := everything_arrives 1 hinj hS hread
  exact ⟨S, S', _, r', hS, ho, hread, by decide, hplay, hreach, hfin⟩

end VtMuxer
