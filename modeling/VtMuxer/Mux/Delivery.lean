import VtMuxer.Mux.Streams

/-! What the reference demultiplexer makes of a stream, address by address: it does what each
signal says, so it opens, fills and closes one entry for each connection. -/
namespace VtMuxer

def Event.opening : Event → Option (SocketAddr × ℕ)
  | opened a id => some (a, id)
  | _ => none

namespace Demux
section
variable (live : ℕ → Bool) (connected : Bool)

def hear (d : Demux) : Signal → Demux
  | .data a b => d.deliver live a [b]
  | .zero a => d.toggle connected a

variable {live connected}

theorem resume_next {p : Position} (hv : p.Valid) (d : Demux) (b : UInt8) :
    d.resume live connected [b] p = ((p.next b).2.foldl (hear live connected) d, (p.next b).1) ∧
      (p.next b).1.Valid := by
  cases p with
  | header filled =>
    have hlt : filled.length < 20 := hv
    have hres : d.resume live connected [b] (.header filled) = d.run live connected (filled ++ [b]) := rfl
    rw [hres]
    unfold Position.next
    by_cases h20 : filled.length + 1 < 20
    · have hshort : (filled ++ [b]).length < 20 := by simpa using h20
      simp only [h20, if_true, run_of_lt hshort]
      exact ⟨rfl, hshort⟩
    · have hlen : (filled ++ [b]).length = 20 := by
        rw [List.length_append, List.length_singleton]
        omega
      have htake : (filled ++ [b]).take 20 = filled ++ [b] := List.take_of_length_le hlen.le
      have hdrop : (filled ++ [b]).drop 20 = [] := List.drop_of_length_le hlen.le
      have hl : ((filled ++ [b]).take 20).length = 20 := by rw [htake, hlen]
      have hinit : MuxFrameHeader.assumeInit (filled ++ [b]) =
          .ofBytes ((filled ++ [b]).take 20) hl := by
        rw [MuxFrameHeader.assumeInit, dif_pos hlen]
        exact MuxFrameHeader.ofBytes_congr htake.symm _ _
      simp only [h20, if_false]
      rw [run_of_ge hlen.ge hl, hdrop, hinit]
      by_cases h0 : (MuxFrameHeader.ofBytes ((filled ++ [b]).take 20) hl).len = 0
      · simp only [h0, if_true, run_nil]
        exact ⟨rfl, by simp [Position.Valid]⟩
      · have hval : (Position.payload (MuxFrameHeader.ofBytes ((filled ++ [b]).take 20) hl).addr
            (MuxFrameHeader.ofBytes ((filled ++ [b]).take 20) hl).len).Valid :=
          ⟨Nat.pos_of_ne_zero h0, MuxFrameHeader.len_lt _⟩
        simp only [h0, if_false, resume_nil hval]
        exact ⟨rfl, hval⟩
  | payload owner left =>
    obtain ⟨hpos, hlt⟩ := hv
    unfold Position.next resume
    by_cases h1 : left - 1 = 0
    · have hone : left = 1 := by omega
      simp only [hone, List.length_singleton, le_refl, if_true, List.take_succ_cons, List.take_zero,
        List.drop_succ_cons, List.drop_zero, run_nil, Nat.sub_self]
      exact ⟨rfl, by simp [Position.Valid]⟩
    · have hgt : ¬ left ≤ 1 := by omega
      simp only [List.length_singleton, hgt, if_false, h1]
      exact ⟨rfl, by omega, by omega⟩

/-- The reference does what the signals say. -/
theorem resume_scan {p : Position} (hv : p.Valid) (d : Demux) (bytes : List UInt8) :
    d.resume live connected bytes p =
      ((p.scan bytes).2.foldl (hear live connected) d, (p.scan bytes).1) := by
  induction bytes generalizing p d with
  | nil => exact resume_nil hv d
  | cons b bytes ih =>
    obtain ⟨hb, hv'⟩ : d.resume live connected [b] p =
        ((p.next b).2.foldl (hear live connected) d, (p.next b).1) ∧ (p.next b).1.Valid :=
      resume_next hv d b
    rw [← List.singleton_append, resume_append, hb, ih hv']
    simp only [List.singleton_append, Position.scan, List.foldl_append]

end

/-- Entries are numbered in order, and no two addresses share one. -/
structure Ordered (d : Demux) : Prop where
  allocated : ∀ a id, d.map a = some id → id < d.next
  distinct : ∀ a b id, d.map a = some id → d.map b = some id → a = b

def openings (d : Demux) : List (SocketAddr × ℕ) := d.events.filterMap Event.opening

def openedAs (d : Demux) (a : SocketAddr) : List ℕ := (d.openings.filter fun x => x.1 = a).map Prod.snd

/-- What the reference has of an address that has come so far. -/
inductive Saw (d : Demux) (a : SocketAddr) : Phase → Prop where
  | silent (hm : d.map a = none) (ho : d.openedAs a = []) : Saw d a .silent
  | talking {id : ℕ} {said : List UInt8} (hm : d.map a = some id) (ho : d.openedAs a = [id])
      (happ : d.appended id = said) : Saw d a (.talking said)
  | closed {id : ℕ} {said : List UInt8} (hm : d.map a = none) (ho : d.openedAs a = [id])
      (hlt : id < d.next) (hfree : ∀ b, d.map b ≠ some id) (happ : d.appended id = said) :
      Saw d a (.closed said)

section
variable {d : Demux} {a : SocketAddr} {ph ph' : Phase}

theorem mem_openings_of_openedAs {id : ℕ} (h : d.openedAs a = [id]) : (a, id) ∈ d.openings := by
  have hmem : id ∈ d.openedAs a := by simp [h]
  obtain ⟨x, hx, rfl⟩ := List.mem_map.mp hmem
  obtain ⟨hin, hxa⟩ := List.mem_filter.mp hx
  obtain rfl : x.1 = a := by simpa using hxa
  exact hin

theorem mem_openedAs {id : ℕ} (h : (a, id) ∈ d.openings) : id ∈ d.openedAs a :=
  List.mem_map.mpr ⟨(a, id), List.mem_filter.mpr ⟨h, by simp⟩, rfl⟩

theorem Saw.openedAs_le (h : d.Saw a ph) : (d.openedAs a).length ≤ 1 := by
  cases h with
  | silent _ ho => simp [ho]
  | talking _ ho _ => simp [ho]
  | closed _ ho _ _ _ => simp [ho]

theorem nodup_openings (h : ∀ a, (d.openedAs a).length ≤ 1) : (d.openings.map Prod.fst).Nodup := by
  rw [List.nodup_iff_count_le_one]
  intro a
  have hcount : (d.openings.map Prod.fst).count a = (d.openedAs a).length := by
    rw [openedAs, List.length_map, List.count_eq_length_filter, List.filter_map, List.length_map]
    congr 1
  rw [hcount]
  exact h a

/-- With every reader alive, payload goes to the entry of its address. -/
theorem deliver_of_map {id : ℕ} (hm : d.map a = some id) (bs : List UInt8) :
    d.deliver (fun _ => true) a bs =
      { d with appended := Function.update d.appended id (d.appended id ++ bs) } := by
  simp [deliver, hm]

theorem toggle_of_map {id : ℕ} (hm : d.map a = some id) :
    d.toggle true a =
      { d with map := Function.update d.map a none, events := d.events ++ [.closed a id] } := by
  simp [toggle, hm]

theorem toggle_of_none (hm : d.map a = none) :
    d.toggle true a =
      { map := Function.update d.map a (some d.next)
        next := d.next + 1
        events := d.events ++ [.opened a d.next]
        appended := Function.update d.appended d.next [] } := by
  simp [toggle, hm]

theorem of_closed {b c : SocketAddr} {id : ℕ} (h : Function.update d.map b none c = some id) :
    c ≠ b ∧ d.map c = some id := by
  rcases eq_or_ne c b with rfl | hne
  · simp at h
  · rw [Function.update_of_ne hne] at h
    exact ⟨hne, h⟩

theorem of_opened {b c : SocketAddr} {id : ℕ} (h : Function.update d.map b (some d.next) c = some id) :
    (c = b ∧ id = d.next) ∨ d.map c = some id := by
  rcases eq_or_ne c b with rfl | hne
  · rw [Function.update_self] at h
    exact Or.inl ⟨rfl, (Option.some.inj h).symm⟩
  · rw [Function.update_of_ne hne] at h
    exact Or.inr h

theorem openedAs_opened (d : Demux) (a b : SocketAddr) (id : ℕ) :
    openedAs { d with events := d.events ++ [.opened b id] } a =
      d.openedAs a ++ if b = a then [id] else [] := by
  by_cases hba : b = a
  · simp [openedAs, openings, Event.opening, hba]
  · simp [openedAs, openings, Event.opening, hba]

theorem openedAs_closed (d : Demux) (a b : SocketAddr) (id : ℕ) :
    openedAs { d with events := d.events ++ [.closed b id] } a = d.openedAs a := by
  simp [openedAs, openings, Event.opening]

theorem Ordered.hear (h : d.Ordered) (g : Signal) : (d.hear (fun _ => true) true g).Ordered := by
  cases g with
  | data b x =>
    unfold Demux.hear
    cases hm : d.map b with
    | none =>
      have hsame : d.deliver (fun _ => true) b [x] = d := by simp [deliver, hm]
      dsimp only
      rw [hsame]
      exact h
    | some id =>
      dsimp only
      rw [deliver_of_map hm]
      exact ⟨h.allocated, h.distinct⟩
  | zero b =>
    unfold Demux.hear
    cases hm : d.map b with
    | none =>
      dsimp only
      rw [toggle_of_none hm]
      constructor
      case allocated =>
        intro c id hc
        show id < d.next + 1
        rcases of_opened hc with ⟨-, rfl⟩ | hc'
        · omega
        · have := h.allocated c id hc'
          omega
      case distinct =>
        intro c e id hc he
        rcases of_opened hc with ⟨rfl, rfl⟩ | hc'
        · rcases of_opened he with ⟨rfl, -⟩ | he'
          · rfl
          · exact absurd (h.allocated e d.next he') (lt_irrefl _)
        · rcases of_opened he with ⟨rfl, rfl⟩ | he'
          · exact absurd (h.allocated c d.next hc') (lt_irrefl _)
          · exact h.distinct c e id hc' he'
    | some j =>
      dsimp only
      rw [toggle_of_map hm]
      exact ⟨fun c id hc => h.allocated c id (of_closed hc).2,
        fun c e id hc he => h.distinct c e id (of_closed hc).2 (of_closed he).2⟩

theorem Saw.congr {d' : Demux} (h : d.Saw a ph) (hord : d.Ordered) (hm : d'.map a = d.map a)
    (ho : d'.openedAs a = d.openedAs a) (hn : d.next ≤ d'.next)
    (hfree : ∀ b id, id < d.next → d'.map b = some id → d.map b = some id)
    (happ : ∀ id < d.next, (∀ b, d.map b = some id → b = a) → d'.appended id = d.appended id) :
    d'.Saw a ph := by
  cases h with
  | silent hm₀ ho₀ => exact .silent (hm.trans hm₀) (ho.trans ho₀)
  | @talking id said hm₀ ho₀ happ₀ =>
    have hlt := hord.allocated a id hm₀
    have hkeep := happ id hlt fun b hb => hord.distinct b a id hb hm₀
    exact .talking (hm.trans hm₀) (ho.trans ho₀) (hkeep.trans happ₀)
  | @closed id said hm₀ ho₀ hlt hfree₀ happ₀ =>
    have hkeep := happ id hlt fun b hb => absurd hb (hfree₀ b)
    refine .closed (hm.trans hm₀) (ho.trans ho₀) (hlt.trans_le hn) (fun b hb => ?_) (hkeep.trans happ₀)
    exact hfree₀ b (hfree b id hlt hb)

theorem Saw.other (h : d.Saw a ph) (hord : d.Ordered) {g : Signal} (hg : g.addr ≠ a) :
    (d.hear (fun _ => true) true g).Saw a ph := by
  cases g with
  | data b x =>
    have hba : b ≠ a := hg
    unfold Demux.hear
    cases hm : d.map b with
    | none =>
      have hsame : d.deliver (fun _ => true) b [x] = d := by simp [deliver, hm]
      dsimp only
      rw [hsame]
      exact h
    | some j =>
      dsimp only
      rw [deliver_of_map hm]
      refine h.congr hord rfl rfl le_rfl (fun _ _ _ hb => hb) fun id hlt hown => ?_
      have hne : id ≠ j := by
        rintro rfl
        exact hba (hown b hm)
      exact Function.update_of_ne hne _ _
  | zero b =>
    have hba : b ≠ a := hg
    unfold Demux.hear
    cases hm : d.map b with
    | none =>
      dsimp only
      rw [toggle_of_none hm]
      refine h.congr hord (Function.update_of_ne hba.symm _ _) ?_ (Nat.le_succ _) ?_ ?_
      · have hev := openedAs_opened d a b d.next
        rw [if_neg hba, List.append_nil] at hev
        exact hev
      · intro c id hlt hc
        rcases of_opened hc with ⟨-, rfl⟩ | hc'
        · exact absurd hlt (lt_irrefl _)
        · exact hc'
      · intro id hlt _
        exact Function.update_of_ne hlt.ne _ _
    | some j =>
      dsimp only
      rw [toggle_of_map hm]
      exact h.congr hord (Function.update_of_ne hba.symm _ _) (openedAs_closed d a b j) le_rfl
        (fun _ _ _ hc => (of_closed hc).2) fun _ _ _ => rfl

/-- The reference keeps up with an address that opens and closes once. -/
theorem Saw.hear (h : d.Saw a ph) (hord : d.Ordered) {g : Signal} (hg : ph.hear a g = some ph') :
    (d.hear (fun _ => true) true g).Saw a ph' := by
  by_cases hga : g.addr = a
  · cases g with
    | data b x =>
      obtain rfl : b = a := hga
      cases h with
      | silent => simp [Phase.hear, Signal.addr] at hg
      | closed => simp [Phase.hear, Signal.addr] at hg
      | @talking id said hm ho happ =>
        obtain rfl : Phase.talking (said ++ [x]) = ph' := by simpa [Phase.hear, Signal.addr] using hg
        unfold Demux.hear
        dsimp only
        rw [deliver_of_map hm]
        refine .talking hm ho ?_
        simp [happ]
    | zero b =>
      obtain rfl : b = a := hga
      cases h with
      | closed => simp [Phase.hear, Signal.addr] at hg
      | silent hm ho =>
        obtain rfl : Phase.talking [] = ph' := by simpa [Phase.hear, Signal.addr] using hg
        unfold Demux.hear
        dsimp only
        rw [toggle_of_none hm]
        refine .talking (Function.update_self _ _ _) ?_ (Function.update_self _ _ _)
        have hev := openedAs_opened d b b d.next
        rw [if_pos rfl, ho, List.nil_append] at hev
        exact hev
      | @talking id said hm ho happ =>
        obtain rfl : Phase.closed said = ph' := by simpa [Phase.hear, Signal.addr] using hg
        unfold Demux.hear
        dsimp only
        rw [toggle_of_map hm]
        refine .closed (Function.update_self _ _ _) ((openedAs_closed d b b id).trans ho)
          (hord.allocated b id hm) ?_ happ
        intro c hc
        obtain ⟨hne, hc'⟩ := of_closed hc
        exact hne (hord.distinct c b id hc' hm)
  · obtain rfl : ph = ph' := by simpa [Phase.hear, hga] using hg
    exact h.other hord hga

theorem Saw.hears {l : List Signal} (h : d.Saw a ph) (hord : d.Ordered) (hl : ph.hears a l = some ph') :
    (l.foldl (Demux.hear (fun _ => true) true) d).Saw a ph' := by
  induction l generalizing d ph with
  | nil =>
    obtain rfl := Option.some.inj hl
    exact h
  | cons g l ih =>
    obtain ⟨ph₁, hg, hl₁⟩ := Option.bind_eq_some_iff.mp hl
    exact ih (h.hear hord hg) (hord.hear g) hl₁

end

theorem Saw.init (connected : Bool) (a : SocketAddr) : (ofReader (.init connected)).Saw a .silent :=
  .silent rfl rfl

theorem Ordered.init (connected : Bool) : (ofReader (.init connected)).Ordered where
  allocated _ _ h := by cases h
  distinct _ _ _ h := by cases h

end Demux

end VtMuxer
