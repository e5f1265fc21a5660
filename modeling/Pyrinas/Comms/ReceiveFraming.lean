import Pyrinas.Machinery.Framing
import Pyrinas.Comms.Receive

/-!
# Comms/ReceiveFraming — when serial framing is independent of chunking

A frame is one length byte and that many bytes; `Framing.frames` is what the stream carries, however
it was cut into pieces.  The loop agrees with it piece by piece (`FramesDelivered`) as long as
`OneFrameEnds`: behind the first frame that ends in a piece the piece holds only the beginning of
one more, or only zero lengths.  A second complete frame in one piece is copied into `message` and
never passed on, and a zero length takes everything behind it in its piece with it.

    consumed ──frames──▸ what the callback should have seen
    consumed ──rest────▸ what `message`, `message_size`, `p_message_next` should hold (`InProgress`)
-/

open Machinery

namespace Pyrinas

/-! ## What the callback is to see -/

/-- The event for one frame. -/
def readEvt (f : List UInt8) : CommsEvt := ⟨.commsEvtRead, f, f.length⟩

/-- The thread together with the bytes it has consumed. -/
structure RxTrace where
  consumed : List UInt8
  rx : Option CommsRx

namespace RxTrace

/-- Before the first piece. -/
def start : RxTrace := ⟨[], some .start⟩

/-- One more piece. -/
def step (t : RxTrace) (piece : List UInt8) : RxTrace :=
  ⟨t.consumed ++ piece, commsRxThread t.rx piece⟩

/-- The events passed to the callback are the complete frames of the bytes consumed. -/
def FramesDelivered (t : RxTrace) : Prop :=
  ∃ s, t.rx = some s ∧ s.events = (Framing.frames UInt8.toNat t.consumed).map readEvt

/-- Behind the first frame that ends in the piece comes at most the beginning of another one, or
nothing but zero lengths.  A zero length counts as a frame, and nothing may follow it but more of
them. -/
def OneFrameEnds (t : RxTrace) (piece : List UInt8) : Prop :=
  match Framing.split UInt8.toNat (Framing.rest UInt8.toNat t.consumed ++ piece) with
  | ([], _) => True
  | (f :: fs, r) => (f ≠ [] ∧ fs = []) ∨ ((∀ g ∈ fs, g = []) ∧ r = [])

end RxTrace

/-! ## The state of the loop is the incomplete frame -/

/-- The loop holds the incomplete frame `r`: its size, and the bytes that have come. -/
def InProgress (s : CommsRx) : List UInt8 → Prop
  | [] => s.messageSize = 0
  | h :: d => d.length < h.toNat ∧ s.messageSize = h.toNat ∧ s.pMessageNext = d.length ∧
      s.message.cells.take d.length = d

/-- An iteration that has a non-zero size copies, from where the incomplete frame ends. -/
theorem commsRxIteration_eq_copy {s : CommsRx} {r piece d : List UInt8} {h : UInt8}
    (hs : InProgress s r) (hp : piece ≠ []) (hrp : r ++ piece = h :: d) (hh : h.toNat ≠ 0) :
    ∃ s₀ pre data, d = pre ++ data ∧ pre.length ≤ h.toNat ∧ s₀.pMessageNext = pre.length ∧
      s₀.message.cells.take pre.length = pre ∧ s₀.messageSize = h.toNat ∧
      s₀.events = s.events ∧ commsRxIteration s piece = commsRxCopy s₀ data := by
  cases r with
  | nil =>
    obtain rfl : piece = h :: d := hrp
    refine ⟨{ s with pMessageNext := 0, messageSize := h.toNat }, [], d, rfl, by simp, rfl,
      by simp, rfl, rfl, ?_⟩
    rw [commsRxIteration_first hs, if_neg hh]
  | cons h' pre =>
    obtain ⟨hlt, hsize, hnext, htake⟩ := hs
    obtain ⟨rfl, rfl⟩ := List.cons.inj hrp
    exact ⟨s, pre, piece, rfl, hlt.le, hnext, htake, hsize, rfl,
      commsRxIteration_next (by omega) hp⟩

/-- **A piece in which no frame ends** is added to the message in progress. -/
theorem commsRxIteration_incomplete {s : CommsRx} {r piece d : List UInt8} {h : UInt8}
    (hs : InProgress s r) (hp : piece ≠ []) (hrp : r ++ piece = h :: d) (hlt : d.length < h.toNat) :
    ∃ s', commsRxIteration s piece = some s' ∧ s'.events = s.events ∧ InProgress s' (h :: d) := by
  obtain ⟨s₀, pre, data, rfl, hle, hnext, htake, hsize, hev, hit⟩ :=
    commsRxIteration_eq_copy hs hp hrp (by omega)
  rw [List.length_append] at hlt
  have hbyte := h.toNat_lt
  obtain ⟨message, hm, hcopy⟩ := commsRxCopy_of_lt s₀ data
    (k := h.toNat - pre.length) (by omega) (by omega) (by omega)
  refine ⟨_, hit.trans hcopy, hev, ?_, hsize, ?_, ?_⟩
  · rw [List.length_append]; exact hlt
  · simp [hnext]
  · have := Area.take_of_copyIn hm
    rw [hnext, htake] at this
    rw [List.length_append]
    exact this

/-- **A piece in which a frame ends** passes it on, and goes on with what is left of the piece. -/
theorem commsRxIteration_complete {s : CommsRx} {r piece f e : List UInt8} {h : UInt8}
    (hs : InProgress s r) (hp : piece ≠ []) (hrp : r ++ piece = h :: (f ++ e))
    (hf : f.length = h.toNat) (hne : f ≠ []) :
    ∃ s', s'.pMessageNext = 0 ∧ s'.events = s.events ++ [readEvt f] ∧
      commsRxIteration s piece = commsRxLeftover s' e := by
  have hpos : 0 < f.length := List.length_pos_iff.mpr hne
  obtain ⟨s₀, pre, data, hd, hle, hnext, htake, hsize, hev, hit⟩ :=
    commsRxIteration_eq_copy hs hp hrp (by omega)
  have hbyte := h.toNat_lt
  have hlen := congrArg List.length hd
  simp only [List.length_append] at hlen
  obtain ⟨message, hm, hcopy⟩ := commsRxCopy_of_le s₀ data
    (k := h.toNat - pre.length) (by omega) (by omega) (by omega)
  have htake' := Area.take_of_copyIn hm
  rw [hnext, htake, List.length_take, Nat.min_eq_left (by omega),
    Nat.add_sub_cancel' hle] at htake'
  have hfd : pre ++ data.take (h.toNat - pre.length) = f := by
    have := congrArg (List.take f.length) hd
    rw [List.take_left, List.take_append, List.take_of_length_le (by omega)] at this
    rw [this, hf]
  have hed : data.drop (h.toNat - pre.length) = e := by
    have := congrArg (List.drop f.length) hd
    rw [List.drop_left, List.drop_append, List.drop_of_length_le (by omega), List.nil_append] at this
    rw [this, hf]
  refine ⟨_, ?_, ?_, hit.trans (hcopy.trans (by rw [hed]))⟩
  · rfl
  · simp only [hev, hsize, htake', hfd, readEvt, hf]

/-- A zero length ends the iteration. -/
theorem commsRxIteration_zero {s : CommsRx} {r piece e : List UInt8} {h : UInt8}
    (hs : InProgress s r) (hrp : r ++ piece = h :: e) (hh : h.toNat = 0) :
    ∃ s', commsRxIteration s piece = some s' ∧ s'.events = s.events ∧ s'.messageSize = 0 := by
  cases r with
  | nil =>
    obtain rfl : piece = h :: e := hrp
    refine ⟨{ s with pMessageNext := 0, messageSize := 0 }, ?_, rfl, rfl⟩
    rw [commsRxIteration_first hs, if_pos hh]
  | cons h' d =>
    obtain ⟨rfl, -⟩ := List.cons.inj hrp
    exact absurd hs.1 (by omega)

/-- What is left behind a completed frame, when it is less than one frame. -/
theorem commsRxLeftover_incomplete {s : CommsRx} {e : List UInt8}
    (hs : s.pMessageNext = 0) (he : Framing.split UInt8.toNat e = ([], e)) :
    ∃ s', commsRxLeftover s e = some s' ∧ s'.events = s.events ∧ InProgress s' e := by
  rcases (Framing.eq_of_split_nil _ he).2 with rfl | ⟨b, d, rfl, hlt⟩
  · exact ⟨_, rfl, rfl, rfl⟩
  · have hbyte := b.toNat_lt
    obtain ⟨message, hm⟩ := s.message.exists_copyIn s.pMessageNext d (by omega)
    refine ⟨{ s with
      messageSize := b.toNat, message := message, pMessageNext := s.pMessageNext + d.length },
      ?_, rfl, hlt, rfl, by simp [hs], ?_⟩
    · simp [commsRxLeftover, show b.toNat ≠ 0 by omega, hm]
    · have := Area.take_of_copyIn hm
      simpa [hs] using this

/-- …when it starts with a zero length: the size is zero again, and the rest is dropped. -/
theorem commsRxLeftover_zero (s : CommsRx) {b : UInt8} (hb : b.toNat = 0) (d : List UInt8) :
    commsRxLeftover s (b :: d) = some { s with messageSize := 0 } := by
  simp [commsRxLeftover, hb]

/-- In no case does the leftover pass anything on. -/
theorem events_of_commsRxLeftover {s s' : CommsRx} {e : List UInt8}
    (h : commsRxLeftover s e = some s') : s'.events = s.events := by
  cases e with
  | nil => rw [← Option.some.inj h]
  | cons b d =>
    by_cases hb : b.toNat = 0
    · rw [commsRxLeftover_zero s hb] at h
      rw [← Option.some.inj h]
    · simp only [commsRxLeftover, hb, if_false] at h
      obtain ⟨message, -, hs'⟩ := Option.bind_eq_some_iff.mp h
      rw [← Option.some.inj hs']

/-! ## The invariant -/

namespace RxTrace

/-- The callback has seen the frames, and the loop holds the incomplete one. -/
def Framed (t : RxTrace) : Prop :=
  ∃ s, t.rx = some s ∧ s.events = (Framing.frames UInt8.toNat t.consumed).map readEvt ∧
    InProgress s (Framing.rest UInt8.toNat t.consumed)

theorem framed_start : Framed start :=
  ⟨.start, rfl, by simp [start, CommsRx.start, Framing.frames],
    by simp [start, CommsRx.start, Framing.rest, InProgress]⟩

theorem Framed.delivered {t : RxTrace} (h : Framed t) : FramesDelivered t :=
  let ⟨s, hs, hev, _⟩ := h
  ⟨s, hs, hev⟩

/-- What a piece adds: the frames that end in it, and the incomplete frame at its end. -/
theorem frames_step {t : RxTrace} {piece : List UInt8} {fs : List (List UInt8)} {r : List UInt8}
    (h : Framing.split UInt8.toNat (Framing.rest UInt8.toNat t.consumed ++ piece) = (fs, r)) :
    Framing.frames UInt8.toNat (t.step piece).consumed
        = Framing.frames UInt8.toNat t.consumed ++ fs.filter (· ≠ []) ∧
      Framing.rest UInt8.toNat (t.step piece).consumed = r := by
  have hfr : Framing.frames UInt8.toNat (Framing.rest UInt8.toNat t.consumed ++ piece)
      = fs.filter (· ≠ []) := by rw [Framing.frames, h]
  constructor
  · rw [step, Framing.frames_append, hfr]
  · rw [step, Framing.rest_append, Framing.rest, h]

theorem step_rx {t : RxTrace} {s : CommsRx} (hs : t.rx = some s) (piece : List UInt8) :
    (t.step piece).rx = commsRxIteration s piece := by rw [step, hs]; rfl

theorem step_nil (t : RxTrace) : t.step [] = t := by
  cases t with
  | mk consumed rx => cases rx <;> simp [step, commsRxThread]

/-- **One piece in which at most one frame ends keeps the loop framed.** -/
theorem framed_step {t : RxTrace} {piece : List UInt8} (h : Framed t) (hok : OneFrameEnds t piece) :
    Framed (t.step piece) := by
  by_cases hp : piece = []
  · rwa [hp, step_nil]
  obtain ⟨s, hs, hev, hprog⟩ := h
  rcases hsplit : Framing.split UInt8.toNat (Framing.rest UInt8.toNat t.consumed ++ piece)
    with ⟨_ | ⟨f, fs⟩, r⟩
  · -- no frame ends in the piece
    obtain ⟨hfr, hrest⟩ := frames_step hsplit
    obtain ⟨rfl, hnil | ⟨b, d, hd, hlt⟩⟩ := Framing.eq_of_split_nil _ hsplit
    · exact absurd (List.append_eq_nil_iff.mp hnil).2 hp
    · obtain ⟨s', hit, hev', hprog'⟩ := commsRxIteration_incomplete hprog hp hd hlt
      refine ⟨s', (step_rx hs piece).trans hit, ?_, ?_⟩
      · rw [hev', hev, hfr]; simp
      · rwa [hrest, hd]
  · obtain ⟨hfr, hrest⟩ := frames_step hsplit
    obtain ⟨b, e, hd, hf, he⟩ := Framing.exists_frame_of_split _ hsplit
    simp only [OneFrameEnds, hsplit] at hok
    by_cases hne : f = []
    · -- a zero length, with only zero lengths behind it
      subst hne
      obtain ⟨s', hit, hev', hz⟩ := commsRxIteration_zero hprog hd (by simpa using hf.symm)
      obtain ⟨hfs, rfl⟩ := hok.resolve_left fun hl => hl.1 rfl
      refine ⟨s', (step_rx hs piece).trans hit, ?_, ?_⟩
      · have : fs.filter (· ≠ []) = [] := List.filter_eq_nil_iff.mpr fun g hg => by simp [hfs g hg]
        rw [hev', hev, hfr, List.filter_cons_of_neg (by simp), this, List.append_nil]
      · rw [hrest]; exact hz
    · obtain ⟨s', hnext, hev', hit⟩ := commsRxIteration_complete hprog hp hd hf hne
      rcases hok with ⟨-, rfl⟩ | ⟨hfs, rfl⟩
      · -- the beginning of another frame behind the one that ends
        obtain ⟨rfl, -⟩ := Framing.eq_of_split_nil _ he
        obtain ⟨s'', hleft, hev'', hprog'⟩ := commsRxLeftover_incomplete hnext he
        refine ⟨s'', (step_rx hs piece).trans (hit.trans hleft), ?_, ?_⟩
        · rw [hev'', hev', hev, hfr]; simp [hne]
        · rwa [hrest]
      · -- zero lengths behind the one that ends
        have hempty : fs.filter (· ≠ []) = [] :=
          List.filter_eq_nil_iff.mpr fun g hg => by simp [hfs g hg]
        refine ⟨{ s' with messageSize := 0 }, (step_rx hs piece).trans (hit.trans ?_), ?_, ?_⟩
        · cases e with
          | nil => rfl
          | cons b' d' =>
            cases fs with
            | nil => exact absurd (Framing.eq_of_split_nil _ he).1 (List.cons_ne_nil _ _).symm
            | cons g gs =>
              obtain ⟨b'', d'', hbd, hg, -⟩ := Framing.exists_frame_of_split _ he
              obtain ⟨rfl, -⟩ := List.cons.inj hbd
              refine commsRxLeftover_zero s' ?_ d'
              rw [← hg, hfs g List.mem_cons_self, List.length_nil]
        · rw [hev', hev, hfr, List.filter_cons_of_pos (by simpa using hne), hempty]
          simp
        · rw [hrest]; rfl

/-! ## Where a second frame ends in a piece -/

/-- One byte at a time, at most one frame ends in a piece. -/
theorem oneFrameEnds_singleton (t : RxTrace) (b : UInt8) : OneFrameEnds t [b] := by
  rcases Framing.rest_cases UInt8.toNat t.consumed with hr | ⟨h, d, hr, hlt⟩
  · by_cases hb : b.toNat = 0
    · have := Framing.split_frame UInt8.toNat (h := b) (f := []) (by simpa using hb.symm) []
      simp [OneFrameEnds, hr, show [b] = b :: ([] ++ []) from rfl, this]
    · have := Framing.split_cons_of_lt UInt8.toNat (h := b) (d := []) (by simp; omega)
      simp [OneFrameEnds, hr, this]
  · by_cases heq : d.length + 1 = h.toNat
    · have := Framing.split_frame UInt8.toNat (h := h) (f := d ++ [b]) (by simpa using heq) []
      rw [List.append_nil] at this
      simp [OneFrameEnds, hr, this]
    · have := Framing.split_cons_of_lt UInt8.toNat (h := h) (d := d ++ [b]) (by simp; omega)
      simp [OneFrameEnds, hr, this]

theorem meets_zeros (t : RxTrace) (k : ℕ) :
    Meets step OneFrameEnds t (List.replicate k [0]) := by
  intro qs e h
  have he : e ∈ List.replicate k [(0 : UInt8)] := h.subset (by simp)
  rw [List.eq_of_mem_replicate he]
  exact oneFrameEnds_singleton _ 0

/-- A loop that waits for a size passes nothing on for any number of zero bytes. -/
theorem run_zeros {s : CommsRx} (hs : s.messageSize = 0) (k : ℕ) (c : List UInt8) :
    ∃ s', run step ⟨c, some s⟩ (List.replicate k [0]) = ⟨c ++ List.replicate k 0, some s'⟩ ∧
      s'.events = s.events := by
  induction k generalizing s c with
  | zero => exact ⟨s, by simp, rfl⟩
  | succ k ih =>
    obtain ⟨s', hrun, hev⟩ :=
      ih (s := { s with pMessageNext := 0, messageSize := 0 }) rfl (c ++ [0])
    refine ⟨s', ?_, hev⟩
    have hit := commsRxIteration_first hs 0 []
    rw [if_pos (by decide)] at hit
    rw [List.replicate_succ, run_cons, step, commsRxThread, Option.bind_some, hit, hrun,
      List.replicate_succ, List.append_assoc, List.singleton_append]

/-- **A loop that waits for a size in the middle of a frame misses it**: as many zero bytes as the
frame still needs complete it, and nothing is passed on. -/
theorem missed_of_size_zero {t : RxTrace} {s : CommsRx} (hrx : t.rx = some s)
    (hs : s.messageSize = 0) (hr : Framing.rest UInt8.toNat t.consumed ≠ []) :
    ∃ rs, Meets step OneFrameEnds t rs ∧ ¬ Always step FramesDelivered t rs := by
  obtain ⟨h, d, hr, hlt⟩ := (Framing.rest_cases UInt8.toNat t.consumed).resolve_left hr
  refine ⟨List.replicate (h.toNat - d.length) [0], meets_zeros t _, ?_⟩
  intro hall
  obtain ⟨s', hrun, hev⟩ := run_zeros hs (h.toNat - d.length) t.consumed
  obtain ⟨s₁, hs₁, hev₁⟩ := hall.head
  obtain ⟨s₂, hs₂, hev₂⟩ := hall.last
  rw [show t = ⟨t.consumed, some s⟩ by rw [← hrx], hrun] at hs₂ hev₂
  obtain rfl : s = s₁ := Option.some.inj (hrx.symm.trans hs₁)
  obtain rfl : s' = s₂ := Option.some.inj hs₂
  have hfr := Framing.split_frame UInt8.toNat (h := h)
    (f := d ++ List.replicate (h.toNat - d.length) 0)
    (by rw [List.length_append, List.length_replicate]; omega) []
  rw [List.append_nil] at hfr
  have hne : d ++ List.replicate (h.toNat - d.length) 0 ≠ [] := by
    intro hnil
    have := congrArg List.length hnil
    simp only [List.length_append, List.length_replicate, List.length_nil] at this
    omega
  have hnew : Framing.frames UInt8.toNat
      (h :: (d ++ List.replicate (h.toNat - d.length) 0))
        = [d ++ List.replicate (h.toNat - d.length) 0] := by
    rw [Framing.frames, hfr]
    simpa using hne
  have hlen := congrArg List.length (hev₂.symm.trans (hev.trans hev₁))
  rw [Framing.frames_append, hr, List.cons_append, hnew] at hlen
  simp at hlen

/-- **A piece in which a second frame ends, or in which a zero length is followed by more, loses
it** — at once, or as soon as the stream goes on byte by byte. -/
theorem exists_undelivered {t : RxTrace} {piece : List UInt8} (h : Framed t)
    (hbad : ¬ OneFrameEnds t piece) :
    ∃ rs, Meets step OneFrameEnds (t.step piece) rs ∧
      ¬ Always step FramesDelivered (t.step piece) rs := by
  obtain ⟨s, hs, hev, hprog⟩ := h
  have hp : piece ≠ [] := by
    rintro rfl
    exact hbad (by simp [OneFrameEnds, Framing.split_rest])
  rcases hsplit : Framing.split UInt8.toNat (Framing.rest UInt8.toNat t.consumed ++ piece)
    with ⟨_ | ⟨f, fs⟩, r⟩
  · exact absurd (by simp [OneFrameEnds, hsplit]) hbad
  obtain ⟨hfr, hrest⟩ := frames_step hsplit
  obtain ⟨b, e, hd, hf, he⟩ := Framing.exists_frame_of_split _ hsplit
  simp only [OneFrameEnds, hsplit, not_or, not_and] at hbad
  obtain ⟨hone, hzero⟩ := hbad
  by_cases hall : ∀ g ∈ fs, g = []
  · -- the loop is left waiting for a size although a frame has begun
    have hr := hzero hall
    by_cases hne : f = []
    · subst hne
      obtain ⟨s', hit, -, hz⟩ := commsRxIteration_zero hprog hd (by simpa using hf.symm)
      exact missed_of_size_zero ((step_rx hs piece).trans hit) hz (by rwa [hrest])
    · obtain ⟨s', -, -, hit⟩ := commsRxIteration_complete hprog hp hd hf hne
      obtain ⟨g, gs, rfl⟩ := List.exists_cons_of_ne_nil (hone hne)
      obtain ⟨b', e', rfl, hg, -⟩ := Framing.exists_frame_of_split _ he
      rw [commsRxLeftover_zero s' (by rw [← hg, hall g List.mem_cons_self, List.length_nil])] at hit
      exact missed_of_size_zero ((step_rx hs piece).trans hit) rfl (by rwa [hrest])
  · -- another frame with a payload ends in the piece, and one event at most is passed on
    refine ⟨[], meets_nil, ?_⟩
    intro hd'
    obtain ⟨s', hs', hev'⟩ := always_nil.mp hd'
    rw [step_rx hs] at hs'
    simp only [not_forall] at hall
    obtain ⟨g, hg, hgne⟩ := hall
    have hpos : 0 < (fs.filter (· ≠ [])).length :=
      List.length_pos_of_mem (List.mem_filter.mpr ⟨hg, by simpa using hgne⟩)
    have hlen := congrArg List.length hev'
    rw [hfr, List.map_append, ← hev, List.length_append, List.length_map] at hlen
    by_cases hne : f = []
    · subst hne
      obtain ⟨s₁, hit, hev₁, -⟩ := commsRxIteration_zero hprog hd (by simpa using hf.symm)
      obtain rfl : s₁ = s' := Option.some.inj (hit.symm.trans hs')
      rw [hev₁, List.filter_cons_of_neg (by simp)] at hlen
      omega
    · obtain ⟨s₁, -, hev₁, hit⟩ := commsRxIteration_complete hprog hp hd hf hne
      rw [hit] at hs'
      rw [events_of_commsRxLeftover hs', hev₁, List.filter_cons_of_pos (by simpa using hne)] at hlen
      simp only [List.length_append, List.length_cons, List.length_nil] at hlen
      omega

/-- **Serial framing is independent of chunking exactly while at most one frame ends in a piece.**
The events passed on are the complete frames of the bytes consumed, along the pieces and along every
way of going on from any of them, iff behind the first frame that ends in a piece there is only the
beginning of one more or only zero lengths. -/
theorem framesDelivered_iff_oneFrameEnds (pieces : List (List UInt8)) :
    Robust step OneFrameEnds FramesDelivered start pieces
      ↔ Meets step OneFrameEnds start pieces :=
  robust_iff_meets (fun _ _ => framed_step) (fun _ => Framed.delivered)
    (fun _ _ => exists_undelivered) framed_start pieces

/-- Two frames of one byte in one piece: the second is never passed on. -/
theorem not_framesDelivered_two_frames :
    ¬ Always step FramesDelivered start [[1, 7, 1, 8]] := by
  intro h
  obtain ⟨s, hs, hev⟩ := h.last
  have hrun : (run step start [[1, 7, 1, 8]]).rx.map (·.events.length) = some 1 := by decide
  rw [hs] at hrun
  have hlen := congrArg List.length hev
  simp [step, start, Framing.frames, Framing.split] at hlen hrun
  omega

end RxTrace

end Pyrinas
