import Mathlib.Data.List.DropRight
import Pyrinas.Machinery.CString
import Pyrinas.Machinery.PacketFormat
import Pyrinas.Machinery.Run

/-!
# Hci/Send — what the host reads, and the event of a failed assertion

The main thread of `hci_uart` sends the packets of the controller byte by byte, and
`bt_ctlr_assert_handle` writes one last event between any two of them: the name of a file without
its directories, and a line.

    04 │ ff │ 1+len+1+4 │ aa │ name 00 │ line          len ≠ 0
    04 │ ff │     6     │ aa │         │ line          len = 0, and one byte too few

The host splits what it gets into events and data, by the length each of them has in its header.
-/

open Machinery

namespace Pyrinas

/-! ## What the host reads -/

/-- The length of an event, or of data for a link, as their headers have it. -/
def h4Total : List UInt8 → Option ℕ
  | type :: _ :: n :: s =>
    if type = 0x04 then some (3 + n.toNat)
    else if type = 0x02 then
      match s with
      | lo :: hi :: _ => some (5 + lo.toNat + 256 * hi.toNat)
      | _ => none
    else none
  | _ => none

/-- The packets from the controller. -/
def h4FromController : PacketFormat UInt8 where
  total := h4Total
  pos s n h := by
    unfold h4Total at h
    split at h
    · split_ifs at h
      · cases h
        omega
      · split at h
        · cases h
          omega
        · cases h
    · cases h
  total_append s t n h := by
    unfold h4Total at h
    split at h
    next type _ k s =>
      split_ifs at h with hevt hacl
      · simpa [h4Total, hevt] using h
      · split at h
        next lo hi s => simpa [h4Total, hacl] using h
        next => cases h
    next => cases h

/-! ## The event of a failed assertion -/

/-- The loop over `file`: `len` and `pos`, after one more character. -/
def assertScan (s : ℕ × ℕ) (c : UInt8) : ℕ × ℕ := (s.1 + 1, if c = 0x2f then s.1 + 1 else s.2)

/-- `file` and `len` behind the loop; `none` is `NULL`. -/
def assertFile (file : Option CString) : List UInt8 × ℕ :=
  match file with
  | none => ([], 0)
  | some file =>
    let s := file.bytes.foldl assertScan (0, 0)
    (file.bytes.drop s.2, s.1 - s.2)

/-- `line`, the low byte first. -/
def lineBytes (line : UInt32) : List UInt8 :=
  [(line >>> 0 &&& 0xff).toUInt8, (line >>> 8 &&& 0xff).toUInt8, (line >>> 16 &&& 0xff).toUInt8,
    (line >>> 24 &&& 0xff).toUInt8]

/-- What `bt_ctlr_assert_handle` sends. -/
def btCtlrAssertHandle (file : Option CString) (line : UInt32) : List UInt8 :=
  let (name, len) := assertFile file
  [0x04, 0xff, UInt8.ofNat (1 + len + 1 + 4), 0xaa]
    ++ (if len = 0 then [] else name ++ [0x00]) ++ lineBytes line

/-- The characters behind the last `/`. -/
def fileName (file : CString) : List UInt8 := file.bytes.rtakeWhile (· ≠ 0x2f)

/-- The name and the line that the host finds in the event. -/
def assertInfo : List UInt8 → Option (List UInt8 × UInt32)
  | 0x04 :: 0xff :: _ :: 0xaa :: s =>
    let name := s.takeWhile (· ≠ 0)
    match s.drop (name.length + 1) with
    | [a, b, c, d] =>
      some (name, UInt32.ofNat (a.toNat + 256 * (b.toNat + 256 * (c.toNat + 256 * d.toNat))))
    | _ => none
  | _ => none

/-- A file whose name is not empty and not longer than the event can say. -/
def Named (file : Option CString) : Prop :=
  ∃ f, file = some f ∧ 1 ≤ (fileName f).length ∧ (fileName f).length ≤ 249

/-! ### The loop -/

/-- **Before each character**: `len` is where it stands, and from `pos` on there is no `/`. -/
theorem foldl_assertScan (s : List UInt8) :
    s.foldl assertScan (0, 0)
      = (s.length, s.length - (s.rtakeWhile fun c => decide (c ≠ 0x2f)).length) := by
  induction s using List.reverseRecOn with
  | nil => rfl
  | append_singleton s c ih =>
    rw [List.foldl_append, ih, List.rtakeWhile_concat]
    by_cases hc : c = 0x2f
    · simp [assertScan, hc]
    · have hle := (List.rtakeWhile_suffix (fun c => decide (c ≠ 0x2f)) s).length_le
      simp only [assertScan, hc, List.foldl_cons, List.foldl_nil, ne_eq, not_false_iff,
        decide_true, if_true, if_false, List.length_append, List.length_singleton]
      exact Prod.ext rfl (by dsimp only; omega)

theorem assertFile_some (f : CString) :
    assertFile (some f) = (fileName f, (fileName f).length) := by
  have hsuffix : fileName f <:+ f.bytes := List.rtakeWhile_suffix _ _
  have hle := hsuffix.length_le
  simp only [assertFile, foldl_assertScan]
  refine Prod.ext (List.suffix_iff_eq_drop.mp hsuffix).symm ?_
  change f.bytes.length - (f.bytes.length - (fileName f).length) = (fileName f).length
  omega

/-! ### What the host makes of it -/

/-- Without a name, the length in the header is one too large; with one, it is what is left of it
in a byte. -/
theorem isPacket_assert_iff (file : Option CString) (line : UInt32) :
    h4FromController.IsPacket (btCtlrAssertHandle file line) ↔ Named file := by
  have hempty : ∀ {file}, (assertFile file).2 = 0 →
      ¬ h4FromController.IsPacket (btCtlrAssertHandle file line) := by
    intro file hlen
    simp [PacketFormat.IsPacket, h4FromController, h4Total, btCtlrAssertHandle, hlen, lineBytes]
  cases file with
  | none =>
    refine iff_of_false (hempty rfl) ?_
    rintro ⟨f, hf, -⟩
    cases hf
  | some f =>
    have hfile := assertFile_some f
    by_cases hlen : (fileName f).length = 0
    · refine iff_of_false (hempty (by rw [hfile]; exact hlen)) ?_
      rintro ⟨g, hg, hpos, -⟩
      cases hg
      omega
    · have htotal : h4Total (btCtlrAssertHandle (some f) line)
          = some (3 + ((fileName f).length + 6) % 256) := by
        simp only [btCtlrAssertHandle, hfile, h4Total, List.cons_append, if_true,
          UInt8.toNat_ofNat']
        congr 3
        omega
      have hlength : (btCtlrAssertHandle (some f) line).length = (fileName f).length + 9 := by
        simp [btCtlrAssertHandle, hfile, hlen, lineBytes]
      have hformat : h4FromController.total = h4Total := rfl
      rw [PacketFormat.IsPacket, hformat, htotal, hlength, Option.some.injEq]
      constructor
      · intro h
        exact ⟨f, rfl, by omega, by omega⟩
      · rintro ⟨g, hg, -, hle⟩
        cases hg
        omega

/-- The four bytes of a line. -/
theorem ofNat_lineBytes (line : UInt32) :
    UInt32.ofNat ((line >>> 0 &&& 0xff).toUInt8.toNat + 256 * ((line >>> 8 &&& 0xff).toUInt8.toNat
      + 256 * ((line >>> 16 &&& 0xff).toUInt8.toNat
        + 256 * (line >>> 24 &&& 0xff).toUInt8.toNat))) = line := by
  have hmask : ∀ n : ℕ, (n &&& 255) = n % 256 := fun n => Nat.and_two_pow_sub_one_eq_mod n 8
  have hlt := line.toNat_lt
  refine UInt32.toNat_inj.mp ?_
  simp only [UInt32.toNat_toUInt8, UInt32.toNat_and, UInt32.toNat_shiftRight,
    UInt32.toNat_ofNat', UInt32.toNat_ofNat, Nat.shiftRight_eq_div_pow, Nat.reduceMod,
    Nat.reducePow, hmask]
  omega

/-- **The name and the line are in it.** -/
theorem assertInfo_assert {f : CString} (hf : fileName f ≠ []) (line : UInt32) :
    assertInfo (btCtlrAssertHandle (some f) line) = some (fileName f, line) := by
  have hzero : ∀ c ∈ fileName f, decide (c ≠ 0) = true := by
    intro c hc
    have hmem : c ∈ f.bytes := (List.rtakeWhile_suffix _ _).subset hc
    exact decide_eq_true fun h => f.noNul (h ▸ hmem)
  have hlen : (fileName f).length ≠ 0 := fun h => hf (List.length_eq_zero_iff.mp h)
  have hbytes : btCtlrAssertHandle (some f) line
      = 0x04 :: 0xff :: UInt8.ofNat (1 + (fileName f).length + 1 + 4) :: 0xaa
        :: (fileName f ++ 0x00 :: lineBytes line) := by
    simp [btCtlrAssertHandle, assertFile_some, hlen]
  have hname : (fileName f ++ 0x00 :: lineBytes line).takeWhile (· ≠ 0) = fileName f := by
    rw [List.takeWhile_append_of_pos hzero]
    simp
  have hline : (fileName f ++ 0x00 :: lineBytes line).drop ((fileName f).length + 1)
      = lineBytes line := by
    rw [← List.drop_drop, List.drop_left]
    rfl
  rw [hbytes, assertInfo, hname, hline]
  exact congrArg (fun line => some (fileName f, line)) (ofNat_lineBytes line)

/-! ## The main thread -/

/-- `cc_evt` -/
def ccEvt : List UInt8 := [0x04, 0x0e, 3, 1, 0x00, 0x00]

/-- The main thread: `rest` is what it has still to send of a buffer, or of `cc_evt`, `wire` what
has been sent, and `given` are the buffers that the controller has put into `rx_queue`. -/
structure HciSend where
  rxQueue : List (List UInt8)
  rest : List UInt8
  halted : Bool
  wire : List UInt8
  given : List (List UInt8)

/-- The controller puts a buffer; the main thread goes on; or an assertion fails. -/
inductive HciSendEvent
  | put (buf : List UInt8)
  | main
  | assert (file : Option CString) (line : UInt32)

namespace HciSend

/-- Behind `bt_enable_raw`. -/
def boot (waitNop : Bool) : HciSend := ⟨[], if waitNop then ccEvt else [], false, [], []⟩

/-- The loop of `h4_send`, or the next buffer. -/
def mainStep (s : HciSend) : HciSend :=
  match s.rest, s.rxQueue with
  | b :: rest, _ => { s with rest := rest, wire := s.wire ++ [b] }
  | [], buf :: rxQueue => { s with rest := buf, rxQueue := rxQueue }
  | [], [] => s

/-- One event; behind a failed assertion there is only an endless loop. -/
def step (s : HciSend) (e : HciSendEvent) : HciSend :=
  if s.halted then s
  else
    match e with
    | .put buf => { s with rxQueue := s.rxQueue ++ [buf], given := s.given ++ [buf] }
    | .main => s.mainStep
    | .assert file line => { s with wire := s.wire ++ btCtlrAssertHandle file line, halted := true }

/-- The packets the host has read. -/
def read (s : HciSend) : List (List UInt8) := (h4FromController.split s.wire).1

/-- What it has got of the next one. -/
def left (s : HciSend) : List UInt8 := (h4FromController.split s.wire).2

/-- What the host should read: the event it waits for, and what the controller has to say. -/
def due (waitNop : Bool) (s : HciSend) : List (List UInt8) :=
  (if waitNop then [ccEvt] else []) ++ s.given

/-- The controller puts packets, and no assertion fails. -/
def Runs : HciSendEvent → Prop
  | .put buf => h4FromController.IsPacket buf
  | .main => True
  | .assert _ _ => False

/-- Packets have been sent, and perhaps the beginning of another. -/
structure Sound (waitNop : Bool) (s : HciSend) : Prop where
  running : s.halted = false
  packets : ∀ p ∈ s.due waitNop, h4FromController.IsPacket p
  sent : ∃ sent begun, s.wire = sent.flatten ++ begun ∧
    (begun = [] ∧ s.rest = [] ∧ s.due waitNop = sent ++ s.rxQueue ∨
      s.rest ≠ [] ∧ s.due waitNop = sent ++ (begun ++ s.rest) :: s.rxQueue)

variable {waitNop : Bool} {s : HciSend}

theorem sound_boot (waitNop : Bool) : Sound waitNop (boot waitNop) := by
  cases waitNop with
  | false =>
    exact ⟨rfl, fun _ h => absurd h List.not_mem_nil, [], [], rfl, .inl ⟨rfl, rfl, rfl⟩⟩
  | true =>
    refine ⟨rfl, List.forall_mem_singleton.mpr (by decide), [], [], rfl, .inr ⟨?_, rfl⟩⟩
    exact List.cons_ne_nil _ _

theorem Sound.put (h : Sound waitNop s) {buf : List UInt8}
    (hbuf : h4FromController.IsPacket buf) : Sound waitNop (s.step (.put buf)) := by
  obtain ⟨rxQueue, rest, halted, wire, given⟩ := s
  obtain ⟨hrunning, hpackets, sent, begun, hwire, hcase⟩ := h
  obtain rfl : halted = false := hrunning
  have hdue : due waitNop ⟨rxQueue ++ [buf], rest, false, wire, given ++ [buf]⟩
      = due waitNop ⟨rxQueue, rest, false, wire, given⟩ ++ [buf] := (List.append_assoc _ _ _).symm
  refine ⟨rfl, ?_, sent, begun, hwire, ?_⟩
  · exact hdue ▸ List.forall_mem_append.mpr ⟨hpackets, List.forall_mem_singleton.mpr hbuf⟩
  · rcases hcase with ⟨hbegun, hrest, hq⟩ | ⟨hrest, hq⟩
    · exact .inl ⟨hbegun, hrest, hdue.trans (by rw [hq]; exact List.append_assoc _ _ _)⟩
    · exact .inr ⟨hrest, hdue.trans (by rw [hq]; exact List.append_assoc _ _ _)⟩

/-- **A byte, or a buffer**: with its last byte, a packet has been sent. -/
theorem Sound.main (h : Sound waitNop s) : Sound waitNop (s.step .main) := by
  obtain ⟨rxQueue, rest, halted, wire, given⟩ := s
  obtain ⟨hrunning, hpackets, sent, begun, hwire, hcase⟩ := h
  obtain rfl : halted = false := hrunning
  obtain rfl : wire = sent.flatten ++ begun := hwire
  cases rest with
  | cons b rest =>
    obtain ⟨-, hq⟩ := hcase.resolve_left fun h => List.cons_ne_nil b rest h.2.1
    by_cases hrest : rest = []
    · subst hrest
      exact ⟨rfl, hpackets, sent ++ [begun ++ [b]], [], by simp [step, mainStep],
        .inl ⟨rfl, rfl, hq.trans (by simp [step, mainStep])⟩⟩
    · exact ⟨rfl, hpackets, sent, begun ++ [b], by simp [step, mainStep],
        .inr ⟨hrest, hq.trans (by simp [step, mainStep])⟩⟩
  | nil =>
    cases rxQueue with
    | nil => exact ⟨rfl, hpackets, sent, begun, rfl, hcase⟩
    | cons buf rxQueue =>
      obtain ⟨rfl, -, hq⟩ := hcase.resolve_right fun h => h.1 rfl
      have hmem : buf ∈ due waitNop ⟨buf :: rxQueue, [], false, sent.flatten ++ [], given⟩ := by
        rw [hq]
        exact List.mem_append_right _ List.mem_cons_self
      have hne : buf ≠ [] := List.ne_nil_of_length_pos (h4FromController.pos _ _ (hpackets _ hmem))
      exact ⟨rfl, hpackets, sent, [], rfl, .inr ⟨hne, hq⟩⟩

theorem sound_step (s : HciSend) (e : HciSendEvent) (h : Sound waitNop s) (hok : Runs e) :
    Sound waitNop (s.step e) := by
  cases e with
  | put buf => exact h.put hok
  | main => exact h.main
  | assert => exact False.elim hok

/-! ## What the host reads -/

/-- **The packets that have been sent are read**, and nothing of the one that was begun. -/
theorem Sound.split_wire (h : Sound waitNop s) :
    s.wire = s.read.flatten ++ s.left ∧ (∀ p ∈ s.read, h4FromController.IsPacket p) ∧
      (s.left = [] ∧ s.rest = [] ∧ s.due waitNop = s.read ++ s.rxQueue ∨
        s.rest ≠ [] ∧ s.due waitNop = s.read ++ (s.left ++ s.rest) :: s.rxQueue) := by
  obtain ⟨sent, begun, hwire, hcase⟩ := h.sent
  have hsent : ∀ p ∈ sent, h4FromController.IsPacket p := by
    intro p hp
    refine h.packets p ?_
    rcases hcase with ⟨-, -, hdue⟩ | ⟨-, hdue⟩
    · exact hdue ▸ List.mem_append_left _ hp
    · exact hdue ▸ List.mem_append_left _ hp
  have hbegun : h4FromController.split begun = ([], begun) := by
    rcases hcase with ⟨rfl, -, -⟩ | ⟨hrest, hdue⟩
    · exact PacketFormat.split_nil
    · refine PacketFormat.split_of_beginning (h.packets _ ?_) hrest
      exact hdue ▸ List.mem_append_right _ List.mem_cons_self
  have hsplit : h4FromController.split s.wire = (sent, begun) := by
    rw [hwire, PacketFormat.split_packets hsent, hbegun, List.append_nil]
  have hread : s.read = sent := congrArg Prod.fst hsplit
  have hleft : s.left = begun := congrArg Prod.snd hsplit
  rw [hread, hleft]
  exact ⟨hwire, hsent, hcase⟩

/-- **What the host has read is what the controller has put**, whole packets in their order, and
all of them once the main thread has nothing to send. -/
theorem read_due (waitNop : Bool) (es : List HciSendEvent)
    (h : Meets step (fun _ e => Runs e) (boot waitNop) es) :
    (run step (boot waitNop) es).read <+: (run step (boot waitNop) es).due waitNop ∧
      ((run step (boot waitNop) es).rest = [] → (run step (boot waitNop) es).rxQueue = [] →
        (run step (boot waitNop) es).read = (run step (boot waitNop) es).due waitNop) := by
  have hsound := invariant_run sound_step (sound_boot waitNop) h
  obtain ⟨-, -, ⟨-, -, hdue⟩ | ⟨hrest, hdue⟩⟩ := hsound.split_wire
  · rw [hdue]
    exact ⟨List.prefix_append _ _, fun _ hq => by rw [hq, List.append_nil]⟩
  · rw [hdue]
    exact ⟨List.prefix_append _ _, fun hnil => absurd hnil hrest⟩

/-- The NOP event, and one of the controller. -/
theorem read_due_two_packets :
    (run step (boot true) (.put [0x04, 0x13, 0] :: List.replicate 9 .main)).read
      <+: (run step (boot true) (.put [0x04, 0x13, 0] :: List.replicate 9 .main)).due true ∧
      ((run step (boot true) (.put [0x04, 0x13, 0] :: List.replicate 9 .main)).rest = [] →
        (run step (boot true) (.put [0x04, 0x13, 0] :: List.replicate 9 .main)).rxQueue = [] →
        (run step (boot true) (.put [0x04, 0x13, 0] :: List.replicate 9 .main)).read
          = (run step (boot true) (.put [0x04, 0x13, 0] :: List.replicate 9 .main)).due true) :=
  read_due true _ (by simp [Runs, List.replicate]; decide)

/-- After a failed assertion nothing happens. -/
theorem run_halted (h : s.halted = true) (es : List HciSendEvent) : run step s es = s := by
  induction es with
  | nil => rfl
  | cons e es ih =>
    have hstep : s.step e = s := if_pos h
    rw [run_cons, hstep, ih]

/-- What an assertion leaves. -/
theorem wire_assert (h : s.halted = false) (file : Option CString) (line : UInt32)
    (es : List HciSendEvent) :
    (run step s (.assert file line :: es)).wire = s.wire ++ btCtlrAssertHandle file line := by
  have hstep : s.step (.assert file line)
      = { s with wire := s.wire ++ btCtlrAssertHandle file line, halted := true } :=
    if_neg (by rw [h]; exact Bool.false_ne_true)
  rw [run_cons, hstep, run_halted rfl]

/-- **Between two packets, the host reads the event of a failed assertion exactly when the file has
a name of up to 249 characters**, and finds the name and the line in it; in a packet of which more
is to come than the event has, it never does. -/
theorem read_assert (waitNop : Bool) (es : List HciSendEvent)
    (h : Meets step (fun _ e => Runs e) (boot waitNop) es) (file : Option CString) (line : UInt32)
    (fs : List HciSendEvent) :
    ((run step (boot waitNop) es).rest = [] →
      ((run step (boot waitNop) (es ++ .assert file line :: fs)).read
        = (run step (boot waitNop) es).read ++ [btCtlrAssertHandle file line] ↔ Named file)) ∧
    (∀ f, file = some f → fileName f ≠ [] →
      assertInfo (btCtlrAssertHandle file line) = some (fileName f, line)) ∧
    (h4Total (run step (boot waitNop) es).left ≠ none →
      (btCtlrAssertHandle file line).length < (run step (boot waitNop) es).rest.length →
      (run step (boot waitNop) (es ++ .assert file line :: fs)).read
        = (run step (boot waitNop) es).read) := by
  have hsound := invariant_run sound_step (sound_boot waitNop) h
  rw [run_append]
  generalize run step (boot waitNop) es = s at hsound ⊢
  have hwire := wire_assert hsound.running file line fs
  obtain ⟨hsplit, hread, hcase⟩ := hsound.split_wire
  have hafter : (run step s (.assert file line :: fs)).read = s.read
      ++ (h4FromController.split (s.left ++ btCtlrAssertHandle file line)).1 := by
    rw [read, hwire, hsplit, List.append_assoc, PacketFormat.split_packets hread]
  refine ⟨fun hrest => ?_, ?_, fun htotal hlong => ?_⟩
  · obtain ⟨hleft, -, -⟩ := hcase.resolve_right fun h => h.1 hrest
    rw [hafter, hleft, List.nil_append, List.append_right_inj,
      PacketFormat.split_eq_singleton_iff, isPacket_assert_iff]
  · rintro f rfl hf
    exact assertInfo_assert hf line
  · have hrest : s.rest ≠ [] := fun h => absurd hlong (by rw [h]; exact Nat.not_lt_zero _)
    obtain ⟨-, hdue⟩ := hcase.resolve_left fun h => hrest h.2.1
    have hpacket := hsound.packets (s.left ++ s.rest) (by
      rw [hdue]
      exact List.mem_append_right _ List.mem_cons_self)
    obtain ⟨n, hn⟩ := Option.ne_none_iff_exists'.mp htotal
    have hlength : n = (s.left ++ s.rest).length :=
      Option.some.inj ((h4FromController.total_append _ _ n hn).symm.trans hpacket)
    have hshort : h4FromController.split (s.left ++ btCtlrAssertHandle file line)
        = ([], s.left ++ btCtlrAssertHandle file line) := by
      refine PacketFormat.split_of_short fun m hm => ?_
      obtain rfl : n = m :=
        Option.some.inj ((h4FromController.total_append _ _ n hn).symm.trans hm)
      rw [hlength, List.length_append, List.length_append]
      omega
    rw [hafter, hshort, List.append_nil]

/-- `hci/m.c`, behind an event. -/
theorem read_assert_m_c :
    (run step (boot true) (List.replicate 6 .main
        ++ [.assert (some (.ofString "hci/m.c")) 300])).read
      = [ccEvt, [0x04, 0xff, 9, 0xaa, 109, 46, 99, 0, 44, 1, 0, 0]] := by
  have hread := read_assert true (List.replicate 6 .main) (by simp [Runs, List.replicate])
    (some (.ofString "hci/m.c")) 300 []
  have hnamed : Named (some (.ofString "hci/m.c")) := ⟨_, rfl, by decide, by decide⟩
  have hsent : (run step (boot true) (List.replicate 6 .main)).read = [ccEvt] := by
    have hwire : (run step (boot true) (List.replicate 6 .main)).wire = ccEvt := rfl
    rw [read, hwire, PacketFormat.split_eq_singleton_iff]
    decide
  rw [(hread.1 rfl).mpr hnamed, hsent]
  rfl

end HciSend

end Pyrinas
