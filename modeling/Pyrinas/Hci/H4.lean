import Mathlib.Data.List.TakeDrop
import Pyrinas.Machinery.Run

/-!
# Hci/H4 — the packets of the H:4 transport, and a reader of single bytes

    01 │ opcode │ n │ d₁ … d_n     a command           n in one byte
    02 │ handle │ n │ d₁ … d_n     data for a link     n in two bytes, the low one first

A packet is its type byte, its header and `n` bytes of payload.  `H4Reader` reads a stream of them
one byte at a time, and is what the interrupt handler of `hci_uart` is compared with: it knows
neither interrupts nor the fifo of the UART.  A byte that begins no packet is skipped, and so is the
payload of a packet that no buffer has room for.
-/

open Machinery

namespace Pyrinas

/-- `bt_buf_get_type`: what a buffer for the controller is for, and every other type. -/
inductive BtBufType
  | btBufCmd
  | btBufAclOut
  | other
  deriving DecidableEq

/-- The two headers: `bt_hci_cmd_hdr` and `bt_hci_acl_hdr`. -/
inductive HciHdr
  | cmd
  | acl
  deriving DecidableEq

namespace HciHdr

/-- `sizeof(hdr)` -/
def size : HciHdr → ℕ
  | .cmd => 3
  | .acl => 4

/-- `hdr.param_len`, and `sys_le16_to_cpu(hdr.len)`. -/
def len : HciHdr → List UInt8 → ℕ
  | .cmd, hdr => (hdr.getD 2 0).toNat
  | .acl, hdr => (hdr.getD 2 0).toNat + 256 * (hdr.getD 3 0).toNat

/-- The buffers that packets with this header are received in. -/
def bufType : HciHdr → BtBufType
  | .cmd => .btBufCmd
  | .acl => .btBufAclOut

/-- `H4_CMD` and `H4_ACL` -/
def h4Type : HciHdr → UInt8
  | .cmd => 0x01
  | .acl => 0x02

/-- The payloads whose length the header can hold are shorter than this. -/
def lenBound : HciHdr → ℕ
  | .cmd => 256
  | .acl => 65536

/-- A length, as the header holds it. -/
def lenBytes : HciHdr → ℕ → List UInt8
  | .cmd, n => [UInt8.ofNat n]
  | .acl, n => [UInt8.ofNat n, UInt8.ofNat (n / 256)]

theorem size_pos (hdr : HciHdr) : 0 < hdr.size := by cases hdr <;> decide

end HciHdr

/-- What the HCI driver offers: the type that `bt_buf_get_tx` gives a buffer for the first byte of a
packet, if it knows that byte, and how much the buffers of each type hold. -/
structure HciRaw where
  bufType : UInt8 → Option BtBufType
  size : BtBufType → ℕ

namespace HciRaw

/-- `bt_buf_get_tx` knows the two types of packets, and no other byte. -/
structure KnowsH4 (raw : HciRaw) : Prop where
  bufType_h4Type : ∀ hdr, raw.bufType (HciHdr.h4Type hdr) = some hdr.bufType
  bufType_of_ne : ∀ b, (∀ hdr, b ≠ HciHdr.h4Type hdr) → raw.bufType b = none

/-- Every buffer has room for a header. -/
def HoldsHeaders (raw : HciRaw) : Prop := ∀ hdr : HciHdr, hdr.size ≤ raw.size hdr.bufType

/-- A driver in H:4 mode, with buffers for `size` bytes. -/
def h4Mode (size : ℕ) : HciRaw where
  bufType b := if b = 0x01 then some .btBufCmd else if b = 0x02 then some .btBufAclOut else none
  size _ := size

theorem knowsH4_h4Mode (size : ℕ) : (h4Mode size).KnowsH4 where
  bufType_h4Type hdr := by cases hdr <;> rfl
  bufType_of_ne b hb := by
    have hcmd : b ≠ 0x01 := hb .cmd
    have hacl : b ≠ 0x02 := hb .acl
    simp [h4Mode, hcmd, hacl]

theorem holdsHeaders_h4Mode {size : ℕ} (h : 4 ≤ size) : (h4Mode size).HoldsHeaders := fun hdr =>
  have hle : hdr.size ≤ 4 := by cases hdr <;> decide
  hle.trans h

end HciRaw

/-! ## Packets -/

/-- A packet as a host sends it. -/
structure H4Packet where
  hdr : HciHdr
  id : UInt8 × UInt8
  payload : List UInt8
  length_lt : payload.length < hdr.lenBound

namespace H4Packet

/-- The header of a packet: the opcode or the handle, and the length. -/
def header (p : H4Packet) : List UInt8 :=
  p.id.1 :: p.id.2 :: p.hdr.lenBytes p.payload.length

/-- A packet on the wire. -/
def wire (p : H4Packet) : List UInt8 := p.hdr.h4Type :: (p.header ++ p.payload)

/-- The type of a packet and its bytes, as a buffer holds them. -/
def content (p : H4Packet) : BtBufType × List UInt8 := (p.hdr.bufType, p.header ++ p.payload)

/-- A buffer has room for the packet. -/
def Fits (raw : HciRaw) (p : H4Packet) : Prop :=
  p.payload.length ≤ raw.size p.hdr.bufType - p.hdr.size

instance (raw : HciRaw) (p : H4Packet) : Decidable (p.Fits raw) :=
  inferInstanceAs (Decidable (_ ≤ _))

@[simp] theorem length_header (p : H4Packet) : p.header.length = p.hdr.size := by
  unfold header
  cases p.hdr <;> rfl

/-- **The header says how long the payload is.** -/
@[simp] theorem len_header (p : H4Packet) : p.hdr.len p.header = p.payload.length := by
  obtain ⟨hdr, id, payload, hlt⟩ := p
  cases hdr with
  | cmd =>
    change payload.length < 256 at hlt
    simp only [HciHdr.len, header, HciHdr.lenBytes, List.getD_cons_succ, List.getD_cons_zero,
      UInt8.toNat_ofNat']
    omega
  | acl =>
    change payload.length < 65536 at hlt
    simp only [HciHdr.len, header, HciHdr.lenBytes, List.getD_cons_succ, List.getD_cons_zero,
      UInt8.toNat_ofNat']
    omega

end H4Packet

/-! ## The reader -/

/-- Where a reader of single bytes is: between packets, in a header, in a payload of which `missing`
bytes are still to come, or in one it skips. -/
inductive H4Phase
  | idle
  | header (hdr : HciHdr) (got : List UInt8)
  | payload (type : BtBufType) (data : List UInt8) (missing : ℕ)
  | skip (missing : ℕ)
  deriving DecidableEq

/-- A reader, and the packets it has read. -/
structure H4Reader where
  phase : H4Phase
  packets : List (BtBufType × List UInt8)

/-- A byte that is read; `room` says whether there is a buffer for a packet that it begins. -/
structure H4Byte where
  byte : UInt8
  room : Bool
  deriving DecidableEq

namespace H4Reader

/-- Nothing has been read. -/
def start : H4Reader := ⟨.idle, []⟩

variable (raw : HciRaw)

/-- The first byte of a packet, or a byte that begins none. -/
def feedType (r : H4Reader) (b : H4Byte) : H4Reader :=
  match raw.bufType b.byte with
  | some .btBufCmd => { r with phase := if b.room then .header .cmd [] else .idle }
  | some .btBufAclOut => { r with phase := if b.room then .header .acl [] else .idle }
  | _ => { r with phase := .idle }

/-- A packet of which `missing` bytes are still to come; if there are none, it has been read. -/
def await (r : H4Reader) (type : BtBufType) (data : List UInt8) (missing : ℕ) : H4Reader :=
  if missing = 0 then ⟨.idle, r.packets ++ [(type, data)]⟩
  else { r with phase := .payload type data missing }

/-- Skip `missing` bytes. -/
def skip (r : H4Reader) (missing : ℕ) : H4Reader :=
  { r with phase := if missing = 0 then .idle else .skip missing }

/-- The bytes of a header; when they are complete, they tell how long the payload is, and whether
there is room for it. -/
def feedHeader (r : H4Reader) (hdr : HciHdr) (got : List UInt8) : H4Reader :=
  if got.length < hdr.size then { r with phase := .header hdr got }
  else if raw.size hdr.bufType - got.length < hdr.len got then r.skip (hdr.len got)
  else r.await hdr.bufType got (hdr.len got)

/-- **One byte.** -/
def feed (r : H4Reader) (b : H4Byte) : H4Reader :=
  match r.phase with
  | .idle => r.feedType raw b
  | .header hdr got => r.feedHeader raw hdr (got ++ [b.byte])
  | .payload type data missing => r.await type (data ++ [b.byte]) (missing - 1)
  | .skip missing => r.skip (missing - 1)

variable {raw}

/-! ## Several bytes at once -/

theorem feed_of_idle {r : H4Reader} (h : r.phase = .idle) (b : H4Byte) :
    r.feed raw b = r.feedType raw b := by rw [feed, h]

theorem feedHeader_of_lt {r : H4Reader} {hdr : HciHdr} {got : List UInt8}
    (h : got.length < hdr.size) :
    r.feedHeader raw hdr got = { r with phase := .header hdr got } := if_pos h

theorem await_of_ne {r : H4Reader} {type : BtBufType} {data : List UInt8} {missing : ℕ}
    (h : missing ≠ 0) :
    r.await type data missing = { r with phase := .payload type data missing } := if_neg h

theorem skip_of_ne {r : H4Reader} {missing : ℕ} (h : missing ≠ 0) :
    r.skip missing = { r with phase := .skip missing } := by rw [skip, if_neg h]

/-- The bytes of a header may come in parts… -/
theorem run_feedHeader (r : H4Reader) (hdr : HciHdr) (got : List UInt8) (bs : List H4Byte)
    (h : got.length + bs.length ≤ hdr.size) :
    run (feed raw) (r.feedHeader raw hdr got) bs
      = r.feedHeader raw hdr (got ++ bs.map H4Byte.byte) := by
  have hstep : ∀ (cs : List H4Byte) b, cs.length < hdr.size - got.length →
      (r.feedHeader raw hdr (got ++ cs.map H4Byte.byte)).feed raw b
        = r.feedHeader raw hdr (got ++ (cs ++ [b]).map H4Byte.byte) := by
    intro cs b hlt
    rw [feedHeader_of_lt (by rw [List.length_append, List.length_map]; omega), feed,
      List.map_append, ← List.append_assoc]
    rfl
  simpa using run_collect (f := fun cs => r.feedHeader raw hdr (got ++ cs.map H4Byte.byte))
    hstep [] bs (by rw [List.length_nil]; omega)

/-- …and so may the bytes of a payload… -/
theorem run_await (r : H4Reader) (type : BtBufType) (data : List UInt8) {missing : ℕ}
    (bs : List H4Byte) (h : bs.length ≤ missing) :
    run (feed raw) (r.await type data missing) bs
      = r.await type (data ++ bs.map H4Byte.byte) (missing - bs.length) := by
  have hstep : ∀ (cs : List H4Byte) b, cs.length < missing →
      (r.await type (data ++ cs.map H4Byte.byte) (missing - cs.length)).feed raw b
        = r.await type (data ++ (cs ++ [b]).map H4Byte.byte) (missing - (cs ++ [b]).length) := by
    intro cs b hlt
    rw [await_of_ne (by omega), feed, List.map_append, ← List.append_assoc, List.length_append,
      List.length_singleton, ← Nat.sub_sub]
    rfl
  simpa using run_collect
    (f := fun cs => r.await type (data ++ cs.map H4Byte.byte) (missing - cs.length))
    hstep [] bs (by rw [List.length_nil]; omega)

/-- …and the bytes that are skipped. -/
theorem run_skip (r : H4Reader) {missing : ℕ} (bs : List H4Byte) (h : bs.length ≤ missing) :
    run (feed raw) (r.skip missing) bs = r.skip (missing - bs.length) := by
  have hstep : ∀ (cs : List H4Byte) b, cs.length < missing →
      (r.skip (missing - cs.length)).feed raw b = r.skip (missing - (cs ++ [b]).length) := by
    intro cs b hlt
    rw [skip_of_ne (by omega), feed, List.length_append, List.length_singleton, ← Nat.sub_sub]
    rfl
  simpa using run_collect (f := fun cs => r.skip (missing - cs.length)) hstep [] bs
    (by rw [List.length_nil]; omega)

/-! ## What a host sends is what is read -/

/-- The bytes of a stream, when there is a buffer for every packet. -/
def roomy (bs : List UInt8) : List H4Byte := bs.map (⟨·, true⟩)

@[simp] theorem roomy_cons (b : UInt8) (bs : List UInt8) :
    roomy (b :: bs) = ⟨b, true⟩ :: roomy bs := rfl

@[simp] theorem roomy_append (bs cs : List UInt8) : roomy (bs ++ cs) = roomy bs ++ roomy cs :=
  List.map_append

@[simp] theorem length_roomy (bs : List UInt8) : (roomy bs).length = bs.length := List.length_map _

@[simp] theorem map_byte_roomy (bs : List UInt8) : (roomy bs).map H4Byte.byte = bs := by
  rw [roomy, List.map_map]
  exact List.map_id bs

/-- The first byte of a packet, when there is a buffer for it. -/
theorem feedType_h4Type (hraw : raw.KnowsH4) (r : H4Reader) (hdr : HciHdr) :
    r.feedType raw ⟨hdr.h4Type, true⟩ = { r with phase := .header hdr [] } := by
  rw [feedType, hraw.bufType_h4Type hdr]
  cases hdr <;> rfl

/-- A byte that no packet begins with. -/
theorem feedType_of_ne (hraw : raw.KnowsH4) (r : H4Reader) {b : UInt8} (room : Bool)
    (hb : ∀ hdr, b ≠ HciHdr.h4Type hdr) : r.feedType raw ⟨b, room⟩ = { r with phase := .idle } := by
  rw [feedType, hraw.bufType_of_ne b hb]

/-- What is kept of some packets: those that a buffer has room for. -/
def kept (raw : HciRaw) (ps : List H4Packet) : List (BtBufType × List UInt8) :=
  (ps.filter (·.Fits raw)).map H4Packet.content

/-- **One packet**: it is read whole, or skipped whole. -/
theorem run_wire (hraw : raw.KnowsH4) (r : H4Reader) (hr : r.phase = .idle) (p : H4Packet) :
    run (feed raw) r (roomy p.wire) = ⟨.idle, r.packets ++ kept raw [p]⟩ := by
  have hhdr : { r with phase := .header p.hdr [] } = r.feedHeader raw p.hdr [] :=
    (feedHeader_of_lt (by rw [List.length_nil]; exact p.hdr.size_pos)).symm
  have hfull : r.feedHeader raw p.hdr p.header
      = if p.Fits raw then r.await p.hdr.bufType p.header p.payload.length
        else r.skip p.payload.length := by
    rw [feedHeader, if_neg (by rw [p.length_header]; omega), p.len_header, p.length_header]
    by_cases h : p.Fits raw
    · rw [if_pos h, if_neg (Nat.not_lt.mpr h)]
    · rw [if_neg h, if_pos (Nat.lt_of_not_le h)]
  rw [H4Packet.wire, roomy_cons, run_cons, feed_of_idle hr, feedType_h4Type hraw, roomy_append,
    run_append, hhdr, run_feedHeader _ _ _ _ (by simp), map_byte_roomy, List.nil_append, hfull]
  by_cases h : p.Fits raw
  · rw [if_pos h, run_await _ _ _ _ (by simp), map_byte_roomy, length_roomy, Nat.sub_self]
    simp [await, kept, h, H4Packet.content]
  · rw [if_neg h, run_skip _ _ (by simp), length_roomy, Nat.sub_self]
    simp [skip, kept, h]

/-- **A stream of packets**: those that fit are read, in the order they were sent. -/
theorem run_wires (hraw : raw.KnowsH4) (r : H4Reader) (hr : r.phase = .idle) (ps : List H4Packet) :
    run (feed raw) r (roomy (ps.flatMap H4Packet.wire)) = ⟨.idle, r.packets ++ kept raw ps⟩ := by
  induction ps generalizing r with
  | nil => simp [roomy, kept, ← hr]
  | cons p ps ih =>
    rw [List.flatMap_cons, roomy_append, run_append, run_wire hraw r hr p, ih _ rfl]
    simp only [kept, List.append_assoc, ← List.map_append, ← List.filter_append,
      List.singleton_append]

/-- Bytes that begin no packet leave no trace between packets. -/
theorem run_of_ne (hraw : raw.KnowsH4) (r : H4Reader) (hr : r.phase = .idle) (bs : List H4Byte)
    (hbs : ∀ b ∈ bs, ∀ hdr, b.byte ≠ HciHdr.h4Type hdr) : run (feed raw) r bs = r := by
  induction bs with
  | nil => rfl
  | cons b bs ih =>
    have hb : r.feed raw b = r := by
      rw [feed_of_idle hr, feedType_of_ne hraw r b.room (hbs b List.mem_cons_self), ← hr]
    rw [run_cons, hb, ih fun c hc => hbs c (List.mem_cons_of_mem b hc)]

/-- **A packet there is no buffer for is not skipped**: only its first byte is, and what is in it is
read as packets. -/
theorem run_refused (hraw : raw.KnowsH4) (r : H4Reader) (hr : r.phase = .idle) {p : H4Packet}
    (hheader : ∀ b ∈ p.header, ∀ hdr, b ≠ HciHdr.h4Type hdr) {ps : List H4Packet}
    (hpayload : p.payload = ps.flatMap H4Packet.wire) :
    run (feed raw) r (⟨p.hdr.h4Type, false⟩ :: roomy (p.header ++ p.payload))
      = ⟨.idle, r.packets ++ kept raw ps⟩ := by
  have htype : r.feed raw ⟨p.hdr.h4Type, false⟩ = r := by
    rw [feed_of_idle hr, feedType, hraw.bufType_h4Type p.hdr]
    cases p.hdr <;> simp [HciHdr.bufType, ← hr]
  rw [run_cons, htype, roomy_append, run_append, run_of_ne hraw r hr (roomy p.header), hpayload,
    run_wires hraw r hr]
  intro b hb hdr
  obtain ⟨c, hc, rfl⟩ := List.mem_map.mp hb
  exact hheader c hc hdr

/-! ## Packets that have been read stay read -/

theorem packets_feed (r : H4Reader) (b : H4Byte) : r.packets <+: (r.feed raw b).packets := by
  have hskip : ∀ n, (r.skip n).packets = r.packets := fun n => rfl
  have hawait : ∀ type data n, r.packets <+: (r.await type data n).packets := by
    intro type data n
    unfold await
    split
    · exact List.prefix_append _ _
    · exact List.prefix_rfl
  unfold feed
  split
  · unfold feedType
    split <;> (try split) <;> exact List.prefix_rfl
  · unfold feedHeader
    split
    · exact List.prefix_rfl
    · split
      · exact List.prefix_rfl
      · exact hawait _ _ _
  · exact hawait _ _ _
  · exact List.prefix_rfl

theorem packets_run (raw : HciRaw) (r : H4Reader) (bs : List H4Byte) :
    r.packets <+: (run (feed raw) r bs).packets := by
  induction bs generalizing r with
  | nil => exact List.prefix_rfl
  | cons b bs ih => exact (packets_feed r b).trans (ih _)

end H4Reader

end Pyrinas
