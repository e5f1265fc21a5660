import Pyrinas.Cloud.Packets

/-!
# Cloud/PacketIds — when packet identifiers are valid

Nothing is checked when an identifier is drawn.  The library refuses 0; an identifier in use makes
an acknowledgement ambiguous; and `ota_sub_message_id` is remembered after its SUBACK too, so a later
subscription may be taken for the one to the OTA topic.

    0x10000 ─▸ 0 ─▸ refused, and no OTA check
-/

open Machinery

namespace Pyrinas

namespace Packets

/-- An identifier is none of those that are in use, nor 0. -/
def Fresh (waiting : List Packet) (p : Packet) : Prop := p.id ≠ 0 ∧ ∀ q ∈ waiting, q.id ≠ p.id

/-- Every identifier was fresh when it was passed; and a SUBACK with `ota_sub_message_id` can be for
nothing but the OTA subscription. -/
def IdsValid (B : CloudBuild) (x : Packets) : Prop :=
  x.packets.AllOk Fresh ∧ ∀ p ∈ x.packets.waiting, ∀ topic, p.kind = .subscribe topic →
    p.id = x.cloud.otaSubMessageId → topic = B.otaSubTopic

end Packets

/-! ## Free random numbers -/

/-- Its low half is neither 0 nor the identifier of a packet that waits. -/
def Draw.Free (waiting : List Packet) (d : Draw) : Prop :=
  d.rand.toNat % 65536 ≠ 0 ∧ ∀ p ∈ waiting, p.id.toNat ≠ d.rand.toNat % 65536

/-- Of a row of random numbers each is free, behind the packets that were accepted before it. -/
def FreeRow : List Packet → List Draw → List ℤ → Prop
  | _, [], _ => True
  | waiting, d :: ds, errs => d.Free waiting ∧
    FreeRow (if errs.headD 0 = 0 then waiting ++ [d.packet] else waiting) ds errs.tail

theorem Draw.fresh_packet_iff {waiting : List Packet} {d : Draw} :
    Packets.Fresh waiting d.packet ↔ d.Free waiting := by
  simp only [Packets.Fresh, Draw.Free, ne_eq, ← UInt16.toNat_inj, Draw.packet_id_toNat,
    UInt16.toNat_zero]

/-- **Identifiers are fresh when the random numbers are free.** -/
theorem rowOk_iff_freeRow {waiting : List Packet} {ds : List Draw} {errs : List ℤ} :
    Outstanding.RowOk Packets.Fresh waiting (answered (ds.map Draw.packet) errs) ↔
      FreeRow waiting ds errs := by
  induction ds generalizing waiting errs with
  | nil => exact Iff.rfl
  | cons d ds ih =>
    simp only [List.map_cons, answered, Outstanding.RowOk, FreeRow, Draw.fresh_packet_iff]
    refine and_congr_right fun hfree => ?_
    -- a free number is not 0, so it is the library's answer that counts
    have hid : d.packet.id ≠ 0 := (Draw.fresh_packet_iff.mpr hfree).1
    simp only [hid, ne_eq, not_false_eq_true, decide_true, Bool.true_and, decide_eq_true_eq]
    exact ih

namespace FreeRow

/-- A free row is free of the packets that waited before it. -/
theorem free {waiting : List Packet} {ds : List Draw} {errs : List ℤ}
    (h : FreeRow waiting ds errs) {d : Draw} (hd : d ∈ ds) : d.Free waiting := by
  induction ds generalizing waiting errs with
  | nil => exact absurd hd List.not_mem_nil
  | cons d' ds ih =>
    rcases List.mem_cons.mp hd with rfl | htail
    · exact h.1
    · obtain ⟨hne, hfree⟩ := ih h.2 htail
      refine ⟨hne, fun p hp => hfree p ?_⟩
      split
      · exact List.mem_append_left _ hp
      · exact hp

end FreeRow

/-- What is accepted was passed. -/
theorem mem_of_mem_answered {ps : List Packet} {errs : List ℤ} {p : Packet} {accepted : Bool}
    (h : (p, accepted) ∈ answered ps errs) : p ∈ ps := by
  induction ps generalizing errs with
  | nil => exact absurd h List.not_mem_nil
  | cons q ps ih =>
    rcases List.mem_cons.mp h with heq | htail
    · exact List.mem_cons.mpr (.inl (congrArg Prod.fst heq))
    · exact List.mem_cons_of_mem _ (ih htail)

namespace Packets

/-- The random numbers are free; and if an event subscribes to the application topic, and the
library accepts that, its number is not the one in `ota_sub_message_id`. -/
def DrawsFree (B : CloudBuild) (x : Packets) (e : PacketEvent) : Prop :=
  FreeRow x.packets.waiting (x.draws B e) e.errs ∧
    ∀ rand, ⟨.subscribe B.applicationSubTopic, rand⟩ ∈ x.draws B e → e.errs.headD 0 = 0 →
      rand.toNat % 65536 ≠ x.cloud.otaSubMessageId.toNat

/-! ## The exact condition -/

variable {B : CloudBuild} {x : Packets} {e : PacketEvent}

/-- **The identifiers of an event are fresh exactly when its random numbers are free.** -/
theorem allOk_step_iff :
    (x.step B e).packets.AllOk Fresh ↔
      x.packets.AllOk Fresh ∧ FreeRow x.packets.waiting (x.draws B e) e.errs := by
  rw [step, Outstanding.allOk_passAll_iff, Outstanding.allOk_answer, passed_eq_draws,
    rowOk_iff_freeRow]
  refine and_congr_right fun _ => ?_
  rcases draws_eq_nil_or (B := B) x e with hnil | hanswer
  · simp [hnil, FreeRow]
  · rw [hanswer]

/-- What waits after an event has waited before it, or it was drawn for. -/
theorem mem_waiting_step {p : Packet} (h : p ∈ (x.step B e).packets.waiting) :
    p ∈ x.packets.waiting ∨ ∃ d ∈ x.draws B e, d.packet = p ∧
      (p, true) ∈ answered ((x.draws B e).map Draw.packet) e.errs := by
  rw [step, Outstanding.mem_waiting_passAll, passed_eq_draws] at h
  rcases h with hold | hnew
  · exact .inl (Outstanding.mem_waiting_answer.mp hold).1
  · obtain ⟨d, hd, hp⟩ := List.mem_map.mp (mem_of_mem_answered hnew)
    exact .inr ⟨d, hd, hp, hnew⟩

theorem idsValid_start : start.IdsValid B :=
  ⟨fun _ hq => absurd hq List.not_mem_nil, fun _ hp => absurd hp List.not_mem_nil⟩

theorem idsValid_step (x : Packets) (e : PacketEvent) (h : x.IdsValid B)
    (hok : x.DrawsFree B e) : (x.step B e).IdsValid B := by
  refine ⟨allOk_step_iff.mpr ⟨h.1, hok.1⟩, fun p hp topic hkind hid => ?_⟩
  have hid' : p.id = (x.cloudAfter B e).otaSubMessageId := hid
  rcases mem_waiting_step hp with hold | ⟨d, hd, rfl, hnew⟩
  · rcases draws_cases (B := B) x e with ⟨-, hkept⟩ | ⟨ds, subRand, heq, -, hsub⟩ | ⟨-, -, hkept⟩
    · exact h.2 p hold topic hkind (hid'.trans hkept)
    · -- the new identifier of the OTA subscription was free of those that waited
      have hfree := hok.1.free (d := ⟨.subscribe B.otaSubTopic, subRand⟩) (by simp [heq])
      refine absurd ?_ (hfree.2 p hold)
      rw [hid', hsub]
      exact UInt32.toNat_toUInt16 _
    · exact h.2 p hold topic hkind (hid'.trans hkept)
  · rw [Draw.packet_kind] at hkind
    rcases draws_cases (B := B) x e with ⟨hds, -⟩ | ⟨ds, subRand, heq, hds, -⟩ | ⟨rand, heq, hkept⟩
    · simp [hds d hd] at hkind
    · rcases List.mem_append.mp (heq ▸ hd) with hpub | hsub
      · simp [hds d hpub] at hkind
      · obtain rfl := List.mem_singleton.mp hsub
        exact (PacketKind.subscribe.inj hkind).symm
    · -- an application subscription under the remembered identifier
      obtain rfl : d = ⟨.subscribe B.applicationSubTopic, rand⟩ := by simpa [heq] using hd
      have haccepted : e.errs.headD 0 = 0 := by
        rw [heq] at hnew
        have hsnd := congrArg Prod.snd (List.mem_singleton.mp hnew)
        exact of_decide_eq_true (Bool.and_eq_true_iff.mp hsnd.symm).2
      refine absurd ?_ (hok.2 rand hd haccepted)
      exact (UInt32.toNat_toUInt16 _).symm.trans (congrArg UInt16.toNat (hid'.trans hkept))

/-- A number that is not free becomes an identifier at once. -/
theorem not_idsValid_step (x : Packets) (e : PacketEvent) (hbad : ¬ x.DrawsFree B e) :
    ¬ (x.step B e).IdsValid B := by
  rintro ⟨hall, hota⟩
  have hrow := (allOk_step_iff.mp hall).2
  refine hbad ⟨hrow, fun rand hd haccepted hrand => ?_⟩
  rcases draws_cases (B := B) x e with ⟨hds, -⟩ | ⟨ds, subRand, heq, hds, -⟩ | ⟨rand', heq, hkept⟩
  · exact absurd (hds _ hd) (by simp)
  · rcases List.mem_append.mp (heq ▸ hd) with hpub | hsub
    · exact absurd (hds _ hpub) (by simp)
    · have hkind := congrArg Draw.kind (List.mem_singleton.mp hsub)
      exact Sessions.applicationSubTopic_ne_otaSubTopic B (PacketKind.subscribe.inj hkind)
  · -- the subscription waits, and is not the OTA subscription
    have hne := (Draw.fresh_packet_iff.mpr (hrow.free hd)).1
    have hwaits : Draw.packet ⟨.subscribe B.applicationSubTopic, rand⟩
        ∈ (x.step B e).packets.waiting := by
      rw [step, Outstanding.mem_waiting_passAll, passed_eq_draws]
      obtain rfl : rand = rand' := by simpa [heq] using hd
      refine .inr ?_
      simp only [heq, List.map_cons, List.map_nil, answered, haccepted]
      simp [hne]
    have hid : rand.toUInt16 = (x.cloudAfter B e).otaSubMessageId := by
      rw [hkept, ← UInt16.toNat_inj, UInt32.toNat_toUInt16, hrand]
    exact Sessions.applicationSubTopic_ne_otaSubTopic B (hota _ hwaits _ rfl hid)

/-- **Packet identifiers are valid exactly while the random numbers are free.** -/
theorem idsValid_iff_drawsFree (B : CloudBuild) (es : List PacketEvent) :
    Always (step B) (IdsValid B) start es ↔ Meets (step B) (DrawsFree B) start es :=
  always_iff_meets idsValid_step (fun _ => id) (fun _ _ _ => not_idsValid_step _ _)
    idsValid_start es

/-- A random number of 0x10000 makes 0 the identifier of the OTA subscription. -/
theorem not_idsValid_multiple :
    ¬ Always (step sampleBuild) (IdsValid sampleBuild) start
      [.client (.connect 0 0) [], .client (.connack 0) [],
        .client (.onConnectWork 1 0x10000) [0, 0]] := by
  intro h
  have hota := h.last.1 (⟨.subscribe sampleBuild.otaSubTopic, 0⟩, [⟨.publish, 1⟩])
    (by decide +kernel)
  exact hota.1 rfl

end Packets

end Pyrinas
