import Pyrinas.Ble.PubSub
import Pyrinas.Machinery.Format

/-!
# Ble/Pong — the counter of the sample client

The timer of the client publishes `"pong"` with a counter, printed into ten bytes, whenever there is
a connection.  What the hub sees of it has gaps, but it only ever goes up, until the counter no
longer fits.

    "999999998" "999999999" "100000000" "100000000" …
-/

open Machinery

namespace Pyrinas

/-- The client with its hub, and `count` and `tx_counter`. -/
structure Pong (F : EventFields) where
  pubSub : PubSub F
  count : Area UInt8 10
  txCounter : ℕ

/-- The timer expires, with what `ble_is_connected` says; or anything else happens. -/
inductive PongEvent (F : EventFields)
  | expiry (connected : Bool)
  | other (e : PubSubEvent F)

namespace Pong

variable {F : EventFields} (C : EventCodec F) (itemSize : ℕ)

/-- The name of the event. -/
def pong : CString := .ofString "pong"

/-- At boot. -/
def boot (evt : ProtobufEvent F) : Pong F := ⟨.boot evt, .fill 10 0, 0⟩

/-- `my_expiry_function`, which no other thread interrupts. -/
def myExpiryFunction (s : Pong F) (connected : Bool) : Pong F :=
  if connected then
    let count := s.count.snprintf (numeral s.txCounter)
    let call := s.pubSub.calls.length
    { pubSub := (s.pubSub.publish C itemSize pong (.ofBytes count.cells)).put call
      count := count
      txCounter := s.txCounter + 1 }
  else s

/-- One event; nothing else is published. -/
def step (s : Pong F) : PongEvent F → Pong F
  | .expiry connected => s.myExpiryFunction C itemSize connected
  | .other (.publish _ _) => s
  | .other (.put _) => s
  | .other e => { s with pubSub := s.pubSub.step C itemSize e }

/-- The publication of a number. -/
def numbered (n : ℕ) : CString × CString := (pong, .ofBytes (numeral n))

/-- What was published are numbers below the counter, each at most once and in order. -/
structure Counted (s : Pong F) : Prop where
  inOrder : s.pubSub.InOrder C
  calls : s.pubSub.calls = []
  published : s.pubSub.published.Sublist ((List.range s.txCounter).map numbered)

variable {C itemSize} {s : Pong F}

/-- A number of nine digits fits. -/
theorem ofBytes_count (a : Area UInt8 10) {n : ℕ} (hn : n < 10 ^ 9) :
    CString.ofBytes (a.snprintf (numeral n)).cells = .ofBytes (numeral n) := by
  have hzero : 0 ∉ numeral n := fun h => absurd (isDigit_of_mem_numeral h) (by decide)
  have hlen : (numeral n).length ≤ 9 := (length_numeral_le_iff (by decide)).mpr hn
  have hbytes := ofBytes_snprintf a (by decide) hzero []
  rw [List.append_nil] at hbytes
  have hself := CString.bytes_ofBytes_of_noNul hzero []
  rw [List.append_nil] at hself
  refine CString.ext_bytes (hbytes.trans ?_)
  rw [hself, List.take_of_length_le hlen]
  exact (List.append_nil _).symm

theorem length_count (a : Area UInt8 10) (n : ℕ) :
    (CString.ofBytes (a.snprintf (numeral n)).cells).length < 255 := by
  have hmem := zero_mem_snprintf a (numeral n) (by decide)
  have hlt := CString.length_ofBytes_lt hmem
  rw [Area.length_cells] at hlt
  exact hlt.trans (by decide)

/-- The only call there is reaches the queue, or it does not. -/
theorem put_only_call {p : PubSub F} {call : CString × CString} (h : p.calls = [call]) :
    (p.put 0).calls = [] ∧
      ((p.put 0).published = p.published ∨ (p.put 0).published = p.published ++ [call]) := by
  have hcall : p.calls[0]? = some call := by rw [h]; rfl
  have herase : p.calls.eraseIdx 0 = [] := by rw [h]; rfl
  unfold PubSub.put
  rw [hcall]
  dsimp only
  split_ifs
  · exact ⟨herase, .inr rfl⟩
  · exact ⟨herase, .inl rfl⟩

/-- **An expiry publishes the number that is due, or nothing.** -/
theorem published_expiry (C : EventCodec F) (itemSize : ℕ) (p : PubSub F) (hcalls : p.calls = [])
    (data : CString) :
    ((p.publish C itemSize pong data).put 0).calls = [] ∧
      (((p.publish C itemSize pong data).put 0).published = p.published ∨
        ((p.publish C itemSize pong data).put 0).published = p.published ++ [(pong, data)]) := by
  rcases PubSub.publish_cases C itemSize p pong data with heq | ⟨_, payload, _, _, heq⟩
  · have hnone : p.put 0 = p := by rw [PubSub.put, hcalls]; rfl
    rw [heq, hnone]
    exact ⟨hcalls, .inl rfl⟩
  · rw [heq]
    exact put_only_call (by rw [hcalls]; rfl)

theorem Counted.expiry (h : s.Counted C) (connected : Bool) (hn : s.txCounter < 10 ^ 9) :
    (s.myExpiryFunction C itemSize connected).Counted C := by
  unfold myExpiryFunction
  split
  next =>
    have hlength := length_count s.count s.txCounter
    rw [ofBytes_count s.count hn] at hlength
    dsimp only
    rw [h.calls, List.length_nil, ofBytes_count s.count hn]
    obtain ⟨hcalls, hpublished⟩ := published_expiry C itemSize s.pubSub h.calls
      (.ofBytes (numeral s.txCounter))
    have hpublish : (s.pubSub.publish C itemSize pong (.ofBytes (numeral s.txCounter))).InOrder C :=
      PubSub.inOrder_step itemSize s.pubSub (.publish pong _) h.inOrder ⟨by decide, hlength⟩
    refine ⟨PubSub.inOrder_step itemSize _ (.put 0) hpublish trivial, hcalls, ?_⟩
    rw [List.range_succ, List.map_append, List.map_singleton]
    rcases hpublished with heq | heq
    · rw [heq]
      exact h.published.trans (List.sublist_append_left _ _)
    · rw [heq]
      exact h.published.append_right _
  next => exact h

/-- Nothing else publishes. -/
theorem Counted.other (h : s.Counted C) (e : PubSubEvent F) :
    (s.step C itemSize (.other e)).Counted C := by
  have hstep : PubSub.Short e → (s.pubSub.step C itemSize e).InOrder C :=
    PubSub.inOrder_step itemSize s.pubSub e h.inOrder
  cases e with
  | publish | put => exact h
  | connected | disconnected | work | sentCb | lost | subscribe | subscribeRaw | hubWork =>
    exact ⟨hstep trivial, h.calls, h.published⟩
  | receive stack =>
    have hsame : (s.pubSub.receive C stack).calls = s.pubSub.calls ∧
        (s.pubSub.receive C stack).published = s.pubSub.published := by
      unfold PubSub.receive
      split <;> exact ⟨rfl, rfl⟩
    exact ⟨hstep trivial, hsame.1.trans h.calls, hsame.2.symm ▸ h.published⟩

theorem txCounter_step (s : Pong F) (e : PongEvent F) :
    (s.step C itemSize e).txCounter ≤ s.txCounter + 1 := by
  cases e with
  | expiry connected =>
    simp only [step, myExpiryFunction]
    split <;> simp
  | other e => cases e <;> exact Nat.le_succ _

theorem counted_run (C : EventCodec F) (itemSize : ℕ) (evt : ProtobufEvent F)
    (es : List (PongEvent F)) (hlength : es.length ≤ 10 ^ 9) :
    (run (step C itemSize) (boot evt) es).txCounter ≤ es.length ∧
      (run (step C itemSize) (boot evt) es).Counted C := by
  induction es using List.reverseRecOn with
  | nil => exact ⟨Nat.le_refl _, ⟨PubSub.carries_boot evt, List.nil_sublist _⟩, rfl, .slnil⟩
  | append_singleton es e ih =>
    rw [List.length_append, List.length_singleton] at hlength ⊢
    obtain ⟨hcounter, hcounted⟩ := ih (by omega)
    rw [run_append, run_cons, run_nil]
    refine ⟨(txCounter_step _ e).trans (by omega), ?_⟩
    cases e with
    | expiry connected => exact hcounted.expiry connected (by omega)
    | other e => exact hcounted.other e

/-- **What the hub sees only ever goes up**: numbers, each at most once and in order, however many
of them get lost, in the first 10⁹ events. -/
theorem seen_increasing (C : EventCodec F) (itemSize : ℕ) (evt : ProtobufEvent F)
    (es : List (PongEvent F)) (hlength : es.length ≤ 10 ^ 9) :
    ∃ ns : List ℕ, ns.Pairwise (· < ·) ∧
      (run (step C itemSize) (boot evt) es).pubSub.seen
        = ns.map fun n => (some pong, some (.ofBytes (numeral n))) := by
  obtain ⟨-, hcounted⟩ := counted_run C itemSize evt es hlength
  have hseen := hcounted.inOrder.seen_sublist.trans (hcounted.published.map (Prod.map some some))
  rw [List.map_map] at hseen
  obtain ⟨ns, hns, heq⟩ := List.sublist_map_iff.mp hseen
  exact ⟨ns, List.pairwise_lt_range.sublist hns, heq⟩

/-- Two numbers are sent, and the first is lost. -/
def secondArrives : List (PongEvent sampleFields) :=
  [.other (.connected 1 0), .other (.subscribe pong 7), .expiry true, .expiry true]
    ++ [.work 0, .work 0, .work 0, .work 0, .sentCb, .work 0, .work 0, .work 0, .work 0, .lost 0,
      .receive PubSub.noEvent, .hubWork, .hubWork, .hubWork].map .other

theorem seen_increasing_second :
    ∃ ns : List ℕ, ns.Pairwise (· < ·) ∧
      (run (step PubSub.sampleCodec 168) (boot PubSub.noEvent) secondArrives).pubSub.seen
        = ns.map fun n => (some pong, some (.ofBytes (numeral n))) :=
  seen_increasing PubSub.sampleCodec 168 PubSub.noEvent secondArrives (by decide)

end Pong

end Pyrinas
