import USKD.Modem.Power
import USKD.Modem.ProcessorBinaryData
import USKD.Modem.Scanner

/-!
# The receive path through a reset

The receive path is what stands between the modem and the dialogue: the buffers of
`InData` with `binary_bytes_left`, and `PBD::buffer`.  It is driven by the receive
interrupt and by `Modem::Update`; any of the callbacks may ask for a reset, so that
`Modem::Reset` is a step of its own.  The callbacks return without calling `Modem::Update`
again.

`SIM868::Reset` and `MQTT::Reset`, which the `IDLE` step calls, touch none of these data.
A reset *restores* the path (`Restored`) if every following sequence of steps delivers
from the state behind the `IDLE` step what it delivers from the state behind the `IDLE`
step after boot.
-/

namespace USKD

/-- The power sequence and the data of the receive path. -/
structure ReceivePath where
  modem : Modem
  inData : InData
  pbd : Buffer 1024
deriving DecidableEq

namespace ReceivePath

open InData Transducer

/-- The state at boot. -/
def boot : ReceivePath := ⟨.boot, .boot, .clear⟩

/-- A step: a byte in the receive interrupt, a request for a reset, or a call of
`Modem::Update`, with the bytes that arrive while `main` is locked and what the stack
holds in the calls of `PBD::AppendByte`. -/
inductive Op
  | receive (symbol : UInt8)
  | reset
  | update (env : Modem.Env) (during : List UInt8) (stale : ℕ → ℕ → UInt8)

/-- What a step delivers: answers and packet bytes, and for each packet byte the packet
it completes. -/
structure Delivery where
  events : List Event
  packets : List (Option ResponseMQTT.Processed)
deriving DecidableEq

/-- Nothing is delivered. -/
def nothing : Delivery := ⟨[], []⟩

/-- The packet bytes of a call, each over its own stack. -/
def inputs (stale : ℕ → ℕ → UInt8) (events : List Event) : List PBD.Input :=
  (handed events).zipIdx.map fun b => ⟨b.1, stale b.2⟩

/-- `InData::Update`, the bytes `during` arriving while `main` is locked. -/
def inDataUpdate (s : ReceivePath) (during : List UInt8) (stale : ℕ → ℕ → UInt8) :
    Option (Delivery × ReceivePath) := do
  -- the interrupt finds `main` locked
  let locked := during.foldl callbackOnReceive { s.inData with busy := true }
  let (events, inData) ← InData.update locked
  let (packets, pbd) ← feed PBD.appendByte s.pbd (inputs stale events)
  pure (⟨visible events, packets⟩, { s with inData, pbd })

/-- One step. -/
def step (s : ReceivePath) : Op → Option (Delivery × ReceivePath)
  | .receive symbol => some (nothing, { s with inData := s.inData.callbackOnReceive symbol })
  | .reset => some (nothing, { s with modem := s.modem.reset })
  | .update env during stale =>
      let s' := { s with modem := (s.modem.update env).1 }
      match (s.modem.update env).2 with
      | .inDataUpdate => s'.inDataUpdate during stale
      | .reset | .nothing => some (nothing, s')

/-- What a sequence of steps delivers. -/
def observe (s : ReceivePath) (ops : List Op) : Option (List Delivery) :=
  (feed step s ops).map Prod.fst

/-- The state behind the `IDLE` step. -/
def idleStep (s : ReceivePath) (env : Modem.Env) : ReceivePath :=
  { s with modem := (s.modem.update env).1 }

/-- **A reset restores the receive path** of `s`: behind the `IDLE` step nothing that
follows is delivered differently from what is delivered after boot. -/
def Restored (s : ReceivePath) (env : Modem.Env) : Prop :=
  ∀ ops, observe (s.idleStep env) ops = observe (boot.idleStep env) ops

/-- Nothing of an earlier connection is left. -/
structure Drained (s : ReceivePath) : Prop where
  main : s.inData.main.bytes = []
  addit : s.inData.addit.bytes = []
  buffer : s.inData.buffer.bytes = []
  left : s.inData.binaryBytesLeft = 0
  pbd : s.pbd.bytes = []

/-! ## Reachable states -/

/-- Between two steps `main` is not locked, and `PBD::buffer` holds no complete packet. -/
structure Quiescent (s : ReceivePath) : Prop where
  unlocked : s.inData.busy = false
  pending : PBD.Pending s.pbd

theorem quiescent_boot : Quiescent boot := ⟨rfl, PBD.pending_clear⟩

theorem pending_feed {p q : Buffer 1024} {is : List PBD.Input}
    {packets : List (Option ResponseMQTT.Processed)} (hp : PBD.Pending p)
    (h : feed PBD.appendByte p is = some (packets, q)) : PBD.Pending q := by
  induction is generalizing p packets with
  | nil =>
      obtain ⟨-, rfl⟩ := Prod.mk.inj (Option.some.inj h)
      exact hp
  | cons i is ih =>
      rw [feed_cons, Option.bind_eq_some_iff] at h
      obtain ⟨⟨processed, p'⟩, hfirst, h⟩ := h
      obtain ⟨⟨packets', q'⟩, hrest, h⟩ := Option.map_eq_some_iff.mp h
      obtain ⟨-, rfl⟩ := Prod.mk.inj h
      exact ih (hp.appendByte hfirst) hrest

theorem inDataUpdate_eq_some {s t : ReceivePath} {during : List UInt8} {stale : ℕ → ℕ → UInt8}
    {d : Delivery} (h : s.inDataUpdate during stale = some (d, t)) :
    ∃ events inData packets pbd,
      InData.update (during.foldl callbackOnReceive { s.inData with busy := true }) =
        some (events, inData) ∧
      feed PBD.appendByte s.pbd (inputs stale events) = some (packets, pbd) ∧
      d = ⟨visible events, packets⟩ ∧ t = { s with inData, pbd } := by
  simp only [inDataUpdate, Option.bind_eq_bind, Option.bind_eq_some_iff] at h
  obtain ⟨⟨events, inData⟩, hupdate, ⟨packets, pbd⟩, hfeed, h⟩ := h
  obtain ⟨rfl, rfl⟩ := Prod.mk.inj (Option.some.inj h)
  exact ⟨events, inData, packets, pbd, hupdate, hfeed, rfl, rfl⟩

theorem Quiescent.step {s t : ReceivePath} (h : Quiescent s) {op : Op} {d : Delivery}
    (hstep : ReceivePath.step s op = some (d, t)) : Quiescent t := by
  cases op with
  | receive symbol =>
      obtain ⟨-, rfl⟩ := Prod.mk.inj (Option.some.inj hstep)
      refine ⟨?_, h.pending⟩
      simp only [callbackOnReceive, h.unlocked, Bool.false_eq_true, if_false]
      split <;> rfl
  | reset =>
      obtain ⟨-, rfl⟩ := Prod.mk.inj (Option.some.inj hstep)
      exact ⟨h.unlocked, h.pending⟩
  | update env during stale =>
      rw [ReceivePath.step] at hstep
      split at hstep
      · obtain ⟨events, inData, packets, pbd, hupdate, hfeed, -, rfl⟩ := inDataUpdate_eq_some hstep
        exact ⟨(main_update hupdate).2.2, pending_feed h.pending hfeed⟩
      · obtain ⟨-, rfl⟩ := Prod.mk.inj (Option.some.inj hstep)
        exact ⟨h.unlocked, h.pending⟩
      · obtain ⟨-, rfl⟩ := Prod.mk.inj (Option.some.inj hstep)
        exact ⟨h.unlocked, h.pending⟩

theorem quiescent_feed {s t : ReceivePath} (h : Quiescent s) {ops : List Op}
    {outputs : List Delivery} (hfeed : feed step s ops = some (outputs, t)) : Quiescent t := by
  induction ops generalizing s outputs with
  | nil =>
      obtain ⟨-, rfl⟩ := Prod.mk.inj (Option.some.inj hfeed)
      exact h
  | cons op ops ih =>
      rw [feed_cons, Option.bind_eq_some_iff] at hfeed
      obtain ⟨⟨d, u⟩, hfirst, hfeed⟩ := hfeed
      obtain ⟨⟨outputs', t'⟩, hrest, hfeed⟩ := Option.map_eq_some_iff.mp hfeed
      obtain ⟨-, rfl⟩ := Prod.mk.inj hfeed
      exact ih (h.step hfirst) hrest

end ReceivePath

end USKD
