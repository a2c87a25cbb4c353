import USKD.Lib.Frames
import USKD.Modem.Framing
import USKD.Modem.MQTT.Suback
import USKD.Modem.Restored
import USKD.Modem.Transfer

/-!
# From the interrupts to the callbacks

`ReceivePath` as a whole: the interrupt stores the bytes of the modem, the calls of `Modem::Update`
cut them into pieces, the scanner takes the packet bytes out of the segments, and the packet queue
puts the server's packets together again.  The server's packets need not begin or end with a
segment.

`feed_arrivals` is the invariant of a run, with the stream decoder and the queue beside it.
`delivered_of_arrived` reads off what has been called back, in every run in which the buffers have
room and the cuts do not disturb the scanner.
-/

namespace USKD

/-! ## What the device makes of a packet -/

namespace PBD

open ResponseMQTT Transducer

namespace Packet

/-- The second byte of the body: the reason of a CONNACK, the low byte of the identifier of a
SUBACK. -/
def second (p : Packet) : UInt8 := p.body.getD 1 0

/-- What is called back. -/
def callback (p : Packet) : Option Callback :=
  if p.type = Type.CONNACK then
    some (if p.second = 0x00 then .mqttUpdate (ascii "MQTT OK") else .modemReset)
  else if p.type = Type.SUBACK then
    some (.mqttUpdate (ascii (if p.second < 0x80 then "SUBS OK" else "FALSE")))
  else if p.type = Type.PUBLISH then some (.mqttUpdate (ascii "PUBLISH OK"))
  else none

/-- The packet is removed with its length. -/
def processed (p : Packet) : Processed := ⟨p.bytes.length, p.callback⟩

variable {p : Packet}

theorem length_bytes (h : p.body.length < 128) : p.bytes.length = p.body.length + 2 := by
  rw [bytes_of_lt h]
  rfl

/-- **The response to a whole packet**, whatever the stack holds. -/
theorem run_create (hwf : p.WellFormed) (hfits : p.Fits) (stale : ℕ → UInt8) {r : ResponseMQTT}
    (hr : create stale (holding p.bytes) = some r) : r.run = some p.processed := by
  have hbytes := (bytes_holding hwf.total).trans (bytes_of_lt hfits.body)
  have hlen := toNat_length hfits.body
  have htotal := length_bytes hfits.body
  have hle : (UInt8.ofNat p.body.length).toNat ≤ p.body.length := hlen.le
  have hconnect : ∀ c, newCONNECT stale (holding p.bytes) = some c →
      2 ≤ p.body.length → c.isValid ∧ c.allBytes = p.bytes.length ∧ c.type = p.header ∧
        c.reasonCode = p.second := by
    intro c hc hbody
    obtain ⟨hvalid, hall, htype⟩ := (newCONNECT_spec stale hbytes hle).1 c hc
    obtain ⟨flags, reason, rest, hsplit⟩ : ∃ flags reason rest, p.body = flags :: reason :: rest := by
      rcases hb : p.body with _ | ⟨flags, _ | ⟨reason, rest⟩⟩
      · simp [hb] at hbody
      · simp [hb] at hbody
      · exact ⟨flags, reason, rest, rfl⟩
    have hcells : (holding p.bytes).bytes =
        p.header :: UInt8.ofNat p.body.length :: flags :: reason :: rest := by
      rw [hbytes, hsplit]
    have hreason := reasonCode_newCONNECT hcells (by rw [hlen, hsplit]; exact le_rfl) hc
    refine ⟨hvalid, ?_, htype, ?_⟩
    · rw [hall, hlen, htotal]
    · rw [hreason, second, hsplit]
      rfl
  have htype : p.header &&& 0xF0 = p.type := rfl
  have hne : Type.CONNACK ≠ Type.PUBLISH ∧ Type.SUBACK ≠ Type.PUBLISH ∧
      Type.CONNACK ≠ Type.SUBACK := by decide
  rw [create_of_complete hbytes hle, htype] at hr
  rw [processed, callback]
  by_cases hconn : p.type = Type.CONNACK
  · rw [if_pos hconn] at hr ⊢
    obtain ⟨c, hc, rfl⟩ := Option.map_eq_some_iff.mp hr
    have hbody := hwf.connack hconn
    obtain ⟨hvalid, hall, hheader, hreason⟩ := hconnect c hc (by omega)
    rw [run, hheader, htype, if_pos hconn, runCONNECT, if_pos hvalid, hall, hreason]
  by_cases hpub : p.type = Type.PUBLISH
  · rw [if_neg hconn, if_pos hpub] at hr
    obtain ⟨c, hc, rfl⟩ := Option.map_eq_some_iff.mp hr
    obtain ⟨hvalid, hall, hheader⟩ := newPUBLISH_eq_some hbytes hle hc
    have hsub : p.type ≠ Type.SUBACK := hpub ▸ hne.2.1.symm
    rw [run, hheader, htype, if_neg hconn, if_neg hsub, if_pos hpub, runPUBLISH, if_pos hvalid,
      hall, hlen, htotal, if_neg hconn, if_neg hsub, if_pos hpub]
  by_cases hsub : p.type = Type.SUBACK
  · rw [if_neg hconn, if_neg hpub, if_pos hsub] at hr
    rw [if_neg hconn, if_pos hsub]
    obtain ⟨c, hc, rfl⟩ := Option.map_eq_some_iff.mp hr
    have hbody := hwf.suback hsub
    obtain ⟨hvalid, hall, hheader, hreason⟩ := hconnect c hc (by omega)
    rw [run, hheader, htype, if_neg hconn, if_pos hsub, runSUBSCRIBE, if_pos hvalid, hall, hreason]
  · rw [if_neg hconn, if_neg hpub, if_neg hsub, newUNKNOWN_eq hbytes] at hr
    obtain rfl := Option.some.inj hr
    rw [if_neg hconn, if_neg hsub, if_neg hpub, run]
    simp only [htype, if_neg hconn, if_neg hsub, if_neg hpub, if_true]
    rw [runUNKNOWN, if_pos rfl, hlen, htotal]

end Packet

/-- **The packet queue assembles the packets that fit.** -/
theorem assembles_of_fits {p : Packet} (hwf : p.WellFormed) (hfits : p.Fits) :
    Assembles appendByte Input.byte Packet.bytes holding Packet.processed p := by
  have hbytes := Packet.bytes_of_lt hfits.body
  have hlen := Packet.toNat_length hfits.body
  have htotal := Packet.length_bytes hfits.body
  have hpush : ∀ front i, front ++ [Input.byte i] <+: p.bytes →
      appendByte (holding front) i = process i.stale (holding (front ++ [i.byte])) := by
    intro front i hfront
    have hroom : front.length < 1024 := by
      have hle := hfront.length_le
      have := hwf.total
      rw [List.length_append, List.length_singleton] at hle
      omega
    rw [appendByte_of_lt i (by rwa [bytes_holding hroom.le]), push_holding hroom]
  refine ⟨?_, ?_, ?_⟩
  · rw [hbytes]
    exact List.cons_ne_nil _ _
  · intro front i hfront hopen
    rw [hpush front i hfront]
    have hless : (front ++ [i.byte]).length < p.bytes.length :=
      lt_of_le_of_ne hfront.length_le fun heq => hopen (hfront.eq_of_length heq)
    refine process_of_incomplete fun type len rest heq => ?_
    rw [bytes_holding (hless.le.trans hwf.total)] at heq
    rw [heq, hbytes] at hfront
    obtain ⟨-, hfront⟩ := List.cons_prefix_cons.mp hfront
    obtain ⟨rfl, -⟩ := List.cons_prefix_cons.mp hfront
    rw [heq, htotal, List.length_cons, List.length_cons] at hless
    rw [hlen]
    omega
  · intro front i hwhole
    rw [hpush front i (hwhole ▸ List.prefix_refl _), hwhole]
    obtain ⟨r, hr⟩ := Option.isSome_iff_exists.mp
      ((create_isSome_iff_fits hwf hfits.body i.stale).mpr hfits)
    obtain ⟨behind, hprocess, hrest⟩ :=
      process_of_run ((bytes_holding hwf.total).trans hbytes) hlen.le hr
    have hclear : behind = holding [] := Buffer.bytes_inj (by rw [hrest, hlen, List.drop_length]; rfl)
    rw [hprocess, Packet.run_create hwf hfits i.stale hr, hclear]

end PBD

/-! ## What arrives -/

namespace ReceivePath

open InData Decoder Transducer

/-- The bytes that arrive in a step. -/
def Op.bytes (modem : Modem) : Op → List UInt8
  | .receive symbol => [symbol]
  | .reset => []
  -- `main` is locked only in `InData::Update`
  | .update env during _ => if (modem.update env).2 = .inDataUpdate then during else []

/-- The power sequence over a step. -/
def Op.power (modem : Modem) : Op → Modem
  | .receive _ => modem
  | .reset => modem.reset
  | .update env _ _ => (modem.update env).1

/-- The bytes that arrive over some steps. -/
def arrivals : Modem → List Op → List UInt8
  | _, [] => []
  | modem, op :: ops => op.bytes modem ++ arrivals (op.power modem) ops

/-- **How the calls of `InData::Update` cut what arrives**, with `main` and `addit` before the
first step: a call takes `main`, and what has come meanwhile follows with the next byte. -/
def pieces : Modem → List UInt8 → List UInt8 → List Op → List (List UInt8)
  | _, _, _, [] => []
  | modem, main, addit, .receive symbol :: ops => pieces modem (main ++ addit ++ [symbol]) [] ops
  | modem, main, addit, .reset :: ops => pieces modem.reset main addit ops
  | modem, main, addit, .update env during _ :: ops =>
      if (modem.update env).2 = .inDataUpdate then
        main :: pieces (modem.update env).1 [] (addit ++ during) ops
      else pieces (modem.update env).1 main addit ops

/-- The pieces that the steps make of what is there and what arrives. -/
def cuts (s : ReceivePath) (ops : List Op) : List (List UInt8) :=
  pieces s.modem s.inData.main.bytes s.inData.addit.bytes ops

/-- What no call has taken yet. -/
def waiting (s : ReceivePath) : List UInt8 := s.inData.main.bytes ++ s.inData.addit.bytes

/-- The next step has room for what it receives. -/
def Room (s : ReceivePath) : List Op → Prop
  | [] => True
  | op :: _ => s.inData.buffer.size + s.waiting.length + (op.bytes s.modem).length ≤ 2048

/-! ## One step -/

/-- The scanner follows the decoder, `main` is free, and the queue has got the packet bytes
`is`. -/
structure Tracks (s : ReceivePath) (d : Decoder) (is : List PBD.Input) : Prop where
  follows : Follows s.inData d
  unlocked : s.inData.busy = false
  queue : ∃ os, feed PBD.appendByte .clear is = some (os, s.pbd)

theorem tracks_boot : Tracks boot (fresh 0) [] := ⟨follows_boot, rfl, [], rfl⟩

variable {s : ReceivePath} {d : Decoder} {is : List PBD.Input} {ops : List Op}

/-- The interrupt stores a byte behind what is waiting. -/
theorem Tracks.receive {symbol : UInt8} (h : Tracks s d is)
    (hroom : Room s (.receive symbol :: ops)) :
    ∃ t, step s (.receive symbol) = some (nothing, t) ∧ Tracks t d is ∧ t.modem = s.modem ∧
      t.pbd = s.pbd ∧ t.inData.main.bytes = s.waiting ++ [symbol] ∧ t.inData.addit.bytes = [] := by
  have hfits : s.inData.main.size + s.inData.addit.size < 2048 := by
    simp only [Room, Op.bytes, waiting, List.length_append, List.length_singleton] at hroom
    simp only [Buffer.size_eq]
    omega
  obtain ⟨hmain, haddit⟩ := Transfer.callbackOnReceive_of_free symbol h.unlocked hfits
  obtain ⟨hbuffer, hbusy⟩ := Transfer.callbackOnReceive_frame s.inData symbol
  have hleft : (s.inData.callbackOnReceive symbol).binaryBytesLeft = s.inData.binaryBytesLeft := by
    unfold callbackOnReceive
    split
    · rfl
    · split <;> rfl
  refine ⟨{ s with inData := s.inData.callbackOnReceive symbol }, rfl, ?_, rfl, rfl, hmain, haddit⟩
  refine ⟨⟨?_, ?_, h.follows.settled⟩, hbusy.trans h.unlocked, h.queue⟩
  · rw [hbuffer]
    exact h.follows.buffer
  · rw [hleft]
    exact h.follows.left

/-- While `main` is locked, bytes go to `addit`. -/
theorem foldl_callbackOnReceive_of_busy (data : InData) (during : List UInt8)
    (hbusy : data.busy = true) (hroom : data.addit.bytes.length + during.length ≤ 2048) :
    ∃ addit, during.foldl callbackOnReceive data = { data with addit } ∧
      addit.bytes = data.addit.bytes ++ during := by
  induction during generalizing data with
  | nil => exact ⟨data.addit, rfl, (List.append_nil _).symm⟩
  | cons symbol during ih =>
      rw [List.length_cons] at hroom
      have hpush : (Buffer.orClear (data.addit.push symbol)).bytes = data.addit.bytes ++ [symbol] :=
        Buffer.orClear_push_of_lt (by omega)
      have hlonger := congrArg List.length hpush
      rw [List.length_append, List.length_singleton] at hlonger
      obtain ⟨addit, hfold, hbytes⟩ :=
        ih { data with addit := .orClear (data.addit.push symbol) } hbusy (by simp only; omega)
      refine ⟨addit, ?_, ?_⟩
      · rw [List.foldl_cons, Transfer.callbackOnReceive_of_busy symbol hbusy, hfold]
      · rw [hbytes, hpush, List.append_assoc]
        rfl

@[simp] theorem map_byte_inputs (stale : ℕ → ℕ → UInt8) (events : List Event) :
    (inputs stale events).map PBD.Input.byte = handed events := by
  rw [inputs, List.map_map]
  exact List.zipIdx_map_fst 0 _

variable {frames : List PBD.Packet}

/-- **A call of `InData::Update`** reports what the decoder reads in `main`, and the queue takes
the packet bytes. -/
theorem Tracks.update (hframes : ∀ p ∈ frames, p.WellFormed ∧ p.Fits) {env : Modem.Env}
    {during : List UInt8} {stale : ℕ → ℕ → UInt8} (h : Tracks s d is)
    (hcall : (s.modem.update env).2 = .inDataUpdate)
    (hroom : Room s (.update env during stale :: ops)) (hstale : d.stale = false)
    (htakes : d.TakesAll s.inData.main.bytes)
    (hpayload : is.map PBD.Input.byte ++ handed (d.decode s.inData.main.bytes).1 <+:
      frames.flatMap PBD.Packet.bytes) :
    ∃ js packets t, step s (.update env during stale) =
        some (⟨visible (d.decode s.inData.main.bytes).1, packets⟩, t) ∧
      Tracks t (d.decode s.inData.main.bytes).2 (is ++ js) ∧
      js.map PBD.Input.byte = handed (d.decode s.inData.main.bytes).1 ∧
      feed PBD.appendByte s.pbd js = some (packets, t.pbd) ∧ t.modem = (s.modem.update env).1 ∧
      t.inData.main.bytes = [] ∧ t.inData.addit.bytes = s.inData.addit.bytes ++ during := by
  simp only [Room, Op.bytes, hcall, if_true, waiting, List.length_append, Buffer.size_eq] at hroom
  obtain ⟨addit, hlocked, haddit⟩ := foldl_callbackOnReceive_of_busy { s.inData with busy := true }
    during rfl (by simp only; omega)
  -- the scanner
  have hfollows : Follows { s.inData with busy := true, addit } d :=
    ⟨h.follows.buffer, h.follows.left, h.follows.settled⟩
  have hfits : s.inData.buffer.size + s.inData.main.size ≤ 2048 := by
    simp only [Buffer.size_eq]
    omega
  obtain ⟨events, data, hupdate, hfollows', hevents⟩ :=
    call_decodes hfollows hstale hfits htakes
  have hhanded : handed events = handed (d.decode s.inData.main.bytes).1 := by
    rw [← handed_visible, hevents, handed_visible]
  obtain ⟨hmain, hkept, hfree⟩ := main_update hupdate
  -- the queue
  have hbytes : (is ++ inputs stale events).map PBD.Input.byte <+:
      frames.flatMap PBD.Packet.bytes := by
    rwa [List.map_append, map_byte_inputs, hhanded]
  obtain ⟨all, done, front, hall, -, -⟩ := feed_frames
    (fun p hp => PBD.assembles_of_fits (hframes p hp).1 (hframes p hp).2) hbytes
  obtain ⟨os, pbd, packets, hbefore, hqueue, -⟩ := feed_of_append hall
  obtain ⟨os', hos'⟩ := h.queue
  obtain ⟨-, rfl⟩ := Prod.mk.inj (Option.some.inj (hbefore.symm.trans hos'))
  refine ⟨inputs stale events, packets,
    ⟨(s.modem.update env).1, data, PBD.holding front⟩, ?_, ⟨hfollows', hfree, all, hall⟩, ?_, hqueue,
    rfl, ?_, ?_⟩
  · simp only [step, hcall, inDataUpdate, hlocked]
    rw [show InData.update _ = some (events, data) from hupdate]
    simp only [Option.bind_eq_bind, Option.bind_some, hqueue, Option.pure_def, hevents]
  · rw [map_byte_inputs, hhanded]
  · rw [hmain]
    rfl
  · rw [hkept]
    exact haddit

/-- The other steps only change the power sequence. -/
theorem Tracks.quiet {op : Op} (h : Tracks s d is) (ops : List Op) (hop : op = .reset ∨
      ∃ env during stale, op = .update env during stale ∧ (s.modem.update env).2 ≠ .inDataUpdate) :
    step s op = some (nothing, { s with modem := op.power s.modem }) ∧
      Tracks { s with modem := op.power s.modem } d is ∧ op.bytes s.modem = [] ∧
      cuts s (op :: ops) = cuts { s with modem := op.power s.modem } ops := by
  refine ⟨?_, ⟨h.follows, h.unlocked, h.queue⟩, ?_, ?_⟩
  · rcases hop with rfl | ⟨env, during, stale, rfl, hcall⟩
    · rfl
    · simp only [step, Op.power]
      split
      · exact absurd ‹_› hcall
      · rfl
      · rfl
  · rcases hop with rfl | ⟨env, during, stale, rfl, hcall⟩
    · rfl
    · exact if_neg hcall
  · rcases hop with rfl | ⟨env, during, stale, rfl, hcall⟩
    · rfl
    · exact if_neg hcall

/-! ## A run -/

/-- **What a run does to what is there and what arrives**: the calls take the pieces and report what
the decoder reads in them, the queue takes the packet bytes, and the rest is waiting. -/
theorem feed_arrivals (hframes : ∀ p ∈ frames, p.WellFormed ∧ p.Fits) (h : Tracks s d is)
    (hroom : Along step Room s ops) (hstale : cuts s ops ≠ [] → d.stale = false)
    (hcuts : d.Undisturbed (cuts s ops))
    (hpayload : is.map PBD.Input.byte ++ handed (d.decode (cuts s ops).flatten).1 <+:
      frames.flatMap PBD.Packet.bytes) :
    ∃ outputs t js, feed step s ops = some (outputs, t) ∧
      js.map PBD.Input.byte = handed (d.decode (cuts s ops).flatten).1 ∧
      feed PBD.appendByte s.pbd js = some (outputs.flatMap Delivery.packets, t.pbd) ∧
      outputs.flatMap Delivery.events = visible (d.decode (cuts s ops).flatten).1 ∧
      (cuts s ops).flatten ++ t.waiting = s.waiting ++ arrivals s.modem ops := by
  induction ops generalizing s d is with
  | nil => exact ⟨[], s, [], rfl, rfl, rfl, rfl, (List.append_nil _).symm⟩
  | cons op ops ih =>
      by_cases hop : op = .reset ∨
          ∃ env during stale, op = .update env during stale ∧ (s.modem.update env).2 ≠ .inDataUpdate
      · obtain ⟨hstep, htracks, hbytes, hsame⟩ := h.quiet ops hop
        rw [hsame] at hstale hcuts hpayload ⊢
        obtain ⟨outputs, t, js, hfeed, hjs, hqueue, hevents, hrest⟩ :=
          ih htracks (hroom.next hstep) hstale hcuts hpayload
        refine ⟨nothing :: outputs, t, js, ?_, hjs, hqueue, hevents, ?_⟩
        · rw [feed_cons_of_eq hstep, hfeed]
          rfl
        · rw [hrest, arrivals, hbytes]
          rfl
      cases op with
      | reset => exact absurd (Or.inl rfl) hop
      | receive symbol =>
          obtain ⟨u, hstep, htracks, hmodem, hpbd, hmain, haddit⟩ := h.receive hroom.here
          have hsame : cuts s (.receive symbol :: ops) = cuts u ops := by
            rw [cuts, cuts, hmodem, hmain, haddit, waiting, pieces]
          rw [hsame] at hstale hcuts hpayload ⊢
          obtain ⟨outputs, t, js, hfeed, hjs, hqueue, hevents, hrest⟩ :=
            ih htracks (hroom.next hstep) hstale hcuts hpayload
          refine ⟨nothing :: outputs, t, js, ?_, hjs, hpbd ▸ hqueue, hevents, ?_⟩
          · rw [feed_cons_of_eq hstep, hfeed]
            rfl
          · rw [hrest, waiting, hmain, haddit, List.append_nil, hmodem, arrivals, List.append_assoc]
            rfl
      | update env during stale =>
          have hcall : (s.modem.update env).2 = .inDataUpdate := by
            by_contra hne
            exact hop (Or.inr ⟨env, during, stale, rfl, hne⟩)
          have hsame : cuts s (.update env during stale :: ops) = s.inData.main.bytes ::
              pieces (s.modem.update env).1 [] (s.inData.addit.bytes ++ during) ops := by
            rw [cuts, pieces, if_pos hcall]
          rw [hsame] at hstale hcuts hpayload ⊢
          obtain ⟨htakes, hnext, hcuts⟩ := hcuts
          rw [List.flatten_cons, decode_append, handed_append, ← List.append_assoc] at hpayload
          obtain ⟨js, packets, u, hstep, htracks, hjs, hqueue, hmodem, hmain, haddit⟩ :=
            h.update hframes hcall hroom.here (hstale (List.cons_ne_nil _ _)) htakes
              ((List.prefix_append _ _).trans hpayload)
          rw [← hmain, ← haddit, ← hmodem, ← cuts] at hnext hcuts hpayload ⊢
          rw [← hjs, ← List.map_append] at hpayload
          obtain ⟨outputs, t, js', hfeed, hjs', hqueue', hevents, hrest⟩ :=
            ih htracks (hroom.next hstep) hnext hcuts hpayload
          refine ⟨⟨visible (d.decode s.inData.main.bytes).1, packets⟩ :: outputs, t, js ++ js', ?_, ?_, ?_,
            ?_, ?_⟩
          · rw [feed_cons_of_eq hstep, hfeed]
            rfl
          · rw [List.map_append, hjs, hjs', List.flatten_cons, decode_append, handed_append]
          · rw [feed_append_of_eq hqueue, hqueue']
            rfl
          · rw [List.flatMap_cons, hevents, List.flatten_cons, decode_append, visible_append]
          · rw [List.flatten_cons, List.append_assoc, hrest, waiting, hmain, haddit, hmodem, waiting,
              arrivals, Op.bytes, if_pos hcall]
            simp only [List.nil_append, List.append_assoc]
            rfl

/-- **What a run owes to the stream it has received**: of the part `taken` that the calls have
taken, the answers have been called back, and the packets `done` that are complete; `front` is in
the queue, and what has not been taken is waiting. -/
structure Owed (frames : List PBD.Packet) (received : List (Role × UInt8)) (outputs : List Delivery)
    (t : ReceivePath) (taken : List (Role × UInt8)) (done : List PBD.Packet)
    (front : List UInt8) : Prop where
  waits : received.map Prod.snd = taken.map Prod.snd ++ t.waiting
  answers : answers (outputs.flatMap Delivery.events) =
    ((readText [] (bytesOf .text taken)).1.map beforeZero).filter (· ≠ [])
  frames : Received PBD.Packet.bytes frames (bytesOf .payload taken) done front
  packets : (outputs.flatMap Delivery.packets).filterMap id = done.map PBD.Packet.processed
  queue : t.pbd.bytes = front

/-- What the calls take is a front of what is there and what arrives. -/
theorem flatten_pieces_prefix (modem : Modem) (main addit : List UInt8) (ops : List Op) :
    (pieces modem main addit ops).flatten <+: main ++ addit ++ arrivals modem ops := by
  induction ops generalizing modem main addit with
  | nil => exact List.nil_prefix
  | cons op ops ih =>
      cases op with
      | receive symbol =>
          have hnext := ih modem (main ++ addit ++ [symbol]) []
          rw [List.append_nil, List.append_assoc (main ++ addit)] at hnext
          exact hnext
      | reset => exact ih modem.reset main addit
      | update env during stale =>
          rw [pieces, arrivals, Op.bytes]
          by_cases hcall : (modem.update env).2 = .inDataUpdate
          · rw [if_pos hcall, if_pos hcall, List.flatten_cons, List.append_assoc,
              List.prefix_append_right_inj, ← List.append_assoc]
            exact ih (modem.update env).1 [] (addit ++ during)
          · rw [if_neg hcall, if_neg hcall]
            exact ih (modem.update env).1 main addit

/-- **From the interrupts to the callbacks.**  Let a front of a well-formed stream arrive, in any
interleaving of interrupts, calls of `Modem::Update` and requests for a reset, its segments carrying
packets that the queue can frame, cut in any way.  If the buffers have room and the cuts do not
disturb the scanner, each answer and each complete packet is called back once and in order. -/
theorem delivered_of_arrived (items : List Item) (hitems : ∀ item ∈ items, item.WellFormed)
    (frames : List PBD.Packet) (hframes : ∀ p ∈ frames, p.WellFormed ∧ p.Fits)
    (received : List (Role × UInt8)) (hreceived : received <+: items.flatMap Item.tagged)
    (hpayload : bytesOf .payload received <+: frames.flatMap PBD.Packet.bytes) (ops : List Op)
    (harrived : arrivals Modem.boot ops = received.map Prod.snd) (hroom : Along step Room boot ops)
    (hcuts : (fresh 0).Undisturbed (cuts boot ops)) :
    ∃ outputs t taken done front, feed step boot ops = some (outputs, t) ∧ taken <+: received ∧
      Owed frames received outputs t taken done front := by
  have hfront := flatten_pieces_prefix Modem.boot [] [] ops
  rw [List.append_nil, List.nil_append, harrived, List.prefix_map_iff] at hfront
  obtain ⟨taken, htaken, hflatten⟩ := hfront
  obtain ⟨hhanded, hanswers⟩ := reports_items hitems (d := fresh 0) ⟨rfl, rfl⟩
    (htaken.trans hreceived) (hflatten ▸ hcuts.takesAll)
  have hpayload : bytesOf .payload taken <+: frames.flatMap PBD.Packet.bytes :=
    (htaken.filterMap _).trans hpayload
  obtain ⟨outputs, t, js, hfeed, hjs, hqueue, hevents, hwaits⟩ :=
    feed_arrivals hframes tracks_boot hroom (fun _ => rfl) hcuts (by
      rwa [show (cuts boot ops).flatten = _ from hflatten, hhanded])
  rw [show (cuts boot ops).flatten = _ from hflatten] at hjs hevents hwaits
  rw [hhanded] at hjs
  obtain ⟨os, done, front, hframed, hgot, hdone⟩ := feed_frames
    (fun p hp => PBD.assembles_of_fits (hframes p hp).1 (hframes p hp).2) (hjs ▸ hpayload)
  obtain ⟨rfl, hpbd⟩ := Prod.mk.inj (Option.some.inj (hframed.symm.trans hqueue))
  rw [hjs] at hgot
  refine ⟨outputs, t, taken, done, front, hfeed, htaken, ?_, ?_, hgot, hdone, ?_⟩
  · rw [hwaits, ← harrived]
    rfl
  · rw [hevents, answers_visible, hanswers]
  · rw [← hpbd, PBD.bytes_holding]
    by_cases hempty : front = []
    · rw [hempty]
      exact Nat.zero_le _
    -- a packet that has begun is one of the stream
    · obtain ⟨p, hp, hbegun, -⟩ := hgot.next hempty
      have hmem : p ∈ frames := hp.subset (by simp)
      exact hbegun.length_le.trans (hframes p hmem).1.total

/-! ## Room -/

/-- What is kept and what is waiting grow by no more than what arrives. -/
theorem length_step_le {s t : ReceivePath} {op : Op} {delivery : Delivery} (hq : Quiescent s)
    (hroom : Room s (op :: ops)) (hstep : step s op = some (delivery, t)) :
    t.modem = op.power s.modem ∧ t.inData.buffer.size + t.waiting.length ≤
      s.inData.buffer.size + s.waiting.length + (op.bytes s.modem).length := by
  cases op with
  | reset =>
      obtain ⟨-, rfl⟩ := Prod.mk.inj (Option.some.inj hstep)
      exact ⟨rfl, Nat.le_refl _⟩
  | receive symbol =>
      obtain ⟨-, rfl⟩ := Prod.mk.inj (Option.some.inj hstep)
      simp only [Room, Op.bytes, waiting, List.length_append, List.length_singleton,
        Buffer.size_eq] at hroom
      obtain ⟨hmain, haddit⟩ := Transfer.callbackOnReceive_of_free symbol hq.unlocked (by
        simp only [Buffer.size_eq]
        omega)
      refine ⟨rfl, ?_⟩
      simp only [waiting, hmain, haddit, (Transfer.callbackOnReceive_frame s.inData symbol).1,
        Op.bytes, List.length_append, List.length_singleton, List.length_nil, Nat.add_assoc,
        Nat.le_refl]
  | update env during stale =>
      rw [step] at hstep
      split at hstep
      · rename_i hupdate
        simp only [Room, Op.bytes, hupdate, if_true, waiting, List.length_append,
          Buffer.size_eq] at hroom
        obtain ⟨addit, hlocked, haddit⟩ := foldl_callbackOnReceive_of_busy
          { s.inData with busy := true } during rfl (by simp only; omega)
        obtain ⟨events, data, packets, pbd, hdata, -, -, rfl⟩ := inDataUpdate_eq_some hstep
        rw [hlocked] at hdata
        obtain ⟨hmain, hkept, -⟩ := main_update hdata
        have hcalled : call { s.inData with busy := true, addit } s.inData.main =
            some (events, data) := hdata
        have hlength := call_length_le hcalled
        refine ⟨rfl, ?_⟩
        simp only [Buffer.size_eq] at hlength
        simp only [waiting, hmain, hkept, haddit, Op.bytes, hupdate, if_true, List.length_append,
          Buffer.size_eq, Buffer.bytes_clear, List.length_nil]
        omega
      · obtain ⟨-, rfl⟩ := Prod.mk.inj (Option.some.inj hstep)
        exact ⟨rfl, Nat.le_add_right _ _⟩
      · obtain ⟨-, rfl⟩ := Prod.mk.inj (Option.some.inj hstep)
        exact ⟨rfl, Nat.le_add_right _ _⟩

/-- A run that receives at most 2048 bytes in all has room. -/
theorem along_room {s : ReceivePath} (hq : Quiescent s) (ops : List Op)
    (h : s.inData.buffer.size + s.waiting.length + (arrivals s.modem ops).length ≤ 2048) :
    Along step Room s ops := by
  induction ops generalizing s with
  | nil => trivial
  | cons op ops ih =>
      rw [arrivals, List.length_append] at h
      have hroom : Room s (op :: ops) := by
        show _ ≤ _
        omega
      refine ⟨hroom, fun delivery t hstep => ih (hq.step hstep) ?_⟩
      obtain ⟨hmodem, hlength⟩ := length_step_le hq hroom hstep
      rw [hmodem]
      omega

/-! ## A dialogue

A CONNACK that comes in two segments, with a reply between them, and a PINGRESP behind it. -/

/-- What the modem sends. -/
def connection : List Item :=
  [.text (ascii "OK\r\n"), .segment [0x20, 0x06, 0x00], .text (ascii "\r\nSEND OK\r\n"),
    .segment [0x00, 0x03, 0x22, 0x00, 0x0A, 0xD0, 0x00]]

theorem wellFormed_connection : ∀ item ∈ connection, item.WellFormed := by
  rintro item hitem
  fin_cases hitem
  · exact ⟨by decide, by decide⟩
  · trivial
  · exact ⟨by decide, by decide⟩
  · trivial

/-- The modem is switched on and heard; the bytes of the first reply come while `main` is locked. -/
def connecting : List Op :=
  .update ⟨0, false, false⟩ [] (fun _ _ => 0) :: powerUpOps 0 ++
    [.update okEnv (ascii "OK\r\n+IPD,3") fun _ _ => 0] ++ hear (ascii ":") ++
    hear ([0x20, 0x06, 0x00] ++ ascii "\r\nSEND OK\r\n+IPD,7:") ++
    hear [0x00, 0x03, 0x22, 0x00, 0x0A, 0xD0, 0x00]

theorem delivered_connecting : ∃ outputs t taken done front,
    feed step boot connecting = some (outputs, t) ∧ taken <+: connection.flatMap Item.tagged ∧
      Owed PBD.session (connection.flatMap Item.tagged) outputs t taken done front :=
  delivered_of_arrived connection wellFormed_connection PBD.session
    (by
      rintro p hp
      fin_cases hp <;>
        exact ⟨⟨by decide, by decide, by decide, by decide⟩, ⟨by decide, by decide, by decide⟩⟩)
    _ (List.prefix_refl _) (by decide) connecting (by decide)
    (along_room quiescent_boot connecting (by decide)) (by decide)

end ReceivePath


end USKD
