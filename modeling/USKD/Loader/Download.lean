import USKD.Lib.Run
import USKD.Loader.Reading
import USKD.Loader.Verified

/-!
# A download delivers the file

`Download` is the loader together with the modem of an FTP session: the symbols on their way,
the rest of the file, and the requests that are not answered yet.  The modem answers a request
for `m` bytes with any `n ≤ m` of them (those of the header in full), announces bytes again
after an answer without any, and ends the file after its last byte.  Symbols are received one
at a time, polls of `Updater::Update` fall anywhere in between.

The invariant looks ahead: `drained` is the reader once everything on its way is read, as if
no poll came.  A symbol does not change it; what the modem sends is read by it; and a poll
meets the reader either waiting, or with a complete answer of which only the tail is to come.
-/

namespace USKD

open NorFlash Transducer ReaderFTP

/-- The loader and the modem during an FTP session. -/
structure Download where
  loader : Loader
  /-- Symbols on their way to the loader. -/
  wire : List UInt8
  /-- The bytes of the file that no answer has given yet. -/
  rest : List UInt8
  /-- Requests that are not answered yet. -/
  requests : List ℕ
  /-- The last answer gave no bytes. -/
  starved : Bool
  /-- The end of the file is announced. -/
  ended : Bool

namespace Download

/-- What happens in a session. -/
inductive Act
  /-- The next symbol is received. -/
  | receive
  /-- `Updater::Update`. -/
  | poll (now : UInt32) (answer : List UInt8)
  /-- The modem answers the oldest request with `n` bytes. -/
  | answer (n : ℕ)
  /-- The modem has bytes again. -/
  | ready
  /-- The modem ends the file. -/
  | finish

/-- The updater takes bytes from the session, and the copy loop is not entered. -/
def Active (c : Download) : Prop :=
  c.loader.inModeReceiveDataFromFTP ∧ c.loader.copying = none

instance (c : Download) : Decidable c.Active := inferInstanceAs (Decidable (_ ∧ _))

/-- One step of the session. -/
def step (chip : Chip) (c : Download) : Act → Option Download
  | .receive =>
      match c.wire with
      | [] => none
      | symbol :: wire => (c.loader.receive symbol).map fun (commands, loader) =>
          { c with loader, wire, requests := c.requests ++ asked commands }
  | .poll now answer =>
      if c.Active then
        (c.loader.updateUpdater chip now answer).map fun (commands, loader) =>
          { c with loader, requests := c.requests ++ asked commands }
      else none
  | .answer n =>
      match c.requests with
      | [] => none
      | m :: requests =>
          if n ≤ m ∧ n ≤ c.rest.length ∧ (m = 4 → n = 4) then
            some { c with
              wire := c.wire ++ reply (c.rest.take n)
              rest := c.rest.drop n
              requests := requests
              starved := c.starved || n = 0 }
          else none
  | .ready =>
      if c.starved ∧ c.rest ≠ [] then some { c with wire := c.wire ++ ready, starved := false }
      else none
  | .finish =>
      if c.rest = [] ∧ c.ended = false then some { c with wire := c.wire ++ fin, ended := true }
      else none

/-- The session that the answer `+FTPGET: 1,1` opens; the LF behind that answer may still be
on its way. -/
def start (file wire : List UInt8) (connected : List Transmit × Loader) : Download where
  loader := connected.2
  wire := wire
  rest := file
  requests := asked connected.1
  starved := false
  ended := false

/-- The next poll takes the branch of the end of the file. -/
def AtEndOfFile (c : Download) (now : UInt32) : Prop :=
  c.Active ∧ c.loader.updater.state = .GET_BYTES_FIRMWARE ∧
    c.loader.updater.stateMeter.elapsedTime now < 75000 ∧ c.loader.reader.receivedFTPGET_1_0

/-! ## The invariant -/

/-- The bytes that the updater asks for in its state. -/
def need (s : Loader) : ℕ := if s.updater.state = .GET_BYTES_FIRMWARE then 64 else 4

/-- The bytes of the header that are consumed. -/
def header (s : Loader) : ℕ :=
  match s.updater.state with
  | .GET_BYTES_CRC => 4
  | .GET_BYTES_FIRMWARE => 8
  | _ => 0

/-- The bytes of the image that are handed to the programmer. -/
def written (s : Loader) : List UInt8 :=
  if s.updater.state = .GET_BYTES_FIRMWARE then s.programmer.blocks.flatten else []

/-- Who is to move: the modem, as a request is out; the modem, as it has no bytes; or the
updater, as the answer is complete.  `pending` are the requests, with those still to be
sent. -/
inductive Turn (c : Download) (pending : List ℕ) (drained : ReaderFTP) : Prop
  | asking (hpending : pending = [need c.loader]) (hstarved : c.starved = false)
      (hidle : drained.requestedBytesReceived = false) (hempty : drained.pointerData = 0)
  | starved (hpending : pending = []) (hstarved : c.starved)
      (hidle : drained.requestedBytesReceived = false) (hempty : drained.pointerData = 0)
  | complete (hpending : pending = []) (hstarved : c.starved = false)
      (hfull : drained.requestedBytesReceived)
      (hheader : need c.loader = 4 → drained.received.length = 4)

/-- The reader once everything on its way is read. -/
structure Drained (file : List UInt8) (c : Download) (pending : List ℕ) (drained : ReaderFTP) :
    Prop where
  need : drained.needBytes = need c.loader
  turn : Turn c pending drained
  /-- Behind the end of the file the line fits one more answer for a pending request. -/
  line : Waiting drained ∨ Ended drained ∧ c.ended ∧
    drained.command.bytes.length + 17 * pending.length ≤ 32
  account : file.drop (header c.loader) = written c.loader ++ drained.received ++ c.rest

/-- What holds of the reader on the way: a complete answer is the last one, and behind the end
of the file there is nothing to come. -/
def Ahead (c : Download) (drained r : ReaderFTP) (post : List UInt8) : Prop :=
  (r.requestedBytesReceived → drained.requestedBytesReceived ∧ Calm c.ended post ∧
      r.received = drained.received) ∧
    (c.loader.updater.state = .GET_BYTES_FIRMWARE → r.receivedFTPGET_1_0 →
      c.ended ∧ r.received = drained.received)

/-- The invariant of the session. -/
structure Inv (file : List UInt8) (c : Download) : Prop where
  ended : c.ended → c.rest = []
  ahead : c.Active → ∃ os drained,
    Passes appendByte (Ahead c drained) c.loader.reader c.wire os drained ∧
      Drained file c (c.requests ++ said os) drained

variable {chip : Chip} {file : List UInt8} {c c' : Download}

theorem received_of_empty {r : ReaderFTP} (h : r.pointerData = 0) : r.received = [] := by
  rw [received, h, List.take_zero]

/-- While bytes of the file are left, its end is not announced. -/
theorem Inv.not_ended (h : Inv file c) (hrest : c.rest ≠ []) : c.ended = false :=
  Bool.eq_false_iff.mpr fun hended => hrest (h.ended hended)

theorem Drained.waiting {pending : List ℕ} {d : ReaderFTP} (hd : Drained file c pending d)
    (hended : c.ended = false) : Waiting d := by
  rcases hd.line with hw | ⟨-, hend, -⟩
  · exact hw
  · exact absurd (hended.symm.trans hend) (by decide)

/-! ## The modem -/

/-- An answer with bytes. -/
theorem Inv.answer_some (h : Inv file c) {os : List (List Transmit)} {d : ReaderFTP}
    (hpasses : Passes appendByte (Ahead c d) c.loader.reader c.wire os d)
    (hd : Drained file c [need c.loader] d) (hidle : d.requestedBytesReceived = false)
    (hempty : d.pointerData = 0) {n : ℕ} (hpos : 0 < n)
    (hm : n ≤ need c.loader) (hlen : n ≤ c.rest.length) (hheader : need c.loader = 4 → n = 4)
    (hc' : c' = { c with
      wire := c.wire ++ reply (c.rest.take n)
      rest := c.rest.drop n
      requests := []
      starved := false }) :
    ∃ os' d', Passes appendByte (Ahead c' d') c'.loader.reader c'.wire (os ++ os') d' ∧
      said os' = [] ∧ Drained file c' [] d' := by
  have htake : (c.rest.take n).length = n := List.length_take_of_le hlen
  have hneed : need c.loader ≤ 64 := by
    rw [need]
    split <;> omega
  have hrest : c.rest ≠ [] := List.length_pos_iff.mp (by omega)
  have hended := h.not_ended hrest
  obtain ⟨os', d', hreply, hsaid, hw', hfull, hreceived, hneed'⟩ :=
    passes_reply (c.rest.take n) (hd.waiting hended) hidle hempty
      (List.length_pos_iff.mp (by omega)) (by omega)
  subst hc'
  refine ⟨os', d', (hpasses.mono ?_).append (hreply.mono ?_), hsaid, ?_⟩
  · rintro r₁ post ⟨hrequested, hflag⟩
    refine ⟨fun hr => ?_, fun hstate hf => ?_⟩
    · exact absurd (hidle.symm.trans (hrequested hr).1) (by decide)
    · exact absurd (hended.symm.trans (hflag hstate hf).1) (by decide)
  · rintro r₁ post ⟨hrequested, hflag⟩
    refine ⟨fun hr => ?_, fun hstate hf => ?_⟩
    · obtain ⟨hdata, hsuffix⟩ := hrequested hr
      exact ⟨hfull, calm_tail hsuffix, hdata.trans hreceived.symm⟩
    · rw [hflag] at hf
      exact absurd (hended.symm.trans (hpasses.last.2 hstate hf).1) (by decide)
  · have haccount := hd.account
    rw [received_of_empty hempty, List.append_nil] at haccount
    refine ⟨hneed'.trans hd.need, ?_, Or.inl hw', ?_⟩
    · refine .complete rfl rfl hfull fun hfour => ?_
      rw [hreceived, htake]
      exact hheader hfour
    · show file.drop (header c.loader) = written c.loader ++ d'.received ++ c.rest.drop n
      rw [haccount, hreceived, List.append_assoc, List.take_append_drop]

/-- An answer without bytes. -/
theorem Inv.answer_nil {os : List (List Transmit)} {d : ReaderFTP}
    (hpasses : Passes appendByte (Ahead c d) c.loader.reader c.wire os d)
    (hd : Drained file c [need c.loader] d) (hidle : d.requestedBytesReceived = false)
    (hempty : d.pointerData = 0)
    (hc' : c' = { c with wire := c.wire ++ reply [], requests := [], starved := true }) :
    ∃ os' d', Passes appendByte (Ahead c' d') c'.loader.reader c'.wire (os ++ os') d' ∧
      said os' = [] ∧ Drained file c' [] d' := by
  subst hc'
  -- what was read before the answer is no complete answer
  have hold : ∀ {d' : ReaderFTP}, d'.received = d.received → ∀ r₁ post, Ahead c d r₁ post →
      Ahead { c with wire := c.wire ++ reply [], requests := [], starved := true } d' r₁
        (post ++ reply []) := by
    rintro d' hreceived r₁ post ⟨hrequested, hflag⟩
    refine ⟨fun hr => ?_, fun hstate hf => ?_⟩
    · exact absurd (hidle.symm.trans (hrequested hr).1) (by decide)
    · exact ⟨(hflag hstate hf).1, (hflag hstate hf).2.trans hreceived.symm⟩
  rcases hd.line with hw | ⟨hend, hended, hroom⟩
  · obtain ⟨os', d', hreply, hsaid, hw', hidle', hempty', hreceived, hneed'⟩ := passes_reply_nil hw
    refine ⟨os', d', (hpasses.mono (hold hreceived)).append (hreply.mono ?_), hsaid, ?_⟩
    · rintro r₁ post ⟨hr₁, hreceived₁, hflag₁⟩
      refine ⟨fun hr => ?_, fun hstate hf => ?_⟩
      · exact absurd (hidle.symm.trans (hr₁.symm.trans hr)) (by decide)
      · rw [hflag₁] at hf
        exact ⟨(hpasses.last.2 hstate hf).1, hreceived₁.trans hreceived.symm⟩
    · refine ⟨hneed'.trans hd.need, ?_, Or.inl hw', ?_⟩
      · exact .starved rfl rfl (hidle'.trans hidle) (hempty'.trans hempty)
      · rw [hreceived]
        exact hd.account
  · have hfits : d.command.bytes.length + weight (reply []) ≤ 32 := by
      rw [weight_reply_nil]
      simpa using hroom
    obtain ⟨d', hreply, hcore, hend', hlen'⟩ := passes_ended hend hfits
    obtain ⟨-, hneed', hempty', hreceived, hidle', -⟩ := core_eq hcore
    refine ⟨_, d', (hpasses.mono (hold hreceived)).append (hreply.mono ?_), said_replicate _, ?_⟩
    · intro r₁ post hr₁
      obtain ⟨-, -, -, hreceived₁, hidle₁, -⟩ := core_eq hr₁
      refine ⟨fun hr => ?_, fun _ _ => ⟨hended, hreceived₁.trans hreceived.symm⟩⟩
      exact absurd (hidle.symm.trans (hidle₁.symm.trans hr)) (by decide)
    · refine ⟨hneed'.trans hd.need, ?_, Or.inr ⟨hend', hended, ?_⟩, ?_⟩
      · exact .starved rfl rfl (hidle'.trans hidle) (hempty'.trans hempty)
      · rw [hlen', weight_reply_nil]
        simpa using hroom
      · rw [hreceived]
        exact hd.account

/-- **An answer**, of the header in full or without any byte. -/
theorem Inv.answers (h : Inv file c) {m n : ℕ} {requests : List ℕ}
    (hrequests : c.requests = m :: requests) (hm : n ≤ m) (hlen : n ≤ c.rest.length)
    (hheader : m = 4 → 0 < n → n = 4)
    (hc' : c' = { c with
      wire := c.wire ++ reply (c.rest.take n)
      rest := c.rest.drop n
      requests := requests
      starved := c.starved || n = 0 }) : Inv file c' := by
  refine ⟨fun hended => ?_, fun hactive => ?_⟩
  · rw [hc'] at hended ⊢
    simp [h.ended hended]
  obtain ⟨os, d, hpasses, hd⟩ := h.ahead (by rw [hc'] at hactive; exact hactive)
  rw [hrequests] at hd
  -- only a pending request is answered
  rcases hd.turn with ⟨hpending, hstarved, hidle, hempty⟩ | ⟨hpending, -⟩ | ⟨hpending, -⟩
  · obtain ⟨rfl, hnone⟩ := List.cons.inj hpending
    obtain ⟨rfl, hsaid⟩ := List.append_eq_nil_iff.mp hnone
    rw [hsaid, List.append_nil] at hd
    obtain ⟨os', d', hpasses', hsaid', hd'⟩ : ∃ os' d',
        Passes appendByte (Ahead c' d') c'.loader.reader c'.wire (os ++ os') d' ∧
          said os' = [] ∧ Drained file c' [] d' := by
      rcases Nat.eq_zero_or_pos n with rfl | hpos
      · exact Inv.answer_nil hpasses hd hidle hempty (by rw [hc']; simp)
      · exact h.answer_some hpasses hd hidle hempty hpos hm hlen (fun hfour => hheader hfour hpos)
          (by rw [hc', hstarved]; simp [hpos.ne'])
    have hrequests' : c'.requests = [] := by rw [hc']
    refine ⟨os ++ os', d', hpasses', ?_⟩
    rw [hrequests', said_append, hsaid, hsaid']
    exact hd'
  · exact absurd hpending (by simp)
  · exact absurd hpending (by simp)

theorem Inv.answer (h : Inv file c) {n : ℕ} (hstep : c.step chip (.answer n) = some c') :
    Inv file c' := by
  rw [step] at hstep
  split at hstep
  · exact absurd hstep (by simp)
  rename_i m requests hrequests
  split at hstep
  · rename_i hcond
    obtain ⟨hm, hlen, hheader⟩ := hcond
    have hc' := (Option.some.inj hstep).symm
    exact h.answers hrequests hm hlen (fun hfour _ => hheader hfour) hc'
  · exact absurd hstep (by simp)

theorem Inv.ready (h : Inv file c) (hstep : c.step chip .ready = some c') : Inv file c' := by
  rw [step] at hstep
  split at hstep
  · rename_i hcond
    obtain ⟨hstarved, hrest⟩ := hcond
    obtain rfl := Option.some.inj hstep
    refine ⟨fun hended => h.ended hended, fun hactive => ?_⟩
    obtain ⟨os, d, hpasses, hd⟩ := h.ahead hactive
    have hended := h.not_ended hrest
    -- bytes are announced only where an answer had none
    rcases hd.turn with ⟨-, hmore, -⟩ | ⟨hpending, -, hidle, hempty⟩ | ⟨-, hmore, -⟩
    · exact absurd (hmore.symm.trans hstarved) (by decide)
    · obtain ⟨os', d', hready, hsaid, hw', hcore⟩ := passes_ready (hd.waiting hended)
      obtain ⟨-, hneed, hempty', hreceived, hidle', -⟩ := core_eq hcore
      refine ⟨os ++ os', d', (hpasses.mono ?_).append (hready.mono ?_), ?_⟩
      · rintro r₁ post ⟨hrequested, hflag⟩
        refine ⟨fun hr => ?_, fun hstate hf => ?_⟩
        · exact absurd (hidle.symm.trans (hrequested hr).1) (by decide)
        · exact absurd (hended.symm.trans (hflag hstate hf).1) (by decide)
      · intro r₁ post hr₁
        obtain ⟨-, -, -, -, hidle₁, hflag₁⟩ := core_eq hr₁
        refine ⟨fun hr => ?_, fun hstate hf => ?_⟩
        · exact absurd (hidle.symm.trans (hidle₁.symm.trans hr)) (by decide)
        · rw [hflag₁] at hf
          exact absurd (hended.symm.trans (hpasses.last.2 hstate hf).1) (by decide)
      · refine ⟨hneed.trans hd.need, ?_, Or.inl hw', ?_⟩
        · refine .asking ?_ rfl (hidle'.trans hidle) (hempty'.trans hempty)
          rw [said_append, ← List.append_assoc, hpending, hsaid, hd.need]
          rfl
        · rw [hreceived]
          exact hd.account
    · exact absurd (hmore.symm.trans hstarved) (by decide)
  · exact absurd hstep (by simp)

/-- At most one request is pending. -/
theorem Turn.length_le {pending : List ℕ} {d : ReaderFTP} (h : Turn c pending d) :
    pending.length ≤ 1 := by
  rcases h with ⟨hpending, -⟩ | ⟨hpending, -⟩ | ⟨hpending, -⟩ <;> simp [hpending]

/-- The end of the file leaves it to the same side to move. -/
theorem Turn.congr {pending : List ℕ} {d d' : ReaderFTP} (h : Turn c pending d)
    (hneed : need c'.loader = need c.loader) (hstarved : c'.starved = c.starved)
    (hempty : d'.pointerData = d.pointerData) (hreceived : d'.received = d.received)
    (hidle : d'.requestedBytesReceived = d.requestedBytesReceived) : Turn c' pending d' := by
  rcases h with ⟨hpending, hs, hr, hp⟩ | ⟨hpending, hs, hr, hp⟩ | ⟨hpending, hs, hr, hheader⟩
  · exact .asking (by rw [hneed]; exact hpending) (hstarved.trans hs) (hidle.trans hr)
      (hempty.trans hp)
  · exact .starved hpending (hstarved.trans hs) (hidle.trans hr) (hempty.trans hp)
  · refine .complete hpending (hstarved.trans hs) (hidle.trans hr) fun hfour => ?_
    rw [hreceived]
    exact hheader (hneed ▸ hfour)

theorem Inv.finish (h : Inv file c) (hstep : c.step chip .finish = some c') : Inv file c' := by
  rw [step] at hstep
  split at hstep
  · rename_i hcond
    obtain ⟨hrest, hended⟩ := hcond
    obtain rfl := Option.some.inj hstep
    refine ⟨fun _ => hrest, fun hactive => ?_⟩
    obtain ⟨os, d, hpasses, hd⟩ := h.ahead hactive
    obtain ⟨os', d', hfin, hsaid, hend', hcore, hlen⟩ := passes_fin (hd.waiting hended)
    obtain ⟨-, hneed, hempty, hreceived, hidle⟩ := core_flag hcore
    have hpending : c.requests ++ said (os ++ os') = c.requests ++ said os := by
      rw [said_append, hsaid, List.append_nil]
    refine ⟨os ++ os', d', (hpasses.mono ?_).append (hfin.suffix.mono ?_), ?_⟩
    · rintro r₁ post ⟨hrequested, hflag⟩
      refine ⟨fun hr => ?_, fun hstate hf => ⟨rfl, (hflag hstate hf).2.trans hreceived.symm⟩⟩
      obtain ⟨hfull, hcalm, hdata⟩ := hrequested hr
      rw [hended] at hcalm
      exact ⟨hidle.trans hfull, hcalm.append_fin, hdata.trans hreceived.symm⟩
    · rintro r₁ post ⟨hr₁, hsuffix⟩
      have hsame : r₁.received = d.received ∧
          r₁.requestedBytesReceived = d.requestedBytesReceived := by
        rcases hr₁ with hr₁ | ⟨hr₁, -⟩
        · exact ⟨(core_eq hr₁).2.2.2.1, (core_eq hr₁).2.2.2.2.1⟩
        · exact ⟨(core_flag hr₁).2.2.2.1, (core_flag hr₁).2.2.2.2⟩
      refine ⟨fun hr => ⟨?_, calm_fin hsuffix, hsame.1.trans hreceived.symm⟩,
        fun _ _ => ⟨rfl, hsame.1.trans hreceived.symm⟩⟩
      rw [hidle, ← hsame.2]
      exact hr
    · show Drained file _ (c.requests ++ said (os ++ os')) d'
      rw [hpending]
      refine ⟨hneed.trans hd.need, hd.turn.congr rfl rfl hempty hreceived hidle,
        Or.inr ⟨hend', rfl, ?_⟩, ?_⟩
      · have hone := hd.turn.length_le
        omega
      · rw [hreceived]
        exact hd.account
  · exact absurd hstep (by simp)

/-! ## A symbol -/

theorem Inv.receive (h : Inv file c) (hstep : c.step chip .receive = some c') : Inv file c' := by
  rw [step] at hstep
  split at hstep
  · exact absurd hstep (by simp)
  rename_i symbol wire hwire
  obtain ⟨⟨commands, loader⟩, hreceive, rfl⟩ := Option.map_eq_some_iff.mp hstep
  refine ⟨fun hended => h.ended hended, fun hactive => ?_⟩
  rw [Loader.receive] at hreceive
  split at hreceive
  · rename_i hmode
    obtain ⟨⟨sent, reader⟩, happend, hreceive⟩ := Option.map_eq_some_iff.mp hreceive
    obtain ⟨rfl, rfl⟩ := Prod.mk.inj hreceive
    obtain ⟨os, d, hpasses, hd⟩ := h.ahead hactive
    rw [hwire] at hpasses
    obtain ⟨o, r, os', happend', rfl, hrest⟩ := hpasses.next
    obtain ⟨rfl, rfl⟩ := Prod.mk.inj (Option.some.inj (happend'.symm.trans happend))
    refine ⟨os', d, hrest, ?_⟩
    rw [said_cons, ← List.append_assoc] at hd
    exact ⟨hd.need, hd.turn.congr rfl rfl rfl rfl rfl, hd.line, hd.account⟩
  · rename_i hmode
    obtain ⟨-, rfl⟩ := Prod.mk.inj (Option.some.inj hreceive)
    exact absurd hactive.1 hmode

/-! ## A poll -/

/-- A poll that takes the bytes of an answer and asks for more. -/
structure Asked (s t : Loader) (commands : List Transmit) : Prop where
  complete : s.reader.requestedBytesReceived
  commands : commands = [.ftpGet (need t)]
  waiting : Waiting t.reader
  needBytes : t.reader.needBytes = need t
  empty : t.reader.pointerData = 0
  idle : t.reader.requestedBytesReceived = false
  flag : t.updater.state = .GET_BYTES_FIRMWARE → t.reader.receivedFTPGET_1_0 = false
  account : ∀ file rest : List UInt8, (need s = 4 → s.reader.received.length = 4) →
    file.drop (header s) = written s ++ s.reader.received ++ rest →
      file.drop (header t) = written t ++ rest

section Poll

variable {s t : Loader} {now : UInt32} {answer : List UInt8} {commands : List Transmit}

theorem header_account {file rest : List UInt8} (hfour : s.reader.received.length = 4)
    (hwritten : written s = [])
    (h : file.drop (header s) = written s ++ s.reader.received ++ rest) :
    file.drop (header s + 4) = rest := by
  rw [← List.drop_drop, h, hwritten, List.nil_append, ← hfour, List.drop_left]

theorem reset_inactive : s.reset.inModeReceiveDataFromFTP = false := by
  simp [Loader.inModeReceiveDataFromFTP, Loader.reset, Loader.resetUpdater]

theorem poll_getBytesVer (hstate : s.updater.state = .GET_BYTES_VER)
    (h : s.getBytesVer now = some (commands, t)) :
    t.inModeReceiveDataFromFTP = false ∨ (commands = [] ∧ t = s) ∨ Asked s t commands := by
  rcases Loader.meterIsRunning_cases h with h | ⟨-, h⟩
  · obtain ⟨-, rfl⟩ := Prod.mk.inj h
    exact Or.inl reset_inactive
  simp only at h
  split at h
  · rename_i hcomplete
    obtain ⟨rfl, rfl⟩ := Prod.mk.inj (Option.some.inj h)
    refine Or.inr (Or.inr ⟨hcomplete, rfl, ⟨rfl, rfl⟩, rfl, rfl, rfl, nofun, ?_⟩)
    intro file rest hfour haccount
    have hneed : need s = 4 := by simp [need, hstate]
    have hheader : header s = 0 := by simp [header, hstate]
    have hall := header_account (hfour hneed) (by simp [written, hstate]) haccount
    rw [hheader] at hall
    exact hall
  · obtain ⟨rfl, rfl⟩ := Prod.mk.inj (Option.some.inj h)
    exact Or.inr (Or.inl ⟨rfl, rfl⟩)

theorem poll_getBytesCrc (hstate : s.updater.state = .GET_BYTES_CRC)
    (h : s.getBytesCrc now = some (commands, t)) :
    t.inModeReceiveDataFromFTP = false ∨ (commands = [] ∧ t = s) ∨ Asked s t commands := by
  rcases Loader.meterIsRunning_cases h with h | ⟨-, h⟩
  · obtain ⟨-, rfl⟩ := Prod.mk.inj h
    exact Or.inl reset_inactive
  simp only at h
  split at h
  · rename_i hcomplete
    obtain ⟨rfl, rfl⟩ := Prod.mk.inj (Option.some.inj h)
    refine Or.inr (Or.inr ⟨hcomplete, rfl, ⟨rfl, rfl⟩, rfl, rfl, rfl, fun _ => rfl, ?_⟩)
    intro file rest hfour haccount
    have hneed : need s = 4 := by simp [need, hstate]
    have hheader : header s = 4 := by simp [header, hstate]
    have hall := header_account (hfour hneed) (by simp [written, hstate]) haccount
    rw [hheader] at hall
    exact hall
  · obtain ⟨rfl, rfl⟩ := Prod.mk.inj (Option.some.inj h)
    exact Or.inr (Or.inl ⟨rfl, rfl⟩)

/-- The end of the file ends the download, one way or the other; its last block is handed to
the programmer. -/
theorem poll_endOfFile (h : s.endOfFile chip = some (commands, t)) :
    (t.inModeReceiveDataFromFTP = false ∨ t.copying ≠ none) ∧
      t.programmer.blocks = s.programmer.blocks ++ [s.reader.received] := by
  simp only [Loader.endOfFile, Option.bind_eq_bind, Option.bind_eq_some_iff] at h
  obtain ⟨p, hwrite, q, hclose, h⟩ := h
  have hblocks : q.blocks = s.programmer.blocks ++ [s.reader.received] :=
    (Programmer.blocks_closeSession hclose).trans (Programmer.blocks_writeBytes hwrite)
  split at h
  · obtain ⟨-, rfl⟩ := Prod.mk.inj (Option.some.inj h)
    exact ⟨Or.inr (by simp), hblocks⟩
  · obtain ⟨-, rfl⟩ := Prod.mk.inj (Option.some.inj h)
    exact ⟨Or.inl reset_inactive, hblocks⟩

theorem poll_getBytesFirmware (hstate : s.updater.state = .GET_BYTES_FIRMWARE)
    (h : s.getBytesFirmware chip now = some (commands, t)) :
    (t.inModeReceiveDataFromFTP = false ∨ t.copying ≠ none) ∨ (commands = [] ∧ t = s) ∨
      Asked s t commands := by
  rcases Loader.meterIsRunning_cases h with h | ⟨-, h⟩
  · obtain ⟨-, rfl⟩ := Prod.mk.inj h
    exact Or.inl (Or.inl reset_inactive)
  simp only at h
  split at h
  · exact Or.inl (poll_endOfFile h).1
  rename_i hmore
  split at h
  · rename_i hcomplete
    obtain ⟨p, hwrite, h⟩ := Option.map_eq_some_iff.mp h
    obtain ⟨rfl, rfl⟩ := Prod.mk.inj h
    have hblocks := Programmer.blocks_writeBytes hwrite
    refine Or.inr (Or.inr ⟨hcomplete, ?_, ⟨rfl, rfl⟩, ?_, rfl, rfl, ?_, ?_⟩)
    · simp [need, hstate]
    · simp [need, hstate]
    · intro _
      exact Bool.eq_false_iff.mpr hmore
    · intro file rest _ haccount
      simp only [header, written, hstate, if_true, hblocks, List.flatten_append,
        List.flatten_singleton] at haccount ⊢
      exact haccount
  · obtain ⟨rfl, rfl⟩ := Prod.mk.inj (Option.some.inj h)
    exact Or.inr (Or.inl ⟨rfl, rfl⟩)

/-- **What a poll does** while bytes of the session are taken. -/
theorem poll_cases (hmode : s.inModeReceiveDataFromFTP)
    (h : s.updateUpdater chip now answer = some (commands, t)) :
    (t.inModeReceiveDataFromFTP = false ∨ t.copying ≠ none) ∨ (commands = [] ∧ t = s) ∨
      Asked s t commands := by
  have hstate : s.updater.state = .GET_BYTES_VER ∨ s.updater.state = .GET_BYTES_CRC ∨
      s.updater.state = .GET_BYTES_FIRMWARE := by
    simpa [Loader.inModeReceiveDataFromFTP] using hmode
  rcases hstate with hstate | hstate | hstate
  · simp only [Loader.updateUpdater, hstate] at h
    rcases poll_getBytesVer hstate h with h | h
    · exact Or.inl (Or.inl h)
    · exact Or.inr h
  · simp only [Loader.updateUpdater, hstate] at h
    rcases poll_getBytesCrc hstate h with h | h
    · exact Or.inl (Or.inl h)
    · exact Or.inr h
  · simp only [Loader.updateUpdater, hstate] at h
    exact poll_getBytesFirmware hstate h

end Poll

/-- The reader that a poll leaves, over what is still to come of the answer. -/
theorem Asked.ahead {s t : Loader} {commands : List Transmit} (ha : Asked s t commands)
    {os : List (List Transmit)} {d : ReaderFTP} (hloader : c.loader = s)
    (hpasses : Passes appendByte (Ahead c d) s.reader c.wire os d)
    (hd : Drained file c (c.requests ++ said os) d)
    (hc' : c' = { c with loader := t, requests := c.requests ++ asked commands }) :
    ∃ os d, Passes appendByte (Ahead c' d) c'.loader.reader c'.wire os d ∧
      Drained file c' (c'.requests ++ said os) d := by
  subst hloader
  obtain ⟨hfull, hcalm, hreceived⟩ := hpasses.along.here.1 ha.complete
  obtain ⟨os', d', hcalms, hsaid, hlast⟩ := passes_calm ha.waiting hcalm
  have hempty := received_of_empty ha.empty
  -- the answer is complete: nothing is pending
  obtain ⟨hpending, hstarved, hheader⟩ : c.requests ++ said os = [] ∧ c.starved = false ∧
      (need c.loader = 4 → d.received.length = 4) := by
    rcases hd.turn with ⟨-, -, hidle, -⟩ | ⟨-, -, hidle, -⟩ | ⟨hpending, hstarved, -, hheader⟩
    · exact absurd (hidle.symm.trans hfull) (by decide)
    · exact absurd (hidle.symm.trans hfull) (by decide)
    · exact ⟨hpending, hstarved, hheader⟩
  have hrequests := (List.append_eq_nil_iff.mp hpending).1
  obtain ⟨hneed', hpointer', hreceived', hidle'⟩ : d'.needBytes = t.reader.needBytes ∧
      d'.pointerData = t.reader.pointerData ∧ d'.received = t.reader.received ∧
      d'.requestedBytesReceived = t.reader.requestedBytesReceived := by
    rcases hlast with ⟨-, hcore⟩ | ⟨-, -, -, hcore⟩
    · obtain ⟨-, h2, h3, h4, h5, -⟩ := core_eq hcore
      exact ⟨h2, h3, h4, h5⟩
    · obtain ⟨-, h2, h3, h4, h5⟩ := core_flag hcore
      exact ⟨h2, h3, h4, h5⟩
  have hnow : c.requests ++ asked commands ++ said os' = [need t] := by
    rw [hrequests, hsaid, ha.commands]
    rfl
  subst hc'
  refine ⟨os', d', hcalms.mono ?_, ?_⟩
  · rintro r₁ post hr₁
    have hsame : r₁.received = t.reader.received ∧
        r₁.requestedBytesReceived = t.reader.requestedBytesReceived := by
      rcases hr₁ with hcore | ⟨-, hcore⟩
      · exact ⟨(core_eq hcore).2.2.2.1, (core_eq hcore).2.2.2.2.1⟩
      · exact ⟨(core_flag hcore).2.2.2.1, (core_flag hcore).2.2.2.2⟩
    refine ⟨fun hr => ?_, fun hstate hf => ?_⟩
    · exact absurd (ha.idle.symm.trans (hsame.2.symm.trans hr)) (by decide)
    · rcases hr₁ with hcore | ⟨hended, -⟩
      · have hflag := (core_eq hcore).2.2.2.2.2.trans (ha.flag hstate)
        exact absurd (hflag.symm.trans hf) (by decide)
      · exact ⟨hended, hsame.1.trans hreceived'.symm⟩
  · show Drained file _ (c.requests ++ asked commands ++ said os') d'
    rw [hnow]
    refine ⟨hneed'.trans ha.needBytes, ?_, ?_, ?_⟩
    · exact .asking rfl hstarved (hidle'.trans ha.idle) (hpointer'.trans ha.empty)
    · rcases hlast with ⟨hw', -⟩ | ⟨hended, hend', hlen, -⟩
      · exact Or.inl hw'
      · refine Or.inr ⟨hend', hended, ?_⟩
        rw [hlen, List.length_singleton]
        omega
    · have haccount := hd.account
      rw [← hreceived] at haccount hheader
      rw [hreceived', hempty, List.append_nil]
      exact ha.account file c.rest hheader haccount

theorem Inv.poll (h : Inv file c) {now : UInt32} {answer : List UInt8}
    (hstep : c.step chip (.poll now answer) = some c') : Inv file c' := by
  rw [step] at hstep
  split at hstep
  · rename_i hactive
    obtain ⟨⟨commands, t⟩, hupdate, rfl⟩ := Option.map_eq_some_iff.mp hstep
    refine ⟨fun hended => h.ended hended, fun hactive' => ?_⟩
    obtain ⟨os, d, hpasses, hd⟩ := h.ahead hactive
    rcases poll_cases hactive.1 hupdate with (hmode | hcopying) | ⟨rfl, rfl⟩ | ha
    · exact absurd hactive'.1 (Bool.eq_false_iff.mp hmode)
    · exact absurd hactive'.2 hcopying
    · refine ⟨os, d, hpasses, ?_⟩
      show Drained file _ (c.requests ++ [] ++ said os) d
      rw [List.append_nil]
      exact ⟨hd.need, hd.turn.congr rfl rfl rfl rfl rfl, hd.line, hd.account⟩
    · exact ha.ahead rfl hpasses hd rfl
  · exact absurd hstep (by simp)

/-- **Step lemma.** -/
theorem Inv.step (h : Inv file c) {act : Act} (hstep : c.step chip act = some c') :
    Inv file c' := by
  cases act with
  | receive => exact h.receive hstep
  | poll now answer => exact h.poll hstep
  | answer n => exact h.answer hstep
  | ready => exact h.ready hstep
  | finish => exact h.finish hstep

/-! ## The session -/

theorem inv_start {s : Loader} {now : UInt32} {wire : List UInt8}
    {connected : List Transmit × Loader} (hstate : s.updater.state = .NEED_WAIT_CONNECT)
    (hconnect : s.updateUpdater chip now (ascii "+FTPGET: 1,1") = some connected)
    (hver : connected.2.updater.state = .GET_BYTES_VER) (hwire : wire = [] ∨ wire = [0x0A]) :
    Inv file (start file wire connected) := by
  have hword : Parser.getWord (ascii "+FTPGET: 1,1") 1 = some (ascii "+FTPGET") := by decide
  simp only [Loader.updateUpdater, hstate] at hconnect
  rcases Loader.meterIsRunning_cases hconnect with rfl | ⟨-, h⟩
  · exact absurd hver (by simp [Loader.reset, Loader.resetUpdater])
  simp only [hword, Option.bind_eq_bind, Option.bind_some, if_true] at h
  obtain rfl := (Option.some.inj h).symm
  refine ⟨fun hended => absurd hended (by simp [start]), fun _ => ?_⟩
  -- the LF behind the answer is dropped
  obtain ⟨os, r, hpasses, hsaid, hcore, hcommand⟩ : ∃ os r,
      Passes appendByte (fun r₁ _ => r₁.core = { s.reader.reset with needBytes := 4 }.core)
        { s.reader.reset with needBytes := 4 } wire os r ∧ said os = [] ∧
      r.core = { s.reader.reset with needBytes := 4 }.core ∧ r.command.bytes = [] := by
    rcases hwire with rfl | rfl
    · exact ⟨[], _, Passes.nil rfl, rfl, rfl, rfl⟩
    · have hstep : appendByte { s.reader.reset with needBytes := 4 } 0x0A =
          some ([], { s.reader.reset with needBytes := 4 }) := appendByte_lf_nil rfl rfl
      exact ⟨[[]], _, Passes.cons rfl hstep (Passes.nil rfl), rfl, rfl, rfl⟩
  obtain ⟨hreceiving, hneed, hempty, hreceived, hidle, -⟩ := core_eq hcore
  refine ⟨os, r, hpasses.mono ?_, ?_⟩
  · intro r₁ post hr₁
    refine ⟨fun hr => ?_, fun hfirmware => ?_⟩
    · exact absurd ((core_eq hr₁).2.2.2.2.1.symm.trans hr) (by simp [ReaderFTP.reset])
    · exact absurd (hver.symm.trans hfirmware) (by decide)
  · show Drained file _ ([4] ++ said os) r
    rw [hsaid]
    refine ⟨hneed, .asking rfl rfl hidle hempty, Or.inl ⟨hreceiving, hcommand⟩, ?_⟩
    rw [hreceived]
    rfl

/-- Every state of a session meets the invariant. -/
theorem inv_of_run {acts : List Act} {c₀ : Download} (h : Inv file c₀)
    (hrun : LTS.Run (LTS.stepOf (step chip)) c₀ acts c) : Inv file c :=
  hrun.invariant h fun _ _ _ h hstep => h.step hstep

/-- No symbol is stored behind an array. -/
theorem Inv.receive_isSome (h : Inv file c) (hactive : c.Active) {symbol : UInt8}
    {wire : List UInt8} (hwire : c.wire = symbol :: wire) :
    (c.loader.receive symbol).isSome := by
  obtain ⟨os, d, hpasses, -⟩ := h.ahead hactive
  rw [hwire] at hpasses
  obtain ⟨o, r, os', happend, -, -⟩ := hpasses.next
  rw [Loader.receive, if_pos hactive.1, happend]
  rfl

/-- At the end of the file everything but the reader's bytes is with the programmer. -/
theorem Inv.payload (h : Inv file c) {now : UInt32} (hend : c.AtEndOfFile now) :
    file.drop 8 = c.loader.programmer.blocks.flatten ++ c.loader.reader.received := by
  obtain ⟨hactive, hstate, -, hflag⟩ := hend
  obtain ⟨os, d, hpasses, hd⟩ := h.ahead hactive
  obtain ⟨hended, hreceived⟩ := hpasses.along.here.2 hstate hflag
  have haccount := hd.account
  simp only [header, written, hstate, if_true, h.ended hended, List.append_nil] at haccount
  rw [haccount, hreceived]

/-- **A download delivers the file.**  In every session that an answer `+FTPGET: 1,1` opens,
for every file, every choice of the modem and every interleaving of symbols and polls: no
symbol is stored behind an array, and a poll that takes the branch of the end of the file
leaves blocks at the programmer whose concatenation is the payload. -/
theorem file_delivered (chip : Chip) {s : Loader} {now : UInt32} {file wire : List UInt8}
    {connected : List Transmit × Loader} (hstate : s.updater.state = .NEED_WAIT_CONNECT)
    (hconnect : s.updateUpdater chip now (ascii "+FTPGET: 1,1") = some connected)
    (hver : connected.2.updater.state = .GET_BYTES_VER) (hwire : wire = [] ∨ wire = [0x0A])
    {acts : List Act} {c : Download}
    (hrun : LTS.Run (LTS.stepOf (step chip)) (start file wire connected) acts c) :
    (∀ symbol rest, c.Active → c.wire = symbol :: rest → (c.loader.receive symbol).isSome) ∧
      ∀ now answer c', c.AtEndOfFile now → c.step chip (.poll now answer) = some c' →
        c'.loader.programmer.blocks.flatten = file.drop 8 := by
  have hinv := inv_of_run (inv_start hstate hconnect hver hwire) hrun
  refine ⟨fun symbol rest hactive hsymbol => hinv.receive_isSome hactive hsymbol,
    fun now answer c' hend hpoll => ?_⟩
  obtain ⟨hactive, hfirmware, htime, hflag⟩ := hend
  rw [step, if_pos hactive] at hpoll
  obtain ⟨⟨commands, t⟩, hupdate, rfl⟩ := Option.map_eq_some_iff.mp hpoll
  simp only [Loader.updateUpdater, hfirmware, Loader.getBytesFirmware, Loader.meterIsRunning,
    if_pos htime, if_pos hflag] at hupdate
  show t.programmer.blocks.flatten = file.drop 8
  rw [(poll_endOfFile hupdate).2, List.flatten_append, List.flatten_singleton,
    hinv.payload ⟨hactive, hfirmware, htime, hflag⟩]

/-! ## A session with three bytes that look like the end of a line and a command -/

/-- Symbols on their way are received one after the other. -/
theorem run_receive (chip : Chip) (post : List UInt8) {bytes : List UInt8}
    {os : List (List Transmit)}
    {r : ReaderFTP} (hmode : c.loader.inModeReceiveDataFromFTP)
    (hfeed : feed appendByte c.loader.reader bytes = some (os, r))
    (hwire : c.wire = bytes ++ post) :
    LTS.Run (LTS.stepOf (step chip)) c (List.replicate bytes.length .receive)
      { c with
        loader := { c.loader with reader := r }
        wire := post
        requests := c.requests ++ said os } := by
  induction bytes generalizing c os with
  | nil =>
      obtain ⟨rfl, rfl⟩ := Prod.mk.inj (Option.some.inj hfeed)
      obtain rfl : c.wire = post := hwire
      have hnone : c.requests ++ said [] = c.requests := List.append_nil _
      rw [hnone]
      exact LTS.Run.nil
  | cons b bytes ih =>
      rw [feed_cons, Option.bind_eq_some_iff] at hfeed
      obtain ⟨⟨commands, r₁⟩, hfirst, hfeed⟩ := hfeed
      obtain ⟨⟨os', r'⟩, hrest, hfeed⟩ := Option.map_eq_some_iff.mp hfeed
      obtain ⟨rfl, rfl⟩ := Prod.mk.inj hfeed
      have hstep : c.step chip .receive = some { c with
          loader := { c.loader with reader := r₁ }
          wire := bytes ++ post
          requests := c.requests ++ asked commands } := by
        rw [step, hwire, List.cons_append]
        simp only [Loader.receive, if_pos hmode, hfirst, Option.map_some]
      have hrun := ih (c := { c with
          loader := { c.loader with reader := r₁ }
          wire := bytes ++ post
          requests := c.requests ++ asked commands }) hmode hrest rfl
      rw [said_cons, ← List.append_assoc]
      exact (LTS.Run.single (show LTS.stepOf (step chip) c .receive _ from hstep)).append hrun

/-- The three bytes. -/
def imitation : List UInt8 := [0x0D, 0x0A, 0x2B]

/-- The file: a header of zeros, and the three bytes. -/
def imitationFile : List UInt8 := List.replicate 8 0 ++ imitation

/-- The session in a state, over an erased flash. -/
def during (state : Updater.State) (reader : ReaderFTP) (address : ℕ) (wire rest : List UInt8)
    (requests : List ℕ) (ended : Bool) : Download where
  loader := Loader.during state reader ⟨0, address, [], [], ⟨fun _ => 0xFF, []⟩⟩
  wire := wire
  rest := rest
  requests := requests
  starved := false
  ended := ended

/-- The reader with the three bytes, and with the end of the file behind them. -/
def holding : ReaderFTP :=
  { Loader.asking 64 3 with
    pointerData := 3
    bufferData := (((Vector.replicate 64 0).set! 0 0x0D).set! 1 0x0A).set! 2 0x2B
    requestedBytesReceived := true }

theorem length_endOfFile : (ascii "+FTPGET: 1,0" ++ [0]).length ≤ 32 := by decide

def holdingEnd : ReaderFTP :=
  { holding with
    command := ⟨ascii "+FTPGET: 1,0" ++ [0], length_endOfFile⟩
    receivedFTPGET_1_0 := true }

theorem feed_imitation : feed appendByte (Loader.asking 64 4) (reply imitation) =
    some (List.replicate 23 [], holding) := by
  decide

theorem feed_end : feed appendByte holding fin = some (List.replicate 14 [], holdingEnd) := by
  decide

/-- The steps of the session; the last chunk is not consumed when the file ends. -/
def imitationActs : List Act :=
  [Act.answer 4] ++ List.replicate 24 Act.receive ++ [Act.poll 0 [], .answer 4] ++
    List.replicate 24 Act.receive ++ [Act.poll 0 []] ++ [Act.answer 3] ++
    List.replicate 23 Act.receive ++ [Act.finish] ++ List.replicate 14 Act.receive

theorem run_imitation : LTS.Run (LTS.stepOf (step andChip))
    (during .GET_BYTES_VER (Loader.asking 4 0) 0 [] imitationFile [4] false) imitationActs
    (during .GET_BYTES_FIRMWARE holdingEnd HAL_ROM.ADDR_STORAGE [] [] [] true) := by
  have h1 : LTS.Run (LTS.stepOf (step andChip))
      (during .GET_BYTES_VER (Loader.asking 4 0) 0 [] imitationFile [4] false) [.answer 4]
      (during .GET_BYTES_VER (Loader.asking 4 0) 0 (reply [0, 0, 0, 0]) (imitationFile.drop 4) []
        false) :=
    LTS.run_of_execRun rfl
  have h2 := run_receive andChip [] (c := during .GET_BYTES_VER (Loader.asking 4 0) 0
    (reply [0, 0, 0, 0]) (imitationFile.drop 4) [] false) rfl
    (Loader.feed_header (Or.inl rfl)) (by decide)
  have h3 : LTS.Run (LTS.stepOf (step andChip))
      (during .GET_BYTES_VER (Loader.answered 4) 0 [] (imitationFile.drop 4) [] false)
      [.poll 0 [], .answer 4]
      (during .GET_BYTES_CRC (Loader.asking 4 4) 0 (reply [0, 0, 0, 0]) imitation [] false) :=
    LTS.run_of_execRun rfl
  have h4 := run_receive andChip [] (c := during .GET_BYTES_CRC (Loader.asking 4 4) 0
    (reply [0, 0, 0, 0]) imitation [] false) rfl
    (Loader.feed_header (Or.inr rfl)) (by decide)
  have h5 : (during .GET_BYTES_CRC (Loader.answered 4) 0 [] imitation [] false).step andChip
      (.poll 0 []) =
        some { during .GET_BYTES_FIRMWARE (Loader.asking 64 4) 0 [] imitation [64] false with
          loader := Loader.during .GET_BYTES_FIRMWARE (Loader.asking 64 4)
            (Programmer.prepare ⟨0, 0, [], [], ⟨fun _ => 0xFF, []⟩⟩ HAL_ROM.ADDR_STORAGE) } := rfl
  rw [Programmer.prepare_blank _ [] _ rfl] at h5
  have h6 : LTS.Run (LTS.stepOf (step andChip))
      (during .GET_BYTES_FIRMWARE (Loader.asking 64 4) HAL_ROM.ADDR_STORAGE [] imitation [64] false)
      [.answer 3]
      (during .GET_BYTES_FIRMWARE (Loader.asking 64 4) HAL_ROM.ADDR_STORAGE (reply imitation) [] []
        false) :=
    LTS.run_of_execRun rfl
  have h7 := run_receive andChip [] (c := during .GET_BYTES_FIRMWARE (Loader.asking 64 4)
    HAL_ROM.ADDR_STORAGE (reply imitation) [] [] false) rfl feed_imitation
    (List.append_nil _).symm
  have h8 : LTS.Run (LTS.stepOf (step andChip))
      (during .GET_BYTES_FIRMWARE holding HAL_ROM.ADDR_STORAGE [] [] [] false) [.finish]
      (during .GET_BYTES_FIRMWARE holding HAL_ROM.ADDR_STORAGE fin [] [] true) :=
    LTS.run_of_execRun rfl
  have h9 := run_receive andChip [] (c := during .GET_BYTES_FIRMWARE holding HAL_ROM.ADDR_STORAGE fin
    [] [] true) rfl feed_end (List.append_nil _).symm
  have hheader := ((h1.append h2).append h3).append h4
  have hpoll : LTS.Run (LTS.stepOf (step andChip))
      (during .GET_BYTES_CRC (Loader.answered 4) 0 [] imitation [] false) [.poll 0 []]
      (during .GET_BYTES_FIRMWARE (Loader.asking 64 4) HAL_ROM.ADDR_STORAGE [] imitation [64]
        false) :=
    LTS.Run.single h5
  have hchunk := (hheader.append hpoll).append h6
  exact ((hchunk.append h7).append h8).append h9

/-- The three bytes are delivered: the last poll finds them unconsumed. -/
theorem file_delivered_imitation :
    ∃ c', (during .GET_BYTES_FIRMWARE holdingEnd HAL_ROM.ADDR_STORAGE [] [] [] true).step andChip
        (.poll 0 []) = some c' ∧ c'.loader.programmer.blocks.flatten = imitation := by
  have hsome : ((during .GET_BYTES_FIRMWARE holdingEnd HAL_ROM.ADDR_STORAGE [] [] [] true).step
      andChip (.poll 0 [])).isSome := rfl
  obtain ⟨c', hstep⟩ := Option.isSome_iff_exists.mp hsome
  have hrun : LTS.Run (LTS.stepOf (step andChip)) (start imitationFile [] ([.ftpGet 4],
      Loader.during .GET_BYTES_VER (Loader.asking 4 0) ⟨0, 0, [], [], ⟨fun _ => 0xFF, []⟩⟩))
      imitationActs _ := run_imitation
  have hconnect : Loader.updateUpdater andChip
      (Loader.during .NEED_WAIT_CONNECT .boot ⟨0, 0, [], [], ⟨fun _ => 0xFF, []⟩⟩) 0
      (ascii "+FTPGET: 1,1") = some ([.ftpGet 4],
        Loader.during .GET_BYTES_VER (Loader.asking 4 0) ⟨0, 0, [], [], ⟨fun _ => 0xFF, []⟩⟩) := rfl
  have hdelivered := file_delivered andChip rfl hconnect rfl (Or.inl rfl) hrun
  exact ⟨c', hstep, hdelivered.2 0 [] c' ⟨⟨rfl, rfl⟩, rfl, by decide, rfl⟩ hstep⟩

end Download

end USKD
