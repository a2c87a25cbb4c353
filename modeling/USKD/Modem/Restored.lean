import USKD.Modem.Delivery
import USKD.Modem.ReceivePath

/-!
# When a reset restores the receive path

The `IDLE` step resets `SIM868` and `MQTT` and leaves `main`, `addit`, `buffer`,
`binary_bytes_left` and `PBD::buffer` as they are.  `restored_iff` says that this is
harmless only if all five are empty: from every other reachable state some stream is
delivered differently than after boot.

The streams that tell the two apart are these.

* A line of 2047 equal characters and its CR just fit the buffers.  Whatever stands in
  `main`, `addit` or `buffer` makes one of them overflow, or is seen in front of the line
  `A…A` or of the line `B…B` (`long_answer` is the counting argument).
* With empty buffers, a line `A` is text if and only if `binary_bytes_left` is zero.
* With the scanner at rest, a packet of two bytes is processed at its end if and only if
  `PBD::buffer` is empty.
-/

namespace USKD

open Transducer

/-! ## The long line -/

namespace InData

open Decoder

/-- Where the text of an answer comes from: the C string `t` is not the last thing that
was scanned, unless it ends in the prompt. -/
def From (t bytes : List UInt8) : Prop :=
  t.getLast? = some 0x3E ∨ ∃ x, (t ++ [x]).Sublist bytes

theorem From.mono {t bytes bytes' : List UInt8} (h : From t bytes) (hsub : bytes.Sublist bytes') :
    From t bytes' := by
  rcases h with hlast | ⟨x, hx⟩
  · exact Or.inl hlast
  · exact Or.inr ⟨x, hx.trans hsub⟩

theorem push_cases (b : Buffer 2048) (symbol : UInt8) :
    (b.push symbol).1.bytes = b.bytes ++ [symbol] ∨ (b.push symbol).1.bytes = b.bytes := by
  rw [Buffer.push]
  split
  · exact Or.inl rfl
  · exact Or.inr rfl

/-- The C string in an array of which the last bytes were pushed is a prefix of what
stood there, or all of it and the first pushed byte. -/
theorem beforeZero_push (b : Buffer 2048) :
    beforeZero (b.push 0).1.bytes <+: b.bytes := by
  rcases push_cases b 0 with h | h
  · rw [h, beforeZero_concat]
    exact List.takeWhile_prefix _
  · rw [h]
    exact List.takeWhile_prefix _

theorem from_scan {i : ℕ} {answer : Buffer 2048} {left : ℤ} {rest : List UInt8} {pass : Pass}
    (hscan : Scans i answer left rest pass) {a : Buffer 2048} {n : ℕ}
    (hanswer : pass.outcome = .answer a n) {t : List UInt8} (ht : cString a.bytes = some t) :
    From t (answer.bytes ++ rest) := by
  have hskip : ∀ (text : List UInt8) (symbol : UInt8) (rest : List UInt8),
      (text ++ rest).Sublist (text ++ symbol :: rest) := fun text symbol rest =>
    (List.Sublist.refl _).append (List.sublist_cons_self _ _)
  -- a text in front of the byte that ends the answer
  have hend : ∀ {text t' : List UInt8} {symbol : UInt8} {rest : List UInt8}, t' <+: text →
      From t' (text ++ symbol :: rest) := by
    intro text t' symbol rest ht'
    exact Or.inr ⟨symbol, ht'.sublist.append (by simp)⟩
  induction hscan with
  | exhausted | found => exact absurd hanswer (by simp)
  | handed _ _ ih | skipped _ _ ih => exact (ih hanswer).mono (hskip _ _ _)
  | @ended _ answer =>
      obtain ⟨rfl, -⟩ := Outcome.answer.inj hanswer
      rw [cString_eq_some ht]
      exact hend (beforeZero_push answer)
  | @prompted _ answer =>
      obtain ⟨rfl, -⟩ := Outcome.answer.inj hanswer
      have hpre := beforeZero_push (answer.push 0x3E).1
      rw [← cString_eq_some ht] at hpre
      rcases push_cases answer 0x3E with h | h
      · rw [h] at hpre
        rcases List.prefix_concat_iff.mp hpre with rfl | hpre
        · exact Or.inl List.getLast?_concat
        · exact hend hpre
      · rw [h] at hpre
        exact hend hpre
  | @stored _ answer symbol _ _ _ _ _ _ _ ih =>
      refine (ih hanswer).mono ?_
      rcases push_cases answer symbol with h | h
      · rw [h, List.append_assoc]
        exact List.Sublist.refl _
      · rw [h]
        exact hskip _ _ _

/-- **Every answer of a call comes from the buffer it scans.** -/
theorem from_drain {fuel : ℕ} {buffer : Buffer 2048} {left : ℤ} {events : List Event}
    {r : Buffer 2048 × ℤ} (h : Drains fuel buffer left events r) {t : List UInt8}
    (ht : .update t ∈ events) (hne : t ≠ []) : From t buffer.bytes := by
  have hremoved : ∀ {b b' : Buffer 2048} {n : ℕ}, b.removeFirst n = some b' →
      b'.bytes.Sublist b.bytes := by
    intro b b' n hb
    rw [Buffer.bytes_removeFirst hb]
    exact List.drop_sublist _ _
  have hhanded : ∀ handed : List UInt8, .update t ∉ handed.map Event.appendByte := by simp
  induction h with
  | exhausted =>
      rcases List.mem_append.mp ht with ht | ht
      · exact absurd ht (hhanded _)
      · exact absurd (Event.update.inj (List.mem_singleton.mp ht)) hne
  | answer hscan htext hbehind _ ih =>
      rcases List.mem_append.mp ht with ht | ht
      · exact absurd ht (hhanded _)
      rcases List.mem_cons.mp ht with heq | ht
      · obtain rfl := Event.update.inj heq
        have hfrom := from_scan (scans_of_scan hscan) rfl htext
        rwa [Buffer.bytes_clear, List.nil_append] at hfrom
      · exact (ih ht).mono (hremoved hbehind)
  | header _ _ hbehind _ ih =>
      rcases List.mem_append.mp ht with ht | ht
      · exact absurd ht (hhanded _)
      · exact (ih ht).mono ((hremoved hbehind).trans (List.dropWhile_sublist _))

/-! ### Bytes received one by one -/

/-- What the receive interrupt does to `main`, byte by byte. -/
def pushAll (main : Buffer 2048) (bytes : List UInt8) : Buffer 2048 :=
  bytes.foldl (fun m b => .orClear (m.push b)) main

theorem orClear_push (m : Buffer 2048) (b : UInt8) :
    (Buffer.orClear (m.push b)).bytes = if m.bytes.length < 2048 then m.bytes ++ [b] else [] := by
  rw [Buffer.push]
  split
  · rfl
  · rfl

/-- Without an overflow the bytes are added; an overflow loses at least the byte at which
it happens, and everything before. -/
theorem pushAll_cases (main : Buffer 2048) (bytes : List UInt8) :
    main.bytes.length + bytes.length ≤ 2048 ∧ (pushAll main bytes).bytes = main.bytes ++ bytes ∨
      2048 < main.bytes.length + bytes.length ∧
        (pushAll main bytes).bytes.length < bytes.length := by
  induction bytes generalizing main with
  | nil =>
      have := main.size_le
      exact Or.inl ⟨by simpa using this, by simp [pushAll]⟩
  | cons b bytes ih =>
      have hpush := orClear_push main b
      have hall : pushAll main (b :: bytes) = pushAll (.orClear (main.push b)) bytes := rfl
      have hsize := main.size_le
      rw [hall, List.length_cons]
      split at hpush
      · rcases ih (.orClear (main.push b)) with ⟨hfit, heq⟩ | ⟨hover, hlt⟩
        · rw [hpush, List.length_append, List.length_singleton] at hfit
          exact Or.inl ⟨by omega, by rw [heq, hpush]; simp⟩
        · rw [hpush, List.length_append, List.length_singleton] at hover
          exact Or.inr ⟨by omega, by omega⟩
      · rename_i hfull
        refine Or.inr ⟨by omega, ?_⟩
        rcases ih (.orClear (main.push b)) with ⟨-, heq⟩ | ⟨-, hlt⟩
        · rw [heq, hpush]
          simp
        · omega

/-- `main` once the bytes of `addit` have been added to it. -/
def flushed (s : InData) : Buffer 2048 :=
  if s.addit.size ≠ 0 then .orClear (s.main.append s.addit.bytes) else s.main

theorem callbackOnReceive_eq {s : InData} (h : s.busy = false) (symbol : UInt8) :
    s.callbackOnReceive symbol =
      { s with main := .orClear (s.flushed.push symbol), addit := .clear } := by
  rw [callbackOnReceive, h, flushed]
  by_cases hempty : s.addit.size ≠ 0
  · simp only [Bool.false_eq_true, if_false, if_pos hempty]
  · have hclear : s.addit = .clear := Buffer.bytes_inj (by simpa using hempty)
    simp only [Bool.false_eq_true, if_false, if_neg hempty]
    rw [← hclear]

theorem foldl_callbackOnReceive {s : InData} (h : s.busy = false) (b : UInt8)
    (bytes : List UInt8) :
    (b :: bytes).foldl callbackOnReceive s =
      { s with main := pushAll s.flushed (b :: bytes), addit := .clear } := by
  induction bytes using List.reverseRecOn with
  | nil => exact callbackOnReceive_eq h b
  | append_singleton bytes c ih =>
      rw [← List.cons_append, List.foldl_append, ih, List.foldl_cons, List.foldl_nil,
        callbackOnReceive_eq (by exact h)]
      simp only [flushed, pushAll, List.foldl_append, List.foldl_cons, List.foldl_nil]
      rfl

/-- 2047 equal characters and CR. -/
@[irreducible] def longLine (c : UInt8) : List UInt8 := List.replicate 2047 c ++ [0x0D]

theorem longLine_eq (c : UInt8) : longLine c = c :: (List.replicate 2046 c ++ [0x0D]) := by
  rw [longLine, List.replicate_succ, List.cons_append]

theorem length_longLine (c : UInt8) : (longLine c).length = 2048 := by
  rw [longLine, List.length_append, List.length_replicate]
  rfl

/-- **The counting argument**: if the long line is answered by a call, the buffer that is
scanned holds 2047 characters of the line and one more byte, and nothing else. -/
theorem bytes_moved_of_long_answer {s t : InData} {c : UInt8} {events : List Event}
    (hc : c ≠ 0x3E) (h : s.update = some (events, t))
    (hmem : .update (List.replicate 2047 c) ∈ events) :
    ∃ x, s.moved.bytes = List.replicate 2047 c ++ [x] := by
  have hne : List.replicate 2047 c ≠ [] := by
    rw [← List.length_pos_iff_ne_nil, List.length_replicate]
    omega
  have hfrom : From (List.replicate 2047 c) s.moved.bytes := by
    rw [update_eq] at h
    split at h
    · obtain ⟨rfl, -⟩ := Prod.mk.inj (Option.some.inj h)
      exact absurd (Event.update.inj (List.mem_singleton.mp hmem)) hne
    · obtain ⟨⟨events', r⟩, hdrain, h⟩ := Option.map_eq_some_iff.mp h
      obtain ⟨rfl, -⟩ := Prod.mk.inj h
      exact from_drain (drains_of_drain hdrain) hmem hne
  rcases hfrom with hlast | ⟨x, hx⟩
  · have hmem' := List.mem_of_getLast? hlast
    exact absurd (List.eq_of_mem_replicate hmem') (Ne.symm hc)
  · refine ⟨x, (hx.eq_of_length_le ?_).symm⟩
    rw [List.length_append, List.length_replicate]
    exact s.moved.size_le

/-- What the interrupt and the next call make of the long line, `main` having room for
`addit`: it is answered behind both `A` and `B` only from empty buffers. -/
theorem empty_of_long_answers {s : InData} (hbusy : s.busy = false)
    (hfit : s.main.size + s.addit.size ≤ 2048)
    (h : ∀ c ∈ [(0x41 : UInt8), 0x42], ∃ events t,
      ((longLine c).foldl callbackOnReceive s).update = some (events, t) ∧
        .update (List.replicate 2047 c) ∈ events) :
    s.main.bytes = [] ∧ s.addit.bytes = [] ∧ s.buffer.bytes = [] := by
  have hflushed : s.flushed.bytes = s.main.bytes ++ s.addit.bytes := by
    rw [flushed]
    by_cases hempty : s.addit.size ≠ 0
    · rw [if_pos hempty, Buffer.orClear_append_of_le hfit]
    · have hnil : s.addit.bytes = [] := by simpa using hempty
      rw [if_neg hempty, hnil, List.append_nil]
  -- what is scanned is the buffer and what the interrupt left in `main`
  have hscanned : ∀ c ∈ [(0x41 : UInt8), 0x42], ∃ x,
      s.buffer.bytes ++ (pushAll s.flushed (longLine c)).bytes = List.replicate 2047 c ++ [x] := by
    intro c hc
    obtain ⟨events, t, hupdate, hmem⟩ := h c hc
    have hprompt : c ≠ 0x3E := by
      rintro rfl
      exact absurd hc (by decide)
    obtain ⟨x, hx⟩ := bytes_moved_of_long_answer hprompt hupdate hmem
    rw [longLine_eq, foldl_callbackOnReceive hbusy, ← longLine_eq] at hx
    refine ⟨x, ?_⟩
    generalize pushAll s.flushed (longLine c) = main at hx ⊢
    by_cases hroom : s.buffer.size + main.size ≤ 2048
    · rw [← hx]
      exact (bytes_moved (s := { s with main, addit := .clear }) hroom).symm
    · rw [bytes_moved_of_not_le (s := { s with main, addit := .clear }) hroom] at hx
      exact absurd hx.symm (List.append_ne_nil_of_right_ne_nil _ (List.cons_ne_nil _ _))
  obtain ⟨x, hx⟩ := hscanned 0x41 (by decide)
  obtain ⟨y, hy⟩ := hscanned 0x42 (by decide)
  have hbuffer : s.buffer.bytes = [] := by
    cases hb : s.buffer.bytes with
    | nil => rfl
    | cons b bs =>
        have hrep : ∀ c : UInt8, List.replicate 2047 c = c :: List.replicate 2046 c :=
          fun c => List.replicate_succ
        rw [hb, hrep, List.cons_append, List.cons_append] at hx hy
        obtain ⟨rfl, -⟩ := List.cons.inj hx
        exact absurd (List.cons.inj hy).1 (by decide)
  have hlen := congrArg List.length hx
  rw [hbuffer, List.nil_append, List.length_append, List.length_replicate] at hlen
  rcases pushAll_cases s.flushed (longLine 0x41) with ⟨hle, -⟩ | ⟨-, hlt⟩
  · rw [length_longLine, hflushed, List.length_append] at hle
    exact ⟨List.eq_nil_of_length_eq_zero (by omega), List.eq_nil_of_length_eq_zero (by omega),
      hbuffer⟩
  · rw [length_longLine] at hlt
    simp at hlen
    omega

/-! ### The long line after boot -/

theorem readText_replicate {c : UInt8} (hlf : c ≠ 0x0A) (hcr : c ≠ 0x0D) (hprompt : c ≠ 0x3E)
    (n : ℕ) (answer rest : List UInt8) :
    readText answer (List.replicate n c ++ rest) = readText (answer ++ List.replicate n c) rest := by
  induction n generalizing answer with
  | zero => simp
  | succ n ih =>
      rw [List.replicate_succ, List.cons_append, readText, if_neg hlf, if_neg hcr, if_neg hprompt,
        ih]
      simp

/-- The end of a line is taken, whatever stands before it. -/
theorem takesAll_cr (d : Decoder) : d.TakesAll [0x0D] := by
  refine ⟨⟨fun _ hprompt => absurd hprompt (by decide), fun _ hheader => ?_⟩, trivial⟩
  simp only [isHeader, Bool.and_eq_true, beq_iff_eq, List.getLast?_concat] at hheader
  exact absurd hheader.1.2 (by decide)

/-- The long line is plain text, and one answer. -/
theorem decode_longLine {c : UInt8} (hc : c = 0x41 ∨ c = 0x42) :
    (fresh 0).TakesAll (longLine c) ∧
      (fresh 0).decode (longLine c) = ([.update (List.replicate 2047 c)], fresh 0) := by
  have hlf : c ≠ 0x0A := by rcases hc with rfl | rfl <;> decide
  have hcr : c ≠ 0x0D := by rcases hc with rfl | rfl <;> decide
  have hprompt : c ≠ 0x3E := by rcases hc with rfl | rfl <;> decide
  have hplus : (0x2B : UInt8) ≠ c := by rcases hc with rfl | rfl <;> decide
  have hzero : c ≠ 0 := by rcases hc with rfl | rfl <;> decide
  have hread : ∀ n, readText [] (List.replicate n c) = ([], List.replicate n c) := fun n => by
    have hfold := readText_replicate hlf hcr hprompt n [] []
    rw [List.append_nil, List.nil_append] at hfold
    rw [hfold]
    rfl
  have hplain : Plain [] (List.replicate 2047 c) := by
    intro pre hpre hheader
    obtain ⟨n, rfl⟩ : ∃ n, pre = List.replicate n c :=
      ⟨pre.length, List.eq_replicate_iff.mpr
        ⟨rfl, fun b hb => List.eq_of_mem_replicate (hpre.subset hb)⟩⟩
    rw [hread, isHeader] at hheader
    simp only [Bool.and_eq_true, beq_iff_eq] at hheader
    have hmem : (0x2B : UInt8) ∈ (List.replicate n c).take 4 := by
      rw [hheader.2]
      decide
    exact hplus (List.eq_of_mem_replicate (List.mem_of_mem_take hmem))
  have htakes : (fresh 0).TakesAll (List.replicate 2047 c) :=
    takesAll_text rfl hplain fun hmem => hprompt (List.eq_of_mem_replicate hmem).symm
  obtain ⟨hevents, hanswer, hleft⟩ := decode_text (d := fresh 0) rfl hplain
  have hevents' : ((fresh 0).decode (List.replicate 2047 c)).1 = [] := by
    rw [hevents]
    exact congrArg (List.map Event.update ∘ List.map beforeZero) (congrArg Prod.fst (hread 2047))
  have hanswer' : ((fresh 0).decode (List.replicate 2047 c)).2.answer = List.replicate 2047 c :=
    hanswer.trans (congrArg Prod.snd (hread 2047))
  have hne : ((fresh 0).decode (List.replicate 2047 c)).2.answer ≠ [] := by
    rw [hanswer', ← List.length_pos_iff_ne_nil, List.length_replicate]
    omega
  have hbefore : beforeZero (List.replicate 2047 c) = List.replicate 2047 c :=
    List.takeWhile_eq_self_iff.mpr fun b hb => by
      rw [List.eq_of_mem_replicate hb]
      simpa using hzero
  refine ⟨?_, ?_⟩
  · rw [longLine, takesAll_append]
    exact ⟨htakes, takesAll_cr _⟩
  · rw [longLine, decode_append, hevents', decode_cons, step_cr hleft hne, hanswer', hbefore]
    rfl

end InData

/-! ## Two states that deliver alike -/

namespace ReceivePath

open InData

/-- Every sequence of steps delivers the same from both. -/
def Alike (s b : ReceivePath) : Prop := ∀ ops, observe s ops = observe b ops

/-- States reached by the same steps from states that deliver alike deliver alike. -/
theorem Alike.after {s b t u : ReceivePath} {ops : List Op} {os os' : List Delivery}
    (h : Alike s b) (hs : feed step s ops = some (os, t)) (hb : feed step b ops = some (os', u)) :
    Alike t u := by
  intro more
  have hcut : ∀ {x y : ReceivePath} {o : List Delivery}, feed step x ops = some (o, y) →
      observe x (ops ++ more) = (observe y more).map (o ++ ·) := fun hx => by
    rw [observe, feed_append_of_eq hx, observe, Option.map_map, Option.map_map]
    rfl
  have hsame : os = os' := by
    have hops := h ops
    rw [observe, observe, hs, hb] at hops
    exact Option.some.inj hops
  have hmore := h (ops ++ more)
  rw [hcut hs, hcut hb, hsame] at hmore
  refine Option.map_injective ?_ hmore
  exact fun l l' hl => List.append_cancel_left hl

/-- The environment of a call that leaves a working modem as it is. -/
def okEnv : Modem.Env := ⟨0, true, true⟩

/-- Bytes from the modem, and a call. -/
def hear (bytes : List UInt8) : List Op :=
  bytes.map .receive ++ [.update okEnv [] fun _ _ => 0]

/-- What the call makes of them. -/
def heard (s : ReceivePath) (bytes : List UInt8) : Option (Delivery × ReceivePath) :=
  inDataUpdate { s with inData := bytes.foldl callbackOnReceive s.inData } [] fun _ _ => 0

theorem feed_receive (s : ReceivePath) (bytes : List UInt8) :
    feed step s (bytes.map .receive) =
      some (List.replicate bytes.length nothing,
        { s with inData := bytes.foldl callbackOnReceive s.inData }) := by
  induction bytes generalizing s with
  | nil => rfl
  | cons b bytes ih =>
      rw [List.map_cons, feed_cons, step, Option.bind_some, ih]
      rfl

theorem feed_hear {s : ReceivePath} (hok : s.modem.state = .HARDWARE_IS_OK) (bytes : List UInt8) :
    feed step s (hear bytes) =
      (s.heard bytes).map fun r => (List.replicate bytes.length nothing ++ [r.1], r.2) := by
  have hstep : ∀ t : ReceivePath, t.modem.state = .HARDWARE_IS_OK →
      step t (.update okEnv [] fun _ _ => 0) = t.inDataUpdate [] fun _ _ => 0 := by
    rintro ⟨⟨state, meter⟩, inData, pbd⟩ rfl
    rfl
  rw [hear, feed_append_of_eq (feed_receive s bytes), feed_cons,
    hstep { s with inData := bytes.foldl callbackOnReceive s.inData } hok, heard]
  cases inDataUpdate { s with inData := bytes.foldl callbackOnReceive s.inData } [] fun _ _ => 0 <;>
    rfl

/-- **What one state makes of a stretch of bytes, the other does.** -/
theorem Alike.heard {s b u : ReceivePath} (h : Alike s b) (hs : s.modem.state = .HARDWARE_IS_OK)
    (hb : b.modem.state = .HARDWARE_IS_OK) {bytes : List UInt8} {d : Delivery}
    (hheard : b.heard bytes = some (d, u)) : ∃ t, s.heard bytes = some (d, t) ∧ Alike t u := by
  have hops := h (hear bytes)
  rw [observe, observe, feed_hear hs, feed_hear hb, hheard] at hops
  obtain ⟨⟨os, t⟩, hr, hos⟩ := Option.map_eq_some_iff.mp hops
  obtain ⟨⟨d', t'⟩, hd, heq⟩ := Option.map_eq_some_iff.mp hr
  obtain ⟨rfl, rfl⟩ := Prod.mk.inj heq
  obtain rfl : d' = d := by simpa using hos
  have hfeed :
      feed step s (hear bytes) = some (List.replicate bytes.length nothing ++ [d'], t') := by
    rw [feed_hear hs, hd]
    rfl
  have hfeed' :
      feed step b (hear bytes) = some (List.replicate bytes.length nothing ++ [d'], u) := by
    rw [feed_hear hb, hheard]
    rfl
  exact ⟨t', hd, h.after hfeed hfeed'⟩

theorem heard_eq_some {s t : ReceivePath} {bytes : List UInt8} {d : Delivery}
    (h : s.heard bytes = some (d, t)) :
    ∃ events inData packets pbd,
      (bytes.foldl callbackOnReceive s.inData).update = some (events, inData) ∧
      feed PBD.appendByte s.pbd (inputs (fun _ _ => 0) events) = some (packets, pbd) ∧
      d = ⟨visible events, packets⟩ ∧ t = { s with inData, pbd } :=
  inDataUpdate_eq_some h

theorem heard_of_update (s : ReceivePath) {bytes : List UInt8} {events : List Event}
    {inData : InData} {packets : List (Option ResponseMQTT.Processed)} {pbd : Buffer 1024}
    (hupdate : (bytes.foldl callbackOnReceive s.inData).update = some (events, inData))
    (hfeed : feed PBD.appendByte s.pbd (inputs (fun _ _ => 0) events) = some (packets, pbd)) :
    s.heard bytes = some (⟨visible events, packets⟩, { s with inData, pbd }) := by
  have hlocked : InData.update
      (([] : List UInt8).foldl callbackOnReceive
        { bytes.foldl callbackOnReceive s.inData with busy := true }) = some (events, inData) :=
    hupdate
  simp only [heard, inDataUpdate, hlocked, hfeed, Option.bind_eq_bind, Option.bind_some,
    Option.pure_def]

/-- The receive path after boot, with the modem as given. -/
def booted (modem : Modem) : ReceivePath := { boot with modem }

/-- A call without new bytes delivers nothing after boot, and changes nothing. -/
theorem heard_nil_booted (modem : Modem) :
    (booted modem).heard [] = some (nothing, booted modem) :=
  heard_of_update (booted modem)
    (show (([] : List UInt8).foldl callbackOnReceive (booted modem).inData).update =
      some ([.update []], InData.boot) from rfl)
    (show feed PBD.appendByte (booted modem).pbd (inputs _ [.update []]) = some ([], .clear) from rfl)

/-- After boot the long line is one answer. -/
theorem heard_longLine_booted (modem : Modem) {c : UInt8} (hc : c = 0x41 ∨ c = 0x42) :
    ∃ u, (booted modem).heard (longLine c) = some (⟨[.update (List.replicate 2047 c)], []⟩, u) := by
  obtain ⟨htakes, hdecode⟩ := decode_longLine hc
  have hmain : (pushAll .clear (longLine c)).bytes = longLine c := by
    rcases pushAll_cases .clear (longLine c) with ⟨-, heq⟩ | ⟨hover, -⟩
    · rw [heq, Buffer.bytes_clear, List.nil_append]
    · rw [length_longLine] at hover
      simp at hover
  have hreceived : (longLine c).foldl callbackOnReceive (booted modem).inData =
      { InData.boot with main := pushAll .clear (longLine c) } := by
    rw [longLine_eq]
    exact foldl_callbackOnReceive (s := InData.boot) rfl c (List.replicate 2046 c ++ [0x0D])
  generalize pushAll .clear (longLine c) = main at hmain hreceived
  have hroom : InData.boot.buffer.size + main.size ≤ 2048 := by
    have := main.size_le
    show 0 + main.bytes.length ≤ 2048
    omega
  obtain ⟨events, t, hcall, -, hevents⟩ :=
    call_decodes follows_boot rfl hroom (by rw [hmain]; exact htakes)
  rw [hmain, hdecode] at hevents
  have hne : List.replicate 2047 c ≠ [] := by
    rw [← List.length_pos_iff_ne_nil, List.length_replicate]
    omega
  have hvisible : visible events = [.update (List.replicate 2047 c)] := by
    rw [hevents, visible_update hne]
  have hhanded : handed events = [] := by
    rw [← handed_visible, hvisible]
    rfl
  have hfeed : feed PBD.appendByte (booted modem).pbd (inputs (fun _ _ => 0) events) =
      some ([], .clear) := by
    rw [inputs, hhanded]
    rfl
  have hheard := heard_of_update (booted modem) (by rw [hreceived]; exact hcall) hfeed
  rw [hvisible] at hheard
  exact ⟨_, hheard⟩

/-- **Empty buffers**, as far as the long line can tell. -/
theorem Alike.empty {s : ReceivePath} (h : Alike s (booted s.modem)) (hq : Quiescent s)
    (hok : s.modem.state = .HARDWARE_IS_OK)
    (hfit : s.inData.main.size + s.inData.addit.size ≤ 2048) :
    s.inData.main.bytes = [] ∧ s.inData.addit.bytes = [] ∧ s.inData.buffer.bytes = [] := by
  refine empty_of_long_answers hq.unlocked hfit fun c hc => ?_
  have hc' : c = 0x41 ∨ c = 0x42 := by simpa using hc
  obtain ⟨u, hboot⟩ := heard_longLine_booted s.modem hc'
  obtain ⟨t, hheard, -⟩ := h.heard hok hok hboot
  obtain ⟨events, inData, packets, pbd, hupdate, -, hd, -⟩ := heard_eq_some hheard
  have hvisible : [Event.update (List.replicate 2047 c)] = visible events :=
    congrArg Delivery.events hd
  refine ⟨events, inData, hupdate, ?_⟩
  exact List.mem_of_mem_filter (p := (· ≠ Event.update [])) (by
    rw [← visible, ← hvisible]
    exact List.mem_singleton_self _)

/-- `main` and `addit` together never overflow from a state that delivers as after boot:
a call would empty `main` and leave `addit` to be seen. -/
theorem Alike.fits {s : ReceivePath} (h : Alike s (booted s.modem)) (hq : Quiescent s)
    (hok : s.modem.state = .HARDWARE_IS_OK) :
    s.inData.main.size + s.inData.addit.size ≤ 2048 := by
  obtain ⟨t, hheard, halike⟩ := h.heard hok hok (heard_nil_booted s.modem)
  have hquiet : Quiescent t := quiescent_feed hq (show feed step s (hear []) = some ([nothing], t) by
    rw [feed_hear hok, hheard]
    rfl)
  obtain ⟨events, inData, packets, pbd, hupdate, -, -, rfl⟩ := heard_eq_some hheard
  obtain ⟨hmain, haddit, -⟩ := main_update hupdate
  have hmain' := s.inData.main.size_le
  have haddit' := s.inData.addit.size_le
  have hempty := (Alike.empty halike hquiet hok (by
    show inData.main.size + inData.addit.size ≤ 2048
    rw [hmain, haddit]
    simpa using haddit')).2.1
  have hnil : s.inData.addit.bytes = [] := haddit ▸ hempty
  rw [Buffer.size_eq, Buffer.size_eq, hnil]
  simpa using hmain'

/-- A quiescent scanner with empty buffers. -/
theorem inData_eq {s : ReceivePath} (hq : Quiescent s) (hmain : s.inData.main.bytes = [])
    (haddit : s.inData.addit.bytes = []) (hbuffer : s.inData.buffer.bytes = []) :
    s.inData = { InData.boot with binaryBytesLeft := s.inData.binaryBytesLeft } := by
  have hunlocked := hq.unlocked
  cases hin : s.inData with
  | mk main addit buffer left busy =>
      rw [hin] at hmain haddit hbuffer hunlocked
      obtain rfl : main = .clear := Buffer.bytes_inj hmain
      obtain rfl : addit = .clear := Buffer.bytes_inj haddit
      obtain rfl : buffer = .clear := Buffer.bytes_inj hbuffer
      obtain rfl : busy = false := hunlocked
      rfl

/-- **No packet bytes expected**: with empty buffers, a line `A` is text after boot. -/
theorem Alike.left {s : ReceivePath} (h : Alike s (booted s.modem))
    (hok : s.modem.state = .HARDWARE_IS_OK)
    (hin : s.inData = { InData.boot with binaryBytesLeft := s.inData.binaryBytesLeft }) :
    s.inData.binaryBytesLeft = 0 := by
  by_contra hleft
  have hcall : (([0x41, 0x0D] : List UInt8).foldl callbackOnReceive InData.boot).update =
      some ([.update [0x41], .update []], InData.boot) := by decide
  have hboot : (booted s.modem).heard [0x41, 0x0D] =
      some (⟨[.update [0x41]], []⟩, booted s.modem) :=
    heard_of_update (booted s.modem) hcall rfl
  obtain ⟨t, hheard, -⟩ := h.heard hok hok hboot
  obtain ⟨events, inData, packets, pbd, hupdate, -, hd, -⟩ := heard_eq_some hheard
  have hvisible : [Event.update [0x41]] = visible events := congrArg Delivery.events hd
  rw [hin] at hupdate
  generalize s.inData.binaryBytesLeft = left at hleft hupdate
  have hmoved : (([0x41, 0x0D] : List UInt8).foldl callbackOnReceive
      { InData.boot with binaryBytesLeft := left }).moved.bytes = [0x41, 0x0D] := rfl
  rw [update_eq, if_neg (by rw [Buffer.size_eq, hmoved]; decide)] at hupdate
  obtain ⟨⟨events', r⟩, hdrain, heq⟩ := Option.map_eq_some_iff.mp hupdate
  obtain ⟨rfl, -⟩ := Prod.mk.inj heq
  obtain ⟨es, hes⟩ := drain_of_left hleft hmoved hdrain
  rw [hes] at hvisible
  exact absurd hvisible (by simp [visible])

/-- A packet of two bytes is processed at its end only behind an empty buffer. -/
theorem bytes_of_processed {p q : Buffer 1024} (hp : PBD.Pending p) {i j : PBD.Input}
    (hi : i.byte = 0xD0) (hj : j.byte = 0x00)
    (h : feed PBD.appendByte p [i, j] = some ([none, some ⟨2, none⟩], q)) : p.bytes = [] := by
  rw [feed_cons, Option.bind_eq_some_iff] at h
  obtain ⟨⟨first, p'⟩, hfirst, h⟩ := h
  obtain ⟨⟨outputs, q'⟩, hrest, h⟩ := Option.map_eq_some_iff.mp h
  obtain ⟨rfl, rfl⟩ : first = none ∧ outputs = [some ⟨2, none⟩] := by
    simpa using congrArg Prod.fst h
  rw [feed_cons, Option.bind_eq_some_iff] at hrest
  obtain ⟨⟨second, p''⟩, hsecond, hrest⟩ := hrest
  obtain rfl : second = some ⟨2, none⟩ := by simpa using congrArg Prod.fst (Option.some.inj hrest)
  -- the first byte completed nothing, the second one a packet whose second byte is zero
  rcases hp.appendByte_cases hfirst with ⟨-, hmore, hbytes⟩ | ⟨_, _, _, _, -, -, hsome, -⟩
  · rcases hmore.appendByte_cases hsecond with ⟨hnone, -⟩ |
      ⟨type, len, rest, _, hall, hlen, hsize, -⟩
    · exact absurd hnone (by simp)
    have hzero : len.toNat = 0 := by
      have := congrArg (Option.map ResponseMQTT.Processed.size) hsize
      simpa using this.symm
    rw [hbytes, hi, hj] at hall
    cases hb : p.bytes with
    | nil => rfl
    | cons t more =>
        rw [hb] at hall
        cases more with
        | nil =>
            obtain ⟨-, rfl, -⟩ : t = type ∧ 0xD0 = len ∧ [0x00] = rest := by simpa using hall
            exact absurd hzero (by decide)
        | cons l r =>
            obtain ⟨-, rfl, rfl⟩ : t = type ∧ l = len ∧ r ++ [0xD0, 0x00] = rest := by
              simpa using hall
            rw [hzero, List.length_append] at hlen
            simp at hlen
  · exact absurd hsome (by simp)

/-- **No packet begun**: with the scanner at rest, a packet of two bytes is processed at
its end after boot. -/
theorem Alike.pbd {s : ReceivePath} (h : Alike s (booted s.modem)) (hq : Quiescent s)
    (hok : s.modem.state = .HARDWARE_IS_OK) (hin : s.inData = InData.boot) :
    s.pbd.bytes = [] := by
  have hscan : ((ascii "+IPD,2:" ++ [0xD0, 0x00]).foldl callbackOnReceive InData.boot).update =
      some ([.appendByte 0xD0, .appendByte 0x00, .update []],
        { InData.boot with buffer := ⟨[0xD0, 0x00], by decide⟩ }) := by decide
  have hprocess : feed PBD.appendByte .clear
      (inputs (fun _ _ => 0) [.appendByte 0xD0, .appendByte 0x00, .update []]) =
        some ([none, some ⟨2, none⟩], .clear) := by decide
  have hboot := heard_of_update (booted s.modem) hscan hprocess
  obtain ⟨t, hheard, -⟩ := h.heard hok hok hboot
  obtain ⟨events, inData, packets, pbd, hupdate, hfeed, hd, -⟩ := heard_eq_some hheard
  rw [hin, hscan] at hupdate
  obtain ⟨rfl, -⟩ := Prod.mk.inj (Option.some.inj hupdate)
  obtain rfl : [none, some ⟨2, none⟩] = packets := congrArg Delivery.packets hd
  exact bytes_of_processed hq.pending rfl rfl hfeed

/-- **Only a drained state delivers as after boot.** -/
theorem drained_of_alike {s : ReceivePath} (h : Alike s (booted s.modem)) (hq : Quiescent s)
    (hok : s.modem.state = .HARDWARE_IS_OK) : Drained s := by
  obtain ⟨hmain, haddit, hbuffer⟩ := h.empty hq hok (h.fits hq hok)
  have hin := inData_eq hq hmain haddit hbuffer
  have hleft := h.left hok hin
  rw [hleft] at hin
  exact ⟨hmain, haddit, hbuffer, hleft, h.pbd hq hok hin⟩

/-! ## The reset -/

/-- The steps that switch the modem on again behind the `IDLE` step. -/
def powerUpOps (now : UInt32) : List Op :=
  (Modem.powerUp now).map fun env => .update env [] fun _ _ => 0

theorem step_of_nothing (s : ReceivePath) (env : Modem.Env) (modem : Modem)
    (h : s.modem.update env = (modem, .nothing)) (during : List UInt8) (stale : ℕ → ℕ → UInt8) :
    step s (.update env during stale) = some (nothing, { s with modem }) := by
  simp only [step, h]

/-- They leave the receive path as it is. -/
theorem feed_powerUpOps (s : ReceivePath) (now : UInt32)
    (hmodem : s.modem = ⟨.WAIT_DISCHARGE_CAPS, .reset now⟩) :
    feed step s (powerUpOps now) = some (List.replicate 5 nothing,
      { s with modem := ⟨.HARDWARE_IS_OK, .reset (now + 3001 + 501 + 1251)⟩ }) := by
  obtain ⟨modem, inData, pbd⟩ := s
  obtain rfl : modem = _ := hmodem
  have hcaps := step_of_nothing ⟨⟨.WAIT_DISCHARGE_CAPS, .reset now⟩, inData, pbd⟩
    ⟨now + 3001, false, false⟩ ⟨.WAIT_HI_GSM_PG, .reset (now + 3001)⟩
    (by simp [Modem.update]) [] fun _ _ => 0
  have hpg := step_of_nothing ⟨⟨.WAIT_HI_GSM_PG, .reset (now + 3001)⟩, inData, pbd⟩
    ⟨now + 3001, true, false⟩ ⟨.WAIT_500_MS, .reset (now + 3001)⟩
    (by simp [Modem.update]) [] fun _ _ => 0
  have h500 := step_of_nothing ⟨⟨.WAIT_500_MS, .reset (now + 3001)⟩, inData, pbd⟩
    ⟨now + 3001 + 501, false, false⟩ ⟨.WAIT_1250_MS, .reset (now + 3001 + 501)⟩
    (by simp [Modem.update]) [] fun _ _ => 0
  have h1250 := step_of_nothing ⟨⟨.WAIT_1250_MS, .reset (now + 3001 + 501)⟩, inData, pbd⟩
    ⟨now + 3001 + 501 + 1251, false, false⟩ ⟨.WAIT_5000_MS, .reset (now + 3001 + 501 + 1251)⟩
    (by simp [Modem.update]) [] fun _ _ => 0
  have h5000 := step_of_nothing ⟨⟨.WAIT_5000_MS, .reset (now + 3001 + 501 + 1251)⟩, inData, pbd⟩
    ⟨now + 3001 + 501 + 1251, false, true⟩ ⟨.HARDWARE_IS_OK, .reset (now + 3001 + 501 + 1251)⟩
    (by simp [Modem.update]) [] fun _ _ => 0
  simp only [powerUpOps, Modem.powerUp, List.map_cons, List.map_nil]
  rw [feed_cons_of_eq hcaps, feed_cons_of_eq hpg, feed_cons_of_eq h500, feed_cons_of_eq h1250,
    feed_cons_of_eq h5000]
  rfl

/-- The `IDLE` step does not depend on what was before it. -/
theorem update_of_idle {modem : Modem} (hidle : modem.state = .IDLE) (env : Modem.Env) :
    (modem.update env).1 = (Modem.boot.update env).1 :=
  (Modem.update_of_idle env hidle).trans (Modem.update_of_idle env rfl).symm

theorem drained_of_restored {s : ReceivePath} (hq : Quiescent s) (hidle : s.modem.state = .IDLE)
    {env : Modem.Env} (h : Restored s env) : Drained s := by
  have hcaps : (s.idleStep env).modem = ⟨.WAIT_DISCHARGE_CAPS, .reset env.now⟩ :=
    Modem.update_of_idle env hidle
  have hlistening := Alike.after h (feed_powerUpOps _ env.now hcaps)
    (feed_powerUpOps (boot.idleStep env) env.now rfl)
  obtain ⟨hmain, haddit, hbuffer, hleft, hpbd⟩ :=
    drained_of_alike hlistening ⟨hq.unlocked, hq.pending⟩ rfl
  exact ⟨hmain, haddit, hbuffer, hleft, hpbd⟩

theorem restored_of_drained {s : ReceivePath} (hq : Quiescent s) (hidle : s.modem.state = .IDLE)
    (env : Modem.Env) (h : Drained s) : Restored s env := by
  obtain ⟨hmain, haddit, hbuffer, hleft, hpbd⟩ := h
  intro ops
  have hin : s.inData = InData.boot := (inData_eq hq hmain haddit hbuffer).trans
    (congrArg (fun left => { InData.boot with binaryBytesLeft := left }) hleft)
  have hclear : s.pbd = .clear := Buffer.bytes_inj hpbd
  have hsame : s.idleStep env = boot.idleStep env := by
    rw [idleStep, update_of_idle hidle, hin, hclear]
    rfl
  rw [hsame]

/-- **When a reset restores the receive path.**  For every reachable state in which
`Modem::Reset` has been requested, what follows the `IDLE` step is delivered as after boot
if and only if nothing is left of the earlier connection: `main`, `addit`, `buffer` and
`PBD::buffer` are empty and `binary_bytes_left` is zero. -/
theorem restored_iff (ops : List Op) (outputs : List Delivery) (s : ReceivePath)
    (hreach : feed step boot ops = some (outputs, s)) (hidle : s.modem.state = .IDLE)
    (env : Modem.Env) : Restored s env ↔ Drained s := by
  have hq := quiescent_feed quiescent_boot hreach
  exact ⟨drained_of_restored hq hidle, restored_of_drained hq hidle env⟩

/-- The modem is switched on, sends some bytes, and is reset. -/
def session (bytes : List UInt8) : List Op :=
  .update ⟨0, false, false⟩ [] (fun _ _ => 0) :: powerUpOps 0 ++ hear bytes ++ [.reset]

/-- What is left of a session that ends behind an answer: nothing. -/
def afterAnswer : ReceivePath := ⟨⟨.IDLE, .reset (0 + 3001 + 501 + 1251)⟩, .boot, .clear⟩

theorem restored_afterAnswer : Restored afterAnswer ⟨9000, false, false⟩ := by
  have hdrained : Drained afterAnswer := ⟨rfl, rfl, rfl, rfl, rfl⟩
  exact (restored_iff (session (ascii "OK\r"))
    (List.replicate 9 nothing ++ [⟨[.update (ascii "OK")], []⟩, nothing]) afterAnswer (by decide)
    rfl ⟨9000, false, false⟩).mpr hdrained

/-- **A reset inside a segment does not restore the receive path**: three of five packet
bytes are still expected. -/
theorem not_restored_session : ¬ ∀ (ops : List Op) (outputs : List Delivery) (s : ReceivePath),
    feed step boot ops = some (outputs, s) → s.modem.state = .IDLE →
    ∀ env, Restored s env := by
  intro hall
  have hrun : (feed step boot (session (ascii "+IPD,5:ab"))).map
      (fun r => (r.2.modem.state, r.2.inData.binaryBytesLeft)) = some (.IDLE, 3) := by decide
  obtain ⟨⟨outputs, s⟩, hfeed, hs⟩ := Option.map_eq_some_iff.mp hrun
  obtain ⟨hidle, hleft⟩ := Prod.mk.inj hs
  have hdrained := drained_of_restored (quiescent_feed quiescent_boot hfeed) hidle
    (hall _ outputs s hfeed hidle ⟨9000, false, false⟩)
  rw [hdrained.left] at hleft
  exact absurd hleft (by decide)

end ReceivePath

end USKD
