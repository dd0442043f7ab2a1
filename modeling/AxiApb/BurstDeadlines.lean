import AxiApb.BurstProgress
import AxiApb.BurstProps

/-!
# The deadlines of the burst bridge

The assumptions of `apb4_burst_props` on pace and length (`Paced`), and what L1 and L3 to L5 come to under them, at any
depth (`deadlines_hold`).  `Phase.left` counts the cycles that a transaction can still take when each partner is as
slow as it may be: 13 for each beat of a read, 9 for each beat of a write and 6 for its response.
-/

namespace AxiApb.BurstProps

open Clocked Burst Formal

variable {P : Params}

/-- The assumptions on a cycle: the partners answer in time, one request at a time, of four beats at most. -/
structure Paced (k : Watch P) (c : Cycle P) : Prop where
  prompt : k.timers.Prompt
  wready : k.wreadyWait < 3
  alone : ¬ (c.1.awvalid = true ∧ c.1.arvalid = true)
  awlen : c.1.awlen ≤ 3
  arlen : c.1.arlen ≤ 3

instance (k : Watch P) (c : Cycle P) : Decidable (Paced k c) :=
  decidable_of_iff (k.timers.Prompt ∧ k.wreadyWait < 3 ∧ ¬ (c.1.awvalid = true ∧ c.1.arvalid = true) ∧ c.1.awlen ≤ 3 ∧
      c.1.arlen ≤ 3)
    ⟨fun ⟨h1, h2, h3, h4, h5⟩ => ⟨h1, h2, h3, h4, h5⟩, fun h => ⟨h.prompt, h.wready, h.alone, h.awlen, h.arlen⟩⟩

/-! ### How long a phase waits -/

/-- The cycles that the phase has waited for its partner. -/
def waited (k : Watch P) : Phase P → Nat
  | .wdata .. => k.wreadyWait.toNat
  | .wapb q _ _ _ true | .rapb q _ true => (k.timers.pWait q.port).toNat
  | .wresp _ _ _ true => k.timers.bw.toNat
  | .rbuf _ _ _ true | .rerr _ _ true => k.timers.rw.toNat
  | _ => 0

/-- The cycles that a phase lasts at most. -/
def patience : Phase P → Nat
  | .wdata .. => 3
  | .wapb _ _ _ _ true | .rapb _ _ true | .wresp _ _ _ true | .rbuf _ _ _ true | .rerr _ _ true => 5
  | _ => 1

section
variable {k : Watch P} {ph : Phase P} {i : In P}

theorem waited_lt (h : Paced k (i, ph.out i)) : waited k ph < patience ph := by
  have hw : k.wreadyWait.toNat < 3 := h.wready
  have hb : k.timers.bw.toNat < 5 := h.prompt.bw
  have hr : k.timers.rw.toNat < 5 := h.prompt.rw
  cases ph with
  | wdata => exact hw
  | wapb q _ _ _ en | rapb q _ en =>
    cases en with
    | false => exact Nat.one_pos
    | true => exact h.prompt.pWait q.port
  | wresp _ _ _ v =>
    cases v with
    | false => exact Nat.one_pos
    | true => exact hb
  | rbuf _ _ _ v | rerr _ _ v =>
    cases v with
    | false => exact Nat.one_pos
    | true => exact hr
  | idle | rfetch => exact Nat.one_pos

/-- Where the phase does not wait all counters start anew. -/
private theorem next_go (h : ph.waits i = false) : (k.next (i, ph.out i)).wreadyWait = 0 ∧
    (k.next (i, ph.out i)).timers.bw = 0 ∧ (k.next (i, ph.out i)).timers.rw = 0 ∧
    ∀ x, (k.next (i, ph.out i)).timers.pWait x = 0 := by
  rw [← waits_out, waits] at h
  simp only [Bool.or_eq_false_iff] at h
  obtain ⟨⟨⟨⟨hw, h0⟩, h1⟩, hb⟩, hr⟩ := h
  refine ⟨?_, ?_, ?_, fun x => ?_⟩
  · show count _ _ = 0
    rw [hw]
    rfl
  · show count _ _ = 0
    rw [hb]
    rfl
  · show count _ _ = 0
    rw [hr]
    rfl
  · cases x with
    | false =>
      show count (slaveWaits false (i, ph.out i)) _ = 0
      rw [h0]
      rfl
    | true =>
      show count (slaveWaits true (i, ph.out i)) _ = 0
      rw [h1]
      rfl

private theorem pWait_drive {q : Req P} {c : Ctrl P} (hp : k.timers.Prompt)
    (h : ∀ x, ph.apb x = if x = q.port then ⟨true, true, some c⟩ else .quiet) (hi : i.pready q.port = false) :
    ((k.next (i, ph.out i)).timers.pWait q.port).toNat = (k.timers.pWait q.port).toNat + 1 := by
  have hapb : (ph.out i).apb q.port = ⟨true, true, some c⟩ := by rw [apb_out, h, if_pos rfl]
  have := Timers.pWait_next (apbSetup false (i, ph.out i)) (i, ph.out i) q.port (hp.pWait q.port)
  rw [hapb, hi] at this
  exact this

/-- The counter of a phase runs while the phase waits. -/
theorem waited_step (h : Paced k (i, ph.out i)) :
    waited (k.next (i, ph.out i)) (ph.step i) = if ph.waits i then waited k ph + 1 else 0 := by
  have hp := h.prompt
  have hw : k.wreadyWait.toNat < 3 := h.wready
  have hb : k.timers.bw.toNat < 5 := hp.bw
  have hr : k.timers.rw.toNat < 5 := hp.rw
  cases hwait : ph.waits i with
  | false =>
    obtain ⟨hw0, hb0, hr0, hp0⟩ := next_go (k := k) hwait
    rw [if_neg Bool.false_ne_true]
    unfold waited
    split <;> simp [hw0, hb0, hr0, hp0]
  | true =>
    rw [step_of_waits hwait, if_pos rfl]
    cases ph with
    | idle | rfetch => cases hwait
    | wdata q ws es =>
      have hgo : (((Phase.wdata q ws es).out i).wready && !i.wvalid) = true := hwait
      show (count _ k.wreadyWait).toNat = _
      rw [hgo, count_toNat (by omega)]
      rfl
    | wapb q ws w es en =>
      cases en with
      | false => cases hwait
      | true => exact pWait_drive hp (fun _ => rfl) (by simpa [Phase.waits] using hwait)
    | rapb q ds en =>
      cases en with
      | false => cases hwait
      | true => exact pWait_drive hp (fun _ => rfl) (by simpa [Phase.waits] using hwait)
    | wresp q ws es v =>
      cases v with
      | false => cases hwait
      | true =>
        have hgo : (!i.bready) = true := hwait
        show (count (true && !i.bready) k.timers.bw).toNat = _
        rw [hgo, count_toNat (by omega)]
        rfl
    | rbuf _ _ _ v | rerr _ _ v =>
      cases v with
      | false => cases hwait
      | true =>
        have hgo : (!i.rready) = true := hwait
        show (count (true && !i.rready) k.timers.rw).toNat = _
        rw [hgo, count_toNat (by omega)]
        rfl

end

/-! ### How long a transaction takes -/

/-- The cycles to the end of the transaction, counted from where the phase begins. -/
def left : Phase P → Nat
  | .idle => 0
  | .wdata q ws _ => 9 * (q.beats - ws.length) + 6
  | .wapb q ws _ _ en => 9 * (q.beats - ws.length) + (if en then 2 else 3)
  | .wresp _ _ _ v => if v then 5 else 6
  | .rfetch q ds => 13 * (q.beats - ds.length)
  | .rapb q ds en => 13 * (q.beats - ds.length) - (if en then 2 else 1)
  | .rbuf q ds _ v => 13 * (q.beats - ds.length) - (if v then 8 else 7)
  | .rerr q n v => 6 * (q.beats - n) - (if v then 1 else 0)

/-- The cycles to the cycle in which `BVALID` is up, of a write. -/
def leftB : Phase P → Nat
  | .wdata q ws _ => 9 * (q.beats - ws.length) + 1
  | .wapb q ws _ _ en => 9 * (q.beats - ws.length) - (if en then 3 else 2)
  | .wresp _ _ _ v => if v then 0 else 1
  | _ => 0

/-- The cycles to the cycle in which `RVALID` is up, of a read whose transfer was started. -/
def leftR : Phase P → Nat
  | .rapb _ _ _ => 6
  | .rbuf _ _ _ v => if v then 0 else 1
  | _ => 0

def writing : Phase P → Bool
  | .wdata .. | .wapb .. | .wresp .. => true
  | _ => false

/-- From the access phase of a read to its R beat. -/
def returning : Phase P → Bool
  | .rapb _ _ en => en
  | .rbuf .. => true
  | _ => false

/-- The request being served has four beats at most. -/
def Short : Phase P → Prop
  | .idle => True
  | .wdata q _ _ | .wapb q _ _ _ _ | .wresp q _ _ _ | .rfetch q _ | .rapb q _ _ | .rbuf q _ _ _ | .rerr q _ _ =>
    q.beats ≤ 4

section
variable {k : Watch P} {ph : Phase P} {i : In P}

theorem short_step (h : Short ph) (hc : Paced k (i, ph.out i)) : Short (ph.step i) := by
  have haw : i.awlen.toNat ≤ 3 := hc.awlen
  have har : i.arlen.toNat ≤ 3 := hc.arlen
  cases ph with
  | idle =>
    rw [Phase.step]
    split
    · exact Nat.succ_le_succ haw
    · split
      · rw [Phase.startRead]
        split <;> exact Nat.succ_le_succ har
      · trivial
  | wdata =>
    rw [Phase.step, Phase.takeW]
    repeat' split
    all_goals exact h
  | wapb _ _ _ _ en =>
    cases en with
    | false => exact h
    | true =>
      rw [Phase.step, Phase.wDone]
      repeat' split
      all_goals exact h
  | rfetch => exact h
  | rapb _ _ en =>
    cases en with
    | false => exact h
    | true => rw [Phase.step]; split <;> exact h
  | wresp _ _ _ v | rbuf _ _ _ v | rerr _ _ v =>
    cases v with
    | false => exact h
    | true =>
      rw [Phase.step]
      repeat' split
      all_goals first | exact h | trivial

/-- The first phase of a transaction. -/
theorem left_idle (hc : Paced k (i, (Phase.idle : Phase P).out i)) : left ((Phase.idle : Phase P).step i) ≤ 52 := by
  have h : Short ((Phase.idle : Phase P).step i) := short_step trivial hc
  revert h
  rw [Phase.step, Phase.startRead]
  repeat' split
  all_goals simp only [left, Short, List.length_nil, Bool.false_eq_true, if_false]; omega

/-- A measure that falls by the patience of the phase when the phase does not wait falls by one in every cycle. -/
theorem falls {f : Phase P → Nat} (hc : Paced k (i, ph.out i))
    (hgo : ∀ j, ph.waits j = false → f (ph.step j) + patience ph ≤ f ph) :
    f (ph.step i) - waited (k.next (i, ph.out i)) (ph.step i) + 1 ≤ f ph - waited k ph := by
  have hlt := waited_lt hc
  rw [waited_step hc]
  cases hw : ph.waits i with
  | false =>
    have := hgo i hw
    rw [if_neg Bool.false_ne_true]
    omega
  | true =>
    -- a partner that is ready ends the wait, so what is left covers the whole of it
    have hready : ph.waits { In.ready P with wvalid := true } = false := by
      cases ph with
      | wapb q _ _ _ en | rapb q _ en => cases en <;> cases hq : q.port <;> simp [Phase.waits, In.ready, In.pready, hq]
      | wresp _ _ _ v | rbuf _ _ _ v | rerr _ _ v => cases v <;> rfl
      | idle | wdata | rfetch => rfl
    have := hgo _ hready
    rw [step_of_waits hw, if_pos rfl]
    omega

theorem left_step (hok : ph.Ok) (hidle : ph.isIdle = false) (j : In P) (h : ph.waits j = false) :
    left (ph.step j) + patience ph ≤ left ph := by
  cases ph with
  | idle => cases hidle
  | wdata q ws es =>
    have hv : j.wvalid = true := by simpa [Phase.waits] using h
    have hlt : ws.length < q.beats := Nat.lt_succ_of_le (Req.wEnded_eq_false.1 hok.1).2
    rw [Phase.step, hv, if_pos rfl, Phase.takeW]
    split
    · simp [left, patience]
    · split
      all_goals simp [left, patience]; omega
  | wapb q ws w es en =>
    have hlt : ws.length < q.beats := Nat.lt_succ_of_le (Req.wEnded_eq_false.1 hok.2.1).2
    cases en with
    | false => simp [Phase.step, left, patience]
    | true =>
      have hp : j.pready q.port = true := by simpa [Phase.waits] using h
      rw [Phase.step, hp, if_pos rfl, Phase.wDone]
      split
      all_goals simp [left, patience]; omega
  | wresp q ws es v =>
    cases v with
    | false => simp [Phase.step, left, patience]
    | true =>
      have hb : j.bready = true := by simpa [Phase.waits] using h
      simp [Phase.step, hb, left, patience]
  | rfetch q ds =>
    have hle : ds.length ≤ q.len.toNat := hok.2
    simp [Phase.step, left, patience, Req.beats]
    omega
  | rapb q ds en =>
    have hle : ds.length ≤ q.len.toNat := hok.2
    cases en with
    | false =>
      simp [Phase.step, left, patience, Req.beats]
      omega
    | true =>
      have hp : j.pready q.port = true := by simpa [Phase.waits] using h
      simp [Phase.step, hp, left, patience, Req.beats]
      omega
  | rbuf q ds d v =>
    have hle : ds.length ≤ q.len.toNat := hok.2
    cases v with
    | false =>
      simp [Phase.step, left, patience, Req.beats]
      omega
    | true =>
      have hr : j.rready = true := by simpa [Phase.waits] using h
      rw [Phase.step, hr, if_pos rfl]
      split
      all_goals simp [left, patience, Req.beats]; omega
  | rerr q n v =>
    have hle : n ≤ q.len.toNat := hok.2
    cases v with
    | false =>
      simp [Phase.step, left, patience, Req.beats]
      omega
    | true =>
      have hr : j.rready = true := by simpa [Phase.waits] using h
      rw [Phase.step, hr, if_pos rfl]
      split
      all_goals simp [left, patience, Req.beats]; omega

/-- Until `BVALID` is up a write stays one and comes nearer to it. -/
theorem leftB_step (hok : ph.Ok) (hw : writing ph = true) (hb : ph.b = none) (j : In P) (h : ph.waits j = false) :
    leftB (ph.step j) + patience ph ≤ leftB ph := by
  cases ph with
  | wdata q ws es =>
    have hv : j.wvalid = true := by simpa [Phase.waits] using h
    have hlt : ws.length < q.beats := Nat.lt_succ_of_le (Req.wEnded_eq_false.1 hok.1).2
    rw [Phase.step, hv, if_pos rfl, Phase.takeW]
    repeat' split
    all_goals simp [leftB, patience]; omega
  | wapb q ws w es en =>
    have hlt : ws.length < q.beats := Nat.lt_succ_of_le (Req.wEnded_eq_false.1 hok.2.1).2
    cases en with
    | false =>
      simp [Phase.step, leftB, patience]
      omega
    | true =>
      have hp : j.pready q.port = true := by simpa [Phase.waits] using h
      rw [Phase.step, hp, if_pos rfl, Phase.wDone]
      split
      all_goals simp [leftB, patience]; omega
  | wresp q ws es v =>
    cases v with
    | false => simp [Phase.step, leftB, patience]
    | true => cases hb
  | _ => cases hw

theorem writing_step (hw : writing ph = true) (hb : ph.b = none) (j : In P) : writing (ph.step j) = true := by
  cases ph with
  | wdata q ws es =>
    rw [Phase.step, Phase.takeW]
    repeat' split
    all_goals rfl
  | wapb q ws w es en =>
    cases en with
    | false => rfl
    | true =>
      rw [Phase.step, Phase.wDone]
      repeat' split
      all_goals rfl
  | wresp q ws es v =>
    cases v with
    | false => rfl
    | true => cases hb
  | _ => cases hw

theorem leftR_step (hr : returning ph = true) (hn : ph.r = none) (j : In P) (h : ph.waits j = false) :
    leftR (ph.step j) + patience ph ≤ leftR ph := by
  cases ph with
  | rapb q ds en =>
    cases en with
    | false => cases hr
    | true =>
      have hp : j.pready q.port = true := by simpa [Phase.waits] using h
      simp [Phase.step, hp, leftR, patience]
  | rbuf q ds d v =>
    cases v with
    | false => simp [Phase.step, leftR, patience]
    | true => cases hn
  | _ => cases hr

theorem returning_step (hr : returning ph = true) (hn : ph.r = none) (j : In P) : returning (ph.step j) = true := by
  cases ph with
  | rapb q ds en =>
    cases en with
    | false => cases hr
    | true => rw [Phase.step]; split <;> rfl
  | rbuf q ds d v =>
    cases v with
    | false => rfl
    | true => cases hn
  | _ => cases hr

end

/-! ### The deadlines -/

/-- The phase is the setup phase of a write, or of a read. -/
def launched (write : Bool) : Phase P → Bool
  | .wapb _ _ _ _ en => !en && write
  | .rapb _ _ en => !en && !write
  | _ => false

theorem apbSetup_out (write : Bool) (ph : Phase P) (i : In P) : apbSetup write (i, ph.out i) = launched write ph := by
  cases ph with
  | wapb q ws w es en =>
    rw [apbSetup_drive (y := q.port) (k := q.writeCtrl ws.length w) write (apb_out _ i)]
    cases en <;> cases write <;> rfl
  | rapb q ds en =>
    rw [apbSetup_drive (y := q.port) (k := q.readCtrl ds.length) write (apb_out _ i)]
    cases en <;> cases write <;> rfl
  | _ => exact apbSetup_quiet write (apb_out _ i)

/-- The invariant behind the deadlines; 52 is the length of a read of four beats. -/
structure InTime (k : Watch P) (ph : Phase P) : Prop where
  ok : ph.Ok
  short : Short ph
  aw : k.timers.awStall.toNat + (left ph - waited k ph) ≤ 52
  ar : k.timers.arStall.toNat + (left ph - waited k ph) ≤ 52
  toB : k.timers.apbWr.Within (writing ph) (leftB ph - waited k ph) 33
  toR : k.timers.apbRd.Within (returning ph) (leftR ph - waited k ph) 6

theorem inTime_zero : InTime (Watch.zero P) .idle where
  ok := trivial
  short := trivial
  aw := by simp [Watch.zero, Timers.zero, left]
  ar := by simp [Watch.zero, Timers.zero, left]
  toB := Latency.within_zero _ _ _
  toR := Latency.within_zero _ _ _

section
variable {k : Watch P} {ph : Phase P} {i : In P}

/-- A request that is offered is stalled by a transaction in progress only. -/
private theorem stall_le {n : BitVec 6} {valid ready : Bool} (h : InTime k ph) (hc : Paced k (i, ph.out i))
    (hready : ph.isIdle = true → valid = true → ready = true) (hn : n.toNat + (left ph - waited k ph) ≤ 52) :
    (count (valid && !ready) n).toNat +
      (left (ph.step i) - waited (k.next (i, ph.out i)) (ph.step i)) ≤ 52 := by
  cases hidle : ph.isIdle with
  | true =>
    cases ph with
    | idle =>
      have hgo : (valid && !ready) = false := by
        cases hv : valid with
        | false => rfl
        | true => rw [hready hidle hv]; rfl
      have := left_idle hc
      rw [hgo]
      show (0#6).toNat + _ ≤ 52
      rw [BitVec.toNat_zero]
      omega
    | _ => cases hidle
  | false =>
    have hfall := falls hc (left_step h.ok hidle)
    exact count_le (by decide) hn (fun _ => hfall) (fun _ => by omega)

theorem inTime_step (h : InTime k ph) (hc : Paced k (i, ph.out i)) : InTime (k.next (i, ph.out i)) (ph.step i) where
  ok := ok_step h.ok i
  short := short_step h.short hc
  aw := stall_le h hc (fun hidle hv => by
    have hne : i.arvalid = false := Bool.eq_false_iff.2 fun ha => hc.alone ⟨hv, ha⟩
    simp [Phase.out, hidle, hne]) h.aw
  ar := stall_le h hc (fun hidle hv => by
    have hne : i.awvalid = false := Bool.eq_false_iff.2 fun ha => hc.alone ⟨ha, hv⟩
    simp [Phase.out, hidle, hne]) h.ar
  toB := by
    refine Latency.within_next (by decide) h.toB (fun hs _ => ?_) (fun _ hb ha => ?_)
    · rw [apbSetup_out] at hs
      cases ph with
      | wapb q ws w es en =>
        cases en with
        | false =>
          have hs : q.beats ≤ 4 := h.short
          refine ⟨rfl, ?_⟩
          simp only [Phase.step, leftB, if_true]
          omega
        | true => simp [launched] at hs
      | rapb => simp [launched] at hs
      | _ => cases hs
    · have hb : ph.b = none := Option.isNone_iff_eq_none.1 (Option.isSome_eq_false_iff.1 hb)
      exact ⟨writing_step ha hb i, falls hc (leftB_step h.ok ha hb)⟩
  toR := by
    refine Latency.within_next (by decide) h.toR (fun hs _ => ?_) (fun _ hr ha => ?_)
    · rw [apbSetup_out] at hs
      cases ph with
      | rapb q ds en =>
        cases en with
        | false => exact ⟨rfl, by simp [Phase.step, leftR]⟩
        | true => cases hs
      | wapb => simp [launched] at hs
      | _ => cases hs
    · have hr : ph.r = none := Option.isNone_iff_eq_none.1 (Option.isSome_eq_false_iff.1 hr)
      exact ⟨returning_step ha hr i, falls hc (leftR_step ha hr)⟩

theorem keeps_inTime : Keeps (bridge P) (engine P) Rel InTime Paced reset (Watch.zero P) Watch.next .idle where
  sim := bridge_simulation P
  reset s := rel_reset ⟨s, rfl⟩
  zero := inTime_zero
  next _ _ _ hk ha := inTime_step hk ha

end

/-- L1 and L3 with their bound at any depth, then L4 and L5. -/
structure Deadlines (t : Timers 6) : Prop where
  aw : t.awStall.toNat ≤ 52
  ar : t.arStall.toNat ≤ 52
  toB : t.apbWr.live = true → t.apbWr.cycles.toNat ≤ 33
  toR : t.apbRd.live = true → t.apbRd.cycles.toNat ≤ 6

/-- Every run that starts in reset and meets the assumptions on pace and length keeps the deadlines. -/
theorem deadlines_hold {h : Formal.State P (Burst.State P) (Watch P)} {is : List (Bool × In P)}
    (hpast : h.pastValid = false) (hstarts : ∀ c ∈ (wrapper P).trace h is, c.2.Starts)
    (hpaced : ∀ c ∈ (wrapper P).trace h is, c.2.live = true → Paced c.2.watch c.2.now) :
    ∀ c ∈ (wrapper P).trace h is, c.2.live = true → Deadlines c.2.watch.timers := by
  intro c hc hlive
  obtain ⟨ph, hseen⟩ := seen_of_trace keeps_inTime hpast (fun d hd => ⟨hstarts d hd, hpaced d hd⟩) c hc hlive
  have h := hseen.inv
  refine ⟨?_, ?_, fun hl => ?_, fun hl => ?_⟩
  · have := h.aw
    omega
  · have := h.ar
    omega
  · have := (h.toB hl).2
    omega
  · have := (h.toR hl).2
    omega

/-- A read of four beats with partners as slow as they may be, during which a write is offered, and this write: the bounds
of `f_aw_stall`, `f_apb_wr_to_b` and `f_apb_rd_to_r` are reached. -/
theorem deadlines_hold_slow :
    let q : Req (contract 4) := ⟨5, 0x1000, 3, 0b011, 0b01, 0⟩
    let none := In.zero (contract 4)
    let b := none.withAw q
    let rbeat := List.replicate 6 b ++ [{ b with pready0 := true }] ++ List.replicate 5 b ++ [{ b with rready := true }]
    let wbeat := [none, none, none.withW ⟨7, 0xff, false⟩] ++ List.replicate 5 none ++ [{ none with pready0 := true }]
    let is := (false, none) :: ([none.withAr q] ++ rbeat ++ rbeat ++ rbeat ++ rbeat ++ [b] ++ wbeat ++ wbeat ++ wbeat ++
      wbeat ++ [none, none]).map (true, ·)
    let tr := (wrapper _).trace (powerOn _) is
    (∀ c ∈ tr, c.2.live = true → Deadlines c.2.watch.timers) ∧
      (∃ c ∈ tr, c.2.watch.timers.awStall = 52) ∧
      (∃ c ∈ tr, c.2.watch.timers.apbWr = ⟨33, true⟩) ∧ ∃ c ∈ tr, c.2.watch.timers.apbRd = ⟨6, true⟩ :=
  ⟨deadlines_hold rfl (by decide +kernel) (by decide +kernel), by decide +kernel, by decide +kernel, by decide +kernel⟩

end AxiApb.BurstProps
