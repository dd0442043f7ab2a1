import AxiApb.BurstProgress
import AxiApb.Contract

/-!
# The performance benchmark

`sim_main_perf.cpp` plays burst writes and reads, one after the other, on the burst bridge with slaves that never wait,
and counts cycles and beats.  No loop of the benchmark runs out of rounds, and the counts are what the program is, modulo
`2 ^ 64`: an iteration with `n` beats each way takes `8 * n + 6` cycles (`benchmark_counts`).
-/

namespace AxiApb.Perf

open Clocked Burst

variable {idWidth : Nat}

/-! ### The model under test -/

/-- `g_time`, `g_wbeats`, `g_rbeats` and `g_txns`, each a `uint64_t`. -/
structure Counters where
  time : BitVec 64
  wbeats : BitVec 64
  rbeats : BitVec 64
  txns : BitVec 64
deriving DecidableEq

/-- The counters at these numbers. -/
def Counters.at (time wbeats rbeats txns : Nat) : Counters :=
  ⟨BitVec.ofNat 64 time, BitVec.ofNat 64 wbeats, BitVec.ofNat 64 rbeats, BitVec.ofNat 64 txns⟩

/-- `shown` is what the output pins hold since the last `eval`. -/
structure Sim (idWidth : Nat) where
  top : Burst.State (contract idWidth)
  pins : In (contract idWidth)
  shown : Out (contract idWidth)
  count : Counters

namespace Sim

def drive (s : Sim idWidth) (f : In (contract idWidth) → In (contract idWidth)) : Sim idWidth :=
  { s with pins := f s.pins }

def counted (s : Sim idWidth) (f : Counters → Counters) : Sim idWidth := { s with count := f s.count }

/-- `apb_slave` -/
def apbSlave (s : Sim idWidth) : Sim idWidth :=
  s.drive fun i =>
    { i with
      pready0 := s.shown.apb0.penable
      pready1 := s.shown.apb1.penable
      prdata0 := 0xdeadbeefcafebabe#64
      prdata1 := 0x0123456789abcdef#64
      pslverr0 := false
      pslverr1 := false }

/-- `ACLK = 1; eval()` and `ACLK = 0; eval()`: the registers load at the first, the outputs follow the pins at each. -/
def rise (s : Sim idWidth) : Sim idWidth :=
  { s with top := posedge s.top s.pins, shown := out (posedge s.top s.pins) s.pins }

def fall (s : Sim idWidth) : Sim idWidth := { s with shown := out s.top s.pins }

/-- A cycle of one of the loops; `after` is what it does to the pins between the two edges. -/
def cycle (s : Sim idWidth) (after : In (contract idWidth) → In (contract idWidth)) : Sim idWidth :=
  (s.rise.drive after).fall.counted fun c => { c with time := c.time + 1 }

def tick (s : Sim idWidth) : Sim idWidth := s.apbSlave.cycle id

end Sim

/-! ### The procedures -/

/-- `for (i = 0; i < n; i++)` until the handshake `hs`, at which `after` is done to the pins; whether it came. -/
def await (hs : In (contract idWidth) → Out (contract idWidth) → Bool)
    (after : In (contract idWidth) → In (contract idWidth)) : Nat → Sim idWidth → Bool × Sim idWidth
  | 0, s => (false, s)
  | n + 1, s =>
    if hs s.apbSlave.pins s.apbSlave.shown then (true, s.apbSlave.cycle after)
    else await hs after n (s.apbSlave.cycle id)

def awaitAw : Nat → Sim idWidth → Bool × Sim idWidth :=
  await (fun i o => i.awvalid && o.awready) fun i => { i with awvalid := false }

def awaitW : Nat → Sim idWidth → Bool × Sim idWidth :=
  await (fun i o => i.wvalid && o.wready) fun i => { i with wvalid := false }

def awaitB : Nat → Sim idWidth → Bool × Sim idWidth := await (fun i o => o.b.isSome && i.bready) id

def awaitAr : Nat → Sim idWidth → Bool × Sim idWidth :=
  await (fun i o => i.arvalid && o.arready) fun i => { i with arvalid := false }

def doAw (addr : BitVec 32) (awlen : BitVec 8) (s : Sim idWidth) : Sim idWidth :=
  (awaitAw 64 (s.drive fun i => i.withAw ⟨1, addr, awlen, 3, 1, 0⟩)).2.counted fun c => { c with txns := c.txns + 1 }

def doWBeat (data : BitVec 64) (last : Bool) (s : Sim idWidth) : Sim idWidth :=
  match awaitW 64 (s.drive fun i => i.withW ⟨data, 0xff, last⟩) with
  | (true, s) => s.counted fun c => { c with wbeats := c.wbeats + 1 }
  | (false, s) => s

def waitB (s : Sim idWidth) : Sim idWidth :=
  ((awaitB 256 (s.drive fun i => { i with bready := true })).2.drive fun i => { i with bready := false }).tick

/-- The second loop of `do_read`: `n` rounds are left, `recv` beats have come. -/
def collect (beats : Nat) : Nat → Nat → Sim idWidth → Sim idWidth
  | 0, _, s => s
  | n + 1, recv, s =>
    if recv < beats then
      match if s.apbSlave.pins.rready then s.apbSlave.shown.r else none with
      | some r =>
        let s := (s.apbSlave.cycle id).counted fun c => { c with rbeats := c.rbeats + 1 }
        if r.rlast then s else collect beats n (recv + 1) s
      | none => collect beats n recv (s.apbSlave.cycle id)
    else s

/-- The first part of `do_read`, up to the AR handshake. -/
def doAr (addr : BitVec 32) (beats : Nat) (s : Sim idWidth) : Sim idWidth :=
  (awaitAr 64 (s.drive fun i =>
    { i.withAr ⟨2, addr, BitVec.ofNat 8 (beats - 1), 3, 1, 0⟩ with rready := true })).2.counted
      fun c => { c with txns := c.txns + 1 }

def doRead (addr : BitVec 32) (beats : Nat) (s : Sim idWidth) : Sim idWidth :=
  ((collect beats (beats * 32) 0 (doAr addr beats s)).drive fun i => { i with rready := false }).tick

/-! ### The workload -/

/-- The first address of a burst, and its number of beats. -/
abbrev Burst := BitVec 32 × Nat

/-- One to 256 beats, all on one side of bit 31. -/
def Fits (w : Burst) : Prop :=
  0 < w.2 ∧ w.2 ≤ 256 ∧ (w.1 + BitVec.ofNat 32 (8 * (w.2 - 1))).getLsbD 31 = w.1.getLsbD 31

instance (w : Burst) : Decidable (Fits w) := inferInstanceAs (Decidable (_ ∧ _ ∧ _))

/-- Beat `b` of a write. -/
def wdata (b : Nat) : BitVec 64 := 0xa5a5a5a500000000#64 + BitVec.ofNat 64 b

/-- The write of an iteration: `do_aw` and the loop over `do_w_beat`. -/
def doWrite (w : Burst) (s : Sim idWidth) : Sim idWidth :=
  (List.range w.2).foldl (fun s b => doWBeat (wdata b) (b == w.2 - 1) s) (doAw w.1 (BitVec.ofNat 8 (w.2 - 1)) s)

/-- The body of the loop in `main`: a burst write and a read of the same beats. -/
def iteration (s : Sim idWidth) (w : Burst) : Sim idWidth := doRead w.1 w.2 (waitB (doWrite w s))

/-- `lens` -/
def lens : List Nat := [1, 2, 4, 8, 16, 3, 7, 12]

/-- The burst of iteration `it`. -/
def burstOf (it : Nat) : Burst :=
  ((if it % 2 = 1 then 0x80000000#32 else 0#32) + BitVec.ofNat 32 (it % 64 * 0x40), lens.getD (it % lens.length) 0)

/-- The pins of the master as `main` sets them first; the ones that are not listed hold anything. -/
def quiet (i : In (contract idWidth)) : In (contract idWidth) :=
  { i with awvalid := false, wvalid := false, bready := false, arvalid := false, rready := false }

/-- `main` up to the loop: the reset, and two cycles. -/
def boot (top : Burst.State (contract idWidth)) (pins : In (contract idWidth)) : Sim idWidth :=
  Sim.tick (Sim.tick ⟨reset top, quiet pins, out (reset top) (quiet pins), .at 8 0 0 0⟩)

/-- The loop of `main`. -/
def benchmark (iters : Nat) (s : Sim idWidth) : Sim idWidth := ((List.range iters).map burstOf).foldl iteration s

/-! ### What is counted -/

/-- The counters after so many more cycles, beats and transactions. -/
def Counters.plus (c : Counters) (time wbeats rbeats txns : Nat) : Counters :=
  ⟨c.time + BitVec.ofNat 64 time, c.wbeats + BitVec.ofNat 64 wbeats, c.rbeats + BitVec.ofNat 64 rbeats,
    c.txns + BitVec.ofNat 64 txns⟩

theorem Counters.plus_plus (c : Counters) (t w r x t' w' r' x' : Nat) :
    (c.plus t w r x).plus t' w' r' x' = c.plus (t + t') (w + w') (r + r') (x + x') := by
  simp only [plus, BitVec.ofNat_add, BitVec.add_assoc]

theorem Counters.at_plus (t w r x t' w' r' x' : Nat) :
    (Counters.at t w r x).plus t' w' r' x' = .at (t + t') (w + w') (r + r') (x + x') := by
  simp only [plus, Counters.at, BitVec.ofNat_add]

theorem Counters.plus_zero (c : Counters) : c.plus 0 0 0 0 = c := by simp [plus]

section
variable (s : Sim idWidth)

theorem cycle_count (after : In (contract idWidth) → In (contract idWidth)) :
    (s.cycle after).count = s.count.plus 1 0 0 0 := by
  simp [Sim.cycle, Sim.counted, Sim.fall, Sim.drive, Sim.rise, Counters.plus]

theorem counted_wbeat : (s.counted fun c => { c with wbeats := c.wbeats + 1 }).count = s.count.plus 0 1 0 0 := by
  simp [Sim.counted, Counters.plus]

theorem counted_rbeat : (s.counted fun c => { c with rbeats := c.rbeats + 1 }).count = s.count.plus 0 0 1 0 := by
  simp [Sim.counted, Counters.plus]

theorem counted_txn : (s.counted fun c => { c with txns := c.txns + 1 }).count = s.count.plus 0 0 0 1 := by
  simp [Sim.counted, Counters.plus]

end

/-! ### One cycle -/

section
variable {s : Sim idWidth} {ph : Phase (contract idWidth)}
  {after : In (contract idWidth) → In (contract idWidth)}

/-- The registers hold the phase `ph`, no request is offered, and none was when the outputs were evaluated. -/
structure At (s : Sim idWidth) (ph : Phase (contract idWidth)) : Prop where
  rel : Rel s.top ph
  aw : s.pins.awvalid = false
  ar : s.pins.arvalid = false
  shown : ∃ i : In (contract idWidth), i.awvalid = false ∧ i.arvalid = false ∧ s.shown = ph.out i

theorem cycle_at (hrel : Rel s.top ph) (haw : (after s.pins).awvalid = false) (har : (after s.pins).arvalid = false) :
    At (s.cycle after) (ph.step s.pins) := by
  have hnext : Rel (posedge s.top s.pins) (ph.step s.pins) := rel_posedge hrel s.pins
  exact ⟨hnext, haw, har, after s.pins, haw, har, out_rel hnext (after s.pins)⟩

/-- The pins of a master that offers no request may change. -/
theorem At.drive (h : At s ph) {f : In (contract idWidth) → In (contract idWidth)} (haw : (f s.pins).awvalid = false)
    (har : (f s.pins).arvalid = false) : At (s.drive f) ph :=
  ⟨h.rel, haw, har, h.shown⟩

theorem At.counted (h : At s ph) (f : Counters → Counters) : At (s.counted f) ph := ⟨h.rel, h.aw, h.ar, h.shown⟩

/-- A cycle of a loop that goes on. -/
theorem At.cycle (h : At s ph) : At (s.apbSlave.cycle id) (ph.step s.apbSlave.pins) := cycle_at h.rel h.aw h.ar

theorem At.awready (h : At s ph) : s.shown.awready = ph.isIdle := by
  obtain ⟨i, -, har, hs⟩ := h.shown
  rw [hs]
  simp [Phase.out, har]

theorem At.arready (h : At s ph) : s.shown.arready = ph.isIdle := by
  obtain ⟨i, haw, -, hs⟩ := h.shown
  rw [hs]
  simp [Phase.out, haw]

theorem At.wready (h : At s ph) : s.shown.wready = ph.wready := by
  obtain ⟨i, -, -, hs⟩ := h.shown
  rw [hs]
  rfl

theorem At.b (h : At s ph) : s.shown.b = ph.b := by
  obtain ⟨i, -, -, hs⟩ := h.shown
  rw [hs]
  rfl

theorem At.r (h : At s ph) : s.shown.r = ph.r := by
  obtain ⟨i, -, -, hs⟩ := h.shown
  rw [hs]
  rfl

/-- `PREADY` is up in an access phase, and no transfer fails. -/
theorem At.pready (h : At s ph) (x : Bool) : s.apbSlave.pins.pready x = (ph.apb x).penable := by
  obtain ⟨i, -, -, hs⟩ := h.shown
  cases x with
  | false =>
    show s.shown.apb0.penable = _
    rw [hs]
    rfl
  | true =>
    show s.shown.apb1.penable = _
    rw [hs]
    rfl

theorem slave_pslverr (s : Sim idWidth) (x : Bool) : s.apbSlave.pins.pslverr x = false := by
  cases x <;> rfl

end

/-- What a cycle of a loop that goes on leaves of the pins, and what it counts. -/
structure Next (s t : Sim idWidth) : Prop where
  wvalid : t.pins.wvalid = s.pins.wvalid
  wBeat : t.pins.wBeat = s.pins.wBeat
  bready : t.pins.bready = s.pins.bready
  rready : t.pins.rready = s.pins.rready
  count : t.count = s.count.plus 1 0 0 0

theorem next_cycle (s : Sim idWidth) : Next s (s.apbSlave.cycle id) := ⟨rfl, rfl, rfl, rfl, cycle_count _ _⟩

/-! ### The loops -/

section
variable {hs : In (contract idWidth) → Out (contract idWidth) → Bool}
  {after : In (contract idWidth) → In (contract idWidth)} {n : Nat} {s : Sim idWidth}

theorem await_hit (h : hs s.apbSlave.pins s.shown = true) : await hs after (n + 1) s = (true, s.apbSlave.cycle after) :=
  if_pos h

theorem await_miss (h : hs s.apbSlave.pins s.shown = false) :
    await hs after (n + 1) s = await hs after n (s.apbSlave.cycle id) := by
  have hne : ¬ hs s.apbSlave.pins s.apbSlave.shown = true := by
    show ¬ hs s.apbSlave.pins s.shown = true
    rw [h]
    decide
  exact if_neg hne

end

section
variable {s : Sim idWidth} {q : Req (contract idWidth)} {ws : List (WBeat (contract idWidth))}
  {w : WBeat (contract idWidth)} {es : List Bool}

/-- The bridge stays idle while nothing is offered. -/
theorem tick_idle (h : At s .idle) : At s.tick .idle ∧ s.tick.count = s.count.plus 1 0 0 0 := by
  have hat := h.cycle
  have haw : s.apbSlave.pins.awvalid = false := h.aw
  have har : s.apbSlave.pins.arvalid = false := h.ar
  rw [Phase.step, haw, har] at hat
  exact ⟨hat, (next_cycle s).count⟩

/-! ### The write -/

/-- `do_aw` takes one cycle. -/
theorem doAw_at (h : At s .idle) (addr : BitVec 32) (awlen : BitVec 8) :
    At (doAw addr awlen s) (.wdata ⟨1, addr, awlen, 3, 1, 0⟩ [] []) ∧
      (doAw addr awlen s).count = s.count.plus 1 0 0 1 := by
  generalize hr : (⟨1, addr, awlen, 3, 1, 0⟩ : Req (contract idWidth)) = q
  have hhit : ((s.drive fun i => i.withAw q).apbSlave.pins.awvalid && (s.drive fun i => i.withAw q).shown.awready) =
      true := by
    show (true && s.shown.awready) = true
    rw [h.awready]
    rfl
  have hstep : Phase.step (.idle : Phase (contract idWidth)) (s.drive fun i => i.withAw q).apbSlave.pins =
      .wdata q [] [] := by
    have har : (s.drive fun i => i.withAw q).apbSlave.pins.arvalid = false := h.ar
    rw [Phase.step, har]
    rfl
  have hat : At ((s.drive fun i => i.withAw q).apbSlave.cycle fun i => { i with awvalid := false }) _ :=
    cycle_at h.rel rfl h.ar
  rw [hstep] at hat
  rw [doAw, hr, awaitAw, await_hit hhit]
  refine ⟨hat.counted _, ?_⟩
  rw [counted_txn, cycle_count]
  exact s.count.plus_plus ..

/-- The two cycles of the transfer of a W beat. -/
theorem At.setup (h : At s (.wapb q ws w es false)) : At (s.apbSlave.cycle id) (.wapb q ws w es true) := h.cycle

theorem At.access (h : At s (.wapb q ws w es true)) :
    At (s.apbSlave.cycle id) (Phase.wDone q (ws ++ [w]) (es ++ [false])) := by
  have hp : s.apbSlave.pins.pready q.port = true := by
    rw [h.pready]
    simp [Phase.apb]
  have := h.cycle
  rwa [Phase.step, if_pos hp, slave_pslverr] at this

/-- A W beat that the bridge waits for is taken at once. -/
private theorem awaitW_at (n : Nat) (hq : q.Legal) (h : At s (.wdata q ws es)) (hv : s.pins.wvalid = true) :
    ∃ t, awaitW (n + 1) s = (true, t) ∧
      At t (.wapb q ws s.pins.wBeat es false) ∧ t.count = s.count.plus 1 0 0 0 := by
  have hhit : (s.apbSlave.pins.wvalid && s.shown.wready) = true := by
    rw [h.wready, show s.apbSlave.pins.wvalid = true from hv]
    rfl
  have hat : At (s.apbSlave.cycle fun i => { i with wvalid := false }) _ :=
    cycle_at h.rel h.aw h.ar
  rw [Phase.step, if_pos (show s.apbSlave.pins.wvalid = true from hv), Phase.takeW, if_pos hq] at hat
  exact ⟨_, await_hit hhit, hat, cycle_count _ _⟩

/-- `do_w_beat` for the first beat takes one cycle. -/
theorem doWBeat_first (hq : q.Legal) (h : At s (.wdata q ws es)) (data : BitVec 64) (last : Bool) :
    At (doWBeat data last s) (.wapb q ws ⟨data, 0xff, last⟩ es false) ∧
      (doWBeat data last s).count = s.count.plus 1 1 0 0 := by
  have hd : At (s.drive fun i => i.withW ⟨data, 0xff, last⟩) (.wdata q ws es) := h.drive h.aw h.ar
  obtain ⟨t, ht, hat, hcount⟩ := awaitW_at 63 hq hd rfl
  rw [doWBeat, ht]
  refine ⟨hat.counted _, ?_⟩
  show (t.counted _).count = _
  rw [counted_wbeat, hcount]
  exact s.count.plus_plus ..

/-- `do_w_beat` for a later beat takes three: two for the transfer of the beat before. -/
theorem doWBeat_later (hq : q.Legal) (h : At s (.wapb q ws w es false)) (hopen : q.wEnded (ws ++ [w]) = false)
    (data : BitVec 64) (last : Bool) :
    At (doWBeat data last s) (.wapb q (ws ++ [w]) ⟨data, 0xff, last⟩ (es ++ [false]) false) ∧
      (doWBeat data last s).count = s.count.plus 3 1 0 0 := by
  have h0 : At (s.drive fun i => i.withW ⟨data, 0xff, last⟩) (.wapb q ws w es false) := h.drive h.aw h.ar
  have hv : (s.drive fun i => i.withW ⟨data, 0xff, last⟩).pins.wvalid = true := rfl
  have hbeat : (s.drive fun i => i.withW ⟨data, 0xff, last⟩).pins.wBeat = ⟨data, 0xff, last⟩ := rfl
  have hcount : (s.drive fun i => i.withW ⟨data, 0xff, last⟩).count = s.count := rfl
  rw [doWBeat, awaitW]
  generalize (s.drive fun i => i.withW ⟨data, 0xff, last⟩) = t at h0 hv hbeat hcount
  -- the transfer of the beat before
  rw [await_miss (by rw [h0.wready]; exact Bool.and_false _)]
  have h1 := h0.setup
  have n1 := next_cycle t
  generalize t.apbSlave.cycle id = t₁ at h1 n1
  rw [await_miss (by rw [h1.wready]; exact Bool.and_false _)]
  have h2 := h1.access
  have n2 := next_cycle t₁
  generalize t₁.apbSlave.cycle id = t₂ at h2 n2
  rw [Phase.wDone, hopen, if_neg (by decide)] at h2
  obtain ⟨u, hu, hat, hcount'⟩ := awaitW_at 61 hq h2 (n2.wvalid.trans (n1.wvalid.trans hv))
  rw [n2.wBeat, n1.wBeat, hbeat] at hat
  rw [awaitW] at hu
  rw [hu]
  refine ⟨hat.counted _, ?_⟩
  show (u.counted _).count = _
  rw [counted_wbeat, hcount', n2.count, n1.count, hcount]
  simp only [Counters.plus_plus]

/-- The response is taken. -/
theorem At.answered (h : At s (.wresp q ws es true)) (hready : s.pins.bready = true) :
    At (s.apbSlave.cycle id) .idle := by
  have := h.cycle
  rwa [Phase.step, if_pos (show s.apbSlave.pins.bready = true from hready)] at this

/-- The response comes two cycles after the transfer of the last beat. -/
private theorem awaitB_at (n : Nat) (h : At s (.wapb q ws w es false)) (hend : q.wEnded (ws ++ [w]) = true)
    (hready : s.pins.bready = true) :
    ∃ t, awaitB (n + 4) s = (true, t) ∧ At t .idle ∧ t.count = s.count.plus 4 0 0 0 := by
  rw [awaitB, await_miss (by rw [h.b]; rfl)]
  have h1 := h.setup
  have n1 := next_cycle s
  generalize s.apbSlave.cycle id = t₁ at h1 n1
  rw [await_miss (by rw [h1.b]; rfl)]
  have h2 := h1.access
  have n2 := next_cycle t₁
  generalize t₁.apbSlave.cycle id = t₂ at h2 n2
  rw [Phase.wDone, hend, if_pos rfl] at h2
  rw [await_miss (by rw [h2.b]; rfl)]
  have h3 : At (t₂.apbSlave.cycle id) (.wresp q (ws ++ [w]) (es ++ [false]) true) := h2.cycle
  have n3 := next_cycle t₂
  generalize t₂.apbSlave.cycle id = t₃ at h3 n3
  have hready' : t₃.pins.bready = true := n3.bready.trans (n2.bready.trans (n1.bready.trans hready))
  have hhit : (t₃.shown.b.isSome && t₃.apbSlave.pins.bready) = true := by
    rw [h3.b]
    exact hready'
  refine ⟨_, await_hit hhit, h3.answered hready', ?_⟩
  rw [(next_cycle t₃).count, n3.count, n2.count, n1.count]
  simp only [Counters.plus_plus]

/-- `wait_b` after the last beat takes five cycles: two for the transfer, two for the response, and one more. -/
theorem waitB_at (h : At s (.wapb q ws w es false)) (hend : q.wEnded (ws ++ [w]) = true) :
    At (waitB s) .idle ∧ (waitB s).count = s.count.plus 5 0 0 0 := by
  have hd : At (s.drive fun i => { i with bready := true }) (.wapb q ws w es false) := h.drive h.aw h.ar
  obtain ⟨t, ht, hat, hcount⟩ := awaitB_at 252 hd hend rfl
  have hidle : At (t.drive fun i => { i with bready := false }) .idle := hat.drive hat.aw hat.ar
  obtain ⟨hat', hcount'⟩ := tick_idle hidle
  rw [waitB, ht]
  refine ⟨hat', ?_⟩
  rw [hcount']
  show t.count.plus 1 0 0 0 = _
  rw [hcount]
  exact s.count.plus_plus ..

/-- The beats of a write, `k + 1` of them: the last one is in transfer. -/
private theorem wbeats_at {n : Nat} (hq : q.Legal) (hn : q.beats = n) (h : At s (.wdata q [] [])) :
    ∀ k < n, ∃ ws w es, At ((List.range (k + 1)).foldl (fun s b => doWBeat (wdata b) (b == n - 1) s) s)
        (.wapb q ws w es false) ∧ ws.length = k ∧ (∀ x ∈ ws, x.wlast = false) ∧ w.wlast = (k == n - 1) ∧
      ((List.range (k + 1)).foldl (fun s b => doWBeat (wdata b) (b == n - 1) s) s).count =
        s.count.plus (3 * k + 1) (k + 1) 0 0 := by
  intro k
  induction k with
  | zero =>
    intro _
    obtain ⟨hat, hcount⟩ := doWBeat_first hq h (wdata 0) (0 == n - 1)
    exact ⟨[], _, [], hat, rfl, by simp, rfl, hcount⟩
  | succ k ih =>
    intro hk
    obtain ⟨ws, w, es, hat, hlen, hws, hw, hcount⟩ := ih (by omega)
    have hnot : w.wlast = false := by
      rw [hw, beq_eq_false_iff_ne]
      omega
    have hall : ∀ x ∈ ws ++ [w], x.wlast = false := by
      intro x hx
      rcases List.mem_append.1 hx with hx | hx
      · exact hws x hx
      · rw [List.mem_singleton.1 hx]
        exact hnot
    have hopen : q.wEnded (ws ++ [w]) = false := by
      refine Req.wEnded_eq_false.2 ⟨List.any_eq_false.2 fun x hx => by simp [hall x hx], ?_⟩
      have hb : q.beats = q.len.toNat + 1 := rfl
      rw [List.length_append, List.length_singleton]
      omega
    obtain ⟨hat', hcount'⟩ := doWBeat_later hq hat hopen (wdata (k + 1)) (k + 1 == n - 1)
    rw [List.range_succ, List.foldl_append, List.foldl_cons, List.foldl_nil]
    refine ⟨_, _, _, hat', ?_, hall, rfl, ?_⟩
    · rw [List.length_append, List.length_singleton, hlen]
    · rw [hcount', hcount, Counters.plus_plus]
      congr 1

/-! ### The read -/

private theorem collect_miss {beats n recv : Nat} (h : s.shown.r = none) (hlt : recv < beats) :
    collect beats (n + 1) recv s = collect beats n recv (s.apbSlave.cycle id) := by
  have hnone : (if s.apbSlave.pins.rready then s.apbSlave.shown.r else none) = none := by
    rw [show s.apbSlave.shown.r = none from h, ite_self]
  rw [collect, if_pos hlt, hnone]

private theorem collect_hit {beats n recv : Nat} {r : RBeat (contract idWidth)} (h : s.shown.r = some r)
    (hready : s.pins.rready = true) (hlt : recv < beats) :
    collect beats (n + 1) recv s =
      if r.rlast then (s.apbSlave.cycle id).counted fun c => { c with rbeats := c.rbeats + 1 }
      else collect beats n (recv + 1) ((s.apbSlave.cycle id).counted fun c => { c with rbeats := c.rbeats + 1 }) := by
  have hsome : (if s.apbSlave.pins.rready then s.apbSlave.shown.r else none) = some r := by
    rw [if_pos (show s.apbSlave.pins.rready = true from hready)]
    exact h
  rw [collect, if_pos hlt, hsome]

/-- The four cycles from one R beat to the next. -/
private theorem collect_fetch {beats n recv : Nat} {ds : List (ReadDone (contract idWidth))} (h : At s (.rfetch q ds))
    (hlt : recv < beats) : ∃ t d, collect beats (n + 4) recv s = collect beats n recv t ∧ At t (.rbuf q ds d true) ∧
      t.pins.rready = s.pins.rready ∧ t.count = s.count.plus 4 0 0 0 := by
  rw [collect_miss (by rw [h.r]; rfl) hlt]
  have h1 : At (s.apbSlave.cycle id) (.rapb q ds false) := h.cycle
  have n1 := next_cycle s
  generalize s.apbSlave.cycle id = t₁ at h1 n1
  rw [collect_miss (by rw [h1.r]; rfl) hlt]
  have h2 : At (t₁.apbSlave.cycle id) (.rapb q ds true) := h1.cycle
  have n2 := next_cycle t₁
  generalize t₁.apbSlave.cycle id = t₂ at h2 n2
  rw [collect_miss (by rw [h2.r]; rfl) hlt]
  have h3 := h2.cycle
  have n3 := next_cycle t₂
  rw [Phase.step, h2.pready, if_pos (by simp [Phase.apb])] at h3
  generalize t₂.apbSlave.cycle id = t₃ at h3 n3
  rw [collect_miss (by rw [h3.r]; rfl) hlt]
  have h4 : At (t₃.apbSlave.cycle id) (.rbuf q ds _ true) := h3.cycle
  have n4 := next_cycle t₃
  refine ⟨_, _, rfl, h4, n4.rready.trans (n3.rready.trans (n2.rready.trans n1.rready)), ?_⟩
  rw [n4.count, n3.count, n2.count, n1.count]
  simp only [Counters.plus_plus]

/-- The R beat is taken. -/
private theorem At.returned {ds : List (ReadDone (contract idWidth))} {d : ReadDone (contract idWidth)}
    (h : At s (.rbuf q ds d true)) (hready : s.pins.rready = true) :
    At (s.apbSlave.cycle id) (if ds.length == q.len.toNat then .idle else .rfetch q (ds ++ [d])) := by
  have := h.cycle
  rwa [Phase.step, if_pos (show s.apbSlave.pins.rready = true from hready)] at this

/-- The `k + 1` beats that are left come after five cycles each. -/
private theorem collect_at (k : Nat) : ∀ (n : Nat) {s : Sim idWidth} {ds : List (ReadDone (contract idWidth))},
    At s (.rfetch q ds) → s.pins.rready = true → ds.length + k = q.len.toNat → 5 * (k + 1) ≤ n →
      At (collect q.beats n ds.length s) .idle ∧ (collect q.beats n ds.length s).count =
        s.count.plus (5 * (k + 1)) 0 (k + 1) 0 := by
  have hb : q.beats = q.len.toNat + 1 := rfl
  induction k with
  | zero =>
    intro n s ds h hready hlen hn
    obtain ⟨n, rfl⟩ : ∃ m, n = m + 1 + 4 := ⟨n - 5, by omega⟩
    have hlt : ds.length < q.beats := by omega
    obtain ⟨t, d, hfetch, ht, htr, hcount⟩ := collect_fetch (n := n + 1) h hlt
    have hlast : (ds.length == q.len.toNat) = true := by simpa using hlen
    have hidle := ht.returned (htr.trans hready)
    rw [hlast, if_pos rfl] at hidle
    rw [hfetch, collect_hit (by rw [ht.r]; rfl) (htr.trans hready) hlt, if_pos (show (Req.rBeat q _ d).rlast = true from hlast)]
    refine ⟨hidle.counted _, ?_⟩
    rw [counted_rbeat, (next_cycle t).count, hcount]
    simp only [Counters.plus_plus]
  | succ k ih =>
    intro n s ds h hready hlen hn
    obtain ⟨n, rfl⟩ : ∃ m, n = m + 1 + 4 := ⟨n - 5, by omega⟩
    have hlt : ds.length < q.beats := by omega
    obtain ⟨t, d, hfetch, ht, htr, hcount⟩ := collect_fetch (n := n + 1) h hlt
    have hmore : (ds.length == q.len.toNat) = false := by
      rw [beq_eq_false_iff_ne]
      omega
    have hnext := ht.returned (htr.trans hready)
    rw [hmore, if_neg (by decide)] at hnext
    have hlen' : (ds ++ [d]).length = ds.length + 1 := by rw [List.length_append, List.length_singleton]
    obtain ⟨hat, hcount'⟩ := ih n (hnext.counted fun c => { c with rbeats := c.rbeats + 1 }) (htr.trans hready)
      (by omega) (by omega)
    rw [hlen'] at hat hcount'
    have hne : ¬ (Req.rBeat q ds.length d).rlast = true := by
      show ¬ (ds.length == q.len.toNat) = true
      rw [hmore]
      decide
    rw [hfetch, collect_hit (by rw [ht.r]; rfl) (htr.trans hready) hlt, if_neg hne]
    refine ⟨hat, ?_⟩
    rw [hcount', counted_rbeat, (next_cycle t).count, hcount]
    simp only [Counters.plus_plus]
    congr 1 <;> omega

end

/-! ### An iteration -/

/-- The request of `do_aw`, and of `do_read`. -/
def burstReq (id : BitVec idWidth) (w : Burst) : Req (contract idWidth) := ⟨id, w.1, BitVec.ofNat 8 (w.2 - 1), 3, 1, 0⟩

section
variable {w : Burst} {s : Sim idWidth}

private theorem burstReq_beats (h : Fits w) (id : BitVec idWidth) : (burstReq id w).beats = w.2 := by
  obtain ⟨hpos, hle, -⟩ := h
  have hlen : (BitVec.ofNat 8 (w.2 - 1)).toNat = w.2 - 1 := by
    rw [BitVec.toNat_ofNat]
    exact Nat.mod_eq_of_lt (by omega)
  show (BitVec.ofNat 8 (w.2 - 1)).toNat + 1 = w.2
  omega

private theorem burstReq_legal (h : Fits w) (id : BitVec idWidth) : (burstReq id w).Legal := by
  have hbeats : (BitVec.ofNat 8 (w.2 - 1)).toNat + 1 = w.2 := burstReq_beats h id
  refine Req.legal_iff_supported.2 ⟨rfl, Or.inr rfl, fun hcross => hcross.2 ?_⟩
  have hlast : (burstReq id w).address (burstReq id w).len.toNat = w.1 + BitVec.ofNat 32 (8 * (w.2 - 1)) := by
    show w.1 + BitVec.ofNat 32 (8 * (BitVec.ofNat 8 (w.2 - 1)).toNat) = _
    rw [show (BitVec.ofNat 8 (w.2 - 1)).toNat = w.2 - 1 by omega]
  rw [hlast]
  exact h.2.2

/-- The write takes `3 * n - 1` cycles up to the acceptance of its last beat. -/
theorem doWrite_at (h : At s .idle) (hw : Fits w) :
    ∃ ws v es, At (doWrite w s) (.wapb (burstReq 1 w) ws v es false) ∧ (burstReq 1 w).wEnded (ws ++ [v]) = true ∧
      (doWrite w s).count = s.count.plus (3 * w.2 - 1) w.2 0 1 := by
  obtain ⟨hat, hcount⟩ := doAw_at h w.1 (BitVec.ofNat 8 (w.2 - 1))
  have hpos := hw.1
  obtain ⟨ws, v, es, hat', hlen, -, hlast, hcount'⟩ :=
    wbeats_at (q := burstReq 1 w) (burstReq_legal hw 1) (burstReq_beats hw 1) hat (w.2 - 1) (by omega)
  rw [Nat.sub_add_cancel hpos] at hat' hcount'
  refine ⟨ws, v, es, hat', ?_, ?_⟩
  · rw [beq_self_eq_true] at hlast
    simp [Req.wEnded, hlast]
  · rw [doWrite, hcount', hcount, Counters.plus_plus]
    congr 1 <;> omega

/-- The AR handshake takes one cycle. -/
theorem doAr_at (h : At s .idle) (hw : Fits w) :
    At (doAr w.1 w.2 s) (.rfetch (burstReq 2 w) []) ∧ (doAr w.1 w.2 s).pins.rready = true ∧
      (doAr w.1 w.2 s).count = s.count.plus 1 0 0 1 := by
  have hlegal := burstReq_legal hw (2 : BitVec idWidth)
  have hdef : doAr w.1 w.2 s = (awaitAr 64 (s.drive fun i => { i.withAr (burstReq 2 w) with rready := true })).2.counted
      fun c => { c with txns := c.txns + 1 } := rfl
  rw [hdef]
  generalize burstReq (2 : BitVec idWidth) w = q at hlegal ⊢
  have hhit : ((s.drive fun i => { i.withAr q with rready := true }).apbSlave.pins.arvalid &&
      (s.drive fun i => { i.withAr q with rready := true }).shown.arready) = true := by
    show (true && s.shown.arready) = true
    rw [h.arready]
    rfl
  have hstep : Phase.step (.idle : Phase (contract idWidth))
      (s.drive fun i => { i.withAr q with rready := true }).apbSlave.pins = .rfetch q [] := by
    have haw : (s.drive fun i => { i.withAr q with rready := true }).apbSlave.pins.awvalid = false := h.aw
    rw [Phase.step, haw, ← if_pos (t := Phase.rfetch q []) (e := Phase.rerr q 0 false) hlegal]
    rfl
  have hat : At ((s.drive fun i => { i.withAr q with rready := true }).apbSlave.cycle
      fun i => { i with arvalid := false }) _ := cycle_at h.rel h.aw rfl
  rw [hstep] at hat
  rw [awaitAr, await_hit hhit]
  refine ⟨hat.counted _, rfl, ?_⟩
  rw [counted_txn, cycle_count]
  exact s.count.plus_plus ..

/-- `do_read` takes five cycles for each beat, and two more. -/
theorem doRead_at (h : At s .idle) (hw : Fits w) :
    At (doRead w.1 w.2 s) .idle ∧ (doRead w.1 w.2 s).count = s.count.plus (5 * w.2 + 2) 0 w.2 1 := by
  obtain ⟨hat, hready, hcount⟩ := doAr_at h hw
  have hbeats := burstReq_beats hw (2 : BitVec idWidth)
  have hlen : (burstReq (2 : BitVec idWidth) w).beats = (burstReq (2 : BitVec idWidth) w).len.toNat + 1 := rfl
  have hpos := hw.1
  obtain ⟨hat', hcount'⟩ := collect_at (w.2 - 1) (w.2 * 32) hat hready
    (by rw [List.length_nil]; omega) (by omega)
  rw [hbeats, List.length_nil] at hat' hcount'
  rw [doRead]
  have hquiet : At ((collect w.2 (w.2 * 32) 0 (doAr w.1 w.2 s)).drive fun i => { i with rready := false }) .idle :=
    hat'.drive hat'.aw hat'.ar
  obtain ⟨hidle, htick⟩ := tick_idle hquiet
  refine ⟨hidle, ?_⟩
  rw [htick]
  show (collect w.2 (w.2 * 32) 0 (doAr w.1 w.2 s)).count.plus 1 0 0 0 = _
  rw [hcount', hcount]
  simp only [Counters.plus_plus]
  congr 1 <;> omega

/-- What an iteration adds to the counters. -/
def Counters.after (c : Counters) (w : Burst) : Counters := c.plus (8 * w.2 + 6) w.2 w.2 2

theorem iteration_at (h : At s .idle) (hw : Fits w) :
    At (iteration s w) .idle ∧ (iteration s w).count = s.count.after w := by
  obtain ⟨ws, v, es, hwrite, hend, hcount⟩ := doWrite_at h hw
  obtain ⟨hresp, hcount'⟩ := waitB_at hwrite hend
  obtain ⟨hread, hcount''⟩ := doRead_at hresp hw
  have hpos := hw.1
  refine ⟨hread, ?_⟩
  rw [iteration, hcount'', hcount', hcount, Counters.after]
  simp only [Counters.plus_plus]
  congr 1 <;> omega

end

/-! ### The benchmark -/

/-- The counters after the iterations `ws`. -/
private theorem iterations_at (ws : List Burst) {s : Sim idWidth} (h : At s .idle) (hws : ∀ w ∈ ws, Fits w) :
    (ws.foldl iteration s).count =
      s.count.plus (ws.map fun w => 8 * w.2 + 6).sum (ws.map Prod.snd).sum (ws.map Prod.snd).sum (2 * ws.length) := by
  induction ws generalizing s with
  | nil => exact s.count.plus_zero.symm
  | cons w ws ih =>
    obtain ⟨hat, hcount⟩ := iteration_at h (hws w (List.mem_cons_self ..))
    rw [List.foldl_cons, ih hat fun v hv => hws v (List.mem_cons_of_mem _ hv), hcount, Counters.after, Counters.plus_plus]
    simp only [List.map_cons, List.sum_cons, List.length_cons]
    congr 1
    omega

private theorem boot_at (top : Burst.State (contract idWidth)) (pins : In (contract idWidth)) :
    At (boot top pins) .idle ∧ (boot top pins).count = .at 10 0 0 0 := by
  have hrel : Rel (reset top) .idle := rel_reset ⟨top, rfl⟩
  have h0 : At ⟨reset top, quiet pins, out (reset top) (quiet pins), .at 8 0 0 0⟩ .idle :=
    ⟨hrel, rfl, rfl, quiet pins, rfl, rfl, out_rel hrel (quiet pins)⟩
  obtain ⟨h1, hcount⟩ := tick_idle h0
  obtain ⟨h2, hcount'⟩ := tick_idle h1
  refine ⟨h2, ?_⟩
  rw [boot, hcount', hcount]
  simp only [Counters.at_plus]

/-- The workload repeats after 64 iterations, its lengths after 8. -/
private theorem burstOf_mod (it : Nat) : burstOf it = burstOf (it % 64) := by
  have h2 : it % 64 % 2 = it % 2 := Nat.mod_mod_of_dvd it (by decide)
  have h8 : it % 64 % lens.length = it % lens.length := Nat.mod_mod_of_dvd it (by decide)
  rw [burstOf, burstOf, h2, h8, Nat.mod_mod]

private theorem burstOf_fits (it : Nat) : Fits (burstOf it) := by
  have hall : ∀ r < 64, Fits (burstOf r) := by decide
  rw [burstOf_mod]
  exact hall _ (Nat.mod_lt _ (by decide))

private theorem burstOf_length (k j : Nat) : (burstOf (8 * k + j)).2 = lens.getD (j % 8) 0 := by
  have hmod : (8 * k + j) % lens.length = j % 8 := by
    show (8 * k + j) % 8 = j % 8
    omega
  rw [burstOf, hmod]

/-- A sum over the lengths of `8 * k` iterations. -/
private theorem sum_lengths (f : Nat → Nat) (k : Nat) :
    (((List.range (8 * k)).map burstOf).map fun w => f w.2).sum = k * (lens.map f).sum := by
  induction k with
  | zero => rw [Nat.zero_mul]; rfl
  | succ k ih =>
    have hlast : ((List.range 8).map fun j => f (burstOf (8 * k + j)).2) = lens.map f := by
      simp only [burstOf_length]
      rfl
    rw [Nat.mul_succ, List.range_add, List.map_append, List.map_append, List.sum_append, ih, List.map_map, List.map_map,
      Nat.succ_mul k]
    exact congrArg _ (congrArg List.sum hlast)

/-- From any contents of the registers before the reset, modulo `2 ^ 64`: every workload of bursts that fit, the one of the
benchmark for any number of iterations, and the latter for whole rounds of the eight lengths, 59 cycles an iteration. -/
theorem benchmark_counts (top : Burst.State (contract idWidth)) (pins : In (contract idWidth)) :
    (∀ ws : List Burst, (∀ w ∈ ws, Fits w) → (ws.foldl iteration (boot top pins)).count =
        .at (10 + (ws.map fun w => 8 * w.2 + 6).sum) (ws.map Prod.snd).sum (ws.map Prod.snd).sum (2 * ws.length)) ∧
      (∀ iters, (benchmark iters (boot top pins)).count =
        .at (10 + (((List.range iters).map burstOf).map fun w => 8 * w.2 + 6).sum)
          (((List.range iters).map burstOf).map Prod.snd).sum (((List.range iters).map burstOf).map Prod.snd).sum
          (2 * iters)) ∧
      ∀ k, (benchmark (8 * k) (boot top pins)).count = .at (10 + 472 * k) (53 * k) (53 * k) (16 * k) := by
  obtain ⟨hat, hcount⟩ := boot_at top pins
  have hall : ∀ ws : List Burst, (∀ w ∈ ws, Fits w) → (ws.foldl iteration (boot top pins)).count =
      .at (10 + (ws.map fun w => 8 * w.2 + 6).sum) (ws.map Prod.snd).sum (ws.map Prod.snd).sum (2 * ws.length) := by
    intro ws hws
    rw [iterations_at ws hat hws, hcount, Counters.at_plus, Nat.zero_add, Nat.zero_add]
  have hbench : ∀ iters, (benchmark iters (boot top pins)).count =
      .at (10 + (((List.range iters).map burstOf).map fun w => 8 * w.2 + 6).sum)
        (((List.range iters).map burstOf).map Prod.snd).sum (((List.range iters).map burstOf).map Prod.snd).sum
        (2 * iters) := by
    intro iters
    have hfits : ∀ w ∈ (List.range iters).map burstOf, Fits w := by
      intro w hw
      obtain ⟨it, -, rfl⟩ := List.mem_map.1 hw
      exact burstOf_fits it
    rw [benchmark, hall _ hfits, List.length_map, List.length_range]
  refine ⟨hall, hbench, fun k => ?_⟩
  have htime : (((List.range (8 * k)).map burstOf).map fun w => 8 * w.2 + 6).sum = k * 472 := sum_lengths (8 * · + 6) k
  have hbeats : (((List.range (8 * k)).map burstOf).map Prod.snd).sum = k * 53 := sum_lengths id k
  rw [hbench, htime, hbeats]
  congr 1 <;> omega

/-- The longest burst, up to the border of the two ports. -/
theorem benchmark_counts_longest :
    ([(0x7ffff800#32, 256)].foldl iteration (boot (Burst.State.zero (contract 4)) (In.zero _))).count =
      ⟨10 + 2054, 256, 256, 2⟩ :=
  (benchmark_counts (Burst.State.zero (contract 4)) (In.zero _)).1 [(0x7ffff800#32, 256)] (by decide)

end AxiApb.Perf
