import AxiApb.BurstMemory
import AxiApb.Tasks

/-!
# The procedures of the stress test

`tb_stress_burst.v` plays writes and reads on the burst bridge in front of two memories with wait states.  A procedure
of the master sets its pins after a clock edge, and looks at the outputs that the edge found.
-/

namespace AxiApb.Stress

open Clocked Burst ByteStore Tasks

/-! ### The slaves -/

/-- `PADDRx[10:3]` -/
def word (addr : Addr (contract 4)) : BitVec 8 := addr.extractLsb' 3 8

/-- `PRDATAx`, `PREADYx`, `PSLVERRx`, `apbx_wait_rem` and `memx`. -/
structure Slave where
  prdata : Data (contract 4)
  pready : Bool
  pslverr : Bool
  waitRem : Nat
  mem : BitVec 8 → Data (contract 4)

/-- `!ARESETn` -/
def Slave.reset (s : Slave) : Slave := { s with prdata := 0, pready := true, pslverr := false, waitRem := 0 }

/-- A clock edge; `wait` is `WAITx`, `p` what the bridge drives. -/
def Slave.posedge (wait : Nat) (p : Port (contract 4)) (s : Slave) : Slave :=
  if !p.psel then { s with pready := true, waitRem := 0 }
  else if !p.penable then
    { s with
      prdata := if !p.pwrite then s.mem (word p.paddr) else s.prdata
      waitRem := wait
      pready := wait == 0 }
  else if 0 < s.waitRem then { s with waitRem := s.waitRem - 1, pready := s.waitRem == 1 }
  else if p.pwrite then
    let old := s.mem (word p.paddr)
    { s with pready := true, mem := Function.update s.mem (word p.paddr) (applyStrobe old (p.pwdata, p.pstrb)) }
  else { s with pready := true }

/-! ### The bench -/

/-- The bridge and the slaves; `seen` is what the last edge found at the outputs. -/
structure Board where
  dut : State (contract 4)
  slave0 : Slave
  slave1 : Slave
  seen : Out (contract 4)
  time : Nat

namespace Board

def slave (b : Board) (x : Bool) : Slave := if x then b.slave1 else b.slave0

/-- The pins of the master, and what the slaves drive. -/
def inputs (b : Board) (pins : In (contract 4)) : In (contract 4) :=
  { pins with
    prdata0 := b.slave0.prdata
    pready0 := b.slave0.pready
    pslverr0 := b.slave0.pslverr
    prdata1 := b.slave1.prdata
    pready1 := b.slave1.pready
    pslverr1 := b.slave1.pslverr }

/-- A clock edge with `ARESETn` high. -/
def posedge (wait : Bool → Nat) (pins : In (contract 4)) (b : Board) : Board :=
  { dut := Burst.posedge b.dut (b.inputs pins)
    slave0 := b.slave0.posedge (wait false) b.dut.port0
    slave1 := b.slave1.posedge (wait true) b.dut.port1
    seen := out b.dut (b.inputs pins)
    time := b.time + 1 }

end Board

/-- `rand` is what `$random` returns from now on, `rlastWrong` the number of `RLAST wrong` messages. -/
structure Sim where
  board : Board
  pins : In (contract 4)
  rand : Stream' (BitVec 32)
  rlastWrong : Nat

namespace Sim

def posedge (s : Sim) (wait : Bool → Nat) : Sim := { s with board := s.board.posedge wait s.pins }

def drive (s : Sim) (f : In (contract 4) → In (contract 4)) : Sim := { s with pins := f s.pins }

end Sim

/-- `$random`, `$random % n`, and the latter without its sign. -/
def random : Task Sim (BitVec 32) := fun s => some (s.rand.head, { s with rand := s.rand.tail })

def randomMod (n : Int) : Task Sim Int := return (← random).toInt.tmod n

def randomBelow (n : Int) : Task Sim Int := do
  let rng ← randomMod n
  return if rng < 0 then -rng else rng

/-! ### The procedures -/

section
variable (wait : Bool → Nat) (fuel : Nat)

/-- `@(posedge ACLK)` -/
def edge : Task Sim Unit := modify (·.posedge wait)

/-- `repeat (n) @(posedge ACLK)` -/
def edges (n : Nat) : Task Sim Unit := forTo n () fun _ _ => edge wait

def drive (f : In (contract 4) → In (contract 4)) : Task Sim Unit := modify fun s => s.drive f

/-- `while (!f) @(posedge ACLK)`: the loop ends with a `VALID`, whose beat it gives, or with a `READY`. -/
def await {β : Type} (f : Out (contract 4) → Option β) : Task Sim β :=
  untilSome (fun s => f s.board.seen) (edge wait) fuel

def awaitReady (f : Out (contract 4) → Bool) : Task Sim Unit := await wait fuel fun o => if f o then some () else none

/-- The end of `do_write` and of `do_burst_write`: back-pressure, then the response. -/
def awaitB (bpCycles : Nat) : Task Sim (BitVec 2) := do
  edges wait bpCycles
  drive fun i => { i with bready := true }
  let b ← await wait fuel (·.b)
  edge wait
  drive fun i => { i with bready := false }
  return b.bresp

def doWrite (addr : Addr (contract 4)) (data : Data (contract 4)) (awid : Id (contract 4)) (strb : Strb (contract 4))
    (bpCycles : Nat) : Task Sim (BitVec 2) := do
  edge wait
  drive fun i =>
    { (i.withAw ⟨awid, addr, 0, 0b011, burstIncr, 0⟩).withW ⟨data, strb, true⟩ with bready := bpCycles == 0 }
  edge wait
  awaitReady wait fuel (·.awready)
  drive fun i => { i with awvalid := false }
  awaitReady wait fuel (·.wready)
  drive fun i => { i with wvalid := false, wlast := false }
  awaitB wait fuel bpCycles

/-- The data and the response. -/
def doRead (addr : Addr (contract 4)) (arid : Id (contract 4)) (bpCycles : Nat) :
    Task Sim (Data (contract 4) × BitVec 2) := do
  edge wait
  drive fun i => { i.withAr ⟨arid, addr, 0, 0b011, burstIncr, 0⟩ with rready := false }
  edge wait
  awaitReady wait fuel (·.arready)
  drive fun i => { i with arvalid := false }
  edges wait bpCycles
  drive fun i => { i with rready := true }
  edge wait
  let r ← await wait fuel (·.r)
  drive fun i => { i with rready := false }
  edge wait
  return (r.rdata, r.rresp)

/-- In `do_burst_read`: the stall before a beat, and the check of its `RLAST`, which prints. -/
def stall (bpCycles : Nat) : Task Sim Int := if 0 < bpCycles then randomBelow (bpCycles + 1) else pure 0

def checkRlast (rlast last : Bool) : Task Sim Unit :=
  if rlast != last then modify fun s => { s with rlastWrong := s.rlastWrong + 1 } else pure ()

/-- A round of the loop in `do_burst_read`: `acc` is `burst_rd_data` and `rresp_out`. -/
def readBeat (len bpCycles i : Nat) (acc : (Nat → Data (contract 4)) × BitVec 2) :
    Task Sim ((Nat → Data (contract 4)) × BitVec 2) := do
  let rng ← stall bpCycles
  edges wait rng.toNat
  drive fun p => { p with rready := true }
  edge wait
  let r ← await wait fuel (·.r)
  checkRlast r.rlast (i == len - 1)
  drive fun p => { p with rready := false }
  edge wait
  return (Function.update acc.1 i r.rdata, if acc.2 < r.rresp then r.rresp else acc.2)

end

/-! ### The slaves in a transfer -/

section
variable {w n : Nat} {p : Port (contract 4)} {k : Ctrl (contract 4)} {s : Slave}

theorem posedge_quiet (hp : p.view = .quiet) : s.posedge w p = { s with pready := true, waitRem := 0 } := by
  have hsel : p.psel = false := congrArg PortView.psel hp
  rw [Slave.posedge, hsel]
  rfl

/-- The registers that a port in use shows. -/
private theorem view_some {en : Bool} (hp : p.view = ⟨true, en, some k⟩) :
    p.psel = true ∧ p.penable = en ∧ p.ctrl = k := by
  have hsel : p.psel = true := congrArg PortView.psel hp
  rw [Port.view, hsel, if_pos rfl] at hp
  simp only [PortView.mk.injEq, Option.some.injEq] at hp
  exact ⟨hsel, hp.2⟩

theorem posedge_setup (hp : p.view = ⟨true, false, some k⟩) : s.posedge w p =
    { s with
      prdata := if !k.pwrite then s.mem (word k.paddr) else s.prdata
      waitRem := w
      pready := w == 0 } := by
  obtain ⟨hsel, hen, rfl⟩ := view_some hp
  rw [Slave.posedge, hsel, hen]
  rfl

theorem posedge_wait (hp : p.view = ⟨true, true, some k⟩) (hw : s.waitRem = n + 1) :
    s.posedge w p = { s with waitRem := n, pready := n == 0 } := by
  obtain ⟨hsel, hen, -⟩ := view_some hp
  rw [Slave.posedge, hsel, hen, hw]
  simp

theorem posedge_write {v : Word (contract 4)} (hp : p.view = ⟨true, true, some k⟩) (hk : k.pwrite = true)
    (hv : k.payload = some v) (hw : s.waitRem = 0) :
    s.posedge w p = { s with pready := true, mem := write applyStrobe s.mem (word k.paddr, v) } := by
  obtain ⟨hsel, hen, rfl⟩ := view_some hp
  have hwrite : p.pwrite = true := hk
  have hpay : (p.pwdata, p.pstrb) = v := by
    rw [Port.ctrl, hwrite, if_pos rfl] at hv
    exact Option.some.inj hv
  rw [Slave.posedge, hsel, hen, hw, hwrite, hpay]
  rfl

theorem posedge_read (hp : p.view = ⟨true, true, some k⟩) (hk : k.pwrite = false) (hw : s.waitRem = 0) :
    s.posedge w p = { s with pready := true } := by
  obtain ⟨hsel, hen, rfl⟩ := view_some hp
  have hwrite : p.pwrite = false := hk
  rw [Slave.posedge, hsel, hen, hw, hwrite]
  rfl

end

/-! ### One edge -/

/-- The contents of the two memories. -/
abbrev Mems := Bool → BitVec 8 → Data (contract 4)

/-- A word of memory `x` is written under strobes. -/
def store (m : Mems) (x : Bool) (k : BitVec 8) (v : Word (contract 4)) : Mems :=
  Function.update m x (write applyStrobe (m x) (k, v))

/-- The bridge is in the phase `ph`, and the memories hold `m`. -/
structure At (b : Board) (ph : Phase (contract 4)) (m : Mems) : Prop where
  rel : Rel b.dut ph
  mem : ∀ x, (b.slave x).mem = m x
  err : ∀ x, (b.slave x).pslverr = false

/-- Slave `x` lets the master wait for `n` edges. -/
def Waits (b : Board) (x : Bool) (n : Nat) : Prop := (b.slave x).waitRem = n ∧ (b.slave x).pready = (n == 0)

/-- The word of beat `n`. -/
def beatWord (q : Req (contract 4)) (n : Nat) : BitVec 8 := word (q.beatAddr n)

/-- The last of the beats `ws` is being written, `n + 1` edges before the end; then the memories hold `m`. -/
def Writes (wait : Bool → Nat) (q : Req (contract 4)) (ws : List (WBeat (contract 4))) (m : Mems) (n : Nat) (b : Board) :
    Prop :=
  ∃ vs w es m₀, ws = vs ++ [w] ∧ true ∉ es ∧ m = store m₀ q.port (beatWord q vs.length) (w.wdata, w.wstrb) ∧
    ((n = wait q.port + 1 ∧ At b (.wapb q vs w es false) m₀) ∨
      (At b (.wapb q vs w es true) m₀ ∧ Waits b q.port n))

/-- The read of the beat after `ds` is over after `n + 1` edges. -/
def Reads (wait : Bool → Nat) (q : Req (contract 4)) (ds : List (ReadDone (contract 4))) (m : Mems) (n : Nat) (b : Board) :
    Prop :=
  (n = wait q.port + 1 ∧ At b (.rapb q ds false) m) ∨
    (At b (.rapb q ds true) m ∧ Waits b q.port n ∧
      (b.slave q.port).prdata = m q.port (beatWord q ds.length))

section
variable {wait : Bool → Nat} {b : Board} {i : In (contract 4)} {ph : Phase (contract 4)} {m : Mems} {q : Req (contract 4)}
  {ws : List (WBeat (contract 4))} {w : WBeat (contract 4)} {es : List Bool} {ds : List (ReadDone (contract 4))} {n : Nat}

theorem slave_posedge (b : Board) (x : Bool) :
    (b.posedge wait i).slave x = (b.slave x).posedge (wait x) (b.dut.port x) := by cases x <;> rfl

theorem At.seen (h : At b ph m) : (b.posedge wait i).seen = ph.out (b.inputs i) := out_rel h.rel (b.inputs i)

/-- An edge at which no memory is written. -/
private theorem At.step (h : At b ph m) (hmem : ∀ x, ((b.slave x).posedge (wait x) (b.dut.port x)).mem = (b.slave x).mem)
    (herr : ∀ x, ((b.slave x).posedge (wait x) (b.dut.port x)).pslverr = (b.slave x).pslverr) :
    At (b.posedge wait i) (ph.step (b.inputs i)) m :=
  ⟨rel_posedge h.rel (b.inputs i), fun x => by rw [slave_posedge, hmem, h.mem],
    fun x => by rw [slave_posedge, herr, h.err]⟩

/-- An edge at which no port is in use. -/
theorem At.quiet (h : At b ph m) (hq : ∀ x, ph.apb x = .quiet) : At (b.posedge wait i) (ph.step (b.inputs i)) m := by
  have hp : ∀ x, (b.slave x).posedge (wait x) (b.dut.port x) = { b.slave x with pready := true, waitRem := 0 } :=
    fun x => posedge_quiet ((h.rel.apb x).trans (hq x))
  exact h.step (fun x => by rw [hp]) fun x => by rw [hp]

/-- The ports while the transfer `k` is on port `y`. -/
private def On (ph : Phase (contract 4)) (y en : Bool) (k : Ctrl (contract 4)) : Prop :=
  ∀ x, ph.apb x = if x = y then ⟨true, en, some k⟩ else .quiet

section
variable {y en : Bool} {k : Ctrl (contract 4)} (wait) (i)

private theorem On.view (hon : On ph y en k) (h : At b ph m) : (b.dut.port y).view = ⟨true, en, some k⟩ := by
  rw [h.rel.apb, hon, if_pos rfl]

private theorem On.other (hon : On ph y en k) (h : At b ph m) {x : Bool} (hx : x ≠ y) :
    (b.slave x).posedge (wait x) (b.dut.port x) = { b.slave x with pready := true, waitRem := 0 } :=
  posedge_quiet (by rw [h.rel.apb, hon, if_neg hx])

/-- An edge of a transfer that writes no memory: `r` is what the slave in use becomes. -/
private theorem On.step {r : Slave} (hon : On ph y en k) (h : At b ph m)
    (hr : (b.slave y).posedge (wait y) (b.dut.port y) = r) (hmem : r.mem = (b.slave y).mem)
    (herr : r.pslverr = (b.slave y).pslverr) : At (b.posedge wait i) (ph.step (b.inputs i)) m := by
  refine h.step (fun x => ?_) fun x => ?_
  · by_cases hx : x = y
    · subst hx
      rw [hr, hmem]
    · rw [hon.other wait h hx]
  · by_cases hx : x = y
    · subst hx
      rw [hr, herr]
    · rw [hon.other wait h hx]

private theorem On.setup (hon : On ph y false k) (h : At b ph m) :
    At (b.posedge wait i) (ph.step (b.inputs i)) m ∧ Waits (b.posedge wait i) y (wait y) ∧
      (k.pwrite = false → ((b.posedge wait i).slave y).prdata = m y (word k.paddr)) := by
  have hr := posedge_setup (w := wait y) (s := b.slave y) (hon.view h)
  refine ⟨hon.step wait i h hr rfl rfl, ?_, fun hk => ?_⟩
  · rw [Waits, slave_posedge, hr]
    exact ⟨rfl, rfl⟩
  · rw [slave_posedge, hr, ← h.mem]
    simp [hk]

private theorem On.waiting (hon : On ph y true k) (h : At b ph m) (hw : Waits b y (n + 1)) :
    At (b.posedge wait i) (ph.step (b.inputs i)) m ∧ Waits (b.posedge wait i) y n ∧
      ((b.posedge wait i).slave y).prdata = (b.slave y).prdata := by
  have hr := posedge_wait (w := wait y) (s := b.slave y) (hon.view h) hw.1
  refine ⟨hon.step wait i h hr rfl rfl, ?_, ?_⟩
  · rw [Waits, slave_posedge, hr]
    exact ⟨rfl, rfl⟩
  · rw [slave_posedge, hr]

private theorem On.read (hon : On ph y true k) (h : At b ph m) (hk : k.pwrite = false) (hw : Waits b y 0) :
    At (b.posedge wait i) (ph.step (b.inputs i)) m :=
  hon.step wait i h (posedge_read (hon.view h) hk hw.1) rfl rfl

private theorem On.write {v : Word (contract 4)} (hon : On ph y true k) (h : At b ph m) (hk : k.pwrite = true)
    (hv : k.payload = some v) (hw : Waits b y 0) :
    At (b.posedge wait i) (ph.step (b.inputs i)) (store m y (word k.paddr) v) := by
  have hr := posedge_write (w := wait y) (s := b.slave y) (hon.view h) hk hv hw.1
  refine ⟨rel_posedge h.rel (b.inputs i), fun x => ?_, fun x => ?_⟩
  · rw [slave_posedge]
    by_cases hx : x = y
    · subst hx
      rw [hr, store, Function.update_self, h.mem]
    · rw [hon.other wait h hx, store, Function.update_of_ne hx]
      exact h.mem x
  · rw [slave_posedge]
    by_cases hx : x = y
    · subst hx
      rw [hr]
      exact h.err x
    · rw [hon.other wait h hx]
      exact h.err x

end

/-! ### Transfers -/

/-- `BVALID` is up after `n` edges. -/
def Answers (wait : Bool → Nat) (q : Req (contract 4)) (ws : List (WBeat (contract 4))) (m : Mems) : Nat → Board → Prop
  | 0, b => ∃ es, true ∉ es ∧ At b (.wresp q ws es true) m
  | 1, b => ∃ es, true ∉ es ∧ At b (.wresp q ws es false) m
  | n + 2, b => q.wEnded ws = true ∧ Writes wait q ws m n b

end

end AxiApb.Stress
